import BLTree.Json.Failure

/-!
# Readers

A reader takes a value from the front of a text. Three ways to fail differ in where the failure is
reported: here, just past the next byte, or at no place yet.
-/

namespace BLTree.Json

abbrev Reader (α : Type) := StateT (List Char) (Except Failure) α

namespace Reader

variable {α σ : Type}

/-- Fails where the reader stands. -/
def failHere (cause : Cause) : Reader α := fun rest ↦ .error ⟨cause, rest, some 0⟩

/-- Fails just past the next byte, or at the end of the text. -/
def failNext (cause : Cause) : Reader α := fun rest ↦ .error ⟨cause, rest, some 1⟩

/-- Fails at a place that the enclosing list or object will give. -/
def mismatch (m : Mismatch) : Reader α := fun rest ↦ .error ⟨.mismatch m, rest, none⟩

/-- A value that was checked, or the fault that the check found. -/
def vetted (outcome : Except Fault α) : Reader α :=
  match outcome with
  | .ok a => pure a
  | .error fault => mismatch (.rejected fault)

def isBlank (c : Char) : Bool := c == ' ' || c == '\n' || c == '\t' || c == '\r'

def peek : Reader (Option Char) := return (← get).head?

def advance : Reader Unit := modify List.tail

/-- The next character that is not a blank; the blanks before it are read. -/
def upcoming : Reader (Option Char) := do
  modify (List.dropWhile isBlank)
  peek

/-- The next character that is not a blank, where a value has to start. -/
def demand : Reader Char := do
  match ← upcoming with
  | some c => return c
  | none => failNext (.unfinished .value)

/-- Reads exactly the given characters. -/
def word : List Char → Reader Unit
  | [] => pure ()
  | c :: others => do
    match ← peek with
    | none => failHere (.unfinished .value)
    | some d =>
      if d = c then
        advance
        word others
      else failNext (.breach .expectedWord)

/-- Repeats `step` for at most `rounds` rounds, until it gives a result. -/
def repeatFor (step : σ → Reader (σ ⊕ α)) : Nat → σ → Reader α
  | 0, _ => failHere (.unfinished .value)
  | rounds + 1, a => do
    match ← step a with
    | .inl next => repeatFor step rounds next
    | .inr result => return result

/-- Repeats `step` until it gives a result. A round after the first that does not end takes a
character at least, so the length of the text bounds their number. -/
def repeatFrom (start : σ) (step : σ → Reader (σ ⊕ α)) : Reader α := do
  repeatFor step ((← get).length + 2) start

end Reader

end BLTree.Json
