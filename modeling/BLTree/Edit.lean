import BLTree.Label

/-!
# Edits

An edit changes a value in place and gives a result, or stops at a violated precondition. The value
that a stopped edit leaves behind is part of the outcome, so whether a failed edit keeps its
receiver is a statement about the edit and not about the monad.
-/

namespace BLTree

/-- What stops an edit. Most violations are preconditions that do not hold. The last three are of
another sort: a match that the checks before it were to rule out, and an insertion and a removal at
a position that a list does not have. -/
inductive Violation where
  | treeOccupied
  | treeVacant
  | noSuchSubtree
  | receiverNotBlock
  | insertionPastEnd
  | removalPastEnd
  | memberIsBlock
  | bodyNotBlock
  | thenNotBlock
  | elseNotBlock
  | receiverNotIf
  | receiverNotIfElse
  | receiverNotWhile
  | receiverNotCall
  | contextRefused
  | programBodyNotBlock
  | unreachable (assumed : String)
  | insertionIndex (index length : Nat)
  | removalIndex (index length : Nat)
  deriving DecidableEq

/-- The text for a precondition that does not hold, as the contract of the operation words it. -/
def violationOf (precondition : String) : String := "Violation of: " ++ precondition

def Violation.message : Violation → String
  | treeOccupied => violationOf "this is an empty tree"
  | treeVacant => violationOf "this is not an empty tree"
  | noSuchSubtree => violationOf "pos < [number of subtrees]"
  | receiverNotBlock => violationOf "[this is a BLOCK statement]"
  | insertionPastEnd => violationOf "pos <= [length of this BLOCK]"
  | removalPastEnd => violationOf "pos < [length of this BLOCK]"
  | memberIsBlock => violationOf "[s is not a BLOCK statement]"
  | bodyNotBlock => violationOf "[s is a BLOCK statement]"
  | thenNotBlock => violationOf "[s1 is a BLOCK statement]"
  | elseNotBlock => violationOf "[s2 is a BLOCK statement]"
  | receiverNotIf => violationOf "[this is an IF statement]"
  | receiverNotIfElse => violationOf "[this is an IF_ELSE statement]"
  | receiverNotWhile => violationOf "[this is a WHILE statement]"
  | receiverNotCall => violationOf "[this is a CALL statement]"
  | contextRefused => violationOf <|
    "[names in c are not primitive instructions] and [bodies in c are BLOCK statements]"
  | programBodyNotBlock => violationOf "[b is a BLOCK statement]"
  | unreachable assumed => "internal error: entered unreachable code: " ++ assumed
  | insertionIndex index length =>
    "insertion index (is " ++ toString index ++ ") should be <= len (is " ++ toString length ++ ")"
  | removalIndex index length =>
    "removal index (is " ++ toString index ++ ") should be < len (is " ++ toString length ++ ")"

/-- An edit of a `σ` with a result in `α`. -/
abbrev Edit (σ α : Type) := EStateM Violation σ α

namespace Edit

variable {σ τ α : Type}

/-- Stops with `v` unless `holds`. -/
def require (holds : Bool) (v : Violation) : Edit σ Unit :=
  if holds then pure () else throw v

/-- A reading that may fail, as an edit that changes nothing. -/
def check (reading : Except Violation α) : Edit σ α :=
  match reading with
  | .ok a => pure a
  | .error v => throw v

/-- Edits the part of a value that `view` reads and `put` writes back. -/
def within (view : σ → τ) (put : τ → σ → σ) (edit : Edit τ α) : Edit σ α := fun s ↦
  match edit (view s) with
  | .ok a t => .ok a (put t s)
  | .error v t => .error v (put t s)

/-- What an edit makes of `start`, its result dropped. -/
def build (start : σ) (edit : Edit σ Unit) : Except Violation σ :=
  match edit start with
  | .ok _ s => .ok s
  | .error v _ => .error v

end Edit

end BLTree
