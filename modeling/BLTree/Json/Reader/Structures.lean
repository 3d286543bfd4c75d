import BLTree.Json.Reader.Skipping

/-!
# Reading lists, objects and variants

A list or an object may be entered only while the budget of brackets lasts. A mismatch inside it
that has no place yet is reported where the reader stands once it has tried to close the bracket.
-/

namespace BLTree.Json.Reader

variable {α σ : Type}

/-- What stands here, as far as a message about a wrong type tells it. -/
def found : Reader Found := do
  match ← peek with
  | some 'n' =>
    word "null".toList
    return .null
  | some 't' =>
    word "true".toList
    return .boolean true
  | some 'f' =>
    word "false".toList
    return .boolean false
  | some '-' =>
    advance
    return .number (← number true)
  | some '"' =>
    advance
    return .string (← string)
  | some '[' => return .list
  | some '\x7b' => return .object
  | some c =>
    if c.isDigit then return .number (← number false)
    else failNext (.breach .expectedValue)
  | none => failNext (.breach .expectedValue)

def wrongType (expected : String) : Reader α := do
  failHere (.mismatch (.wrongType (← found) expected))

def stringValue : Reader String := do
  if (← demand) = '"' then
    advance
    string
  else wrongType "a string"

def nullValue : Reader Unit := do
  if (← demand) = 'n' then word "null".toList else wrongType "unit"

def integerValue : Reader Int64 := do
  let c ← demand
  if c = '-' ∨ c.isDigit then
    if c = '-' then advance
    match ← number (c == '-') with
    | .natural n =>
      if n < greatestNegated then return Int64.ofNat n
      else failHere (.mismatch (.wrongValue (.natural n) "i64"))
    | .negated n => return Int64.ofInt (-n)
    | .floating bits => failHere (.mismatch (.wrongType (.number (.floating bits)) "i64"))
  else wrongType "i64"

/-- Where the reader stands after it has tried to close a bracket. -/
def settledBy (close : Reader Unit) (failure : Failure) : Failure :=
  match failure.reach with
  | some _ => failure
  | none =>
    match close failure.rest with
    | .ok (_, rest) => ⟨failure.cause, rest, some 0⟩
    | .error stopped => ⟨failure.cause, stopped.rest, some 0⟩

/-- Reads what stands between the bracket that is next and its end; `inner` is given the budget that
is left inside. -/
def enclosed (close : Reader Unit) (inner : Nat → Reader α) : Nat → Reader α
  | 0 => failNext (.breach .tooDeep)
  | budget + 1 => do
    advance
    let a ← fun rest ↦ (inner budget rest).mapError (settledBy close)
    close
    return a

def closeList : Reader Unit := do
  match ← upcoming with
  | some ']' => advance
  | some ',' =>
    advance
    failNext (.breach (if (← upcoming) = some ']' then .trailingComma else .trailingCharacters))
  | some _ => failNext (.breach .trailingCharacters)
  | none => failNext (.unfinished .list)

def closeObject : Reader Unit := do
  match ← upcoming with
  | some '\x7d' => advance
  | some ',' => failNext (.breach .trailingComma)
  | some _ => failNext (.breach .trailingCharacters)
  | none => failNext (.unfinished .object)

/-- Whether another item follows; the comma before it is read. -/
def anotherItem (first : Bool) : Reader Bool := do
  match ← upcoming with
  | none => failNext (.unfinished .list)
  | some c =>
    if c = ']' then return false
    else if first then return true
    else if c = ',' then
      advance
      match ← upcoming with
      | some ']' => failNext (.breach .trailingComma)
      | some _ => return true
      | none => failNext (.unfinished .value)
    else failNext (.breach .expectedCommaOrBracket)

/-- The key of another member, if one follows; the comma before it is read. -/
def anotherKey (first : Bool) : Reader (Option String) := do
  match ← upcoming with
  | none => failNext (.unfinished .object)
  | some c =>
    if c = '\x7d' then return none
    else if first then key c
    else if c = ',' then
      advance
      match ← upcoming with
      | some '\x7d' => failNext (.breach .trailingComma)
      | some d => key d
      | none => failNext (.unfinished .value)
    else failNext (.breach .expectedCommaOrBrace)
where
  key (c : Char) : Reader (Option String) := do
    if c = '"' then
      advance
      return some (← string)
    else failNext (.breach .keyNotString)

/-- The items of a list, after its opening bracket. -/
def items (item : Reader α) : Reader (List α) :=
  repeatFrom [] fun done ↦ do
    if ← anotherItem done.isEmpty then return .inl ((← item) :: done)
    else return .inr done.reverse

/-- The members of an object, after its opening brace. `member` reads those that it knows, from the
colon on, into a draft of the result. -/
def members (start : σ) (member : String → σ → Option (Reader σ)) : Reader σ :=
  repeatFrom (true, start) fun (first, draft) ↦ do
    match ← anotherKey first with
    | none => return .inr draft
    | some key =>
      match member key draft with
      | some read => return .inl (false, ← read)
      | none =>
        colon
        skipValue
        return .inl (false, draft)

/-- A member that may come once: a second one is refused before its value is read. -/
def once (key : String) (earlier : Option α) (read : Reader α) : Reader α := do
  if earlier.isSome then mismatch (.fieldTwice key)
  colon
  read

def required (key : String) (value : Option α) : Reader α :=
  match value with
  | some a => pure a
  | none => mismatch (.fieldMissing key)

/-- A record: an object with named members, or a list of their values in order. -/
def record (title : String) (named positional : Nat → Reader α) (budget : Nat) : Reader α := do
  match ← demand with
  | '\x7b' => enclosed closeObject named budget
  | '[' => enclosed closeList positional budget
  | _ => wrongType ("struct " ++ title)

/-- The value at a position of a record that is written as a list. -/
def place (title : String) (count position : Nat) (read : Reader α) : Reader α := do
  if ← anotherItem (position == 0) then read
  else mismatch (.wrongLength position title count)

/-- What a variant carries: nothing, or a value for which the budget is given. -/
inductive Payload (α : Type) where
  | nothing (value : α)
  | carried (read : Nat → Reader α)

/-- The payload of a variant that is written as an object; null stands for nothing. -/
def Payload.value : Payload α → Nat → Reader α
  | nothing value, _ => do
    nullValue
    return value
  | carried read, budget => read budget

def chosen (choices : List (String × Payload α)) (name : String) : Reader (Payload α) :=
  match choices.lookup name with
  | some payload => pure payload
  | none => failHere (.mismatch (.unknownVariant name (choices.map (·.1))))

/-- A variant as an object with one member, from its opening brace on. -/
def taggedVariant (choices : List (String × Payload α)) : Nat → Reader α
  | 0 => failNext (.breach .tooDeep)
  | budget + 1 => do
    advance
    match ← upcoming with
    | some '"' =>
      advance
      let payload ← chosen choices (← string)
      colon
      let value ← payload.value budget
      match ← upcoming with
      | some '\x7d' =>
        advance
        return value
      | some _ => failHere (.breach .expectedValue)
      | none => failHere (.unfinished .object)
    | some '\x7d' => failNext (.breach .expectedValue)
    | some _ => failNext (.breach .keyNotString)
    | none => failNext (.unfinished .object)

/-- One of several variants: its name alone if it carries nothing, or an object with one member. -/
def variant (choices : List (String × Payload α)) (budget : Nat) : Reader α := do
  match ← upcoming with
  | some '\x7b' => taggedVariant choices budget
  | some '"' =>
    advance
    match ← chosen choices (← string) with
    | .nothing value => return value
    | .carried _ => mismatch .payloadMissing
  | some _ => failNext (.breach .expectedValue)
  | none => failNext (.unfinished .value)

end BLTree.Json.Reader
