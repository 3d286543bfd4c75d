/-!
# Positions in a text

Lines are counted from one, columns in bytes. `Position.ofOffset` is the position after a number of
bytes; `Position.offset` goes back to the byte that a message points at, which is the last one
before the position unless the position starts a line.
-/

namespace BLTree

structure Position where
  line : Nat
  column : Nat
  deriving DecidableEq

namespace Position

def newline : UInt8 := 10

def ofOffset (bytes : List UInt8) (offset : Nat) : Position :=
  let before := bytes.take offset
  ⟨1 + before.count newline, (before.reverse.takeWhile (· != newline)).length⟩

/-- The lines of a text, each with the newline that ends it. -/
def lines : List UInt8 → List (List UInt8)
  | [] => []
  | byte :: others =>
    if byte = newline then [byte] :: lines others
    else
      match lines others with
      | [] => [[byte]]
      | line :: following => (byte :: line) :: following

def offset (bytes : List UInt8) (position : Position) : Nat :=
  let above := ((lines bytes).take (position.line - 1)).flatten
  min (above.length + (position.column - 1)) bytes.length

end Position

end BLTree
