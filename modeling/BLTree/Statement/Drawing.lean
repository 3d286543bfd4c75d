import BLTree.Paint
import BLTree.Statement.Basic

/-!
# Drawings

A statement is drawn with one line for each node, in pre-order: two blanks for each level above the
node, its kind, and its payload if it has one.
-/

namespace BLTree

def Kind.colour : Kind → Colour
  | block => .blue
  | ifThen | ifElse => .yellow
  | whileDo => .magenta
  | call => .green

namespace Statement

/-- What follows the kind on the line of a label. -/
def payloadChars (label : Label) : List Char :=
  (label.condition?.elim [] fun c ↦ ' ' :: c.spelling.toList) ++
    (label.identifier?.elim [] fun name ↦ ' ' :: name.text.toList)

def drawLabel (depth : Nat) (label : Label) : List Span :=
  [.plain (List.replicate (2 * depth) ' '),
    .painted label.kind.colour label.kind.spelling.toList,
    .plain (payloadChars label ++ ['\n'])]

mutual

def drawTree (depth : Nat) : Tree Label → List Span
  | .empty => []
  | .node label children => drawLabel depth label ++ drawTrees (depth + 1) children

def drawTrees (depth : Nat) : List (Tree Label) → List Span
  | [] => []
  | t :: ts => drawTree depth t ++ drawTrees depth ts

end

def drawing (coloured : Bool) (s : Statement) : List Char :=
  Span.render coloured (drawTree 0 s.tree)

def draw (coloured : Bool) (s : Statement) : String := String.ofList (s.drawing coloured)

end Statement

end BLTree
