import BLTree.Json.Document
import BLTree.Program.Basic

/-!
# Documents of trees, statements and programs

A node is an object with its label and its children, the empty tree is null. A label without payload
is a string, any other an object with one member. A program always has its context, in the order of
the names.
-/

namespace BLTree

open Json

namespace Identifier

def document (name : Identifier) : Document := .string name.text

end Identifier

namespace Condition

def document (c : Condition) : Document := .string c.spelling

end Condition

namespace Kind

def document (k : Kind) : Document := .string k.spelling

end Kind

namespace Label

def document (label : Label) : Document :=
  match label with
  | block => .string label.kind.spelling
  | ifThen guard | ifElse guard | whileDo guard =>
    .object [(label.kind.spelling, guard.document)]
  | call name => .object [(label.kind.spelling, name.document)]

end Label

namespace Tree

variable {L : Type}

mutual

def document (label : L → Document) : Tree L → Document
  | empty => .null
  | node l children =>
    .object [("label", label l), ("children", .array (documents label children))]

def documents (label : L → Document) : List (Tree L) → List Document
  | [] => []
  | t :: ts => document label t :: documents label ts

end

end Tree

namespace Statement

def document (s : Statement) : Document := s.tree.document Label.document

end Statement

namespace Context

def document (c : Context) : Document :=
  .object (c.entries.map fun (name, body) ↦ (name.text, body.document))

end Context

namespace Program

def document (p : Program) : Document :=
  .object [("name", p.name.document), ("context", p.context.document), ("body", p.body.document)]

end Program

end BLTree
