import BLTree.Statement.Basic

/-!
# Well-shaped trees

`firstFlaw?` looks for a place where a tree of labels is no statement: an empty subtree, a wrong
number of children, a block inside a block, or a body that is no block. It gives the address of the
first such place in pre-order; the demands that a node makes on a child come before the child's own.
-/

namespace BLTree.Statement

inductive Flaw.Problem where
  | vacant
  | arity (kind : Kind) (wanted found : Nat)
  | blockInBlock
  | bodyNotBlock (parent found : Kind)
  deriving DecidableEq

/-- What is wrong, and the child positions that lead to it from the root. -/
structure Flaw where
  address : List Nat
  problem : Flaw.Problem
  deriving DecidableEq

namespace Flaw

def Problem.message : Problem → String
  | vacant => "empty tree"
  | arity kind wanted found =>
    kind.spelling ++ " takes " ++ toString wanted ++ " children, found " ++ toString found
  | blockInBlock => "a BLOCK may not directly contain a BLOCK"
  | bodyNotBlock parent found =>
    "body of " ++ parent.spelling ++ " must be a BLOCK, found " ++ found.spelling

/-- The address as a path from `root`. -/
def path (address : List Nat) : String :=
  address.foldl (fun done position ↦ done ++ "/" ++ toString position) "root"

def message (flaw : Flaw) : String := path flaw.address ++ ": " ++ flaw.problem.message

/-- The flaw as seen from the parent of the tree in which it was found. -/
def below (position : Nat) (flaw : Flaw) : Flaw := { flaw with address := position :: flaw.address }

end Flaw

/-- What a node of kind `parent` has against a child of kind `child`. -/
def misplaced? (parent child : Kind) : Option Flaw.Problem :=
  match parent with
  | .block => if child = .block then some .blockInBlock else none
  | .ifThen | .ifElse | .whileDo =>
    if child = .block then none else some (.bodyNotBlock parent child)
  | .call => none

/-- Whether `count` children are the wrong number for a node of kind `kind`. -/
def miscounted? (kind : Kind) (count : Nat) : Option Flaw.Problem :=
  match kind.arity? with
  | none => none
  | some wanted => if count = wanted then none else some (.arity kind wanted count)

mutual

def firstFlaw? : Tree Label → Option Flaw
  | .empty => some ⟨[], .vacant⟩
  | .node label children =>
    match miscounted? label.kind children.length with
    | some problem => some ⟨[], problem⟩
    | none => firstFlawAmong? label.kind 0 children

/-- The first flaw in the children of a `parent`, the first of which has the given position. -/
def firstFlawAmong? (parent : Kind) (position : Nat) : List (Tree Label) → Option Flaw
  | [] => none
  | child :: others =>
    match child.label?.bind fun label ↦ misplaced? parent label.kind with
    | some problem => some ⟨[position], problem⟩
    | none =>
      match firstFlaw? child with
      | some flaw => some (flaw.below position)
      | none => firstFlawAmong? parent (position + 1) others

end

/-- A tree without a flaw, as a statement. -/
def ofTree (t : Tree Label) : Except Flaw Statement :=
  match firstFlaw? t with
  | some flaw => .error flaw
  | none => .ok ⟨t⟩

end BLTree.Statement
