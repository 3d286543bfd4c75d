import BLTree.Json.Document
import BLTree.Proofs.Programs

/-!
# Which documents spell programs

What a document has to look like for it to be a condition, a label, a tree, a context or a program,
without regard to how it is read. A record is an object with its members, which may stand in any
order and among others that are ignored, or a list of their values. The number that comes with a
spelling says how deeply its brackets nest; brackets in ignored members do not count.
-/

namespace BLTree

open Json

namespace Json

/-- The values that stand under a key, in order. -/
def valuesAt (key : String) (members : List (String × Document)) : List Document :=
  (members.filter fun member ↦ member.1 == key).map (·.2)

/-- Two lists correspond entry by entry, and the number is the greatest of those of the entries. -/
inductive Each {α β : Type} (R : α → β → Nat → Prop) : List α → List β → Nat → Prop
  | nil : Each R [] [] 0
  | cons {a : α} {b : β} {as : List α} {bs : List β} {m n : Nat} (head : R a b m)
      (tail : Each R as bs n) : Each R (a :: as) (b :: bs) (max m n)

/-- A bound for all entries at once is a bound for each of them. -/
theorem exists_le_each_iff {α β : Type} {R : α → β → Nat → Prop} {as : List α} {bs : List β}
    {bound : Nat} :
    (∃ n ≤ bound, Each R as bs n) ↔ List.Forall₂ (fun a b ↦ ∃ n ≤ bound, R a b n) as bs := by
  constructor
  · rintro ⟨n, hn, h⟩
    induction h with
    | nil => exact .nil
    | cons head tail ih =>
      exact .cons ⟨_, by omega, head⟩ (ih (by omega))
  · intro h
    induction h with
    | nil => exact ⟨0, Nat.zero_le bound, .nil⟩
    | cons head _ ih =>
      obtain ⟨m, hm, head⟩ := head
      obtain ⟨n, hn, tail⟩ := ih
      exact ⟨max m n, by omega, .cons head tail⟩

end Json

/-- A condition is its name, or an object with null under its name. -/
inductive Condition.Spelled : Document → Condition → Nat → Prop
  | name (c : Condition) : Spelled (.string c.spelling) c 0
  | tagged (c : Condition) : Spelled (.object [(c.spelling, .null)]) c 1

/-- What stands under the name of a construct: null, its guard or the name that is called. -/
inductive Label.Carried : Kind → Document → Label → Nat → Prop
  | block : Carried .block .null .block 0
  | ifThen {d : Document} {guard : Condition} {n : Nat} (h : guard.Spelled d n) :
    Carried .ifThen d (.ifThen guard) n
  | ifElse {d : Document} {guard : Condition} {n : Nat} (h : guard.Spelled d n) :
    Carried .ifElse d (.ifElse guard) n
  | whileDo {d : Document} {guard : Condition} {n : Nat} (h : guard.Spelled d n) :
    Carried .whileDo d (.whileDo guard) n
  | call (name : Identifier) : Carried .call (.string name.text) (.call name) 0

/-- A label is an object with what it carries under the name of its construct; a block, which
carries nothing, may be its name alone. -/
inductive Label.Spelled : Document → Label → Nat → Prop
  | block : Spelled (.string Kind.block.spelling) .block 0
  | tagged {k : Kind} {d : Document} {label : Label} {n : Nat} (h : Carried k d label n) :
    Spelled (.object [(k.spelling, d)]) label (n + 1)

/-- The documents of the label and of the children of a node. -/
inductive Tree.Fields : Document → Document → Document → Prop
  | named {members : List (String × Document)} {label children : Document}
      (labelOnce : valuesAt "label" members = [label])
      (childrenOnce : valuesAt "children" members = [children]) :
    Fields (.object members) label children
  | positional (label children : Document) : Fields (.array [label, children]) label children

inductive Tree.Spelled : Document → Tree Label → Nat → Prop
  | empty : Spelled .null .empty 0
  | node {d label : Document} {items : List Document} {l : Label} {children : List (Tree Label)}
      {m n : Nat} (fields : Fields d label (.array items)) (spellsLabel : l.Spelled label m)
      (spellsChildren : Each Spelled items children n) :
    Spelled d (.node l children) (max m (n + 1) + 1)

structure Statement.Spelled (d : Document) (s : Statement) (n : Nat) : Prop where
  tree : Tree.Spelled d s.tree n
  shape : WellShaped s.tree

/-- A member of a context and the procedure that it defines. -/
structure Context.SpelledEntry (member : String × Document) (entry : Identifier × Statement)
    (n : Nat) : Prop where
  name : member.1 = entry.1.text
  body : entry.2.Spelled member.2 n

/-- A context is an object with a member for each procedure, in any order. -/
inductive Context.Spelled : Document → Context → Nat → Prop
  | object {members : List (String × Document)} {entries : List (Identifier × Statement)}
      {c : Context} {n : Nat} (distinct : (members.map (·.1)).Nodup)
      (procedures : Each SpelledEntry members entries n) (order : entries.Perm c.entries) :
    Spelled (.object members) c (n + 1)

/-- A context that is not given is empty. -/
inductive Context.SpelledIfGiven : Option Document → Context → Nat → Prop
  | missing : SpelledIfGiven none .empty 0
  | given {d : Document} {c : Context} {n : Nat} (h : c.Spelled d n) : SpelledIfGiven (some d) c n

/-- The documents of the name, of the context if it is given, and of the body of a program. -/
inductive Program.Fields : Document → Document → Option Document → Document → Prop
  | named {members : List (String × Document)} {name body : Document} {context : Option Document}
      (nameOnce : valuesAt "name" members = [name])
      (contextAtMostOnce : valuesAt "context" members = context.toList)
      (bodyOnce : valuesAt "body" members = [body]) :
    Fields (.object members) name context body
  | positional (name context body : Document) :
    Fields (.array [name, context, body]) name (some context) body

inductive Program.Spelled : Document → Program → Nat → Prop
  | parts {d name body : Document} {context : Option Document} {p : Program} {m n : Nat}
      (fields : Fields d name context body) (spellsName : name = .string p.name.text)
      (spellsContext : p.context.SpelledIfGiven context m) (spellsBody : p.body.Spelled body n)
      (notPrimitive : ∀ entry ∈ p.context.entries, entry.1.isPrimitive = false)
      (proceduresBlocks : ∀ entry ∈ p.context.entries, Statement.IsBlock entry.2.tree)
      (bodyBlock : Statement.IsBlock p.body.tree) :
    Spelled d p (max m n + 1)

end BLTree
