import BLTree.Statement.Shape
import Mathlib.Data.List.Basic

/-!
# The shape of statements

What `Statement.firstFlaw?` looks for, said as a property of trees. A node fits its label when it
has the number of children that its kind asks for, when the bodies of a guarded construct are blocks
and when no member of a block is one; a tree is well shaped when every node at every depth fits. The
check finds no flaw exactly in the well-shaped trees, and a statement passes it unchanged.
-/

namespace BLTree

namespace Tree

variable {L : Type}

/-- Induction with the hypothesis at every child of a node. -/
@[elab_as_elim, induction_eliminator]
theorem induct {motive : Tree L → Prop} (empty : motive .empty)
    (node : ∀ label children, (∀ child ∈ children, motive child) → motive (.node label children)) :
    ∀ t : Tree L, motive t
  | .empty => empty
  | .node label children => node label children fun child _ ↦ induct empty node child

end Tree

namespace Statement

/-- Whether a tree is a block at its root. -/
def IsBlock (t : Tree Label) : Prop := t.label? = some .block

instance (t : Tree Label) : Decidable (IsBlock t) := inferInstanceAs (Decidable (_ = _))

/-- Whether a construct has a guard and therefore bodies. -/
def IsGuarded (kind : Kind) : Prop := kind = .ifThen ∨ kind = .ifElse ∨ kind = .whileDo

/-- What a node of a statement keeps to, given its label and its children. -/
structure Fits (label : Label) (children : List (Tree Label)) : Prop where
  arity : ∀ count, label.kind.arity? = some count → children.length = count
  bodies : IsGuarded label.kind → ∀ child ∈ children, IsBlock child
  members : label.kind = .block → ∀ child ∈ children, ¬ IsBlock child

/-- A tree without an empty subtree in which every node fits its label. -/
inductive WellShaped : Tree Label → Prop
  | node {label : Label} {children : List (Tree Label)} (fits : Fits label children)
      (below : ∀ child ∈ children, WellShaped child) : WellShaped (.node label children)

theorem wellShaped_node {label : Label} {children : List (Tree Label)} :
    WellShaped (.node label children) ↔
      Fits label children ∧ ∀ child ∈ children, WellShaped child := by
  constructor
  · intro h
    cases h with
    | node fits below => exact ⟨fits, below⟩
  · intro h
    exact .node h.1 h.2

theorem not_wellShaped_empty : ¬ WellShaped .empty := nofun

/-- A well-shaped tree is not empty. -/
theorem WellShaped.exists_node {t : Tree Label} (h : WellShaped t) :
    ∃ label children, t = .node label children := by
  cases h
  exact ⟨_, _, rfl⟩

theorem isBlock_node {label : Label} {children : List (Tree Label)} :
    IsBlock (.node label children) ↔ label.kind = .block := by
  cases label <;> simp [IsBlock, Tree.label?, Label.kind]

theorem eq_block_of_kind {label : Label} (h : label.kind = .block) : label = .block := by
  cases label with
  | block => rfl
  | ifThen _ | ifElse _ | whileDo _ | call _ => cases h

/-- A block takes any number of children. -/
theorem miscounted?_eq_none_iff {kind : Kind} {count : Nat} :
    miscounted? kind count = none ↔ ∀ wanted, kind.arity? = some wanted → count = wanted := by
  unfold miscounted?
  cases kind.arity? <;> simp

/-- What a node has against a child, once the child is known not to be empty. -/
theorem misplaced?_eq_none_iff {parent child : Kind} :
    misplaced? parent child = none ↔
      (IsGuarded parent → child = .block) ∧ (parent = .block → child ≠ .block) := by
  cases parent <;> simp [misplaced?, IsGuarded]

/-- The demands on the children of a node are demands on each child by itself. -/
theorem fits_iff {label : Label} {children : List (Tree Label)} :
    Fits label children ↔
      miscounted? label.kind children.length = none ∧
        ∀ child ∈ children,
          (IsGuarded label.kind → IsBlock child) ∧ (label.kind = .block → ¬ IsBlock child) := by
  rw [miscounted?_eq_none_iff]
  constructor
  · intro h
    exact ⟨h.arity, fun child hchild ↦
      ⟨fun hguarded ↦ h.bodies hguarded child hchild, fun hblock ↦ h.members hblock child hchild⟩⟩
  · intro h
    exact ⟨h.1, fun hguarded child hchild ↦ (h.2 child hchild).1 hguarded,
      fun hblock child hchild ↦ (h.2 child hchild).2 hblock⟩

/-! ## The five constructs -/

/-- The members of a block are well shaped and no blocks. -/
theorem wellShaped_block {members : List (Tree Label)} :
    WellShaped (.node .block members) ↔
      ∀ member ∈ members, WellShaped member ∧ ¬ IsBlock member := by
  rw [wellShaped_node]
  constructor
  · intro h member hmember
    exact ⟨h.2 member hmember, h.1.members rfl member hmember⟩
  · intro h
    have hguarded : ¬ IsGuarded Label.block.kind := by
      simp [IsGuarded, Label.kind]
    have fits : Fits .block members := {
      arity := nofun
      bodies := fun h ↦ absurd h hguarded
      members := fun _ member hmember ↦ (h member hmember).2 }
    exact ⟨fits, fun member hmember ↦ (h member hmember).1⟩

theorem wellShaped_call {name : Identifier} {children : List (Tree Label)} :
    WellShaped (.node (.call name) children) ↔ children = [] := by
  rw [wellShaped_node]
  constructor
  · intro h
    have hlength := h.1.arity 0 rfl
    exact List.length_eq_zero_iff.mp hlength
  · intro h
    subst h
    have fits : Fits (.call name) [] := {
      arity := by simp [Label.kind, Kind.arity?]
      bodies := fun _ ↦ nofun
      members := fun _ ↦ nofun }
    exact ⟨fits, nofun⟩

/-- In a guarded construct the children are as many blocks as its kind asks for. -/
theorem wellShaped_guarded {label : Label} {count : Nat} (hguarded : IsGuarded label.kind)
    (hcount : label.kind.arity? = some count) {children : List (Tree Label)} :
    WellShaped (.node label children) ↔
      children.length = count ∧ ∀ body ∈ children, WellShaped body ∧ IsBlock body := by
  have hkind : label.kind ≠ .block := by
    intro h
    simp [IsGuarded, h] at hguarded
  rw [wellShaped_node]
  constructor
  · intro h
    have hbodies := h.1.bodies hguarded
    exact ⟨h.1.arity count hcount, fun body hbody ↦ ⟨h.2 body hbody, hbodies body hbody⟩⟩
  · intro h
    have harity : ∀ wanted, label.kind.arity? = some wanted → children.length = wanted := by
      intro wanted hwanted
      rw [hcount] at hwanted
      rw [h.1, Option.some.inj hwanted]
    have fits : Fits label children := {
      arity := harity
      bodies := fun _ body hbody ↦ (h.2 body hbody).2
      members := fun hblock ↦ absurd hblock hkind }
    exact ⟨fits, fun body hbody ↦ (h.2 body hbody).1⟩

theorem wellShaped_single {label : Label} (hguarded : IsGuarded label.kind)
    (hcount : label.kind.arity? = some 1) {children : List (Tree Label)} :
    WellShaped (.node label children) ↔
      ∃ body, children = [body] ∧ WellShaped body ∧ IsBlock body := by
  rw [wellShaped_guarded hguarded hcount, List.length_eq_one_iff]
  constructor
  · intro h
    rcases h with ⟨⟨body, rfl⟩, hbodies⟩
    exact ⟨body, rfl, hbodies body List.mem_cons_self⟩
  · intro h
    rcases h with ⟨body, rfl, hbody⟩
    exact ⟨⟨body, rfl⟩, by simpa using hbody⟩

theorem wellShaped_ifThen {guard : Condition} {children : List (Tree Label)} :
    WellShaped (.node (.ifThen guard) children) ↔
      ∃ body, children = [body] ∧ WellShaped body ∧ IsBlock body :=
  wellShaped_single (.inl rfl) rfl

theorem wellShaped_whileDo {guard : Condition} {children : List (Tree Label)} :
    WellShaped (.node (.whileDo guard) children) ↔
      ∃ body, children = [body] ∧ WellShaped body ∧ IsBlock body :=
  wellShaped_single (.inr (.inr rfl)) rfl

/-- Both bodies are blocks. -/
theorem wellShaped_ifElse {guard : Condition} {children : List (Tree Label)} :
    WellShaped (.node (.ifElse guard) children) ↔
      ∃ thenBody elseBody, children = [thenBody, elseBody] ∧
        (WellShaped thenBody ∧ IsBlock thenBody) ∧ WellShaped elseBody ∧ IsBlock elseBody := by
  have hcount : (Label.ifElse guard).kind.arity? = some 2 := rfl
  rw [wellShaped_guarded (.inr (.inl rfl)) hcount, List.length_eq_two]
  constructor
  · intro h
    rcases h with ⟨⟨thenBody, elseBody, rfl⟩, hbodies⟩
    exact ⟨thenBody, elseBody, rfl, by simpa using hbodies⟩
  · intro h
    rcases h with ⟨thenBody, elseBody, rfl, hbodies⟩
    exact ⟨⟨thenBody, elseBody, rfl⟩, by simpa using hbodies⟩

/-- Induction over well-shaped trees, with one case for each construct. -/
@[elab_as_elim]
theorem WellShaped.induct {motive : (t : Tree Label) → WellShaped t → Prop}
    (block : ∀ members (hmembers : ∀ member ∈ members, WellShaped member ∧ ¬ IsBlock member),
      (∀ member (hmember : member ∈ members), motive member (hmembers member hmember).1) →
      motive (.node .block members) (wellShaped_block.mpr hmembers))
    (ifThen : ∀ guard body (hbody : WellShaped body) (hblock : IsBlock body), motive body hbody →
      motive (.node (.ifThen guard) [body]) (wellShaped_ifThen.mpr ⟨body, rfl, hbody, hblock⟩))
    (ifElse : ∀ guard thenBody elseBody (hthen : WellShaped thenBody ∧ IsBlock thenBody)
      (helse : WellShaped elseBody ∧ IsBlock elseBody),
      motive thenBody hthen.1 → motive elseBody helse.1 →
      motive (.node (.ifElse guard) [thenBody, elseBody])
        (wellShaped_ifElse.mpr ⟨thenBody, elseBody, rfl, hthen, helse⟩))
    (whileDo : ∀ guard body (hbody : WellShaped body) (hblock : IsBlock body), motive body hbody →
      motive (.node (.whileDo guard) [body]) (wellShaped_whileDo.mpr ⟨body, rfl, hbody, hblock⟩))
    (call : ∀ name, motive (.node (.call name) []) (wellShaped_call.mpr rfl))
    {t : Tree Label} (h : WellShaped t) : motive t h := by
  induction t with
  | empty => exact absurd h not_wellShaped_empty
  | node label children ih =>
    cases label with
    | block =>
      have hmembers := wellShaped_block.mp h
      exact block children hmembers fun member hmember ↦
        ih member hmember (hmembers member hmember).1
    | ifThen guard =>
      obtain ⟨body, rfl, hbody, hblock⟩ := wellShaped_ifThen.mp h
      exact ifThen guard body hbody hblock (ih body List.mem_cons_self hbody)
    | ifElse guard =>
      obtain ⟨thenBody, elseBody, rfl, hthen, helse⟩ := wellShaped_ifElse.mp h
      exact ifElse guard thenBody elseBody hthen helse
        (ih thenBody (by simp) hthen.1) (ih elseBody (by simp) helse.1)
    | whileDo guard =>
      obtain ⟨body, rfl, hbody, hblock⟩ := wellShaped_whileDo.mp h
      exact whileDo guard body hbody hblock (ih body List.mem_cons_self hbody)
    | call name =>
      obtain rfl := wellShaped_call.mp h
      exact call name

/-! ## The whole tree -/

/-- The position of a child plays no part in whether it has a flaw. -/
theorem firstFlawAmong?_eq_none_iff {parent : Kind} {position : Nat}
    {children : List (Tree Label)} :
    firstFlawAmong? parent position children = none ↔
      ∀ child ∈ children, firstFlaw? child = none ∧
        (IsGuarded parent → IsBlock child) ∧ (parent = .block → ¬ IsBlock child) := by
  induction children generalizing position with
  | nil => simp [firstFlawAmong?]
  | cons child others ih =>
    have hothers := @ih (position + 1)
    rw [List.forall_mem_cons, ← hothers]
    cases child with
    | empty => simp [firstFlawAmong?, firstFlaw?, Tree.label?]
    | node label children =>
      rw [isBlock_node, ← ne_eq, ← misplaced?_eq_none_iff, firstFlawAmong?]
      simp only [Tree.label?, Option.bind_some]
      cases misplaced? parent label.kind with
      | some problem => simp
      | none => cases firstFlaw? (.node label children) <;> simp

/-- The check finds nothing exactly in well-shaped trees, by induction over the tree. -/
theorem firstFlaw?_eq_none_iff {t : Tree Label} : firstFlaw? t = none ↔ WellShaped t := by
  induction t with
  | empty => simp [firstFlaw?, not_wellShaped_empty]
  | node label children ih =>
    rw [wellShaped_node, fits_iff, firstFlaw?]
    cases hcount : miscounted? label.kind children.length with
    | some problem => simp
    | none =>
      simp only [true_and]
      rw [firstFlawAmong?_eq_none_iff]
      constructor
      · intro h
        exact ⟨fun child hchild ↦ (h child hchild).2,
          fun child hchild ↦ (ih child hchild).mp (h child hchild).1⟩
      · intro h child hchild
        exact ⟨(ih child hchild).mpr (h.2 child hchild), h.1 child hchild⟩

/-- The check accepts the well-shaped trees and hands back what it was given. -/
theorem ofTree_eq_ok_iff {t : Tree Label} {s : Statement} :
    ofTree t = .ok s ↔ WellShaped t ∧ s.tree = t := by
  rw [← firstFlaw?_eq_none_iff, ofTree]
  cases firstFlaw? t with
  | some flaw => simp
  | none =>
    simp only [Except.ok.injEq, true_and]
    constructor
    · intro h
      rw [← h]
    · intro h
      rw [← h]

/-- A statement whose tree is well shaped, which is what every operation hands out. -/
def Sound (s : Statement) : Prop := WellShaped s.tree

theorem sound_iff_ofTree {s : Statement} : s.Sound ↔ ofTree s.tree = .ok s := by
  simp [Sound, ofTree_eq_ok_iff]

end Statement

end BLTree
