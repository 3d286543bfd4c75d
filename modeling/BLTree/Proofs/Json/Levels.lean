import BLTree.Proofs.Json.TreeConformance

/-!
# How many levels fit into the brackets

A tree takes two brackets for each level, in the document that is written for it and in every other
that spells it. Whatever text it comes from, a tree that is read with a budget of brackets can be
written within that budget.
-/

namespace BLTree

open Json Json.Reader

namespace Tree

variable {L : Type}

theorem heightList_le {ts : List (Tree L)} {bound : Nat} (h : ∀ t ∈ ts, t.height ≤ bound) :
    heightList ts ≤ bound := by
  by_contra hbound
  obtain ⟨t, ht, hlt⟩ := exists_lt_height (Nat.lt_of_not_le hbound)
  exact absurd (h t ht) (Nat.not_le_of_lt hlt)

/-- A node adds one level, which takes two brackets. -/
theorem two_mul_height_node_le {l : L} {children : List (Tree L)} {bound : Nat}
    (h : ∀ child ∈ children, 2 * child.height ≤ bound) :
    2 * (node l children).height ≤ bound + 2 := by
  have hlist : heightList children ≤ bound / 2 := by
    apply heightList_le
    intro child hchild
    have hheight := h child hchild
    omega
  rw [height]
  omega

variable {label : Nat → Reader L} {child : Reader (Tree L)} {bound : Nat}

theorem gives_childrenReader (h : Gives child fun t ↦ 2 * t.height ≤ bound) (budget : Nat) :
    Gives (childrenReader child budget) fun children ↦
      1 ≤ budget ∧ ∀ child ∈ children, 2 * height child ≤ bound := by
  refine (gives_any demand).bind ?_
  intro c _
  split
  · refine (gives_enclosed (fun _ ↦ gives_items h) budget).imp ?_
    intro children hchildren
    obtain ⟨left, rfl, hchildren⟩ := hchildren
    exact ⟨Nat.le_add_left 1 left, hchildren⟩
  · exact gives_wrongType _

/-- Children could be read, so there was a bracket left for their list. -/
theorem gives_namedNode (h : Gives child fun t ↦ 2 * t.height ≤ bound) (budget : Nat) :
    Gives (namedNode label child budget) fun t ↦ 1 ≤ budget ∧ 2 * t.height ≤ bound + 2 := by
  have hmembers : Gives (members {} (nodeMember label child budget)) fun draft ↦
      ∀ children, draft.children = some children →
        1 ≤ budget ∧ ∀ child ∈ children, 2 * height child ≤ bound := by
    refine gives_members nofun ?_
    intro key draft read hdraft hread
    unfold nodeMember at hread
    split at hread
    · cases hread
      refine (gives_any _).bind ?_
      intro l _
      exact gives_pure hdraft
    · cases hread
      refine (gives_once (gives_childrenReader h budget)).bind ?_
      intro children hchildren
      exact gives_pure fun _ heq ↦ Option.some.inj heq ▸ hchildren
    · cases hread
  rw [namedNode_eq]
  refine hmembers.bind ?_
  intro draft hdraft
  refine (gives_any (required "label" draft.label)).bind ?_
  intro l _
  refine gives_required.bind ?_
  intro children hchildren
  obtain ⟨hbudget, hheights⟩ := hdraft children hchildren
  exact gives_pure ⟨hbudget, two_mul_height_node_le hheights⟩

theorem gives_positionalNode (h : Gives child fun t ↦ 2 * t.height ≤ bound) (budget : Nat) :
    Gives (positionalNode label child budget) fun t ↦ 1 ≤ budget ∧ 2 * t.height ≤ bound + 2 := by
  refine (gives_any (place "Node" 2 0 (label budget))).bind ?_
  intro l _
  refine (gives_place (gives_childrenReader h budget)).bind ?_
  intro children hchildren
  exact gives_pure ⟨hchildren.1, two_mul_height_node_le hchildren.2⟩

theorem gives_readerWith (h : Gives child fun t ↦ 2 * t.height ≤ bound) (budget : Nat) :
    Gives (readerWith label child budget) fun t ↦
      t.height = 0 ∨ 2 ≤ budget ∧ 2 * t.height ≤ bound + 2 := by
  refine (gives_any upcoming).bind ?_
  intro c _
  split
  · refine (gives_any (word "null".toList)).bind ?_
    intro _ _
    exact gives_pure (.inl rfl)
  · refine (gives_record (gives_namedNode h) (gives_positionalNode h) budget).imp ?_
    intro t ht
    obtain ⟨left, rfl, hleft, hheight⟩ := ht
    exact .inr ⟨Nat.succ_le_succ hleft, hheight⟩

/-- A tree that was read has at most half as many levels as there were brackets, by recursion on the
budget. -/
theorem gives_reader (budget : Nat) :
    Gives (Tree.reader label budget) fun t ↦ 2 * t.height ≤ budget := by
  have hnone : Gives (failNext (.breach .tooDeep) : Reader (Tree L)) fun t ↦ 2 * t.height ≤ 0 :=
    gives_failNext _
  match budget with
  | 0 =>
    refine (gives_readerWith hnone 0).imp ?_
    intro t ht
    omega
  | 1 =>
    refine (gives_readerWith hnone 1).imp ?_
    intro t ht
    omega
  | budget + 2 =>
    refine (gives_readerWith (gives_reader budget) (budget + 2)).imp ?_
    intro t ht
    omega

end Tree

/-- A label takes at most one bracket, which the node around it has open anyway. -/
theorem Label.spelled_document (label : Label) : ∃ n ≤ 1, label.Spelled label.document n := by
  cases label with
  | block => exact ⟨0, Nat.zero_le 1, .block⟩
  | ifThen guard => exact ⟨1, Nat.le_refl 1, .tagged (.ifThen (.name guard))⟩
  | ifElse guard => exact ⟨1, Nat.le_refl 1, .tagged (.ifElse (.name guard))⟩
  | whileDo guard => exact ⟨1, Nat.le_refl 1, .tagged (.whileDo (.name guard))⟩
  | call name => exact ⟨1, Nat.le_refl 1, .tagged (.call name)⟩

namespace Tree

/-- Conversely, a tree is written with two brackets for each level. -/
theorem spelled_document (t : Tree Label) :
    ∃ n ≤ 2 * t.height, Spelled (t.document Label.document) t n := by
  induction t with
  | empty => exact ⟨0, Nat.le_refl 0, .empty⟩
  | node l children ih =>
    have hchildren : List.Forall₂ (fun d t ↦ ∃ n ≤ 2 * heightList children, Spelled d t n)
        (children.map (document Label.document)) children := by
      rw [List.forall₂_map_left_iff, List.forall₂_same]
      intro child hchild
      obtain ⟨n, hn, hspelled⟩ := ih child hchild
      have hheight := height_le_heightList hchild
      exact ⟨n, by omega, hspelled⟩
    obtain ⟨m, hm, hl⟩ := l.spelled_document
    obtain ⟨n, hn, hchildren⟩ := exists_le_each_iff.mpr hchildren
    have hfields : Fields (document Label.document (node l children)) l.document
        (.array (children.map (document Label.document))) := by
      rw [document, documents_eq_map]
      exact .named rfl rfl
    refine ⟨max m (n + 1) + 1, ?_, .node hfields hl hchildren⟩
    rw [height]
    omega

end Tree

end BLTree
