import BLTree.Proofs.Shape

/-!
# The grammar of statements

The derivations of BL statements as types of their own: a block is any number of instructions, an
instruction is a guarded construct over blocks or a call. Each derivation has a tree. The trees of
derivations are exactly those that the shape check accepts, so the check parses this grammar
although it only ever compares a node with its children.
-/

namespace BLTree.Grammar

open Statement

mutual

/-- `Block ::= BLOCK [Instruction, ...]` -/
inductive Block where
  | block (members : List Instruction)

/-- `Instruction ::= IF c Block | IF_ELSE c Block Block | WHILE c Block | CALL name` -/
inductive Instruction where
  | ifThen (guard : Condition) (body : Block)
  | ifElse (guard : Condition) (thenBody elseBody : Block)
  | whileDo (guard : Condition) (body : Block)
  | call (name : Identifier)

end

/-- What a statement is derived from. -/
inductive Phrase where
  | block (b : Block)
  | instruction (i : Instruction)

mutual

def Block.tree : Block → Tree Label
  | .block members => .node .block (Instruction.trees members)

def Instruction.tree : Instruction → Tree Label
  | .ifThen guard body => .node (.ifThen guard) [body.tree]
  | .ifElse guard thenBody elseBody => .node (.ifElse guard) [thenBody.tree, elseBody.tree]
  | .whileDo guard body => .node (.whileDo guard) [body.tree]
  | .call name => .node (.call name) []

def Instruction.trees : List Instruction → List (Tree Label)
  | [] => []
  | i :: others => i.tree :: Instruction.trees others

end

def Phrase.tree : Phrase → Tree Label
  | .block b => b.tree
  | .instruction i => i.tree

theorem Block.isBlock_tree (b : Block) : IsBlock b.tree := by
  cases b
  exact isBlock_node.mpr rfl

/-- An instruction is anything but a block, which keeps blocks out of blocks. -/
theorem Instruction.not_isBlock_tree (i : Instruction) : ¬ IsBlock i.tree := by
  cases i <;> simp [Instruction.tree, isBlock_node, Label.kind]

mutual

/-- By recursion over the grammar, together with instructions and lists of them. -/
theorem Block.wellShaped_tree : ∀ b : Block, WellShaped b.tree
  | .block members => wellShaped_block.mpr (Instruction.wellShaped_trees members)

theorem Instruction.wellShaped_tree : ∀ i : Instruction, WellShaped i.tree
  | .ifThen _ body =>
    wellShaped_ifThen.mpr ⟨body.tree, rfl, body.wellShaped_tree, body.isBlock_tree⟩
  | .ifElse _ thenBody elseBody =>
    wellShaped_ifElse.mpr ⟨thenBody.tree, elseBody.tree, rfl,
      ⟨thenBody.wellShaped_tree, thenBody.isBlock_tree⟩,
      elseBody.wellShaped_tree, elseBody.isBlock_tree⟩
  | .whileDo _ body =>
    wellShaped_whileDo.mpr ⟨body.tree, rfl, body.wellShaped_tree, body.isBlock_tree⟩
  | .call _ => wellShaped_call.mpr rfl

theorem Instruction.wellShaped_trees : ∀ members : List Instruction,
    ∀ t ∈ Instruction.trees members, WellShaped t ∧ ¬ IsBlock t
  | [], _, h => nomatch h
  | i :: others, t, h => by
    rcases List.mem_cons.mp h with rfl | h
    · exact ⟨i.wellShaped_tree, i.not_isBlock_tree⟩
    · exact Instruction.wellShaped_trees others t h

end

theorem Phrase.wellShaped_tree (p : Phrase) : WellShaped p.tree := by
  cases p with
  | block b => exact b.wellShaped_tree
  | instruction i => exact i.wellShaped_tree

/-- Derivations of all members make one of the whole block. -/
theorem exists_trees {members : List (Tree Label)}
    (h : ∀ member ∈ members, ∃ i : Instruction, i.tree = member) :
    ∃ is, Instruction.trees is = members := by
  induction members with
  | nil => exact ⟨[], rfl⟩
  | cons member others ih =>
    obtain ⟨i, hi⟩ := h member List.mem_cons_self
    obtain ⟨is, his⟩ := ih fun other hother ↦ h other (List.mem_cons_of_mem _ hother)
    exact ⟨i :: is, by rw [Instruction.trees, hi, his]⟩

/-- Blocks derive from `Block` and all other constructs from `Instruction`; the induction needs both
at once, since the two alternate from one level to the next. -/
theorem exists_derivation {t : Tree Label} (h : WellShaped t) :
    (IsBlock t → ∃ b : Block, b.tree = t) ∧ (¬ IsBlock t → ∃ i : Instruction, i.tree = t) := by
  induction h using WellShaped.induct with
  | block members hmembers ih =>
    obtain ⟨is, rfl⟩ := exists_trees fun member hmember ↦
      (ih member hmember).2 (hmembers member hmember).2
    exact ⟨fun _ ↦ ⟨.block is, rfl⟩, fun hnot ↦ absurd (isBlock_node.mpr rfl) hnot⟩
  | ifThen guard body _ hblock ih =>
    obtain ⟨b, rfl⟩ := ih.1 hblock
    exact ⟨nofun, fun _ ↦ ⟨.ifThen guard b, rfl⟩⟩
  | ifElse guard thenBody elseBody hthen helse ihThen ihElse =>
    obtain ⟨b, rfl⟩ := ihThen.1 hthen.2
    obtain ⟨c, rfl⟩ := ihElse.1 helse.2
    exact ⟨nofun, fun _ ↦ ⟨.ifElse guard b c, rfl⟩⟩
  | whileDo guard body _ hblock ih =>
    obtain ⟨b, rfl⟩ := ih.1 hblock
    exact ⟨nofun, fun _ ↦ ⟨.whileDo guard b, rfl⟩⟩
  | call name => exact ⟨nofun, fun _ ↦ ⟨.call name, rfl⟩⟩

theorem wellShaped_iff_exists_phrase {t : Tree Label} :
    WellShaped t ↔ ∃ p : Phrase, p.tree = t := by
  constructor
  · intro h
    obtain ⟨hblock, hinstruction⟩ := exists_derivation h
    by_cases hkind : IsBlock t
    · obtain ⟨b, hb⟩ := hblock hkind
      exact ⟨.block b, hb⟩
    · obtain ⟨i, hi⟩ := hinstruction hkind
      exact ⟨.instruction i, hi⟩
  · intro h
    rcases h with ⟨p, rfl⟩
    exact p.wellShaped_tree

/-- The shape check accepts exactly the trees of derivations, and returns what it accepts. -/
theorem ofTree_accepts_derived_trees (t : Tree Label) :
    ((∃ s, ofTree t = .ok s) ↔ ∃ p : Phrase, p.tree = t) ∧ ∀ s, ofTree t = .ok s → s.tree = t := by
  constructor
  · rw [← wellShaped_iff_exists_phrase]
    constructor
    · intro h
      rcases h with ⟨s, hs⟩
      exact (ofTree_eq_ok_iff.mp hs).1
    · intro h
      exact ⟨⟨t⟩, ofTree_eq_ok_iff.mpr ⟨h, rfl⟩⟩
  · intro s hs
    exact (ofTree_eq_ok_iff.mp hs).2

end BLTree.Grammar
