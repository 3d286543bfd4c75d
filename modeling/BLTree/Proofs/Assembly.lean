import BLTree.Proofs.Runs

/-!
# Assembling and disassembling are inverse

For each construct with parts there is one statement that is made of given parts. Assembling the
parts puts that statement into the receiver, whatever the receiver held, and disassembling it gives
the parts back. The other way round, a reachable statement of a construct is made of parts, because
its root has exactly the children that the construct asks for; disassembling it therefore drops
nothing, and its parts can be assembled again.
-/

namespace BLTree.Statement

open Edit

/-- Assembling and disassembling a construct undo each other, for parts that are `fit` for it. -/
structure Inverse {α : Type} (kind : Kind) (fit : α → Prop) (assemble : α → Edit Statement Unit)
    (disassemble : Edit Statement α) : Prop where
  /-- Parts that were assembled come back, and an empty block is left. -/
  parts_back : ∀ parts, fit parts → ∀ receiver,
    (assemble parts >>= fun _ ↦ disassemble) receiver = .ok parts emptyBlock
  /-- A statement that was disassembled can be assembled again from its parts. -/
  whole_back : ∀ s : Statement, s.Reachable → s.kind? = some kind →
    ∃ parts, disassemble s = .ok parts emptyBlock ∧ fit parts ∧
      ∀ receiver, assemble parts receiver = .ok () s

/-- It is enough to know the statement that is made of given parts, and how it is taken apart. -/
theorem Inverse.of_takesApart {α : Type} {kind : Kind} {refusal : Violation} {fit fit' : α → Prop}
    {assemble : α → Edit Statement Unit} {disassemble : Edit Statement α} {whole : α → Statement}
    (h : TakesApart kind refusal fit whole disassemble) (hfit : ∀ parts, fit parts → fit' parts)
    (hassemble : ∀ parts, fit' parts → ∀ receiver, assemble parts receiver = .ok () (whole parts)) :
    Inverse kind fit' assemble disassemble where
  parts_back parts hparts receiver := by
    rw [bind_apply, hassemble parts hparts receiver]
    exact h.apart parts
  whole_back s hs hkind := by
    obtain ⟨parts, hparts, rfl⟩ := h.exists_parts s hs.sound hkind
    exact ⟨parts, h.apart parts, hfit parts hparts, hassemble parts (hfit parts hparts)⟩

theorem exists_children_of_isBlock {s : Statement} (h : IsBlock s.tree) :
    ∃ children, s = ⟨.node .block children⟩ := by
  obtain ⟨tree⟩ := s
  cases tree with
  | empty => cases h
  | node label children =>
    obtain rfl := eq_block_of_kind (isBlock_node.mp h)
    exact ⟨children, rfl⟩

/-- The receiver is overwritten, whatever it was. -/
theorem assembleSingle_block (construct : Single) (guard : Condition) {body : Statement}
    (h : IsBlock body.tree) (receiver : Statement) :
    assembleSingle construct guard body receiver = .ok () (construct.whole (guard, body)) := by
  obtain ⟨children, rfl⟩ := exists_children_of_isBlock h
  exact assembleSingle_node construct guard receiver

theorem assembleIfElse_blocks (guard : Condition) {thenBody elseBody : Statement}
    (hthen : IsBlock thenBody.tree) (helse : IsBlock elseBody.tree) (receiver : Statement) :
    assembleIfElse guard thenBody elseBody receiver =
      .ok () ⟨.node (.ifElse guard) [thenBody.tree, elseBody.tree]⟩ := by
  obtain ⟨thenChildren, rfl⟩ := exists_children_of_isBlock hthen
  obtain ⟨elseChildren, rfl⟩ := exists_children_of_isBlock helse
  exact assembleIfElse_node guard receiver

/-- The IF and the WHILE construct in one. -/
theorem inverse_single (construct : Single) :
    Inverse construct.kind (fun parts ↦ IsBlock parts.2.tree)
      (fun (guard, body) ↦ assembleSingle construct guard body) (disassembleSingle construct) :=
  .of_takesApart (takesApart_single construct) (fun _ ↦ And.right) fun parts hblock ↦
    assembleSingle_block construct parts.1 hblock

/-- Assembling and disassembling are inverse for every construct that has parts. -/
theorem assembly_inverts_disassembly :
    Inverse .ifThen (fun parts ↦ IsBlock parts.2.tree)
      (fun (guard, body) ↦ assembleIf guard body) disassembleIf ∧
    Inverse .ifElse (fun parts ↦ IsBlock parts.2.1.tree ∧ IsBlock parts.2.2.tree)
      (fun (guard, thenBody, elseBody) ↦ assembleIfElse guard thenBody elseBody)
      disassembleIfElse ∧
    Inverse .whileDo (fun parts ↦ IsBlock parts.2.tree)
      (fun (guard, body) ↦ assembleWhile guard body) disassembleWhile ∧
    Inverse .call (fun _ ↦ True) assembleCall disassembleCall := by
  refine ⟨inverse_single .ifThen, ?_, inverse_single .whileDo, ?_⟩
  · apply Inverse.of_takesApart takesApart_ifElse
    · exact fun parts hparts ↦ ⟨hparts.1.2, hparts.2.2⟩
    · exact fun parts hblocks ↦ assembleIfElse_blocks parts.1 hblocks.1 hblocks.2
  · apply Inverse.of_takesApart takesApart_call
    · exact fun _ ↦ id
    · exact fun name _ ↦ assembleCall_apply name

end BLTree.Statement
