import BLTree.Proofs.Edits
import BLTree.Proofs.Shape
import BLTree.Statement.Kernel

/-!
# What the kernel operations do

One equation for each operation of the kernel, on receivers and arguments whose trees are not empty:
which precondition stops it, in the order of the checks, and what it makes of its receiver
otherwise. From the equations follows that every operation keeps statements sound: the checks look
at roots only, and soundness below the roots is what makes the parts of a disassembled statement
sound again.
-/

namespace BLTree.Statement

open Edit

variable {label memberLabel bodyLabel thenLabel elseLabel : Label}
  {children memberChildren bodyChildren thenChildren elseChildren : List (Tree Label)}

theorem sound_emptyBlock : emptyBlock.Sound := wellShaped_block.mpr nofun

/-- A sound statement is never the empty tree. -/
theorem Sound.exists_node {s : Statement} (h : s.Sound) :
    ∃ label children, s = ⟨.node label children⟩ := by
  obtain ⟨label, children, htree⟩ := WellShaped.exists_node h
  exact ⟨label, children, by rw [← htree]⟩

/-! ## Equations -/

@[simp]
theorem isKind_node (kind : Kind) :
    isKind ⟨.node label children⟩ kind = .ok (decide (label.kind = kind)) := rfl

theorem lengthOfBlock_node :
    lengthOfBlock ⟨.node label children⟩ =
      if label.kind = .block then .ok children.length else .error .receiverNotBlock := by
  unfold lengthOfBlock
  by_cases hkind : label.kind = .block
  · rw [isKind_node, if_pos hkind, decide_eq_true hkind]
    rfl
  · rw [isKind_node, if_neg hkind, decide_eq_false hkind]
    rfl

@[simp]
theorem onTree_decompose_node :
    onTree Tree.decompose ⟨.node label children⟩ = .ok (label, children) ⟨.empty⟩ := rfl

@[simp]
theorem onTree_compose_empty :
    onTree (Tree.compose label children) ⟨.empty⟩ = .ok () ⟨.node label children⟩ := rfl

/-- A statement that is taken apart becomes an empty block, not an empty tree. -/
@[simp]
theorem takeApart_node :
    takeApart ⟨.node label children⟩ = .ok (label, children) emptyBlock := rfl

/-- The checks in their order. The check of the insertion itself never comes into play. -/
theorem addToBlock_node (position : Nat) :
    addToBlock position ⟨.node memberLabel memberChildren⟩ ⟨.node label children⟩ =
      if label.kind = .block then
        if position ≤ children.length then
          if memberLabel.kind = .block then .error .memberIsBlock ⟨.node label children⟩
          else .ok () ⟨.node label (children.insertIdx position (.node memberLabel memberChildren))⟩
        else .error .insertionPastEnd ⟨.node label children⟩
      else .error .receiverNotBlock ⟨.node label children⟩ := by
  unfold addToBlock
  by_cases hkind : label.kind = .block
  · by_cases hposition : position ≤ children.length
    · by_cases hmember : memberLabel.kind = .block
      · simp [hkind, hposition, hmember, lengthOfBlock_node]
      · simp [hkind, hposition, hmember, lengthOfBlock_node]
    · simp [hkind, hposition, lengthOfBlock_node]
  · simp [hkind]

/-- The receiver is looked at before the position. -/
theorem removeFromBlock_node (position : Nat) :
    removeFromBlock position ⟨.node label children⟩ =
      if label.kind = .block then
        if h : position < children.length then
          .ok ⟨children[position]⟩ ⟨.node label (children.eraseIdx position)⟩
        else .error .removalPastEnd ⟨.node label children⟩
      else .error .receiverNotBlock ⟨.node label children⟩ := by
  unfold removeFromBlock
  by_cases hkind : label.kind = .block
  · by_cases hposition : position < children.length
    · simp [hkind, hposition, lengthOfBlock_node]
    · simp [hkind, hposition, lengthOfBlock_node]
  · simp [hkind]

/-- A body that is no block stops the operation before the receiver is touched. -/
theorem assembleSingle_node (construct : Single) (guard : Condition) (s : Statement) :
    assembleSingle construct guard ⟨.node bodyLabel bodyChildren⟩ s =
      if bodyLabel.kind = .block then
        .ok () ⟨.node (construct.label guard) [.node bodyLabel bodyChildren]⟩
      else .error .bodyNotBlock s := by
  unfold assembleSingle
  by_cases hbody : bodyLabel.kind = .block <;> simp [hbody]

/-- The first body is checked before the second. -/
theorem assembleIfElse_node (guard : Condition) (s : Statement) :
    assembleIfElse guard ⟨.node thenLabel thenChildren⟩ ⟨.node elseLabel elseChildren⟩ s =
      if thenLabel.kind = .block then
        if elseLabel.kind = .block then
          .ok () ⟨.node (.ifElse guard)
            [.node thenLabel thenChildren, .node elseLabel elseChildren]⟩
        else .error .elseNotBlock s
      else .error .thenNotBlock s := by
  unfold assembleIfElse
  by_cases hthen : thenLabel.kind = .block
  · by_cases helse : elseLabel.kind = .block <;> simp [hthen, helse]
  · simp [hthen]

@[simp]
theorem assembleCall_apply (name : Identifier) (s : Statement) :
    assembleCall name s = .ok () (call name) := rfl

namespace Single

@[simp]
theorem kind_label (construct : Single) (guard : Condition) :
    (construct.label guard).kind = construct.kind := by
  cases construct <;> rfl

@[simp]
theorem guard?_label (construct : Single) (guard : Condition) :
    construct.guard? (construct.label guard) = some guard := by
  cases construct <;> rfl

/-- The kind of a construct fixes its label up to the guard. -/
theorem exists_guard {construct : Single} (h : label.kind = construct.kind) :
    ∃ guard, label = construct.label guard := by
  cases construct with
  | ifThen =>
    cases label with
    | ifThen guard => exact ⟨guard, rfl⟩
    | block | ifElse _ | whileDo _ | call _ => cases h
  | whileDo =>
    cases label with
    | whileDo guard => exact ⟨guard, rfl⟩
    | block | ifThen _ | ifElse _ | call _ => cases h

/-- Both constructs have one body, which is a block. -/
theorem wellShaped_iff (construct : Single) {guard : Condition} :
    WellShaped (.node (construct.label guard) children) ↔
      ∃ body, children = [body] ∧ WellShaped body ∧ IsBlock body := by
  cases construct with
  | ifThen => exact wellShaped_ifThen
  | whileDo => exact wellShaped_whileDo

end Single

/-- Adding behind the last member appends. -/
theorem addToBlock_length :
    addToBlock children.length ⟨.node memberLabel memberChildren⟩ ⟨.node .block children⟩ =
      if memberLabel.kind = .block then .error .memberIsBlock ⟨.node .block children⟩
      else .ok () ⟨.node .block (children ++ [.node memberLabel memberChildren])⟩ := by
  have hkind : Label.block.kind = .block := rfl
  rw [addToBlock_node, if_pos hkind, if_pos (Nat.le_refl _), List.insertIdx_length_self]

-- Every member is added at the length that the block has by then, so only its kind is in question.
/-- Adding members one after the other stops at the first that is a block. -/
theorem build_addFrom {members : List Statement} (hmembers : ∀ member ∈ members, member.Sound)
    (children : List (Tree Label)) :
    build ⟨.node .block children⟩ (addFrom children.length members) =
      if ∀ member ∈ members, ¬ IsBlock member.tree then
        .ok ⟨.node .block (children ++ members.map tree)⟩
      else .error .memberIsBlock := by
  induction members generalizing children with
  | nil => simp [addFrom, build]
  | cons member members ih =>
    obtain ⟨hmember, hothers⟩ := List.forall_mem_cons.mp hmembers
    obtain ⟨label, below, rfl⟩ := hmember.exists_node
    have hstep := @addToBlock_length label children below
    by_cases hblock : label.kind = .block
    · simp [build, addFrom, hstep, hblock, isBlock_node]
    · have hlater := ih hothers (children ++ [.node label below])
      rw [List.length_append, List.length_singleton, build] at hlater
      simp [build, addFrom, hstep, hblock, isBlock_node, hlater]

theorem block_eq {members : List Statement} (hmembers : ∀ member ∈ members, member.Sound) :
    block members =
      if ∀ member ∈ members, ¬ IsBlock member.tree then .ok ⟨.node .block (members.map tree)⟩
      else .error .memberIsBlock :=
  build_addFrom hmembers []

/-! ## Soundness -/

/-- What is taken out was sound, and an empty block is left in its place. -/
theorem keeps_take : Keeps Sound take Sound := by
  intro s hs
  exact ⟨hs, sound_emptyBlock⟩

theorem keeps_clear : Keeps Sound clear fun _ ↦ True :=
  keeps_set sound_emptyBlock

theorem sound_call (name : Identifier) : (call name).Sound := wellShaped_call.mpr rfl

/-- A sound block stays sound, since its new member is checked to be no block. -/
theorem keeps_addToBlock (position : Nat) {member : Statement} (hmember : member.Sound) :
    Keeps Sound (addToBlock position member) fun _ ↦ True := by
  intro s hs
  obtain ⟨memberLabel, memberChildren, rfl⟩ := hmember.exists_node
  obtain ⟨label, children, rfl⟩ := hs.exists_node
  rw [addToBlock_node]
  split
  · rename_i hkind
    split
    · rename_i hposition
      split
      · exact ⟨rfl, hs⟩
      · rename_i hblock
        obtain rfl := eq_block_of_kind hkind
        have hmembers := wellShaped_block.mp hs
        refine ⟨trivial, wellShaped_block.mpr ?_⟩
        intro child hchild
        rcases (List.mem_insertIdx hposition).mp hchild with rfl | hchild
        · exact ⟨hmember, fun h ↦ hblock (isBlock_node.mp h)⟩
        · exact hmembers child hchild
    · exact ⟨rfl, hs⟩
  · exact ⟨rfl, hs⟩

/-- The member that is given back is sound as well. -/
theorem keeps_removeFromBlock (position : Nat) :
    Keeps Sound (removeFromBlock position) Sound := by
  intro s hs
  obtain ⟨label, children, rfl⟩ := hs.exists_node
  rw [removeFromBlock_node]
  split
  · split
    · rename_i hkind hposition
      obtain rfl := eq_block_of_kind hkind
      have hmembers := wellShaped_block.mp hs
      have hremoved := hmembers children[position] (List.getElem_mem hposition)
      refine ⟨hremoved.1, wellShaped_block.mpr ?_⟩
      intro child hchild
      exact hmembers child (List.mem_of_mem_eraseIdx hchild)
    · exact ⟨rfl, hs⟩
  · exact ⟨rfl, hs⟩

/-- A body that has passed the check makes a sound statement. -/
theorem keeps_assembleSingle (construct : Single) (guard : Condition) {body : Statement}
    (hbody : body.Sound) : Keeps Sound (assembleSingle construct guard body) fun _ ↦ True := by
  intro s hs
  obtain ⟨bodyLabel, bodyChildren, rfl⟩ := hbody.exists_node
  rw [assembleSingle_node]
  split
  · rename_i hblock
    exact ⟨trivial, construct.wellShaped_iff.mpr ⟨_, rfl, hbody, isBlock_node.mpr hblock⟩⟩
  · exact ⟨rfl, hs⟩

theorem keeps_assembleIfElse (guard : Condition) {thenBody elseBody : Statement}
    (hthen : thenBody.Sound) (helse : elseBody.Sound) :
    Keeps Sound (assembleIfElse guard thenBody elseBody) fun _ ↦ True := by
  intro s hs
  obtain ⟨thenLabel, thenChildren, rfl⟩ := hthen.exists_node
  obtain ⟨elseLabel, elseChildren, rfl⟩ := helse.exists_node
  rw [assembleIfElse_node]
  split
  · split
    · rename_i hthenBlock helseBlock
      exact ⟨trivial, wellShaped_ifElse.mpr ⟨_, _, rfl, ⟨hthen, isBlock_node.mpr hthenBlock⟩,
        helse, isBlock_node.mpr helseBlock⟩⟩
    · exact ⟨rfl, hs⟩
  · exact ⟨rfl, hs⟩

theorem keeps_assembleCall (name : Identifier) : Keeps Sound (assembleCall name) fun _ ↦ True :=
  keeps_set (sound_call name)

/-- A construct is taken apart. `whole` is the statement that is made of given parts, and sound
statements of its kind are all made of parts that are `fit`; another kind is refused. -/
structure TakesApart {α : Type} (kind : Kind) (refusal : Violation) (fit : α → Prop)
    (whole : α → Statement) (disassemble : Edit Statement α) : Prop where
  apart : ∀ parts, disassemble (whole parts) = .ok parts emptyBlock
  refused : ∀ label children, label.kind ≠ kind →
    disassemble ⟨.node label children⟩ = .error refusal ⟨.node label children⟩
  exists_parts : ∀ s : Statement, s.Sound → s.kind? = some kind →
    ∃ parts, fit parts ∧ s = whole parts

/-- The statement that is made of a guard and one body. -/
def Single.whole (construct : Single) (parts : Condition × Statement) : Statement :=
  ⟨.node (construct.label parts.1) [parts.2.tree]⟩

/-- The statement that is made of a guard and two bodies. -/
def wholeIfElse (parts : Condition × Statement × Statement) : Statement :=
  ⟨.node (.ifElse parts.1) [parts.2.1.tree, parts.2.2.tree]⟩

/-- A sound statement of a kind, with a label that has it. -/
theorem Sound.exists_label {s : Statement} (hs : s.Sound) {kind : Kind}
    (hkind : s.kind? = some kind) :
    ∃ label children, s = ⟨.node label children⟩ ∧ label.kind = kind := by
  obtain ⟨label, children, rfl⟩ := hs.exists_node
  exact ⟨label, children, rfl, Option.some.inj hkind⟩

-- The kind alone does not rule out the branches for a wrong label and for wrong children; the kind
-- fixes the label, and soundness of the receiver fixes the children.
/-- A sound statement of the right kind has exactly the children that are asked for. -/
theorem takesApart_single (construct : Single) :
    TakesApart construct.kind construct.receiverOther
      (fun parts ↦ parts.2.Sound ∧ IsBlock parts.2.tree) construct.whole
      (disassembleSingle construct) where
  apart parts := by simp [Single.whole, disassembleSingle]
  refused label children h := by simp [disassembleSingle, h]
  exists_parts s hs hkind := by
    obtain ⟨label, children, rfl, hlabel⟩ := hs.exists_label hkind
    obtain ⟨guard, rfl⟩ := Single.exists_guard hlabel
    obtain ⟨body, rfl, hbody⟩ := construct.wellShaped_iff.mp hs
    exact ⟨(guard, ⟨body⟩), hbody, rfl⟩

theorem takesApart_ifElse :
    TakesApart .ifElse .receiverNotIfElse
      (fun parts ↦ (parts.2.1.Sound ∧ IsBlock parts.2.1.tree) ∧
        parts.2.2.Sound ∧ IsBlock parts.2.2.tree)
      wholeIfElse disassembleIfElse where
  apart parts := rfl
  refused label children h := by simp [disassembleIfElse, h]
  exists_parts s hs hkind := by
    obtain ⟨label, children, rfl, hlabel⟩ := hs.exists_label hkind
    cases label with
    | ifElse guard =>
      obtain ⟨thenBody, elseBody, rfl, hbodies⟩ := wellShaped_ifElse.mp hs
      exact ⟨(guard, ⟨thenBody⟩, ⟨elseBody⟩), hbodies, rfl⟩
    | block | ifThen _ | whileDo _ | call _ => cases hlabel

/-- Taking a call apart does not look at children: that there are none is known from the shape. -/
theorem takesApart_call :
    TakesApart .call .receiverNotCall (fun _ ↦ True) call disassembleCall where
  apart name := rfl
  refused label children h := by simp [disassembleCall, h]
  exists_parts s hs hkind := by
    obtain ⟨label, children, rfl, hlabel⟩ := hs.exists_label hkind
    cases label with
    | call name =>
      obtain rfl := wellShaped_call.mp hs
      exact ⟨name, trivial, rfl⟩
    | block | ifThen _ | ifElse _ | whileDo _ => cases hlabel

section

variable {α : Type} {kind : Kind} {refusal : Violation} {fit : α → Prop} {whole : α → Statement}
  {disassemble : Edit Statement α}

/-- What taking a sound statement apart comes to. -/
theorem TakesApart.outcome (h : TakesApart kind refusal fit whole disassemble) {s : Statement}
    (hs : s.Sound) :
    (s.kind? = some kind ∧ ∃ parts, fit parts ∧ s = whole parts ∧
        disassemble s = .ok parts emptyBlock) ∨
      s.kind? ≠ some kind ∧ disassemble s = .error refusal s := by
  by_cases hkind : s.kind? = some kind
  · obtain ⟨parts, hfit, rfl⟩ := h.exists_parts s hs hkind
    exact .inl ⟨hkind, parts, hfit, rfl, h.apart parts⟩
  · obtain ⟨label, children, rfl⟩ := hs.exists_node
    exact .inr ⟨hkind, h.refused label children fun heq ↦ hkind (congrArg some heq)⟩

/-- Taking a sound statement apart gives sound parts and leaves a sound receiver. -/
theorem TakesApart.keeps (h : TakesApart kind refusal fit whole disassemble)
    (hrefusal : refusal.isInternal = false) : Keeps Sound disassemble fit := by
  intro s hs
  rcases h.outcome hs with ⟨-, parts, hfit, -, hrun⟩ | ⟨-, hrun⟩
  · rw [hrun]
    exact ⟨hfit, sound_emptyBlock⟩
  · rw [hrun]
    exact ⟨hrefusal, hs⟩

end

theorem Single.isInternal_receiverOther (construct : Single) :
    construct.receiverOther.isInternal = false := by
  cases construct <;> rfl

/-- Adding members one after the other keeps a block sound at every point. -/
theorem keeps_addFrom (position : Nat) {members : List Statement}
    (hmembers : ∀ member ∈ members, member.Sound) :
    Keeps Sound (addFrom position members) fun _ ↦ True := by
  induction members generalizing position with
  | nil => exact keeps_pure trivial
  | cons member members ih =>
    obtain ⟨hmember, hmembers⟩ := List.forall_mem_cons.mp hmembers
    apply (keeps_addToBlock position hmember).bind
    intro _ _
    exact ih (position + 1) hmembers

end BLTree.Statement
