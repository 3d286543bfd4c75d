import BLTree.Proofs.Json.RoundTrip

/-!
# Contracts

The preconditions of every operation that has some, in the words and in the order of its
documentation, and what it means to keep to them: an operation stops exactly when one of its
preconditions does not hold, it names the first of these, and it leaves what it was applied to as it
was. The checks of an operation cover all that it does later, so that on statements, contexts and
programs that runs lead to nothing else can stop it.
-/

namespace BLTree

/-- A precondition, and the words that the documentation has for it. -/
structure Clause where
  holds : Prop
  words : String

/-- The words of the first clause that does not hold. -/
inductive FirstBroken : List Clause → String → Prop
  | here {clause : Clause} {others : List Clause} (h : ¬ clause.holds) :
    FirstBroken (clause :: others) clause.words
  | later {clause : Clause} {others : List Clause} {words : String} (h : clause.holds)
    (hothers : FirstBroken others words) : FirstBroken (clause :: others) words

theorem FirstBroken.exists_broken {clauses : List Clause} {words : String}
    (h : FirstBroken clauses words) : ∃ clause ∈ clauses, ¬ clause.holds := by
  induction h with
  | here h => exact ⟨_, List.mem_cons_self, h⟩
  | later _ _ ih =>
    obtain ⟨clause, hclause, hbroken⟩ := ih
    exact ⟨clause, List.mem_cons_of_mem _ hclause, hbroken⟩

/-- Clauses that all have the same words do not say which of them is broken. -/
theorem firstBroken_of_words {clauses : List Clause} {words : String}
    (hwords : ∀ clause ∈ clauses, clause.words = words) (h : ∃ clause ∈ clauses, ¬ clause.holds) :
    FirstBroken clauses words := by
  induction clauses with
  | nil =>
    obtain ⟨_, hclause, _⟩ := h
    cases hclause
  | cons clause others ih =>
    obtain ⟨hclause, hothers⟩ := List.forall_mem_cons.mp hwords
    by_cases hholds : clause.holds
    · have hlater : ∃ clause ∈ others, ¬ clause.holds := by
        obtain ⟨other, hother, hbroken⟩ := h
        rcases List.mem_cons.mp hother with rfl | hother
        · exact absurd hholds hbroken
        · exact ⟨other, hother, hbroken⟩
      exact .later hholds (ih hothers hlater)
    · rw [← hclause]
      exact .here hholds

namespace Edit

variable {σ α : Type}

/-- A reading that may fail, of the value that an edit is applied to. -/
def reading (f : σ → Except Violation α) : Edit σ α := do check (f (← get))

@[simp]
theorem reading_apply (f : σ → Except Violation α) (s : σ) :
    reading f s = match f s with
      | .ok a => .ok a s
      | .error v => .error v s := by
  cases h : f s <;> simp [reading, h]

/-- The edit stops on `s` exactly when a clause is broken. It then names the first broken clause and
leaves `s` as it was. -/
structure Abides (clauses : List Clause) (e : Edit σ α) (s : σ) : Prop where
  stops_iff : (∃ v t, e s = .error v t) ↔ ∃ clause ∈ clauses, ¬ clause.holds
  message : ∀ v t, e s = .error v t →
    ∃ words, FirstBroken clauses words ∧ v.message = "Violation of: " ++ words
  untouched : ∀ v t, e s = .error v t → t = s

variable {clauses : List Clause} {e : Edit σ α} {s : σ}

/-- An edit that succeeds abides by its contract if all clauses hold. -/
theorem abides_of_ok {a : α} {t : σ} (hrun : e s = .ok a t)
    (h : ∀ clause ∈ clauses, clause.holds) : Abides clauses e s := by
  have hends : ∀ v t, e s ≠ .error v t := by
    intro v t hstop
    rw [hrun] at hstop
    cases hstop
  refine ⟨⟨?_, ?_⟩, fun v t hstop ↦ absurd hstop (hends v t),
    fun v t hstop ↦ absurd hstop (hends v t)⟩
  · intro ⟨v, t, hstop⟩
    exact absurd hstop (hends v t)
  · intro ⟨clause, hclause, hbroken⟩
    exact absurd (h clause hclause) hbroken

/-- An edit that stops has to leave its receiver as it was and to tell the clause that is broken
first. -/
theorem abides_of_error {v : Violation} {words : String} (hrun : e s = .error v s)
    (h : FirstBroken clauses words) (hmessage : v.message = violationOf words) :
    Abides clauses e s := by
  refine ⟨⟨fun _ ↦ h.exists_broken, fun _ ↦ ⟨v, s, hrun⟩⟩, ?_, ?_⟩
  · intro w t hstop
    rw [hrun] at hstop
    cases hstop
    exact ⟨words, h, hmessage⟩
  · intro w t hstop
    rw [hrun] at hstop
    cases hstop
    rfl

end Edit

open Edit

/-! ## The documented preconditions -/

namespace Contract

variable {L : Type}

def compose (t : Tree L) : List Clause := [⟨t = .empty, "this is an empty tree"⟩]

/-- The precondition of taking a tree apart, and of reading its root. -/
def decompose (t : Tree L) : List Clause := [⟨t ≠ .empty, "this is not an empty tree"⟩]

def subtree (position : Nat) (t : Tree L) : List Clause :=
  [⟨position < t.children.length, "pos < [number of subtrees]"⟩]

def lengthOfBlock (s : Statement) : List Clause :=
  [⟨s.kind? = some .block, "[this is a BLOCK statement]"⟩]

def addToBlock (position : Nat) (member s : Statement) : List Clause :=
  [⟨s.kind? = some .block, "[this is a BLOCK statement]"⟩,
    ⟨position ≤ s.tree.children.length, "pos <= [length of this BLOCK]"⟩,
    ⟨member.kind? ≠ some .block, "[s is not a BLOCK statement]"⟩]

def removeFromBlock (position : Nat) (s : Statement) : List Clause :=
  [⟨s.kind? = some .block, "[this is a BLOCK statement]"⟩,
    ⟨position < s.tree.children.length, "pos < [length of this BLOCK]"⟩]

/-- One clause for each member, all in the same words. -/
def block (members : List Statement) : List Clause :=
  members.map fun member ↦ ⟨member.kind? ≠ some .block, "[s is not a BLOCK statement]"⟩

/-- The precondition of the constructs with one body. -/
def assemble (body : Statement) : List Clause :=
  [⟨body.kind? = some .block, "[s is a BLOCK statement]"⟩]

def assembleIfElse (thenBody elseBody : Statement) : List Clause :=
  [⟨thenBody.kind? = some .block, "[s1 is a BLOCK statement]"⟩,
    ⟨elseBody.kind? = some .block, "[s2 is a BLOCK statement]"⟩]

def disassembleIf (s : Statement) : List Clause :=
  [⟨s.kind? = some .ifThen, "[this is an IF statement]"⟩]

def disassembleIfElse (s : Statement) : List Clause :=
  [⟨s.kind? = some .ifElse, "[this is an IF_ELSE statement]"⟩]

def disassembleWhile (s : Statement) : List Clause :=
  [⟨s.kind? = some .whileDo, "[this is a WHILE statement]"⟩]

def disassembleCall (s : Statement) : List Clause :=
  [⟨s.kind? = some .call, "[this is a CALL statement]"⟩]

def swapContext (c : Context) : List Clause :=
  [⟨(∀ name ∈ c.names, name.isPrimitive = false) ∧
      ∀ entry ∈ c.entries, entry.2.kind? = some .block,
    "[names in c are not primitive instructions] and [bodies in c are BLOCK statements]"⟩]

def swapBody (s : Statement) : List Clause :=
  [⟨s.kind? = some .block, "[b is a BLOCK statement]"⟩]

end Contract

namespace Tree

variable {L : Type}

theorem abides_compose (label : L) (children : List (Tree L)) (t : Tree L) :
    Abides (Contract.compose t) (compose label children) t := by
  cases t with
  | empty => exact abides_of_ok rfl (by simp [Contract.compose])
  | node _ _ => exact abides_of_error rfl (.here nofun) rfl

theorem abides_decompose (t : Tree L) : Abides (Contract.decompose t) decompose t := by
  cases t with
  | empty => exact abides_of_error rfl (.here fun h ↦ h rfl) rfl
  | node _ _ => exact abides_of_ok rfl (by simp [Contract.decompose])

theorem abides_root (t : Tree L) : Abides (Contract.decompose t) (reading root) t := by
  cases t with
  | empty => exact abides_of_error rfl (.here fun h ↦ h rfl) rfl
  | node _ _ => exact abides_of_ok rfl (by simp [Contract.decompose])

/-- The position is checked against the number of children. -/
theorem abides_subtree (position : Nat) (t : Tree L) :
    Abides (Contract.subtree position t) (reading fun t ↦ t.subtree position) t := by
  by_cases hposition : position < t.children.length
  · have hrun : t.subtree position = .ok t.children[position] := by
      rw [subtree, List.getElem?_eq_getElem hposition]
    apply abides_of_ok (by rw [reading_apply, hrun])
    simpa [Contract.subtree] using hposition
  · have hrun : t.subtree position = .error .noSuchSubtree := by
      rw [subtree, List.getElem?_eq_none (Nat.le_of_not_lt hposition)]
    exact abides_of_error (by rw [reading_apply, hrun]) (.here hposition) rfl

end Tree

namespace Statement

@[simp]
theorem kind?_node (label : Label) (children : List (Tree Label)) :
    kind? ⟨.node label children⟩ = some label.kind := rfl

/-- The operations that ask for nothing but the kind of one statement. -/
theorem abides_of_kind {σ α : Type} {e : Edit σ α} {state : σ} {s : Statement} {kind : Kind}
    {v : Violation} {words : String} (hs : s.Sound)
    (hends : ∀ label children, s = ⟨.node label children⟩ → label.kind = kind →
      ∃ a t, e state = .ok a t)
    (hstops : ∀ label children, s = ⟨.node label children⟩ → label.kind ≠ kind →
      e state = .error v state)
    (hmessage : v.message = violationOf words) : Abides [⟨s.kind? = some kind, words⟩] e state := by
  obtain ⟨label, children, rfl⟩ := hs.exists_node
  by_cases hkind : label.kind = kind
  · obtain ⟨a, t, hrun⟩ := hends label children rfl hkind
    exact abides_of_ok hrun (by simpa using hkind)
  · exact abides_of_error (hstops label children rfl hkind) (.here (by simpa using hkind)) hmessage

/-- Only a block has a length. -/
theorem abides_lengthOfBlock {s : Statement} (hs : s.Sound) :
    Abides (Contract.lengthOfBlock s) (reading lengthOfBlock) s := by
  apply abides_of_kind (v := .receiverNotBlock) hs
  · rintro label children rfl hkind
    exact ⟨_, _, by rw [reading_apply, lengthOfBlock_node, if_pos hkind]⟩
  · rintro label children rfl hkind
    rw [reading_apply, lengthOfBlock_node, if_neg hkind]
  · rfl

/-- Three clauses: the kind of the receiver, the position, the kind of the member. -/
theorem abides_addToBlock {s member : Statement} (hs : s.Sound) (hmember : member.Sound)
    (position : Nat) :
    Abides (Contract.addToBlock position member s) (addToBlock position member) s := by
  obtain ⟨label, children, rfl⟩ := hs.exists_node
  obtain ⟨memberLabel, below, rfl⟩ := hmember.exists_node
  have hrun := @addToBlock_node label memberLabel children below position
  by_cases hkind : label.kind = .block
  · rw [if_pos hkind] at hrun
    have hreceiver : kind? ⟨.node label children⟩ = some .block := by rw [kind?_node, hkind]
    by_cases hposition : position ≤ children.length
    · rw [if_pos hposition] at hrun
      by_cases hblock : memberLabel.kind = .block
      · rw [if_pos hblock] at hrun
        refine abides_of_error hrun ?_ rfl
        exact .later hreceiver (.later hposition (.here (by simpa using hblock)))
      · rw [if_neg hblock] at hrun
        apply abides_of_ok hrun
        simp [Contract.addToBlock, Tree.children, hkind, hposition, hblock]
    · rw [if_neg hposition] at hrun
      exact abides_of_error hrun (.later hreceiver (.here hposition)) rfl
  · rw [if_neg hkind] at hrun
    exact abides_of_error hrun (.here (by simpa using hkind)) rfl

/-- The position is looked at only if the receiver is a block. -/
theorem abides_removeFromBlock {s : Statement} (hs : s.Sound) (position : Nat) :
    Abides (Contract.removeFromBlock position s) (removeFromBlock position) s := by
  obtain ⟨label, children, rfl⟩ := hs.exists_node
  have hrun := @removeFromBlock_node label children position
  by_cases hkind : label.kind = .block
  · rw [if_pos hkind] at hrun
    have hreceiver : kind? ⟨.node label children⟩ = some .block := by rw [kind?_node, hkind]
    by_cases hposition : position < children.length
    · rw [dif_pos hposition] at hrun
      apply abides_of_ok hrun
      simp [Contract.removeFromBlock, Tree.children, hkind, hposition]
    · rw [dif_neg hposition] at hrun
      exact abides_of_error hrun (.later hreceiver (.here hposition)) rfl
  · rw [if_neg hkind] at hrun
    exact abides_of_error hrun (.here (by simpa using hkind)) rfl

theorem kind?_ne_block_iff {s : Statement} : s.kind? ≠ some .block ↔ ¬ IsBlock s.tree :=
  not_congr Program.kind?_eq_block_iff

/-- A list that contains a block stops at the first, whatever else is in it. -/
theorem abides_block {members : List Statement} (hmembers : ∀ member ∈ members, member.Sound) :
    Abides (Contract.block members) (reading block) members := by
  have hrun := block_eq hmembers
  by_cases hblocks : ∀ member ∈ members, ¬ IsBlock member.tree
  · rw [if_pos hblocks] at hrun
    apply abides_of_ok (by rw [reading_apply, hrun])
    rw [Contract.block, List.forall_mem_map]
    intro member hmember
    exact kind?_ne_block_iff.mpr (hblocks member hmember)
  · rw [if_neg hblocks] at hrun
    refine abides_of_error (by rw [reading_apply, hrun]) ?_ rfl
    apply firstBroken_of_words
    · rw [Contract.block, List.forall_mem_map]
      intro _ _
      rfl
    · push Not at hblocks
      obtain ⟨member, hmember, hblock⟩ := hblocks
      exact ⟨_, List.mem_map_of_mem hmember, fun h ↦ kind?_ne_block_iff.mp h hblock⟩

/-- The receiver may be anything, since it is overwritten. -/
theorem abides_assembleSingle {body : Statement} (hbody : body.Sound) (construct : Single)
    (guard : Condition) (s : Statement) :
    Abides (Contract.assemble body) (assembleSingle construct guard body) s := by
  apply abides_of_kind (v := .bodyNotBlock) hbody
  · rintro label children rfl hkind
    exact ⟨_, _, by rw [assembleSingle_node, if_pos hkind]⟩
  · rintro label children rfl hkind
    rw [assembleSingle_node, if_neg hkind]
  · rfl

theorem abides_assembleIfElse {thenBody elseBody : Statement} (hthen : thenBody.Sound)
    (helse : elseBody.Sound) (guard : Condition) (s : Statement) :
    Abides (Contract.assembleIfElse thenBody elseBody) (assembleIfElse guard thenBody elseBody)
      s := by
  obtain ⟨thenLabel, thenChildren, rfl⟩ := hthen.exists_node
  obtain ⟨elseLabel, elseChildren, rfl⟩ := helse.exists_node
  have hrun := @assembleIfElse_node thenLabel elseLabel thenChildren elseChildren guard s
  by_cases hthenKind : thenLabel.kind = .block
  · rw [if_pos hthenKind] at hrun
    by_cases helseKind : elseLabel.kind = .block
    · rw [if_pos helseKind] at hrun
      apply abides_of_ok hrun
      simp [Contract.assembleIfElse, hthenKind, helseKind]
    · rw [if_neg helseKind] at hrun
      refine abides_of_error hrun ?_ rfl
      exact .later (by rw [kind?_node, hthenKind]) (.here (by simpa using helseKind))
  · rw [if_neg hthenKind] at hrun
    exact abides_of_error hrun (.here (by simpa using hthenKind)) rfl

/-- Taking a construct apart asks for its kind and for nothing else. -/
theorem TakesApart.abides {α : Type} {kind : Kind} {refusal : Violation} {fit : α → Prop}
    {whole : α → Statement} {disassemble : Edit Statement α} {words : String}
    (h : TakesApart kind refusal fit whole disassemble) {s : Statement} (hs : s.Sound)
    (hmessage : refusal.message = violationOf words) :
    Abides [⟨s.kind? = some kind, words⟩] disassemble s := by
  rcases h.outcome hs with ⟨hkind, parts, -, -, hrun⟩ | ⟨hkind, hrun⟩
  · exact abides_of_ok hrun (List.forall_mem_singleton.mpr hkind)
  · exact abides_of_error hrun (.here hkind) hmessage

end Statement

/-- A context that some run leaves in some register. -/
def Context.Reachable (c : Context) : Prop :=
  ∃ (w : Workspace) (steps : List Workspace.Step) (name : String),
    w.Supplied ∧ c = (w.runAll steps).contexts.get name

theorem Context.Reachable.sound {c : Context} (h : c.Reachable) : c.Sound := by
  obtain ⟨w, steps, name, hsupplied, rfl⟩ := h
  exact (Workspace.sound_runAll hsupplied.sound steps).contexts name

namespace Program

/-- A refused context is handed back, and the program keeps its own. -/
theorem abides_swapContext {c : Context} (hc : c.Sound) (p : Program) :
    Abides (Contract.swapContext c) swapContext (p, c) := by
  have hiff : ((∀ name ∈ c.names, name.isPrimitive = false) ∧
      ∀ entry ∈ c.entries, entry.2.kind? = some .block) ↔ checkContext c = .ok () := by
    rw [checkContext_eq_ok_iff, Context.names, List.forall_mem_map, ← forall₂_and]
    simp only [kind?_eq_block_iff]
  cases hcheck : checkContext c with
  | ok _ =>
    apply abides_of_ok (swapContext_of_ok hcheck p)
    simpa [Contract.swapContext] using hiff.mpr hcheck
  | error defect =>
    have hrun := swapContext_of_error hcheck p
    rw [violation_of_checkContext hc hcheck] at hrun
    refine abides_of_error hrun (.here fun h ↦ ?_) rfl
    rw [hiff.mp h] at hcheck
    cases hcheck

theorem abides_swapBody {s : Statement} (hs : s.Sound) (p : Program) :
    Abides (Contract.swapBody s) swapBody (p, s) := by
  apply Statement.abides_of_kind (v := .programBodyNotBlock) hs
  · rintro label children rfl hkind
    exact ⟨_, _, by rw [swapBody_node, if_pos hkind]⟩
  · rintro label children rfl hkind
    rw [swapBody_node, if_neg hkind]
  · rfl

end Program

/-! ## All operations -/

/-- The operations that have preconditions: what they may be applied to, and their clauses. Readings
are edits that change nothing, and a block is put together from a list of statements. -/
inductive Contracted : {σ α : Type} → (σ → Prop) → Edit σ α → (σ → List Clause) → Prop
  | compose {L : Type} (label : L) (children : List (Tree L)) :
    Contracted (fun _ ↦ True) (Tree.compose label children) Contract.compose
  | decompose {L : Type} :
    Contracted (fun _ ↦ True) (Tree.decompose : Edit (Tree L) _) Contract.decompose
  | root {L : Type} :
    Contracted (fun _ ↦ True) (reading (Tree.root : Tree L → _)) Contract.decompose
  | subtree {L : Type} (position : Nat) :
    Contracted (fun _ ↦ True) (reading fun t : Tree L ↦ t.subtree position)
      (Contract.subtree position)
  | lengthOfBlock :
    Contracted Statement.Reachable (reading Statement.lengthOfBlock) Contract.lengthOfBlock
  | addToBlock (position : Nat) {member : Statement} (hmember : member.Reachable) :
    Contracted Statement.Reachable (Statement.addToBlock position member)
      (Contract.addToBlock position member)
  | removeFromBlock (position : Nat) :
    Contracted Statement.Reachable (Statement.removeFromBlock position)
      (Contract.removeFromBlock position)
  | block :
    Contracted (fun members ↦ ∀ member ∈ members, member.Reachable) (reading Statement.block)
      Contract.block
  | assembleIf (guard : Condition) {body : Statement} (hbody : body.Reachable) :
    Contracted Statement.Reachable (Statement.assembleIf guard body)
      fun _ ↦ Contract.assemble body
  | assembleIfElse (guard : Condition) {thenBody elseBody : Statement}
    (hthen : thenBody.Reachable) (helse : elseBody.Reachable) :
    Contracted Statement.Reachable (Statement.assembleIfElse guard thenBody elseBody)
      fun _ ↦ Contract.assembleIfElse thenBody elseBody
  | assembleWhile (guard : Condition) {body : Statement} (hbody : body.Reachable) :
    Contracted Statement.Reachable (Statement.assembleWhile guard body)
      fun _ ↦ Contract.assemble body
  | disassembleIf :
    Contracted Statement.Reachable Statement.disassembleIf Contract.disassembleIf
  | disassembleIfElse :
    Contracted Statement.Reachable Statement.disassembleIfElse Contract.disassembleIfElse
  | disassembleWhile :
    Contracted Statement.Reachable Statement.disassembleWhile Contract.disassembleWhile
  | disassembleCall :
    Contracted Statement.Reachable Statement.disassembleCall Contract.disassembleCall
  | swapContext :
    Contracted (fun (p, c) ↦ p.Reachable ∧ c.Reachable) Program.swapContext
      fun (_, c) ↦ Contract.swapContext c
  | swapBody :
    Contracted (fun (p, s) ↦ p.Reachable ∧ s.Reachable) Program.swapBody
      fun (_, s) ↦ Contract.swapBody s

/-- Every operation stops exactly at a broken precondition, names the first of them and changes
nothing then. -/
theorem operations_abide_by_contracts {σ α : Type} (applies : σ → Prop) (e : Edit σ α)
    (clauses : σ → List Clause) (h : Contracted applies e clauses) (s : σ) (hs : applies s) :
    Abides (clauses s) e s := by
  cases h with
  | compose label children => exact Tree.abides_compose label children s
  | decompose => exact Tree.abides_decompose s
  | root => exact Tree.abides_root s
  | subtree position => exact Tree.abides_subtree position s
  | lengthOfBlock => exact Statement.abides_lengthOfBlock hs.sound
  | addToBlock position hmember => exact Statement.abides_addToBlock hs.sound hmember.sound position
  | removeFromBlock position => exact Statement.abides_removeFromBlock hs.sound position
  | block => exact Statement.abides_block fun member hmember ↦ (hs member hmember).sound
  | assembleIf guard hbody => exact Statement.abides_assembleSingle hbody.sound .ifThen guard s
  | assembleIfElse guard hthen helse =>
    exact Statement.abides_assembleIfElse hthen.sound helse.sound guard s
  | assembleWhile guard hbody =>
    exact Statement.abides_assembleSingle hbody.sound .whileDo guard s
  | disassembleIf => exact (Statement.takesApart_single .ifThen).abides hs.sound rfl
  | disassembleIfElse => exact Statement.takesApart_ifElse.abides hs.sound rfl
  | disassembleWhile => exact (Statement.takesApart_single .whileDo).abides hs.sound rfl
  | disassembleCall => exact Statement.takesApart_call.abides hs.sound rfl
  | swapContext => exact Program.abides_swapContext hs.2.sound s.1
  | swapBody => exact Program.abides_swapBody hs.2.sound s.1

/-- An empty block is to be added at the fifth place of a block with one member. That it is a block
is not held against it, since the place is asked for first. -/
theorem addToBlock_abides_past_end :
    let s : Statement := ⟨.node .block [.node (.call ⟨"move", by decide⟩) []]⟩
    s.Reachable ∧ Statement.emptyBlock.Reachable ∧
      Abides (Contract.addToBlock 5 .emptyBlock s) (Statement.addToBlock 5 .emptyBlock) s ∧
      ∃ v, Statement.addToBlock 5 .emptyBlock s = .error v s ∧
        v.message = "Violation of: pos <= [length of this BLOCK]" := by
  intro s
  let steps : List Workspace.Step := [.call "c" ⟨"move", by decide⟩, .add "s" 0 "c"]
  have hs : s.Reachable := ⟨{}, steps, "s", nofun, rfl⟩
  have hmember : Statement.emptyBlock.Reachable := ⟨{}, [], "c", nofun, rfl⟩
  have habides := operations_abide_by_contracts _ _ _ (.addToBlock 5 hmember) s hs
  exact ⟨hs, hmember, habides, .insertionPastEnd, rfl, rfl⟩

end BLTree
