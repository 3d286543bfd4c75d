import BLTree.Program.Basic
import BLTree.Proofs.Kernel

/-!
# Sound contexts and programs

A context is sound when all its procedures are; it may still have procedures that no program
accepts, since it is checked only when a program takes it over. A program is sound when its parts
are, and its context has passed that check and its body is a block. Both swaps and the check of
parts that come from outside keep to this, and they accept the same parts.
-/

namespace BLTree

namespace Context

theorem pairwise_names (c : Context) : c.names.Pairwise (· < ·) := List.pairwise_map.mpr c.sorted

/-- A name comes once, since names strictly increase. -/
theorem nodup_names (c : Context) : c.names.Nodup := by
  apply c.pairwise_names.imp
  intro a b hlt heq
  exact Identifier.lt_irrefl b (heq ▸ hlt)

def Sound (c : Context) : Prop := ∀ entry ∈ c.entries, entry.2.Sound

theorem sound_empty : empty.Sound := nofun

/-- A sound body may be put under any name, whether it is new or not. -/
theorem Sound.insert {c : Context} (hc : c.Sound) (name : Identifier) {body : Statement}
    (hbody : body.Sound) : (c.insert name body).Sound := by
  intro entry hentry
  rcases mem_insertEntry hentry with rfl | hentry
  · exact hbody
  · exact hc entry hentry

/-- Taking a procedure away leaves the others as they are. -/
theorem Sound.erase {c : Context} (hc : c.Sound) (name : String) : (c.erase name).Sound := by
  intro entry hentry
  exact hc entry (List.mem_of_mem_filter hentry)

theorem Sound.get? {c : Context} (hc : c.Sound) {name : String} {body : Statement}
    (h : c.get? name = some body) : body.Sound := by
  obtain ⟨entry, hfind, rfl⟩ := Option.map_eq_some_iff.mp h
  exact hc entry (List.mem_of_find?_eq_some hfind)

end Context

namespace Program

structure Sound (p : Program) : Prop where
  procedures : p.context.Sound
  admissible : checkContext p.context = .ok ()
  body : p.body.Sound
  bodyBlock : Statement.IsBlock p.body.tree

theorem sound_new : new.Sound where
  procedures := Context.sound_empty
  admissible := rfl
  body := Statement.sound_emptyBlock
  bodyBlock := rfl

theorem Sound.setName {p : Program} (hp : p.Sound) (name : Identifier) :
    (p.setName name).Sound where
  procedures := hp.procedures
  admissible := hp.admissible
  body := hp.body
  bodyBlock := hp.bodyBlock

theorem kind?_eq_block_iff {s : Statement} :
    s.kind? = some .block ↔ Statement.IsBlock s.tree := by
  obtain ⟨tree⟩ := s
  cases tree with
  | empty => exact ⟨nofun, nofun⟩
  | node label children =>
    rw [Statement.isBlock_node]
    simp [Statement.kind?, Tree.label?]

theorem blockDefect?_node (misfit : Kind → Defect) (label : Label) (children : List (Tree Label)) :
    blockDefect? misfit ⟨.node label children⟩ =
      if label.kind = .block then none else some (misfit label.kind) := rfl

/-- An empty tree has a defect of its own, so only blocks have none. -/
theorem blockDefect?_eq_none_iff (misfit : Kind → Defect) {s : Statement} :
    blockDefect? misfit s = none ↔ Statement.IsBlock s.tree := by
  obtain ⟨tree⟩ := s
  cases tree with
  | empty => exact ⟨nofun, nofun⟩
  | node label children =>
    rw [Statement.isBlock_node, blockDefect?_node]
    simp

/-- No entry is named after a primitive instruction, and all bodies are blocks. -/
theorem firstDefect?_eq_none_iff {entries : List (Identifier × Statement)} :
    firstDefect? entries = none ↔
      ∀ entry ∈ entries, entry.1.isPrimitive = false ∧ Statement.IsBlock entry.2.tree := by
  induction entries with
  | nil => simp [firstDefect?]
  | cons entry others ih =>
    obtain ⟨name, body⟩ := entry
    rw [List.forall_mem_cons, ← ih, firstDefect?]
    cases name.isPrimitive with
    | true => simp
    | false => simp [Option.or_eq_none_iff, blockDefect?_eq_none_iff]

/-- A program takes over the contexts in which no procedure is primitive and every one is a
block. -/
theorem checkContext_eq_ok_iff {c : Context} :
    checkContext c = .ok () ↔
      ∀ entry ∈ c.entries, entry.1.isPrimitive = false ∧ Statement.IsBlock entry.2.tree := by
  rw [← firstDefect?_eq_none_iff, checkContext]
  cases firstDefect? c.entries with
  | some defect => simp
  | none => simp

/-- A program is made of its parts unless one of them is refused, and they are not changed. -/
theorem ofParts_eq_ok_iff {name : Identifier} {context : Context} {body : Statement}
    {p : Program} :
    ofParts name context body = .ok p ↔
      (∀ entry ∈ context.entries, entry.1.isPrimitive = false ∧ Statement.IsBlock entry.2.tree) ∧
        Statement.IsBlock body.tree ∧ ⟨name, context, body⟩ = p := by
  rw [← checkContext_eq_ok_iff, ← blockDefect?_eq_none_iff .bodyNotBlock, ofParts]
  cases checkContext context with
  | error defect => simp [bind, Except.bind]
  | ok _ =>
    cases blockDefect? .bodyNotBlock body with
    | some defect => simp [bind, Except.bind]
    | none => simp [bind, Except.bind]

theorem sound_ofParts {name : Identifier} {context : Context} {body : Statement} {p : Program}
    (hcontext : context.Sound) (hbody : body.Sound) (h : ofParts name context body = .ok p) :
    p.Sound := by
  obtain ⟨hprocedures, hblock, rfl⟩ := ofParts_eq_ok_iff.mp h
  exact ⟨hcontext, checkContext_eq_ok_iff.mpr hprocedures, hbody, hblock⟩

/-- The old context is handed out. -/
theorem swapContext_of_ok {c : Context} (h : checkContext c = .ok ()) (p : Program) :
    swapContext (p, c) = .ok () ({ p with context := c }, p.context) := by
  simp [swapContext, h]

/-- A refused context stays with the caller. -/
theorem swapContext_of_error {c : Context} {defect : Defect} (h : checkContext c = .error defect)
    (p : Program) : swapContext (p, c) = .error defect.violation (p, c) := by
  simp [swapContext, h]

theorem firstDefect?_eq_some_iff {c : Context} {defect : Defect} :
    firstDefect? c.entries = some defect ↔ checkContext c = .error defect := by
  rw [checkContext]
  cases firstDefect? c.entries <;> simp

/-- With sound bodies the text of the contract is the only one that can be told. -/
theorem violation_of_firstDefect? {entries : List (Identifier × Statement)} {defect : Defect}
    (hsound : ∀ entry ∈ entries, entry.2.Sound) (h : firstDefect? entries = some defect) :
    defect.violation = .contextRefused := by
  induction entries with
  | nil => cases h
  | cons entry others ih =>
    obtain ⟨name, body⟩ := entry
    obtain ⟨hbody, hothers⟩ := List.forall_mem_cons.mp hsound
    obtain ⟨label, children, rfl⟩ := hbody.exists_node
    rw [firstDefect?, blockDefect?_node] at h
    split_ifs at h with hprimitive hkind
    · rw [← Option.some.inj h]
      rfl
    · exact ih hothers h
    · rw [← Option.some.inj h]
      rfl

/-- Sound statements have a kind, so that a sound context is refused for a real defect. -/
theorem violation_of_checkContext {c : Context} (hc : c.Sound) {defect : Defect}
    (h : checkContext c = .error defect) : defect.violation = .contextRefused :=
  violation_of_firstDefect? hc (firstDefect?_eq_some_iff.mpr h)

/-- A body is looked at for its kind only. -/
theorem swapBody_node (p : Program) (label : Label) (children : List (Tree Label)) :
    swapBody (p, ⟨.node label children⟩) =
      if label.kind = .block then .ok () ({ p with body := ⟨.node label children⟩ }, p.body)
      else .error .programBodyNotBlock (p, ⟨.node label children⟩) := by
  by_cases hkind : label.kind = .block <;> simp [swapBody, hkind]

/-- A program and the context beside it stay sound, whether or not the context is accepted. -/
theorem keeps_swapContext :
    Edit.Keeps (fun s : Program × Context ↦ s.1.Sound ∧ s.2.Sound) swapContext fun _ ↦ True := by
  intro (p, c) ⟨hp, hc⟩
  cases hcheck : checkContext c with
  | ok _ =>
    rw [swapContext_of_ok hcheck]
    exact ⟨trivial, ⟨hc, hcheck, hp.body, hp.bodyBlock⟩, hp.procedures⟩
  | error defect =>
    rw [swapContext_of_error hcheck, violation_of_checkContext hc hcheck]
    exact ⟨rfl, hp, hc⟩

theorem keeps_swapBody :
    Edit.Keeps (fun s : Program × Statement ↦ s.1.Sound ∧ s.2.Sound) swapBody fun _ ↦ True := by
  intro (p, s) ⟨hp, hs⟩
  obtain ⟨label, children, rfl⟩ := hs.exists_node
  rw [swapBody_node]
  split
  · rename_i hkind
    exact ⟨trivial, ⟨hp.procedures, hp.admissible, hs, Statement.isBlock_node.mpr hkind⟩, hp.body⟩
  · exact ⟨rfl, hp, hs⟩

/-- Makes a new program and gives it its parts by the operations that change programs. -/
def furnished (name : Identifier) (context : Context) (body : Statement) :
    Except Violation Program := do
  let (p, _) ← Edit.build (new.setName name, context) swapContext
  let (p, _) ← Edit.build (p, body) swapBody
  return p

theorem ofParts_of_error {context : Context} {defect : Defect}
    (h : checkContext context = .error defect) (name : Identifier) (body : Statement) :
    ofParts name context body = .error defect := by
  rw [ofParts, h]
  rfl

theorem ofParts_of_ok {context : Context} (h : checkContext context = .ok ()) (name : Identifier)
    (label : Label) (children : List (Tree Label)) :
    ofParts name context ⟨.node label children⟩ =
      if label.kind = .block then .ok ⟨name, context, ⟨.node label children⟩⟩
      else .error (.bodyNotBlock label.kind) := by
  rw [ofParts, h, blockDefect?_node]
  by_cases hkind : label.kind = .block <;> simp [hkind, bind, Except.bind]

theorem furnished_of_error {context : Context} {defect : Defect}
    (h : checkContext context = .error defect) (name : Identifier) (body : Statement) :
    furnished name context body = .error defect.violation := by
  rw [furnished, Edit.build, swapContext_of_error h]
  rfl

/-- A new program that is given its parts one after the other refuses the body last. -/
theorem furnished_of_ok {context : Context} (h : checkContext context = .ok ()) (name : Identifier)
    (label : Label) (children : List (Tree Label)) :
    furnished name context ⟨.node label children⟩ =
      if label.kind = .block then .ok ⟨name, context, ⟨.node label children⟩⟩
      else .error .programBodyNotBlock := by
  rw [furnished, Edit.build, swapContext_of_ok h]
  by_cases hkind : label.kind = .block <;>
    simp [Edit.build, swapBody_node, hkind, setName, bind, Except.bind, pure, Except.pure]

/-- Parts that come from outside make a program exactly when the operations on programs accept them
one after the other, and then it is the same program. Parts are refused for the first defect of
their context, whatever the body is, and for the kind of their body only if the context has none. -/
theorem ofParts_agrees_with_swaps (name : Identifier) (context : Context) (body : Statement)
    (hbody : body.Sound) :
    (∀ p, ofParts name context body = .ok p ↔ furnished name context body = .ok p) ∧
      (∀ defect, checkContext context = .error defect →
        ofParts name context body = .error defect) ∧
      (checkContext context = .ok () → ∀ defect, ofParts name context body = .error defect ↔
        ∃ kind, body.kind? = some kind ∧ kind ≠ .block ∧ defect = .bodyNotBlock kind ∧
          defect.message = "body must be a BLOCK, found " ++ kind.spelling) := by
  obtain ⟨label, children, rfl⟩ := hbody.exists_node
  cases hcheck : checkContext context with
  | error first =>
    refine ⟨fun p ↦ ?_, fun defect hdefect ↦ ?_, nofun⟩
    · rw [ofParts_of_error hcheck, furnished_of_error hcheck]
      simp
    · rw [ofParts_of_error hcheck, Except.error.inj hdefect]
  | ok _ =>
    rw [ofParts_of_ok hcheck, furnished_of_ok hcheck]
    refine ⟨fun p ↦ ?_, nofun, fun _ defect ↦ ?_⟩
    · by_cases hkind : label.kind = .block <;> simp [hkind]
    · by_cases hkind : label.kind = .block
      · simp [hkind, Statement.kind?, Tree.label?]
      · rw [if_neg hkind]
        constructor
        · intro h
          rw [← Except.error.inj h]
          exact ⟨label.kind, rfl, hkind, rfl, rfl⟩
        · intro h
          obtain ⟨kind, hfound, -, hdefect, -⟩ := h
          rw [hdefect, ← Option.some.inj hfound]

/-- A loop as procedure and a call as body: the procedure is named, and the body only in its
absence. -/
theorem ofParts_refuses_procedure_before_body :
    let spin : Identifier := ⟨"spin", by decide⟩
    let loops := Context.empty.insert spin ⟨.node (.whileDo .random) [.node .block []]⟩
    let body := Statement.call spin
    body.Sound ∧
      ofParts defaultName loops body = .error (.procedureNotBlock spin .whileDo) ∧
      (∀ p, furnished defaultName loops body ≠ .ok p) ∧
      ∃ defect, ofParts defaultName .empty body = .error defect ∧
        defect.message = "body must be a BLOCK, found CALL" := by
  intro spin loops body
  have hbody : body.Sound := Statement.sound_call spin
  obtain ⟨hagree, hrefused, -⟩ := ofParts_agrees_with_swaps defaultName loops body hbody
  obtain ⟨-, -, hkind⟩ := ofParts_agrees_with_swaps defaultName .empty body hbody
  have hloops := hrefused (.procedureNotBlock spin .whileDo) rfl
  refine ⟨hbody, hloops, fun p hp ↦ ?_, .bodyNotBlock .call, ?_, rfl⟩
  · rw [(hagree p).mpr hp] at hloops
    cases hloops
  · exact (hkind rfl _).mpr ⟨.call, rfl, by decide, rfl, rfl⟩

end Program

end BLTree
