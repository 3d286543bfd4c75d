import BLTree.Proofs.Json.Patience
import BLTree.Proofs.Json.RoundTrip

/-!
# Texts that break off

What is written for a program has no unknown members, so its readers are patient at each place where
the text may be cut. Nothing of this depends on the brackets that are left or on whether the checks
of statements and programs are passed: patience only speaks of texts that can be read. A program of
which only a front is left is therefore never taken for another one, nor found to be at fault.
-/

namespace BLTree

open Json Json.Reader

namespace Json.Reader

variable {α γ σ : Type}

/-- The reader waits wherever the text of the document is cut, or what follows it. -/
def PatientOn (r : Reader α) (d : Document) : Prop :=
  ∀ rest, Follows rest → PatientAt r (d.compact ++ rest)

theorem Patient.on {r : Reader α} (h : Patient r) (d : Document) : PatientOn r d :=
  fun rest _ ↦ h (d.compact ++ rest)

/-- What is done after a document has been read must be patient wherever it ends. -/
theorem PatientOn.bind {β : Type} {r : Reader α} {f : α → Reader β} {d : Document}
    (h : PatientOn r d) (hf : ∀ a, Patient (f a)) : PatientOn (r >>= f) d :=
  fun rest hrest ↦ (h rest hrest).bind fun a left _ ↦ hf a left

/-- Each round of a loop leaves the text at the next piece, so the loop is patient if each round is
patient at its piece. -/
theorem Loop.patientAt {step : σ → Reader (σ ⊕ α)} {piece : Bool → γ → List Char}
    {isFirst : σ → Bool} {absorbs : γ → σ → σ → Prop} {finish : σ → α} {bracket : Bracket}
    (loop : Loop step piece isFirst absorbs finish bracket) {xs : List γ}
    (hclose : ∀ s rest, PatientAt (step s) (bracket.closing :: rest))
    (hpiece : ∀ x ∈ xs, ∀ s rest, Follows rest → PatientAt (step s) (piece (isFirst s) x ++ rest))
    {start : σ} (hstart : isFirst start = true) (rest : List Char) :
    PatientAt (repeatFrom start step) (piecesFrom piece true xs ++ bracket.closing :: rest) := by
  let inv : σ → List Char → Prop := fun s text ↦
    ∃ ys ⊆ xs, text = piecesFrom piece (isFirst s) ys ++ bracket.closing :: rest
  have hinv : inv start (piecesFrom piece true xs ++ bracket.closing :: rest) :=
    ⟨xs, List.Subset.refl xs, by rw [hstart]⟩
  refine patientAt_repeatFrom inv ?_ ?_ hinv
  · rintro s text ⟨ys, hys, rfl⟩
    cases ys with
    | nil => exact hclose s rest
    | cons y ys =>
      rw [piecesFrom, List.append_assoc]
      exact hpiece y (hys List.mem_cons_self) s _ (loop.follows ys rest)
  · rintro s text next left ⟨ys, hys, rfl⟩ hread
    cases ys with
    | nil =>
      rw [piecesFrom, List.nil_append, loop.closes] at hread
      cases hread
    | cons y ys =>
      rw [piecesFrom, List.append_assoc] at hread
      obtain ⟨⟨_, hnext, heq⟩, rfl⟩ := (loop.takes s y _ (loop.follows ys rest) _ _).mp hread
      obtain rfl := Sum.inl.inj heq
      refine ⟨ys, fun z hz ↦ hys (List.mem_cons_of_mem y hz), ?_⟩
      rw [loop.continues y s _ hnext]

/-- A list is read patiently if its items are. -/
theorem patientAt_items {item : Reader α} {means : Document → α → Prop}
    (h : ∀ d : Document, Decides item d.compact (means d)) {ds : List Document}
    (hitem : ∀ d ∈ ds, PatientOn item d) (rest : List Char) :
    PatientAt (items item) (Document.itemsFrom true ds ++ ']' :: rest) := by
  rw [items_eq, itemsFrom_eq_piecesFrom]
  refine (loop_itemStep h).patientAt ?_ ?_ rfl rest
  · intro done rest
    exact (patient_anotherItem done.isEmpty _).bind_ok (anotherItem_close done.isEmpty rest)
      (patient_pure _ _)
  · intro d hd done rest hrest
    have hmore := anotherItem_value done.isEmpty (d.startsValue_compact.append rest)
    rw [List.append_assoc]
    exact (patient_anotherItem done.isEmpty _).bind_ok hmore ((hitem d hd rest hrest).map _)

/-- An object with known members only is read patiently if the values of its members are. -/
theorem patientAt_members {member : String → σ → Option (Reader σ)}
    {absorbs : String × Document → σ → σ → Prop} (h : Fills member absorbs)
    {entries : List (String × Document)}
    (hknown : ∀ entry ∈ entries, ∀ draft, ∃ read, member entry.1 draft = some read ∧
      ∀ rest, Follows rest → PatientAt read (':' :: (entry.2.compact ++ rest)))
    (start : σ) (rest : List Char) :
    PatientAt (members start member) (Document.membersFrom true entries ++ '\x7d' :: rest) := by
  rw [members_eq, membersFrom_eq_piecesFrom]
  refine (loop_memberStep h).patientAt ?_ ?_ rfl rest
  · intro state rest
    exact (patient_anotherKey state.1 _).bind_ok (anotherKey_close state.1 rest) (patient_pure _ _)
  · intro entry hentry state rest hrest
    obtain ⟨read, hmember, hpatient⟩ := hknown entry hentry state.2
    rw [memberChars, List.append_assoc]
    apply (patient_anotherKey state.1 _).bind_ok (anotherKey_string state.1 entry.1 _)
    dsimp only
    rw [hmember]
    exact (hpatient rest hrest).map _

/-- A record in its object form is patient if its members are read patiently. -/
theorem patientOn_record {title : String} {named positional : Nat → Reader α}
    {entries : List (String × Document)}
    (h : ∀ budget rest,
      PatientAt (named budget) (Document.membersFrom true entries ++ '\x7d' :: rest))
    (budget : Nat) : PatientOn (record title named positional budget) (.object entries) := by
  intro rest _
  rw [compact_object_append]
  apply patientAt_demand_cons (by decide)
  exact patientAt_enclosed patient_closeObject (fun budget ↦ h budget rest) budget '\x7b'

end Json.Reader

namespace Tree

variable {child : Reader (Tree Label)} {childMeans : Document → Tree Label → Prop}

theorem patientOn_childrenReader (h : ∀ d : Document, Decides child d.compact (childMeans d))
    {ds : List Document} (hchild : ∀ d ∈ ds, PatientOn child d) (budget : Nat) :
    PatientOn (childrenReader child budget) (.array ds) := by
  intro rest _
  rw [compact_array_append]
  apply patientAt_demand_cons (by decide)
  exact patientAt_enclosed patient_closeList (fun _ ↦ patientAt_items h hchild rest) budget '['

/-- Label and children are the only members that are written for a node. -/
theorem patientAt_namedNode (h : ∀ d : Document, Decides child d.compact (childMeans d))
    (labelDocument : Document) {ds : List Document} (hchild : ∀ d ∈ ds, PatientOn child d)
    (budget : Nat) (rest : List Char) :
    PatientAt (namedNode Label.reader child budget) (Document.membersFrom true
      [("label", labelDocument), ("children", .array ds)] ++ '\x7d' :: rest) := by
  rw [namedNode_eq]
  apply PatientAt.bind
  · have hfills := fills_nodeMember (fun budget d ↦ Label.decides_reader d budget) h budget
    apply patientAt_members hfills
    intro entry hentry draft
    simp only [List.mem_cons, List.not_mem_nil, or_false] at hentry
    rcases hentry with rfl | rfl
    · refine ⟨_, rfl, fun rest _ ↦ ?_⟩
      exact (patientAt_once (Label.patient_reader budget _)).map _
    · refine ⟨_, rfl, fun rest hrest ↦ ?_⟩
      exact (patientAt_once (patientOn_childrenReader h hchild budget rest hrest)).map _
  · intro draft left _
    apply Patient.bind (patient_required _ _)
    intro l
    exact (patient_required _ _).map _

/-- A node is read patiently if its children are, whatever the budget. -/
theorem patientOn_readerWith_node
    (h : ∀ d : Document, Decides child d.compact (childMeans d)) (l : Label)
    {children : List (Tree Label)}
    (hchild : ∀ t ∈ children, PatientOn child (t.document Label.document)) (budget : Nat) :
    PatientOn (readerWith Label.reader child budget)
      ((node l children).document Label.document) := by
  have hdocuments : ∀ d ∈ children.map (document Label.document), PatientOn child d := by
    intro d hd
    obtain ⟨t, ht, rfl⟩ := List.mem_map.mp hd
    exact hchild t ht
  have hrecord : PatientOn (record "Node" (namedNode Label.reader child)
      (positionalNode Label.reader child) budget) _ :=
    patientOn_record (patientAt_namedNode h l.document hdocuments) budget
  intro rest hrest
  have hnode := hrecord rest hrest
  rw [document, documents_eq_map]
  rw [compact_object_append] at hnode ⊢
  apply patientAt_upcoming_cons (by decide) ⟨_, _, _, rfl⟩
  exact hnode.cons

theorem patientOn_readerWith_empty (budget : Nat) :
    PatientOn (readerWith Label.reader child budget) .null := by
  intro rest _
  apply patientAt_upcoming_cons (by decide) ⟨_, _, _, rfl⟩
  exact ((patient_word _).map _).past 'n' _

/-- Whether the brackets last makes no difference: if they do not, the whole text is not read. -/
theorem patientOn_reader (t : Tree Label) (budget : Nat) :
    PatientOn (Tree.reader Label.reader budget) (t.document Label.document) := by
  induction t generalizing budget with
  | empty =>
    obtain ⟨child, hchild⟩ := exists_reader_eq Label.reader budget
    rw [hchild]
    exact patientOn_readerWith_empty budget
  | node l children ih =>
    have hnone : ∀ d : Document, Decides (failNext (.breach .tooDeep) : Reader (Tree Label))
        d.compact fun _ ↦ False := fun d ↦ decides_none nofun
    match budget with
    | 0 | 1 =>
      exact patientOn_readerWith_node hnone l (fun t _ ↦ (gives_failNext _).patient.on _) _
    | budget + 2 =>
      exact patientOn_readerWith_node (decides_reader budget) l (fun t ht ↦ ih t ht budget) _

end Tree

/-- The shape check comes behind the last bracket, where nothing is left to wait for. -/
theorem Statement.patientOn_reader (s : Statement) (budget : Nat) :
    PatientOn (Statement.reader budget) s.document :=
  (Tree.patientOn_reader s.tree budget).bind fun _ ↦ patient_vetted _

/-- A context is read patiently, one procedure after the other. -/
theorem Context.patientOn_reader (c : Context) (budget : Nat) :
    PatientOn (Context.reader budget) c.document := by
  intro rest _
  rw [document, compact_object_append, membersFrom_eq_piecesFrom]
  apply patientAt_demand_cons (by decide)
  refine patientAt_enclosed patient_closeObject (fun budget ↦ ?_) budget '\x7b'
  rw [procedures_eq]
  refine (loop_procedureStep budget).patientAt ?_ ?_ rfl rest
  · intro state rest
    exact (patient_anotherKey state.1 _).bind_ok (anotherKey_close state.1 rest) (patient_pure _ _)
  · intro member hmember state rest hrest
    obtain ⟨entry, -, rfl⟩ := List.mem_map.mp hmember
    rw [memberChars, List.append_assoc]
    apply (patient_anotherKey state.1 _).bind_ok (anotherKey_string state.1 entry.1.text _)
    apply (patient_vetted _ _).bind
    intro name left hread
    obtain ⟨-, rfl⟩ := vetted_eq_ok_iff.mp hread
    apply (patient_colon _).bind_ok (colon_cons _)
    apply (entry.2.patientOn_reader budget rest hrest).bind
    intro body left _
    split
    · exact (gives_mismatch _).patient left
    · exact patient_pure _ left

namespace Program

theorem patient_completed (draft : Draft) : Patient (completed draft) := by
  apply Patient.bind (patient_required _ _)
  intro name
  dsimp only
  split
  · exact (patient_pure _).map _
  · exact (patient_vetted _).map _

/-- The parts of a program are read patiently, in the order in which they are written. -/
theorem patientOn_partsReader (p : Program) (budget : Nat) :
    PatientOn (partsReader budget) p.document := by
  refine patientOn_record (fun budget rest ↦ ?_) budget
  rw [namedParts_eq]
  apply PatientAt.bind
  · apply patientAt_members (fills_partMember budget)
    intro entry hentry draft
    simp only [List.mem_cons, List.not_mem_nil, or_false] at hentry
    rcases hentry with rfl | rfl | rfl
    · refine ⟨_, rfl, fun rest _ ↦ ?_⟩
      exact (patientAt_once (Identifier.patient_reader _)).map _
    · refine ⟨_, rfl, fun rest hrest ↦ ?_⟩
      exact (patientAt_once (p.context.patientOn_reader budget rest hrest)).map _
    · refine ⟨_, rfl, fun rest hrest ↦ ?_⟩
      exact (patientAt_once (p.body.patientOn_reader budget rest hrest)).map _
  · intro draft left _
    exact patient_completed draft left

theorem patientOn_reader (p : Program) (budget : Nat) :
    PatientOn (Program.reader budget) p.document :=
  (p.patientOn_partsReader budget).bind fun _ ↦ patient_vetted _

end Program

/-! ## Whole texts -/

/-- A front that is read to the end of what the whole text gives would leave the rest of the text
over, but the whole text leaves nothing. -/
theorem Json.unfinished_of_patientAt {α : Type} {reader : Nat → Reader α} {text front : List Char}
    {a : α} (h : PatientAt (reader nestingLimit) text)
    (hread : reader nestingLimit text = .ok (a, [])) (hfront : front <+: text)
    (hne : front ≠ text) :
    ∃ failure, decodeChars reader front = .error failure ∧
      failure.cause.category = .unfinished := by
  obtain ⟨more, hcut⟩ := hfront
  rcases h front more hcut a [] hread with ⟨construct, left, reach, hstop⟩ | ⟨left, hleft, -⟩
  · refine ⟨⟨.unfinished construct, left, some reach⟩, ?_, rfl⟩
    rw [decodeChars, hstop]
    rfl
  · obtain ⟨-, rfl⟩ := List.append_eq_nil_iff.mp hleft.symm
    rw [List.append_nil] at hcut
    exact absurd hcut hne

namespace Program

/-- What is written for a program that is not too high is decoded to it; but if it breaks off
anywhere, however short the front that is left, then this is all that is ever held against it. -/
theorem truncated_text_unfinished (p : Program) (hp : p.Reachable)
    (hbody : p.body.tree.height ≤ 63)
    (hprocedures : ∀ entry ∈ p.context.entries, entry.2.tree.height ≤ 62) :
    Program.decode p.document.toText = .ok p ∧
      ∀ front : String, front.toList <+: p.document.toText.toList → front ≠ p.document.toText →
        ∃ failure, Program.decode front = .error failure ∧
          failure.cause.category = .unfinished := by
  have hfits := fitsWithin_nestingLimit_iff.mpr ⟨hbody, hprocedures⟩
  refine ⟨hp.sound.decode_document hfits, ?_⟩
  intro front hfront hne
  have hpatient := p.patientOn_reader nestingLimit [] follows_nil
  rw [List.append_nil] at hpatient
  rw [Document.toList_toText] at hfront
  apply unfinished_of_patientAt hpatient (hp.sound.read_document hfits) hfront
  intro hfull
  apply hne
  rw [Document.toText, ← hfull, String.ofList_toList]

/-- A text that breaks off inside the guard of a loop, and one of which nothing is left. -/
theorem truncated_text_unfinished_in_guard :
    let steps : List Workspace.Step := [.wrap "s" .random 1, .insert "c" ⟨"walk", by decide⟩ "s",
      .swapContext "p" "c"]
    let p := (Workspace.runAll {} steps).programs.get "p"
    let front := "\x7b\"name\":\"Unnamed\",\"context\":\x7b\"walk\":" ++
      "\x7b\"label\":\"BLOCK\",\"children\":[\x7b\"label\":\x7b\"WHILE\":\"ran"
    (p.Reachable ∧ p.body.tree.height ≤ 63 ∧
      (∀ entry ∈ p.context.entries, entry.2.tree.height ≤ 62) ∧
      front.toList <+: p.document.toText.toList ∧ front ≠ p.document.toText) ∧
    Program.decode p.document.toText = .ok p ∧
      (∃ failure, Program.decode front = .error failure ∧
        failure.cause.category = .unfinished) ∧
      ∃ failure, Program.decode "" = .error failure ∧ failure.cause.category = .unfinished := by
  intro steps p front
  have hp : p.Reachable := ⟨{}, steps, "p", ⟨nofun, nofun, nofun⟩, rfl⟩
  have hbody : p.body.tree.height ≤ 63 := by decide +kernel
  have hprocedures : ∀ entry ∈ p.context.entries, entry.2.tree.height ≤ 62 := by decide +kernel
  have hfront : front.toList <+: p.document.toText.toList := by
    rw [Document.toList_toText]
    decide +kernel
  have hne : front ≠ p.document.toText := by decide +kernel
  obtain ⟨hdecode, hcut⟩ := truncated_text_unfinished p hp hbody hprocedures
  refine ⟨⟨hp, hbody, hprocedures, hfront, hne⟩, hdecode, hcut front hfront hne, ?_⟩
  exact hcut "" List.nil_prefix (by decide +kernel)

end Program

end BLTree
