import BLTree.Proofs.Runs

/-!
# Programs along runs

What is promised of a program, said of the texts, the bytes and the trees in it: names are
identifiers, procedures stand in the order of the bytes of their names and none is named after a
primitive instruction, and the body and every procedure are well-shaped blocks. The promise holds
after every run, wherever the programs come from and whatever is done to statements and contexts
outside of them, because both ways into a program make the same checks.
-/

namespace BLTree

theorem toUTF8_eq_flatMap (text : String) :
    text.toUTF8.data.toList = text.toList.flatMap String.utf8EncodeChar := by
  conv_lhs => rw [String.toUTF8, ← String.ofList_toList (s := text), String.toByteArray_ofList]
  simp [List.utf8Encode]

namespace Identifier

def bytes (name : Identifier) : List UInt8 := name.text.toUTF8.data.toList

theorem toNat_lt_of_isWordChar {c : Char} (h : Vocabulary.isWordChar c = true) : c.toNat < 128 := by
  have hbound : c.toNat ≤ 'Z'.toNat ∨ c.toNat ≤ 'z'.toNat ∨ c.toNat ≤ '9'.toNat ∨ c = '_' := by
    rcases (Bool.or_eq_true _ _).mp h with h | h
    · rcases (Bool.or_eq_true _ _).mp h with h | h
      · rcases (Bool.or_eq_true _ _).mp h with h | h
        · exact .inl (of_decide_eq_true h).2
        · exact .inr (.inl (of_decide_eq_true ((Bool.and_eq_true _ _).mp h).2))
      · exact .inr (.inr (.inl (of_decide_eq_true ((Bool.and_eq_true _ _).mp h).2)))
    · exact .inr (.inr (.inr (beq_iff_eq.mp h)))
  rcases hbound with h | h | h | rfl
  · exact Nat.lt_of_le_of_lt h (by decide)
  · exact Nat.lt_of_le_of_lt h (by decide)
  · exact Nat.lt_of_le_of_lt h (by decide)
  · decide

/-- Letters, digits and underscores take one byte each. -/
theorem toNat_lt (name : Identifier) : ∀ c ∈ name.text.toList, c.toNat < 128 := by
  intro c hc
  exact toNat_lt_of_isWordChar (name.isWordChar_of_mem hc)

/-- All characters of an identifier are ASCII, so each is one byte. -/
theorem bytes_eq_map (name : Identifier) :
    name.bytes = name.text.toList.map fun c ↦ c.val.toUInt8 := by
  have hsingle : ∀ c ∈ name.text.toList, String.utf8EncodeChar c = [c.val.toUInt8] := by
    intro c hc
    apply String.utf8EncodeChar_eq_singleton
    have hlt := name.toNat_lt c hc
    rw [Char.utf8Size_eq_one_iff, UInt32.le_iff_toNat_le]
    exact Nat.le_of_lt_succ hlt
  rw [bytes, toUTF8_eq_flatMap, List.flatMap_congr hsingle, List.map_eq_flatMap]

/-- On ASCII the order of characters is the order of bytes. -/
theorem map_toUInt8_lt {s t : List Char} (hs : ∀ c ∈ s, c.toNat < 128)
    (ht : ∀ c ∈ t, c.toNat < 128) (h : s < t) :
    s.map (fun c ↦ c.val.toUInt8) < t.map fun c ↦ c.val.toUInt8 := by
  induction s generalizing t with
  | nil =>
    cases t with
    | nil => exact absurd h (List.lt_irrefl [])
    | cons d t => exact List.nil_lt_cons _ _
  | cons c s ih =>
    cases t with
    | nil => exact absurd h (List.not_lt_nil _)
    | cons d t =>
      obtain ⟨hc, hs'⟩ := List.forall_mem_cons.mp hs
      obtain ⟨hd, ht'⟩ := List.forall_mem_cons.mp ht
      rw [List.map_cons, List.map_cons, List.cons_lt_cons_iff]
      rcases List.cons_lt_cons_iff.mp h with hlt | ⟨rfl, hlt⟩
      · left
        have hlt : c.toNat < d.toNat := hlt
        rw [UInt8.lt_iff_toNat_lt, UInt32.toNat_toUInt8, UInt32.toNat_toUInt8]
        change c.toNat % 256 < d.toNat % 256
        omega
      · exact .inr ⟨rfl, ih hs' ht' hlt⟩

/-- The order of identifiers is the order of their bytes. -/
theorem bytes_lt {a b : Identifier} (h : a < b) : a.bytes < b.bytes := by
  rw [bytes_eq_map, bytes_eq_map]
  exact map_toUInt8_lt a.toNat_lt b.toNat_lt h

end Identifier

/-- No two names have the same bytes, and they stand in increasing order. -/
theorem Context.pairwise_bytes (c : Context) : (c.names.map Identifier.bytes).Pairwise (· < ·) :=
  List.pairwise_map.mpr (c.pairwise_names.imp Identifier.bytes_lt)

namespace Program

/-- What the body of a program and its procedures are: blocks that the shape check passes as they
are, with every node below fitting its label. -/
structure IsBody (s : Statement) : Prop where
  block : Statement.IsBlock s.tree
  checked : Statement.ofTree s.tree = .ok s
  shape : Statement.WellShaped s.tree

theorem isBody_of_sound {s : Statement} (hs : s.Sound) (hblock : Statement.IsBlock s.tree) :
    IsBody s where
  block := hblock
  checked := Statement.sound_iff_ofTree.mp hs
  shape := hs

structure Lawful (p : Program) : Prop where
  name : Vocabulary.isIdentifier p.name.text = true
  procedureNames : ∀ name ∈ p.context.names,
    Vocabulary.isIdentifier name.text = true ∧ Vocabulary.isPrimitive name.text = false
  increasing : (p.context.names.map Identifier.bytes).Pairwise (· < ·)
  distinct : p.context.names.Nodup
  procedures : ∀ entry ∈ p.context.entries, IsBody entry.2
  body : IsBody p.body

theorem Sound.lawful {p : Program} (hp : p.Sound) : p.Lawful := by
  have hadmissible := checkContext_eq_ok_iff.mp hp.admissible
  have hnames : ∀ name ∈ p.context.names, Vocabulary.isIdentifier name.text = true ∧
      Vocabulary.isPrimitive name.text = false := by
    intro name hname
    obtain ⟨entry, hentry, rfl⟩ := List.mem_map.mp hname
    exact ⟨entry.1.valid, (hadmissible entry hentry).1⟩
  have hprocedures : ∀ entry ∈ p.context.entries, IsBody entry.2 := by
    intro entry hentry
    exact isBody_of_sound (hp.procedures entry hentry) (hadmissible entry hentry).2
  exact {
    name := p.name.valid
    procedureNames := hnames
    increasing := p.context.pairwise_bytes
    distinct := p.context.nodup_names
    procedures := hprocedures
    body := isBody_of_sound hp.body hp.bodyBlock }

/-- Where the programs that a workspace starts with may come from. -/
inductive Supplied : Program → Prop
  | new : Supplied .new
  | decoded {text : String} {p : Program} (h : Program.decode text = .ok p) : Supplied p

theorem Supplied.sound {p : Program} (h : p.Supplied) : p.Sound := by
  cases h with
  | new => exact sound_new
  | decoded h => exact Json.decode_gives gives_reader h

end Program

namespace Workspace

/-- A workspace to start from. Its contexts hold supplied statements of any kind under any names. -/
structure Supplied (w : Workspace) : Prop where
  statements : ∀ entry ∈ w.statements.entries, entry.2.Supplied
  contexts : ∀ entry ∈ w.contexts.entries, ∀ procedure ∈ entry.2.entries, procedure.2.Supplied
  programs : ∀ entry ∈ w.programs.entries, entry.2.Supplied

theorem Supplied.sound {w : Workspace} (h : w.Supplied) : w.Sound where
  statements := Registers.get_of_entries Statement.sound_emptyBlock fun entry hentry ↦
    (h.statements entry hentry).sound
  contexts := Registers.get_of_entries Context.sound_empty fun entry hentry procedure hprocedure ↦
    (h.contexts entry hentry procedure hprocedure).sound
  programs := Registers.get_of_entries Program.sound_new fun entry hentry ↦
    (h.programs entry hentry).sound

/-- After every run from a supplied workspace, through violated contracts and unreadable texts,
every program keeps what is promised of it. -/
theorem programs_lawful_along_runs (w : Workspace) (hw : w.Supplied) (steps : List Step)
    (name : String) : ((runAll w steps).programs.get name).Lawful :=
  ((sound_runAll hw.sound steps).programs name).lawful

/-- A context with a procedure named after a primitive instruction and one that is no block. -/
def mixedContext : Context :=
  (Context.empty.insert ⟨"move", by decide⟩ .emptyBlock).insert ⟨"spin", by decide⟩
    ⟨.node (.whileDo .random) [.node .block []]⟩

/-- A program refuses a mixed context twice, takes it over once both of its procedures are gone, and
refuses a body that is no block. -/
theorem programs_lawful_after_refused_swaps :
    let w : Workspace := { contexts := ⟨[("c", mixedContext)]⟩ }
    let steps : List Step := [.swapContext "p" "c", .delete "c" "move" "m", .swapContext "p" "c",
      .delete "c" "spin" "s", .insert "c" ⟨"walk", by decide⟩ "m", .swapContext "p" "c",
      .swapBody "p" "s"]
    w.Supplied ∧ ((runAll w steps).programs.get "p").Lawful ∧
      ((runAll w steps).programs.get "p").context.names.map Identifier.text = ["walk"] := by
  intro w steps
  have hsupplied : w.Supplied := {
    statements := nofun
    contexts := by
      intro entry hentry procedure hprocedure
      obtain rfl := List.mem_singleton.mp hentry
      rcases List.mem_cons.mp hprocedure with rfl | hprocedure
      · exact .new
      · obtain rfl := List.mem_singleton.mp hprocedure
        exact .checked (t := .node (.whileDo .random) [.node .block []]) rfl
    programs := nofun }
  exact ⟨hsupplied, programs_lawful_along_runs w hsupplied steps "p", by decide⟩

end Workspace

end BLTree
