import BLTree.Load
import BLTree.Proofs.Json.Skipping
import BLTree.Proofs.ProgramRuns
import Mathlib.Data.List.TakeWhile

/-!
# Places in a text of one line

The compact text of a document has no newline in it, since those inside of strings are escaped. The
place of a failure in such a text is on the first line, behind as many bytes as had been read, so
that two failures are reported in the same words if they have the same cause and leave equally many
bytes of equally long texts.
-/

namespace BLTree

namespace Json

/-- The order of characters does not matter for how many bytes they take. -/
theorem byteLength_perm {text text' : List Char} (h : text.Perm text') :
    byteLength text = byteLength text' := by
  induction h with
  | nil => rfl
  | cons c _ ih => rw [byteLength, byteLength, ih]
  | swap c d text =>
    simp only [byteLength]
    omega
  | trans _ _ ih ih' => rw [ih, ih']

theorem byteLength_append (text more : List Char) :
    byteLength (text ++ more) = byteLength text + byteLength more := by
  induction text with
  | nil => exact (Nat.zero_add _).symm
  | cons c text ih => rw [List.cons_append, byteLength, byteLength, ih, Nat.add_assoc]

theorem byteLength_pos {text : List Char} (h : text ≠ []) : 0 < byteLength text := by
  obtain ⟨c, others, rfl⟩ := List.exists_cons_of_ne_nil h
  exact Nat.add_pos_left c.utf8Size_pos _

end Json

/-- In UTF-8 the byte of a newline stands for nothing else. -/
theorem newline_notMem_utf8EncodeChar {c : Char} (h : c ≠ '\n') :
    Position.newline ∉ String.utf8EncodeChar c := by
  have hval : c.val.toNat ≠ 10 := by
    intro hval
    apply h
    apply Char.ext
    apply UInt32.toNat_inj.mp
    exact hval
  have hbyte (n : Nat) (hn : n % 256 ≠ 10) : Position.newline ≠ UInt8.ofNat n := by
    intro heq
    have hnat := congrArg UInt8.toNat heq
    rw [UInt8.toNat_ofNat'] at hnat
    exact hn hnat.symm
  unfold String.utf8EncodeChar
  dsimp only
  split
  · rw [List.mem_singleton]
    apply hbyte
    omega
  · split
    · simp only [List.mem_cons, List.not_mem_nil, or_false, not_or]
      refine ⟨hbyte _ ?_, hbyte _ ?_⟩ <;> omega
    · split
      · simp only [List.mem_cons, List.not_mem_nil, or_false, not_or]
        refine ⟨hbyte _ ?_, hbyte _ ?_, hbyte _ ?_⟩ <;> omega
      · simp only [List.mem_cons, List.not_mem_nil, or_false, not_or]
        refine ⟨hbyte _ ?_, hbyte _ ?_, hbyte _ ?_, hbyte _ ?_⟩ <;> omega

namespace Json

/-- A newline in a string is written with an escape. -/
theorem newline_notMem_escaped (c : Char) : '\n' ∉ escaped c := by
  unfold escaped
  split
  iterate 7 decide
  split
  · rename_i hlow
    have hdigit (n : Nat) (hn : n < 16) : '\n' ≠ Nat.digitChar n := by
      revert n
      decide
    simp only [List.mem_cons, List.not_mem_nil, or_false, not_or]
    refine ⟨by decide, by decide, by decide, by decide, hdigit _ ?_, hdigit _ ?_⟩ <;> omega
  · rename_i hnewline _ _ _
    rw [List.mem_singleton]
    exact fun h ↦ hnewline h.symm

theorem newline_notMem_stringChars (text : String) : '\n' ∉ stringChars text := by
  simp [stringChars, newline_notMem_escaped]

theorem newline_notMem_toDigits (n : Nat) : '\n' ∉ Nat.toDigits 10 n := by
  intro h
  have hdigit := Nat.isDigit_of_mem_toDigits (by decide) (by decide) h
  simp at hdigit

theorem newline_notMem_chars (value : Numeral) : '\n' ∉ value.chars := by
  have hsign (negative : Prop) [Decidable negative] : '\n' ∉ if negative then ['-'] else [] := by
    split <;> decide
  have hexponent : '\n' ∉ Reader.exponentChars value.exponent := by
    cases value.exponent with
    | none => decide
    | some e => simp [Reader.exponentChars, intChars, hsign, newline_notMem_toDigits]
  have hpoint : '\n' ∉ Reader.placeChars value.places := by
    unfold Reader.placeChars
    split
    · decide
    · simp
  have hchars : value.chars = (if value.negative = true then ['-'] else []) ++
      Nat.toDigits 10 value.whole ++ Reader.placeChars value.places ++
        Reader.exponentChars value.exponent := rfl
  rw [hchars]
  simp [hsign, newline_notMem_toDigits, hpoint, hexponent]

namespace Document

theorem newline_notMem_itemsFrom {items : List Document}
    (h : ∀ item ∈ items, '\n' ∉ item.compact) (first : Bool) : '\n' ∉ itemsFrom first items := by
  induction items generalizing first with
  | nil => exact List.not_mem_nil
  | cons item items ih =>
    obtain ⟨hitem, hitems⟩ := List.forall_mem_cons.mp h
    cases first <;> simp [itemsFrom, Reader.separator, hitem, ih hitems]

theorem newline_notMem_membersFrom {members : List (String × Document)}
    (h : ∀ member ∈ members, '\n' ∉ member.2.compact) (first : Bool) :
    '\n' ∉ membersFrom first members := by
  induction members generalizing first with
  | nil => exact List.not_mem_nil
  | cons member members ih =>
    obtain ⟨hmember, hmembers⟩ := List.forall_mem_cons.mp h
    cases first <;>
      simp [membersFrom, Reader.separator, newline_notMem_stringChars, hmember, ih hmembers]

/-- The compact text of a document is one line, by induction over the document. -/
theorem newline_notMem_compact (d : Document) : '\n' ∉ d.compact := by
  induction d using Document.induct with
  | null => decide
  | boolean value => cases value <;> decide
  | number value =>
    rw [compact]
    exact newline_notMem_chars value
  | string value =>
    rw [compact]
    exact newline_notMem_stringChars value
  | array items ih =>
    rw [compact, compactItems_eq]
    simp [newline_notMem_itemsFrom ih]
  | object members ih =>
    rw [compact, compactMembers_eq]
    simp [newline_notMem_membersFrom ih]

end Document

end Json

namespace Position

/-- In one line, positions are columns. -/
theorem ofOffset_of_one_line {bytes : List UInt8} (h : newline ∉ bytes) (offset : Nat) :
    ofOffset bytes offset = ⟨1, min offset bytes.length⟩ := by
  have hbefore : newline ∉ bytes.take offset := fun hmem ↦ h (List.mem_of_mem_take hmem)
  have hline : ∀ byte ∈ (bytes.take offset).reverse, (byte != newline) = true := by
    intro byte hbyte
    rw [bne_iff_ne]
    intro heq
    rw [heq, List.mem_reverse] at hbyte
    exact hbefore hbyte
  rw [ofOffset, List.count_eq_zero_of_not_mem hbefore, List.takeWhile_eq_self_iff.mpr hline,
    List.length_reverse, List.length_take]

theorem offset_of_first_line (bytes : List UInt8) {p : Position} (h : p.line ≤ 1) :
    p.offset bytes = min (p.column - 1) bytes.length := by
  have habove : p.line - 1 = 0 := by omega
  simp [offset, habove]

end Position

namespace Json.Failure

/-- A text without a newline has none among its bytes. -/
theorem newline_notMem_bytes {text : String} (h : '\n' ∉ text.toList) :
    Position.newline ∉ text.toUTF8.data.toList := by
  rw [toUTF8_eq_flatMap, List.mem_flatMap]
  intro hmem
  obtain ⟨c, hc, hbyte⟩ := hmem
  have hne : c ≠ '\n' := fun heq ↦ h (heq ▸ hc)
  exact newline_notMem_utf8EncodeChar hne hbyte

/-- The bytes of a text are as many as its characters take. -/
theorem length_bytes (text : String) : text.toUTF8.data.toList.length = byteLength text.toList := by
  rw [toUTF8_eq_flatMap]
  induction text.toList with
  | nil => rfl
  | cons c others ih =>
    rw [List.flatMap_cons, List.length_append, ih, String.length_utf8EncodeChar, byteLength]

/-- In a text of one line the column is the number of bytes before the failure. -/
theorem position?_of_one_line {text : String} (h : '\n' ∉ text.toList) (failure : Failure) :
    failure.position? text = (failure.offset? text.toList).map fun offset ↦
      ⟨1, min offset (byteLength text.toList)⟩ := by
  rw [position?]
  congr 1
  funext offset
  rw [Position.ofOffset_of_one_line (newline_notMem_bytes h), length_bytes]

/-- In texts of one line with the same characters, failures are reported alike if they have the same
cause and leave equally many bytes. -/
theorem report_congr {failure failure' : Failure} {text text' : String}
    (hcause : failure.cause = failure'.cause) (hreach : failure.reach = failure'.reach)
    (hrest : byteLength failure.rest = byteLength failure'.rest)
    (hperm : text.toList.Perm text'.toList) (hline : '\n' ∉ text.toList) :
    failure.reason text = failure'.reason text' ∧
      failure.labelOffset text = failure'.labelOffset text' := by
  have hline' : '\n' ∉ text'.toList := fun h ↦ hline (hperm.mem_iff.mpr h)
  have hlength := byteLength_perm hperm
  have hposition : failure.position? text = failure'.position? text' := by
    rw [position?_of_one_line hline, position?_of_one_line hline', offset?, offset?, hreach, hrest,
      hlength]
  have hfirst : ((failure'.position? text').getD ⟨0, 0⟩).line ≤ 1 := by
    rw [position?_of_one_line hline']
    cases failure'.offset? text'.toList with
    | none => exact Nat.zero_le 1
    | some offset => exact Nat.le_refl 1
  constructor
  · rw [reason, reason, hcause, hposition]
  · rw [labelOffset, labelOffset, hposition, Position.offset_of_first_line _ hfirst,
      Position.offset_of_first_line _ hfirst, length_bytes, length_bytes, hlength]

/-- In texts of one line with the same characters, a failure that leaves more than another is
reported with another column. -/
theorem reason_ne {cause : Cause} {front left more rest : List Char} {text text' : String}
    (hfront : front ≠ []) (hmore : more ≠ []) (hrest : rest ≠ [])
    (htext' : text'.toList = front ++ (left ++ rest)) (hperm : text.toList.Perm text'.toList)
    (hline : '\n' ∉ text.toList) :
    reason ⟨cause, left ++ (more ++ rest), some 1⟩ text ≠
      reason ⟨cause, left ++ rest, some 1⟩ text' := by
  have hline' : '\n' ∉ text'.toList := fun h ↦ hline (hperm.mem_iff.mpr h)
  have hlength : byteLength text'.toList =
      byteLength front + (byteLength left + byteLength rest) := by
    rw [htext', byteLength_append, byteLength_append]
  have hbefore := byteLength_pos hfront
  have hbetween := byteLength_pos hmore
  have hbehind := byteLength_pos hrest
  intro heq
  simp only [reason, position?_of_one_line hline, position?_of_one_line hline', offset?,
    byteLength_perm hperm, byteLength_append, Option.map_some] at heq
  have hcolumn := eq_of_toString_eq
    ((String.append_right_inj _).mp ((String.append_right_inj _).mp heq))
  omega

end Json.Failure

end BLTree
