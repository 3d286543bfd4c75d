import BLTree.Position
import Mathlib.Data.List.DropRight

/-!
# From positions back to offsets

The bytes before a place are whole lines, each with its newline, followed by the front of the line
that the place is on. The whole lines are as many as there are newlines, so that cutting the text
into lines and taking that many of them gives the same bytes again. This is why going from an
offset to its position and back loses nothing but the step onto the last byte that was read.
-/

namespace BLTree.Position

/-- The bytes are whole lines: none at all, or the last one is a newline. -/
def WholeLines (bytes : List UInt8) : Prop := ∀ byte ∈ bytes.getLast?, byte = newline

theorem wholeLines_cons {byte : UInt8} {others : List UInt8} (h : WholeLines (byte :: others)) :
    WholeLines others ∧ (others = [] → byte = newline) := by
  cases others with
  | nil => exact ⟨nofun, fun _ ↦ h byte rfl⟩
  | cons next others =>
    refine ⟨?_, nofun⟩
    intro last hlast
    exact h last (by rwa [List.getLast?_cons_cons])

theorem lines_newline (bytes : List UInt8) :
    lines (newline :: bytes) = [newline] :: lines bytes := by
  rw [lines, if_pos rfl]

theorem lines_ne_nil {bytes : List UInt8} (h : bytes ≠ []) : lines bytes ≠ [] := by
  cases bytes with
  | nil => exact absurd rfl h
  | cons byte others =>
    rw [lines]
    split
    · exact List.cons_ne_nil _ _
    · split
      · exact List.cons_ne_nil _ _
      · exact List.cons_ne_nil _ _

/-- A byte that is no newline belongs to the line behind it. -/
theorem lines_cons {byte : UInt8} (hbyte : byte ≠ newline) {bytes line : List UInt8}
    {following : List (List UInt8)} (h : lines bytes = line :: following) :
    lines (byte :: bytes) = (byte :: line) :: following := by
  rw [lines, if_neg hbyte, h]

/-- Cutting loses no byte. -/
theorem flatten_lines (bytes : List UInt8) : (lines bytes).flatten = bytes := by
  induction bytes with
  | nil => rfl
  | cons byte others ih =>
    by_cases hbyte : byte = newline
    · subst hbyte
      rw [lines_newline, List.flatten_cons, ih]
      rfl
    · cases hlines : lines others with
      | nil =>
        rw [hlines] at ih
        rw [lines, if_neg hbyte, hlines, ← ih]
        rfl
      | cons line following =>
        rw [hlines] at ih
        rw [lines_cons hbyte hlines, ← ih]
        rfl

/-- Behind whole lines the cutting starts anew. -/
theorem lines_append {above : List UInt8} (h : WholeLines above) (rest : List UInt8) :
    lines (above ++ rest) = lines above ++ lines rest := by
  induction above with
  | nil => rfl
  | cons byte others ih =>
    obtain ⟨hothers, hlast⟩ := wholeLines_cons h
    have hrest := ih hothers
    by_cases hbyte : byte = newline
    · subst hbyte
      rw [List.cons_append, lines_newline, lines_newline, hrest, List.cons_append]
    · have hne : others ≠ [] := fun hnil ↦ hbyte (hlast hnil)
      obtain ⟨line, following, hlines⟩ := List.exists_cons_of_ne_nil (lines_ne_nil hne)
      rw [hlines, List.cons_append] at hrest
      rw [List.cons_append, lines_cons hbyte hrest, lines_cons hbyte hlines, List.cons_append]

/-- Whole lines are as many as there are newlines. -/
theorem length_lines {above : List UInt8} (h : WholeLines above) :
    (lines above).length = above.count newline := by
  induction above with
  | nil => rfl
  | cons byte others ih =>
    obtain ⟨hothers, hlast⟩ := wholeLines_cons h
    have hlength := ih hothers
    by_cases hbyte : byte = newline
    · subst hbyte
      rw [lines_newline, List.length_cons, List.count_cons_self, hlength]
    · have hne : others ≠ [] := fun hnil ↦ hbyte (hlast hnil)
      obtain ⟨line, following, hlines⟩ := List.exists_cons_of_ne_nil (lines_ne_nil hne)
      rw [hlines, List.length_cons] at hlength
      rw [lines_cons hbyte hlines, List.count_cons_of_ne hbyte, List.length_cons, hlength]

/-- The first whole lines of a text are found again by counting newlines. -/
theorem flatten_take_lines {above : List UInt8} (h : WholeLines above) (rest : List UInt8) :
    ((lines (above ++ rest)).take (above.count newline)).flatten = above := by
  rw [lines_append h, ← length_lines h, List.take_left', flatten_lines]
  rfl

/-- The bytes before a place, cut before the line that the place is on. -/
structure CutAtLine (before above line : List UInt8) : Prop where
  eq : before = above ++ line
  whole : WholeLines above
  inLine : newline ∉ line

/-- Any text can be cut behind its last newline. -/
theorem exists_cutAtLine (before : List UInt8) : ∃ above line, CutAtLine before above line := by
  -- The cut is made from the back, behind the last newline.
  let inLine : UInt8 → Bool := fun byte ↦ byte != newline
  refine ⟨before.rdropWhile inLine, before.rtakeWhile inLine, ?_, ?_, ?_⟩
  · exact (List.rdropWhile_append_rtakeWhile).symm
  · intro byte hbyte
    obtain ⟨hne, rfl⟩ := List.mem_getLast?_eq_getLast hbyte
    have hlast := List.rdropWhile_last_not inLine before hne
    simpa [inLine] using hlast
  · intro hnewline
    have hin := List.mem_rtakeWhile_imp hnewline
    simp [inLine] at hin

variable {bytes before above line : List UInt8}

theorem CutAtLine.count_newline (h : CutAtLine before above line) :
    before.count newline = above.count newline := by
  rw [h.eq, List.count_append, List.count_eq_zero_of_not_mem h.inLine, Nat.add_zero]

theorem CutAtLine.length_takeWhile (h : CutAtLine before above line) :
    (before.reverse.takeWhile (· != newline)).length = line.length := by
  have hline : ∀ byte ∈ line.reverse, (byte != newline) = true := by
    intro byte hbyte
    rw [bne_iff_ne]
    rintro rfl
    exact h.inLine (List.mem_reverse.mp hbyte)
  have habove : above.reverse.takeWhile (· != newline) = [] := by
    cases hreverse : above.reverse with
    | nil => rfl
    | cons byte others =>
      have hlast : above.getLast? = some byte := by
        rw [← List.head?_reverse, hreverse, List.head?_cons]
      have hbyte := h.whole byte hlast
      exact List.takeWhile_cons_of_neg (by simp [hbyte])
  rw [h.eq, List.reverse_append, List.takeWhile_append_of_pos hline, habove, List.append_nil,
    List.length_reverse]

/-- The position counts the newlines above and the bytes of the line. -/
theorem CutAtLine.ofOffset_eq {i : Nat} (h : CutAtLine (bytes.take i) above line) :
    ofOffset bytes i = ⟨1 + above.count newline, line.length⟩ := by
  rw [ofOffset, h.count_newline, h.length_takeWhile]

theorem CutAtLine.bytes_eq {i : Nat} (h : CutAtLine (bytes.take i) above line) :
    bytes = above ++ (line ++ bytes.drop i) := by
  rw [← List.append_assoc, ← h.eq, List.take_append_drop]

theorem CutAtLine.length_eq {i : Nat} (h : CutAtLine (bytes.take i) above line)
    (hi : i ≤ bytes.length) : above.length + line.length = i := by
  have hlength := congrArg List.length h.eq
  rw [List.length_take_of_le hi, List.length_append] at hlength
  exact hlength.symm

/-- The way back leads to the last byte before the position, or to the start of its line. -/
theorem CutAtLine.offset_eq {i : Nat} (h : CutAtLine (bytes.take i) above line)
    (hi : i ≤ bytes.length) :
    (ofOffset bytes i).offset bytes = above.length + (line.length - 1) := by
  have habove : ((lines bytes).take (above.count newline)).flatten = above := by
    conv_lhs => rw [h.bytes_eq]
    exact flatten_take_lines h.whole _
  have hlength := h.length_eq hi
  rw [h.ofOffset_eq, offset]
  simp only [Nat.add_sub_cancel_left, habove]
  omega

/-- One byte back from inside a line is still in that line. -/
theorem CutAtLine.dropLast {i : Nat} (h : CutAtLine (bytes.take i) above line) :
    CutAtLine (bytes.take (above.length + (line.length - 1))) above line.dropLast := by
  refine ⟨?_, h.whole, fun hmem ↦ h.inLine (line.dropLast_subset hmem)⟩
  conv_lhs => rw [h.bytes_eq]
  rw [List.take_length_add_append, List.take_append_of_le_length (Nat.sub_le _ _),
    List.dropLast_eq_take]

theorem offset_le (bytes : List UInt8) (place : Position) : place.offset bytes ≤ bytes.length :=
  Nat.min_le_right _ _

/-- The position of an offset leads back to the last byte before it, or to the offset itself where a
line starts. Either way it stays on the line, and no position at all leads beyond the text. -/
theorem offset_inverts_ofOffset (bytes : List UInt8) (i : Nat) (hi : i ≤ bytes.length) :
    let place := ofOffset bytes i
    place.offset bytes = (if 0 < place.column then i - 1 else i) ∧
      (ofOffset bytes (place.offset bytes)).line = place.line ∧
      ∀ other : Position, other.offset bytes ≤ bytes.length := by
  intro place
  obtain ⟨above, line, hcut⟩ := exists_cutAtLine (bytes.take i)
  have hplace : place = ⟨1 + above.count newline, line.length⟩ := hcut.ofOffset_eq
  have hoffset : place.offset bytes = above.length + (line.length - 1) := hcut.offset_eq hi
  have hlength := hcut.length_eq hi
  refine ⟨?_, ?_, offset_le bytes⟩
  · rw [hoffset, hplace]
    dsimp only
    split
    · omega
    · omega
  · rw [hoffset, hcut.dropLast.ofOffset_eq, hplace]

/-- An accented letter of two bytes, a line that ends in a carriage return and a newline, an empty
line and one without a newline: behind the letter, behind the first newline, and at the end. -/
theorem offset_inverts_ofOffset_in_mixed_text :
    let bytes := "é\r\n\nx".toUTF8.data.toList
    (2 ≤ bytes.length ∧ ofOffset bytes 2 = ⟨1, 2⟩ ∧ offset bytes ⟨1, 2⟩ = 1) ∧
    (4 ≤ bytes.length ∧ ofOffset bytes 4 = ⟨2, 0⟩ ∧ offset bytes ⟨2, 0⟩ = 4) ∧
    (6 ≤ bytes.length ∧ ofOffset bytes 6 = ⟨3, 1⟩ ∧ offset bytes ⟨3, 1⟩ = 5) := by
  intro bytes
  have hletter : 2 ≤ bytes.length := by decide
  have hnewline : 4 ≤ bytes.length := by decide
  have hend : 6 ≤ bytes.length := by decide
  exact ⟨⟨hletter, rfl, (offset_inverts_ofOffset bytes 2 hletter).1⟩,
    ⟨hnewline, rfl, (offset_inverts_ofOffset bytes 4 hnewline).1⟩,
    ⟨hend, rfl, (offset_inverts_ofOffset bytes 6 hend).1⟩⟩

end BLTree.Position
