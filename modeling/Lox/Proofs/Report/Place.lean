import Lox.Proofs.Text.Encoding
import Lox.Report

/-!
# Places in a source

A source is a list of lines, and the offset of a line is the sum of the lines before it with their
line feeds. An offset of the source belongs to the line whose number is that of the line feeds
before it: what stands before the offset on this line ends the bytes up to the offset
(`lineOffset_add`), and what stands after it goes up to the next line feed (`getElem?_sourceLines`).

An offset is a **boundary** if it stands between two characters. In a text that is valid these are
the offsets of the bytes that continue no character (`IsBoundary.isTail_eq_false`), so decoding can
be cut there.
-/

namespace Lox

/-! ## Lines -/

/-- The lines of a source, without the line feeds that end them. -/
def sourceLines (source : Text) : List Text := List.splitOn 0x0A source

/-- The offset of the first byte of a line, where lines are counted from zero. -/
def lineOffset (source : Text) (i : Nat) : Nat :=
  (((sourceLines source).take i).map (·.length + 1)).sum

theorem sourceLines_cons (b : UInt8) (rest : Text) :
    sourceLines (b :: rest) =
      if b == 0x0A then [] :: sourceLines rest else (sourceLines rest).modifyHead (List.cons b) :=
  @List.splitOnP_cons_eq_if_modifyHead _ (· == 0x0A) b rest

theorem sourceLines_ne_nil (source : Text) : sourceLines source ≠ [] :=
  List.splitOn_ne_nil 0x0A source

/-- A line feed ends a line. -/
theorem sourceLines_append (above below : Text) :
    sourceLines (above ++ 0x0A :: below) = sourceLines above ++ sourceLines below :=
  List.splitOn_append_cons_self above below

/-- The first line goes up to the first line feed. -/
theorem head?_sourceLines (source : Text) :
    (sourceLines source).head? = some (source.takeWhile (· != 0x0A)) := by
  induction source with
  | nil => rfl
  | cons b rest ih =>
    rw [sourceLines_cons, List.takeWhile_cons]
    by_cases hb : b = 0x0A
    · simp [hb]
    · rw [if_neg (by simpa using hb), List.head?_modifyHead, ih]
      simp [hb]

/-- There is one more line than there are line feeds. -/
theorem length_sourceLines (source : Text) :
    (sourceLines source).length = List.count 0x0A source + 1 := by
  induction source with
  | nil => rfl
  | cons b rest ih =>
    rw [sourceLines_cons, List.count_cons]
    split <;> simp [ih]

/-- The lines with their line feeds are as long as the source with one more. -/
theorem sum_sourceLines (source : Text) :
    ((sourceLines source).map (·.length + 1)).sum = source.length + 1 := by
  induction source with
  | nil => rfl
  | cons b rest ih =>
    rw [sourceLines_cons]
    split
    · rw [List.map_cons, List.sum_cons, ih]
      simp
      omega
    · obtain ⟨first, more, hlines⟩ := List.exists_cons_of_ne_nil (sourceLines_ne_nil rest)
      rw [hlines] at ih ⊢
      simp only [List.modifyHead_cons, List.map_cons, List.sum_cons, List.length_cons] at ih ⊢
      omega

/-! ## The line of an offset -/

/-- What stands after the last line feed of a text has none, and only a line feed stands before
it. -/
theorem afterLastBreak_cases (t : Text) :
    0x0A ∉ afterLastBreak t ∧
      (t = afterLastBreak t ∨ ∃ above, t = above ++ 0x0A :: afterLastBreak t) := by
  have hsplit : t = (t.reverse.dropWhile (· != 0x0A)).reverse ++ afterLastBreak t := by
    rw [afterLastBreak, ← List.reverse_append, List.takeWhile_append_dropWhile,
      List.reverse_reverse]
  refine ⟨fun hmem => ?_, ?_⟩
  · rw [afterLastBreak, List.mem_reverse] at hmem
    simpa using List.mem_takeWhile_imp hmem
  · cases hdrop : t.reverse.dropWhile (· != 0x0A) with
    | nil =>
      rw [hdrop] at hsplit
      exact .inl hsplit
    | cons b above =>
      have hb : b = 0x0A := by
        have hstop := List.head?_dropWhile_not (· != 0x0A) t.reverse
        rw [hdrop] at hstop
        simpa using hstop
      rw [hdrop, hb, List.reverse_cons, List.append_assoc] at hsplit
      exact .inr ⟨above.reverse, hsplit⟩

section Offset

variable (source : Text) (o : Nat)

/-- The lines above an offset are all there is before it, or are ended by a line feed. -/
theorem above_cases :
    (source.take o = afterLastBreak (source.take o) ∧ List.count 0x0A (source.take o) = 0) ∨
      ∃ above, source.take o = above ++ 0x0A :: afterLastBreak (source.take o) ∧
        List.count 0x0A (source.take o) = (sourceLines above).length ∧
        sourceLines source = sourceLines above ++
          sourceLines (afterLastBreak (source.take o) ++ source.drop o) := by
  obtain ⟨hnone, hfirst | ⟨above, habove⟩⟩ := afterLastBreak_cases (source.take o)
  · exact .inl ⟨hfirst, List.count_eq_zero_of_not_mem (hfirst ▸ hnone)⟩
  · refine .inr ⟨above, habove, ?_, ?_⟩
    · rw [habove, List.count_append, List.count_cons_self, List.count_eq_zero_of_not_mem hnone,
        length_sourceLines, Nat.zero_add]
    · conv_lhs => rw [← List.take_append_drop o source, habove]
      rw [List.append_assoc, List.cons_append, sourceLines_append]

/-- The line of an offset starts as many bytes before it as stand after the last line feed. -/
theorem lineOffset_add (ho : o ≤ source.length) :
    lineOffset source (List.count 0x0A (source.take o)) +
      (afterLastBreak (source.take o)).length = o := by
  have hlength : (source.take o).length = o := List.length_take_of_le ho
  rcases above_cases source o with ⟨hfirst, hcount⟩ | ⟨above, habove, hcount, hlines⟩
  · rw [hcount, ← hfirst, hlength]
    simp [lineOffset]
  · have hoffset := congrArg List.length habove
    rw [List.length_append, List.length_cons, hlength] at hoffset
    rw [lineOffset, hcount, hlines, List.take_left, sum_sourceLines]
    omega

/-- The line of an offset is what stands after the last line feed before it, and what stands before
the next. -/
theorem getElem?_sourceLines :
    (sourceLines source)[List.count 0x0A (source.take o)]? =
      some (afterLastBreak (source.take o) ++ (source.drop o).takeWhile (· != 0x0A)) := by
  have hpass : ∀ b ∈ afterLastBreak (source.take o), (b != 0x0A) = true := by
    intro b hb
    simpa using fun h : b = 0x0A => (afterLastBreak_cases (source.take o)).1 (h ▸ hb)
  have hhead : (sourceLines (afterLastBreak (source.take o) ++ source.drop o))[0]? =
      some (afterLastBreak (source.take o) ++ (source.drop o).takeWhile (· != 0x0A)) := by
    rw [← List.head?_eq_getElem?, head?_sourceLines, List.takeWhile_append_of_pos hpass]
  rcases above_cases source o with ⟨hfirst, hcount⟩ | ⟨above, -, hcount, hlines⟩
  · rw [← hfirst, List.take_append_drop] at hhead
    rw [hcount, hhead, ← hfirst]
  · rw [hcount, hlines, List.getElem?_append_right (Nat.le_refl _), Nat.sub_self, hhead]

theorem getD_sourceLines :
    (sourceLines source).getD (List.count 0x0A (source.take o)) [] =
      afterLastBreak (source.take o) ++ (source.drop o).takeWhile (· != 0x0A) := by
  rw [List.getD_eq_getElem?_getD, getElem?_sourceLines]
  rfl

/-- What stands before an offset on its line. -/
theorem drop_lineOffset (ho : o ≤ source.length) :
    (source.take o).drop (lineOffset source (List.count 0x0A (source.take o))) =
      afterLastBreak (source.take o) := by
  have hsuffix : afterLastBreak (source.take o) <:+ source.take o := by
    rw [← List.reverse_prefix, afterLastBreak, List.reverse_reverse]
    exact List.takeWhile_prefix _
  have hstart := lineOffset_add source o ho
  rw [List.suffix_iff_eq_drop.mp hsuffix, List.length_take_of_le ho]
  congr 1
  omega

/-- The place of an offset is told by its line and by what stands before it there. -/
theorem placeOf_eq :
    placeOf source o =
      ⟨List.count 0x0A (source.take o) + 1, Text.count (afterLastBreak (source.take o)) + 1,
      Text.dropEndWhile (· == 0x0D)
        ((sourceLines source).getD (List.count 0x0A (source.take o)) [])⟩ := by
  rw [getD_sourceLines]
  rfl

end Offset

/-! ## Boundaries -/

namespace Text

/-- An offset stands between two characters of a text, or at one of its ends. -/
def IsBoundary (t : Text) (o : Nat) : Prop :=
  ∃ before after, t.decode = before ++ after ∧ (Scalar.text before).length = o

variable {t : Text} {o : Nat}

theorem IsBoundary.le_length (h : t.IsBoundary o) : o ≤ t.length := by
  obtain ⟨before, after, hsplit, rfl⟩ := h
  rw [← text_decode t, hsplit, Scalar.text_append, List.length_append]
  omega

/-- In a valid text no byte that continues a character stands at a boundary. -/
theorem IsBoundary.isTail_eq_false (h : t.IsBoundary o) (hvalid : t.isValid = true) {b : UInt8}
    (hb : t[o]? = some b) : Scalar.isTail b = false := by
  obtain ⟨before, after, hsplit, rfl⟩ := h
  have ht : t = Scalar.text before ++ Scalar.text after := by
    rw [← Scalar.text_append, ← hsplit, text_decode]
  cases after with
  | nil =>
    rw [ht] at hb
    simp at hb
  | cons s after =>
    have hs : s ∈ t.decode := by
      rw [hsplit]
      exact List.mem_append_right _ List.mem_cons_self
    have hgood : s.isBad = false := by simpa using List.all_eq_true.mp hvalid s hs
    rcases Scalar.spelled_of_mem_decode hs with hspelled | ⟨bad, rfl⟩
    · obtain ⟨a, tail, hencode, hlead, -⟩ := Scalar.first_encode s.char []
      rw [ht, List.getElem?_append_right (Nat.le_refl _), Nat.sub_self, Scalar.text_cons, hspelled,
        hencode] at hb
      cases hb
      exact hlead
    · simp [Scalar.isBad, Scalar.width] at hgood

/-- Decoding can be cut before what starts with no byte that continues a character. -/
theorem decode_append_of_head {t after : Text}
    (h : ∀ b, after.head? = some b → Scalar.isTail b = false) :
    decode (t ++ after) = decode t ++ decode after := by
  cases after with
  | nil => simp
  | cons b after => exact decode_append (h b rfl) t after

end Text

end Lox
