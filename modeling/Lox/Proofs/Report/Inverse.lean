import Lox.Proofs.Report.Carets
import Mathlib.Data.Prod.Lex
import Mathlib.Order.Monotone.Defs

/-!
# From places back to offsets

A line and a column tell an offset: that of the line, and the characters of the line that the column
passes over (`offsetOf`). For a boundary of a valid source this leads back to where the place was
taken (`offsetOf_placeOf`), because the line can be cut there without a change to what is decoded on
either side. Places come in the order of their offsets: line feeds are only added on the way, and on
one line the column decides, as it leads back to the offset.

The main theorem is `placeOf_invertible`.
-/

namespace Lox

/-- The offset of a place: what the lines above take up, and the characters before the column. Lines
and columns are counted from one. -/
def offsetOf (source : Text) (line column : Nat) : Nat :=
  lineOffset source (line - 1) +
    (Scalar.text (((sourceLines source).getD (line - 1) []).decode.take (column - 1))).length

variable {source : Text}

/-- An offset past the end of the source counts as its end. -/
theorem placeOf_min (source : Text) (o : Nat) :
    placeOf source o = placeOf source (min o source.length) := by
  by_cases ho : o ≤ source.length
  · rw [Nat.min_eq_left ho]
  · have hle : source.length ≤ o := Nat.le_of_not_le ho
    rw [Nat.min_eq_right hle, placeOf, placeOf, List.take_of_length_le hle, List.take_length,
      List.drop_eq_nil_of_le hle, List.drop_length]

/-- The text of a place has no line feed. -/
theorem not_mem_text_placeOf (source : Text) (o : Nat) : 0x0A ∉ (placeOf source o).text := by
  intro hmem
  have htrimmed :=
    dropEndWhile_prefix (· == 0x0D)
      (afterLastBreak (source.take o) ++ (source.drop o).takeWhile (· != 0x0A))
  rcases List.mem_append.mp (htrimmed.subset hmem) with hstart | hrest
  · exact (afterLastBreak_cases (source.take o)).1 hstart
  · simpa using List.mem_takeWhile_imp hrest

/-- The text of a place is that of its line. -/
theorem text_placeOf (source : Text) (o : Nat) :
    ((sourceLines source)[(placeOf source o).line - 1]?).map (Text.dropEndWhile (· == 0x0D)) =
      some (placeOf source o).text := by
  have hline : (placeOf source o).line - 1 = List.count 0x0A (source.take o) := rfl
  rw [hline, getElem?_sourceLines]
  rfl

/-- A boundary cuts its line into what is decoded before it and after it. -/
theorem decode_line (hvalid : source.isValid = true) {o : Nat} (ho : source.IsBoundary o) :
    ((sourceLines source).getD (List.count 0x0A (source.take o)) []).decode =
      (afterLastBreak (source.take o)).decode ++
        Text.decode ((source.drop o).takeWhile (· != 0x0A)) := by
  rw [getD_sourceLines]
  apply Text.decode_append_of_head
  intro b hb
  have hhead : (source.drop o).head? = some b := by
    obtain ⟨rest, hrest⟩ := List.takeWhile_prefix (l := source.drop o) (· != 0x0A)
    rw [← hrest, List.head?_append, hb]
    rfl
  rw [List.head?_drop] at hhead
  exact ho.isTail_eq_false hvalid hhead

/-- The place of a boundary leads back to it. -/
theorem offsetOf_placeOf (hvalid : source.isValid = true) {o : Nat} (ho : source.IsBoundary o) :
    offsetOf source (placeOf source o).line (placeOf source o).column = o := by
  have hline : (placeOf source o).line - 1 = List.count 0x0A (source.take o) := rfl
  have hcolumn : (placeOf source o).column - 1 =
      (afterLastBreak (source.take o)).decode.length := by
    show Text.count (afterLastBreak (source.take o)) = _
    rw [Text.count_eq, Text.chars, Scalar.chars, List.length_map]
  rw [offsetOf, hline, hcolumn, decode_line hvalid ho, List.take_left, Text.text_decode]
  exact lineOffset_add source o ho.le_length

/-- On one line, a column further on does not lead back. -/
theorem offsetOf_le {line column column' : Nat} (h : column ≤ column') :
    offsetOf source line column ≤ offsetOf source line column' := by
  have htaken : (((sourceLines source).getD (line - 1) []).decode.take (column - 1)) <+:
      (((sourceLines source).getD (line - 1) []).decode.take (column' - 1)) :=
    List.take_prefix_take_left (Nat.sub_le_sub_right h 1)
  obtain ⟨more, hmore⟩ := htaken
  rw [offsetOf, offsetOf, ← hmore, Scalar.text_append, List.length_append]
  omega

/-- Places of boundaries come in the order of the boundaries. -/
theorem placeOf_lt (hvalid : source.isValid = true) {o o' : Nat} (ho : source.IsBoundary o)
    (ho' : source.IsBoundary o') (hlt : o < o') :
    toLex ((placeOf source o).line, (placeOf source o).column) <
      toLex ((placeOf source o').line, (placeOf source o').column) := by
  have hlines : (placeOf source o).line ≤ (placeOf source o').line := by
    apply Nat.succ_le_succ
    exact ((List.take_prefix_take_left hlt.le).sublist).count_le 0x0A
  rw [Prod.Lex.toLex_lt_toLex]
  rcases Nat.lt_or_eq_of_le hlines with hless | hsame
  · exact .inl hless
  · refine .inr ⟨hsame, ?_⟩
    by_contra hcolumn
    have hle : offsetOf source (placeOf source o').line (placeOf source o').column ≤
        offsetOf source (placeOf source o).line (placeOf source o).column := by
      rw [show (placeOf source o).line = (placeOf source o').line from hsame]
      exact offsetOf_le (Nat.le_of_not_lt hcolumn)
    rw [offsetOf_placeOf hvalid ho, offsetOf_placeOf hvalid ho'] at hle
    exact absurd hlt (Nat.not_lt.mpr hle)

/-- **Places are ordered and can be undone.** An offset past the end counts as the end. The line of
a place is one more than the number of line feeds before it, and its text is that line, which has no
line feed, without the carriage returns at its end. In a valid source the places of boundaries come
in the order of the boundaries, and a line and a column lead back to the boundary that they are the
place of. -/
theorem placeOf_invertible (source : Text) :
    (∀ o, placeOf source o = placeOf source (min o source.length)) ∧
    (∀ o, (placeOf source o).line = List.count 0x0A (source.take o) + 1 ∧
      0x0A ∉ (placeOf source o).text ∧
      ((sourceLines source)[(placeOf source o).line - 1]?).map (Text.dropEndWhile (· == 0x0D)) =
        some (placeOf source o).text) ∧
    (source.isValid = true →
      StrictMonoOn (fun o => toLex ((placeOf source o).line, (placeOf source o).column))
        {o | source.IsBoundary o} ∧
      ∀ o, source.IsBoundary o →
        offsetOf source (placeOf source o).line (placeOf source o).column = o) := by
  refine ⟨placeOf_min source, fun o => ⟨rfl, not_mem_text_placeOf source o, text_placeOf source o⟩,
    fun hvalid => ?_⟩
  refine ⟨?_, fun o => offsetOf_placeOf hvalid⟩
  intro o ho o' ho' hlt
  exact placeOf_lt hvalid ho ho' hlt

/-- A line feed in front, a wide character before the offset, and an offset on the carriage return
that ends the line. -/
theorem placeOf_invertible_return :
    let source := utf8 "\né€\r\nx"
    source.isValid = true ∧ source.IsBoundary 6 ∧ (placeOf source 6).line = 2 ∧
      (placeOf source 6).column = 3 ∧
      (placeOf source 6).text = utf8 "é€" ∧ offsetOf source 2 3 = 6 ∧ placeOf source 99 =
        placeOf source 9 := by
  intro source
  have hvalid : source.isValid = true := by decide +kernel
  have ho : source.IsBoundary 6 :=
    ⟨source.decode.take 3, source.decode.drop 3, by simp, by decide +kernel⟩
  obtain ⟨hmin, -, hback⟩ := placeOf_invertible source
  have hsix := (hback hvalid).2 6 ho
  have hplace : placeOf source 6 = ⟨2, 3, utf8 "é€"⟩ := by decide +kernel
  rw [hplace] at hsix ⊢
  have hpast : min 99 source.length = 9 := by decide +kernel
  exact ⟨hvalid, ho, rfl, rfl, rfl, hsix, hpast ▸ hmin 99⟩

end Lox
