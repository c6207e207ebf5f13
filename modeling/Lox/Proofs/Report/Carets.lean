import Lox.Proofs.Report.Place

/-!
# Carets below a line

The bytes that a report is about are on a line of the source: what stands before them on the line,
they themselves, and the rest of the line. Below the first part stands one blank for each character,
where a tab stays a tab, and below the second one caret for each character, or a single one if it is
empty (`carets_aligned`).

The place of an offset counts characters, carets are asked for in bytes, and the bytes are cut where
a character starts, so the three agree only where all cuts are boundaries.
-/

namespace Lox

/-- Nothing is lost where bytes are cut off before a character. -/
theorem truncate_eq_take {t : Text} {n : Nat} (h : ∀ b, t[n]? = some b → Scalar.isTail b = false) :
    truncate t n = t.take n := by
  unfold truncate
  split
  next hle => exact (List.take_of_length_le hle).symm
  next hlong =>
    have hcut : boundaryUpTo t n = n := by
      cases n with
      | zero => rfl
      | succ n =>
        have hn : n + 1 < t.length := Nat.lt_of_not_le hlong
        rw [boundaryUpTo, List.getD_eq_getElem t 0 hn, h _ (List.getElem?_eq_getElem hn)]
        rfl
    rw [hcut]

theorem dropEndWhile_prefix {α : Type} (p : α → Bool) (xs : List α) :
    Text.dropEndWhile p xs <+: xs := by
  rw [← List.reverse_suffix, Text.dropEndWhile, List.reverse_reverse]
  exact List.dropWhile_suffix p

/-- The carets below the first bytes of what stands after a column. -/
theorem underline_append {left right : Text} {n : Nat}
    (hright : ∀ b, right.head? = some b → Scalar.isTail b = false)
    (hcut : ∀ b, right[n]? = some b → Scalar.isTail b = false) :
    underline (left ++ right) (Int.ofNat (left.count + 1)) n =
      left.decode.map blankBelow ++ List.replicate (max 1 (Text.count (right.take n))) 0x5E := by
  have hcount : left.count = left.decode.length := by
    rw [Text.count_eq, Text.chars, Scalar.chars, List.length_map]
  have hcolumn : ¬ Int.ofNat (left.count + 1) ≤ 0 := by
    rw [Int.ofNat_eq_natCast]
    omega
  have hbefore : (Int.ofNat (left.count + 1) - 1).toNat = left.decode.length := by
    rw [Int.ofNat_eq_natCast, ← hcount]
    omega
  simp only [underline, if_neg hcolumn, hbefore, Text.decode_append_of_head hright, List.take_left,
    List.drop_left, Text.text_decode, truncate_eq_take hcut]

/-- Carets stand below what is blamed. In a source that is valid, with a number of bytes after an
offset that are on its line, without the carriage returns at the end of the line: below what stands
before the offset on the line is a blank for each character, a tab below a tab, and then come as
many carets as there are characters in the bytes, and at least one. -/
theorem carets_aligned (source : Text) (o n : Nat) (hvalid : source.isValid = true)
    (ho : source.IsBoundary o) (hn : source.IsBoundary (o + n)) :
    let i := List.count 0x0A (source.take o)
    let start := lineOffset source i
    let line := Text.dropEndWhile (· == 0x0D) ((sourceLines source).getD i [])
    let place := placeOf source o
    o + n ≤ start + line.length →
      underline place.text (Int.ofNat place.column) n =
        (Text.decode ((source.take o).drop start)).map
          (fun s => if s.char = '\t' then 0x09 else 0x20) ++
          List.replicate (max 1 (Text.count ((source.drop o).take n))) 0x5E := by
  intro i start line place hline
  have hstart : start + (afterLastBreak (source.take o)).length = o :=
    lineOffset_add source o ho.le_length
  -- The line goes on from what stands before the offset, at least up to the end of the bytes.
  obtain ⟨right, hsplit, more, hmore⟩ :
      ∃ right, line = afterLastBreak (source.take o) ++ right ∧ right <+: source.drop o := by
    have hwhole :
        line <+: afterLastBreak (source.take o) ++ (source.drop o).takeWhile (· != 0x0A) := by
      rw [← getD_sourceLines]
      exact dropEndWhile_prefix _ _
    obtain ⟨right, hright⟩ :=
      List.prefix_of_prefix_length_le (List.prefix_append _ _) hwhole (by omega)
    rw [← hright, List.prefix_append_right_inj] at hwhole
    exact ⟨right, hright.symm, hwhole.trans (List.takeWhile_prefix _)⟩
  have hn' : n ≤ right.length := by
    rw [hsplit, List.length_append] at hline
    omega
  have hbyte : ∀ j b, right[j]? = some b → source[o + j]? = some b := by
    intro j b hb
    rw [← List.getElem?_drop, ← hmore]
    exact List.getElem?_append_left (List.getElem?_eq_some_iff.mp hb).1 ▸ hb
  have htext : place.text = afterLastBreak (source.take o) ++ right := by
    rw [← hsplit]
    exact congrArg Place.text (placeOf_eq source o)
  have hcolumn : place.column = Text.count (afterLastBreak (source.take o)) + 1 :=
    congrArg Place.column (placeOf_eq source o)
  have htaken : (source.drop o).take n = right.take n := by
    rw [← hmore, List.take_append_of_le_length hn']
  have hbelow : blankBelow = fun s => if s.char = '\t' then 0x09 else 0x20 := by
    funext s
    simp [blankBelow]
  rw [htext, hcolumn, drop_lineOffset source o ho.le_length, htaken, ← hbelow]
  refine underline_append (fun b hb => ?_) fun b hb => hn.isTail_eq_false hvalid (hbyte n b hb)
  rw [List.head?_eq_getElem?] at hb
  exact ho.isTail_eq_false hvalid (hbyte 0 b hb)

/-- Two lines, the second with a tab, characters of two, three and four bytes, and two carriage
returns at its end. -/
theorem carets_aligned_wide :
    let source := utf8 "a;\n\té = €𝄞 ;\r\r\nb"
    source.isValid = true ∧ (placeOf source 9).line = 2 ∧ (placeOf source 9).column = 6 ∧
      underline (placeOf source 9).text (Int.ofNat (placeOf source 9).column) 7 =
        utf8 "\t    ^^" := by
  intro source
  have hvalid : source.isValid = true := by decide +kernel
  have ho : source.IsBoundary 9 :=
    ⟨source.decode.take 8, source.decode.drop 8, by simp, by decide +kernel⟩
  have hn : source.IsBoundary (9 + 7) :=
    ⟨source.decode.take 10, source.decode.drop 10, by simp, by decide +kernel⟩
  have hcarets := carets_aligned source 9 7 hvalid ho hn (by decide +kernel)
  exact ⟨hvalid, by decide +kernel, by decide +kernel, hcarets.trans (by decide +kernel)⟩

end Lox
