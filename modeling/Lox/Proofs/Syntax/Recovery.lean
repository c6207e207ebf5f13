import Lox.Proofs.Syntax.Replies
import Lox.Proofs.Syntax.Layout

/-!
# Recovery

Parsing cuts its tokens into what the statements take, one after another. What a statement takes is
never empty, so parsing ends, and it either gives a statement, which may have no effect, or is
dropped for one diagnostic.

A diagnostic is placed on a token of what was dropped or right after it. In the second case reading
goes on at the token that was blamed. That token starts a statement, which reads it first and blames
a later one if it fails. So no two diagnostics share a place, and their places come in order.
-/

namespace Lox

/-- The span at a place among the tokens of a source of a size. The place after the last token is
the end of input. -/
def spanAt (ts : List Token) (size i : Nat) : Span := (ts[i]?.map Token.span).getD (.emptyAt size)

/-- Tokens that are dropped for a failure, the tokens that are left, and the place that is
blamed. -/
structure Dropped (taken rest : List Token) (f : Failure) (i : Nat) : Prop where
  taken_ne_nil : taken ≠ []
  fails : Grammar.statement (nestingBound (taken ++ rest)) (taken ++ rest) = .failed f
  recovers : f.recover (taken ++ rest) = rest
  /-- A token that was taken is blamed, or what comes right after them. -/
  place_le : i ≤ taken.length
  site : f.site = (taken ++ rest)[i]?.map Token.span
  /-- A word that starts a statement is not blamed by that statement. -/
  place_pos : ∀ t ∈ taken.head?, t.kind.resumes = true → 0 < i
  /-- What comes right after is blamed only if a statement starts there, or nothing is left. -/
  resumes : i = taken.length → ∀ t ∈ rest.head?, t.kind.resumes = true

/-- The tokens of a source of a size, read statement by statement: what a statement takes is not
empty, and gives a statement that is kept or empty, or one diagnostic. -/
inductive Recovers (size : Nat) : List Token → Parsed → Prop
  | nil : Recovers size [] ⟨[], []⟩
  | kept {taken rest : List Token} {stmt? : Option Stmt} {stmts : List Stmt} {ds : List Diagnostic}
      (htaken : taken ≠ [])
      (hdone : Grammar.statement (nestingBound (taken ++ rest)) (taken ++ rest) = .done stmt? rest)
      (hrest : Recovers size rest ⟨stmts, ds⟩) : Recovers size (taken ++ rest)
      ⟨stmt?.toList ++ stmts, ds⟩
  | dropped {taken rest : List Token} {f : Failure} {i : Nat} {stmts : List Stmt}
      {ds : List Diagnostic} (hdropped : Dropped taken rest f i)
      (hrest : Recovers size rest ⟨stmts, ds⟩) : Recovers size (taken ++ rest)
      ⟨stmts, ⟨.parse f.problem, (spanAt (taken ++ rest) size i).blamed⟩ :: ds⟩

/-! ## One statement -/

section Failure

variable {t : Token} {ts : List Token} {f : Failure}

theorem resume_suffix (ts : List Token) : resume ts <:+ ts := by
  induction ts with
  | nil => exact List.suffix_refl _
  | cons t ts ih =>
    unfold resume
    split_ifs with hresumes hsemicolon
    · exact List.suffix_refl _
    · exact List.suffix_cons t ts
    · exact ih.trans (List.suffix_cons t ts)

/-- Recovery that passes over nothing stands at a word that starts a statement. -/
theorem resumes_of_length_resume (h : (resume ts).length = ts.length) :
    ∀ t ∈ (resume ts).head?, t.kind.resumes = true := by
  cases ts with
  | nil => simp [resume]
  | cons t ts =>
    unfold resume at h ⊢
    split_ifs at h ⊢ with hresumes hsemicolon
    · simpa using hresumes
    · simp at h
    · have hlength := (resume_suffix ts).length_le
      simp only [List.length_cons] at h
      omega

/-- A failure leaves an end of the tokens and blames a place up to there, past a word that starts a
statement. -/
theorem exists_place_of_failed {n : Nat} (h : Grammar.statement n (t :: ts) = .failed f) :
    ∃ read, t :: ts = read ++ f.rest ∧ ∃ i ≤ read.length, f.site = (t :: ts)[i]?.map Token.span ∧
      (t.kind.resumes = true → 0 < i) := by
  by_cases hresumes : t.kind.resumes = true
  · have hwithin := Grammar.within_statement_of_resumes hresumes n ts
    rw [h] at hwithin
    obtain ⟨read, rfl, i, hi, hsite⟩ := hwithin
    exact ⟨t :: read, rfl, i + 1, Nat.succ_le_succ hi, hsite, fun _ => Nat.succ_pos i⟩
  · have hwithin := Grammar.replies_statement n (t :: ts)
    rw [h] at hwithin
    obtain ⟨read, hts, i, hi, hsite⟩ := hwithin
    exact ⟨read, hts, i, hi, hsite, fun hyes => absurd hyes hresumes⟩

theorem Failure.recover_suffix (f : Failure) (start : List Token) : f.recover start <:+ f.rest := by
  unfold recover
  split_ifs
  · exact (resume_suffix _).trans (List.drop_suffix 1 f.rest)
  · exact resume_suffix _

/-- Recovery gives up a token even after a failure that has read none. -/
theorem Failure.length_recover (hrest : f.rest.length ≤ ts.length) (hts : ts ≠ []) :
    (f.recover ts).length < ts.length := by
  have hpos := List.length_pos_iff.2 hts
  unfold recover
  split_ifs with hnone
  · have hlength := (resume_suffix (f.rest.drop 1)).length_le
    rw [List.length_drop] at hlength
    omega
  · have hlength := (resume_suffix f.rest).length_le
    rw [beq_iff_eq] at hnone
    omega

/-- Recovery that gives up nothing of what a failure left stands at a word that starts a
statement. -/
theorem Failure.resumes_of_length_recover (hrest : f.rest.length ≤ ts.length) (hts : ts ≠ [])
    (h : (f.recover ts).length = f.rest.length) :
    ∀ u ∈ (f.recover ts).head?, u.kind.resumes = true := by
  have hless := f.length_recover hrest hts
  unfold recover at h hless ⊢
  split_ifs at h hless ⊢ with hnone
  · rw [beq_iff_eq] at hnone
    omega
  · exact resumes_of_length_resume h

theorem exists_dropped (h : Grammar.statement (nestingBound (t :: ts)) (t :: ts) = .failed f) :
    ∃ taken i, t :: ts = taken ++ f.recover (t :: ts) ∧
      Dropped taken (f.recover (t :: ts)) f i := by
  obtain ⟨read, hread, i, hi, hsite, hpos⟩ := exists_place_of_failed h
  obtain ⟨passed, hpassed⟩ := f.recover_suffix (t :: ts)
  have htaken : t :: ts = (read ++ passed) ++ f.recover (t :: ts) := by
    rw [List.append_assoc, hpassed, ← hread]
  have hlength : f.rest.length ≤ (t :: ts).length := by
    rw [hread, List.length_append]
    exact Nat.le_add_left _ _
  refine ⟨read ++ passed, i, htaken, ?_, ?_, ?_, ?_, ?_, ?_, ?_⟩
  · intro hnil
    have hless := f.length_recover hlength (List.cons_ne_nil t ts)
    rw [hnil, List.nil_append] at htaken
    rw [← htaken] at hless
    exact Nat.lt_irrefl _ hless
  · rwa [← htaken]
  · rw [← htaken]
  · rw [List.length_append]
    exact Nat.le_trans hi (Nat.le_add_right _ _)
  · rwa [← htaken]
  · intro u hu hresumes
    have hhead : (t :: ts).head? = some u := by
      rw [htaken, List.head?_append, Option.mem_def.1 hu, Option.some_or]
    cases hhead
    exact hpos hresumes
  · intro hend
    rw [List.length_append] at hend
    have hpassed' := congrArg List.length hpassed
    rw [List.length_append] at hpassed'
    exact f.resumes_of_length_recover hlength (List.cons_ne_nil t ts) (by omega)

end Failure

/-! ## Whole programs -/

theorem recovers_segmentsWithin (size n : Nat) {ts : List Token} (hn : ts.length ≤ n) :
    Recovers size ts ⟨(segmentsWithin n ts).filterMap Segment.stmt?,
      (segmentsWithin n ts).filterMap (·.diagnostic? size)⟩ := by
  induction n generalizing ts with
  | zero =>
    rw [List.length_eq_zero_iff.1 (Nat.le_zero.1 hn)]
    exact .nil
  | succ n ih =>
    cases ts with
    | nil => exact .nil
    | cons t ts =>
      rw [segmentsWithin]
      cases hreply : Grammar.statement (nestingBound (t :: ts)) (t :: ts) with
      | done s rest =>
        have hless := Grammar.length_of_statement hreply
        have hwithin := Grammar.replies_statement (nestingBound (t :: ts)) (t :: ts)
        rw [hreply] at hwithin
        obtain ⟨taken, htaken, htakes⟩ := hwithin
        have hne : taken ≠ [] := List.length_pos_iff.1 htakes
        have hrest := ih (Nat.le_of_lt_succ (Nat.lt_of_lt_of_le hless hn))
        rw [htaken] at hreply ⊢
        cases s with
        | none => exact .kept hne hreply hrest
        | some s => exact .kept hne hreply hrest
      | failed f =>
        obtain ⟨taken, i, htaken, hdropped⟩ := exists_dropped hreply
        have hlength : f.rest.length ≤ (t :: ts).length := by
          obtain ⟨read, hread, -⟩ := exists_place_of_failed hreply
          rw [hread, List.length_append]
          exact Nat.le_add_left _ _
        have hless := f.length_recover hlength (List.cons_ne_nil t ts)
        have hrest := ih (Nat.le_of_lt_succ (Nat.lt_of_lt_of_le hless hn))
        have hspan : (f.diagnostic size).span =
            (spanAt (taken ++ f.recover (t :: ts)) size i).blamed := by
          rw [Failure.diagnostic, spanAt, hdropped.site]
        have hrecovers := Recovers.dropped hdropped hrest
        rw [← hspan, ← htaken] at hrecovers
        exact hrecovers
      | exhausted => exact absurd hreply (Grammar.statement_ne_exhausted (t :: ts))

theorem spanAt_append (taken rest : List Token) (size i : Nat) :
    spanAt (taken ++ rest) size (taken.length + i) = spanAt rest size i := by
  rw [spanAt, List.getElem?_append_right (Nat.le_add_right _ _), Nat.add_sub_cancel_left, spanAt]

/-- Places among tokens to which places after some of them belong. -/
theorem map_spanAt_append (taken rest : List Token) (size : Nat) (places : List Nat) :
    (places.map (taken.length + ·)).map (fun i => (spanAt (taken ++ rest) size i).blamed) =
      places.map fun i => (spanAt rest size i).blamed := by
  rw [List.map_map]
  exact List.map_congr_left fun i _ => by rw [Function.comp_apply, spanAt_append]

/-- Places in order that are within tokens and past a word that starts a statement. -/
structure Places (ts : List Token) (places : List Nat) : Prop where
  increasing : places.Pairwise (· < ·)
  within : ∀ i ∈ places, ts ≠ [] ∧ i ≤ ts.length
  past : ∀ i ∈ places, ∀ t ∈ ts.head?, t.kind.resumes = true → 0 < i

namespace Places

variable {taken rest : List Token} {places : List Nat}

theorem nil (ts : List Token) : Places ts [] := ⟨.nil, by simp, by simp⟩

/-- Places after some tokens. -/
theorem shift (h : Places rest places) (htaken : taken ≠ []) :
    Places (taken ++ rest) (places.map (taken.length + ·)) := by
  have hpos := List.length_pos_iff.2 htaken
  refine ⟨?_, ?_, ?_⟩
  · rw [List.pairwise_map]
    exact h.increasing.imp fun hij => Nat.add_lt_add_left hij _
  · intro i hi
    obtain ⟨j, hj, rfl⟩ := List.mem_map.1 hi
    refine ⟨List.append_ne_nil_of_left_ne_nil htaken rest, ?_⟩
    rw [List.length_append]
    exact Nat.add_le_add_left (h.within j hj).2 _
  · intro i hi _ _ _
    obtain ⟨j, hj, rfl⟩ := List.mem_map.1 hi
    exact Nat.add_pos_left hpos j

/-- The place that is blamed for dropped tokens comes before all that are blamed later. -/
theorem cons {f : Failure} {i : Nat} (h : Places rest places) (hdropped : Dropped taken rest f i) :
    Places (taken ++ rest) (i :: places.map (taken.length + ·)) := by
  have hshift := h.shift hdropped.taken_ne_nil
  refine ⟨List.pairwise_cons.2 ⟨?_, hshift.increasing⟩, ?_, ?_⟩
  · intro k hk
    obtain ⟨j, hj, rfl⟩ := List.mem_map.1 hk
    have hle := hdropped.place_le
    by_cases hend : i = taken.length
    · -- the next segment starts with the token that is blamed, and blames a later one
      obtain ⟨t, rest', rfl⟩ := List.exists_cons_of_ne_nil (h.within j hj).1
      have hj' := h.past j hj t rfl (hdropped.resumes hend t rfl)
      omega
    · omega
  · intro k hk
    rcases List.mem_cons.1 hk with rfl | hk
    · refine ⟨List.append_ne_nil_of_left_ne_nil hdropped.taken_ne_nil rest, ?_⟩
      rw [List.length_append]
      exact Nat.le_trans hdropped.place_le (Nat.le_add_right _ _)
    · exact hshift.within k hk
  · intro k hk t ht hresumes
    rcases List.mem_cons.1 hk with rfl | hk
    · obtain ⟨u, taken', rfl⟩ := List.exists_cons_of_ne_nil hdropped.taken_ne_nil
      exact hdropped.place_pos t ht hresumes
    · exact hshift.past k hk t ht hresumes

end Places

/-- Diagnostics are placed in order, each at a place of its own. -/
theorem Recovers.exists_places {size : Nat} {ts : List Token} {parsed : Parsed}
    (h : Recovers size ts parsed) :
    ∃ places, Places ts places ∧
      parsed.diagnostics.map Diagnostic.span = places.map fun i => (spanAt ts size i).blamed := by
  induction h with
  | nil => exact ⟨[], .nil [], rfl⟩
  | @kept taken rest stmt? stmts ds htaken hdone hrest ih =>
    obtain ⟨places, hplaces, hspans⟩ := ih
    exact ⟨_, hplaces.shift htaken, by rw [map_spanAt_append]; exact hspans⟩
  | @dropped taken rest f i stmts ds hdropped hrest ih =>
    obtain ⟨places, hplaces, hspans⟩ := ih
    refine ⟨_, hplaces.cons hdropped, ?_⟩
    rw [List.map_cons, List.map_cons, map_spanAt_append]
    exact congrArg _ hspans

/-- Tokens that come one after another have places in the order of their offsets. -/
theorem Ordered.offset_spanAt_lt {ts : List Token} {size i j : Nat} (h : Ordered ts size)
    (hij : i < j) (hj : j ≤ ts.length) : (spanAt ts size i).offset < (spanAt ts size j).offset := by
  have hi : i < ts.length := Nat.lt_of_lt_of_le hij hj
  have hspan : ∀ k (hk : k < ts.length), spanAt ts size k = ts[k].span := by
    intro k hk
    rw [spanAt, List.getElem?_eq_getElem hk, Option.map_some, Option.getD_some]
  obtain ⟨hpos, hstop⟩ := h.within ts[i] (List.getElem_mem hi)
  rw [hspan i hi]
  unfold Span.stop at hstop
  rcases Nat.lt_or_eq_of_le hj with hj | rfl
  · have happart := List.pairwise_iff_getElem.1 h.apart i j hi hj hij
    unfold Span.stop at happart
    rw [hspan j hj]
    omega
  · rw [spanAt, List.getElem?_eq_none (Nat.le_refl _), Option.map_none, Option.getD_none]
    change ts[i].span.offset < size
    omega

/-- **Recovery makes progress and never reports twice.** Parsing reads its tokens to their end,
statement by statement. What a statement takes is not empty, and gives one statement, kept or empty,
and no diagnostic, or no statement and one diagnostic on what was taken or right after it. The
places of diagnostics strictly increase, and so do their offsets where those of the tokens do. -/
theorem parse_recovers (ts : List Token) (size : Nat) :
    Recovers size ts (parse ts size) ∧
    (∃ places : List Nat, places.Pairwise (· < ·) ∧ (∀ i ∈ places, i ≤ ts.length) ∧
      (parse ts size).diagnostics.map Diagnostic.span =
        places.map fun i => (spanAt ts size i).blamed) ∧
    (Ordered ts size → ((parse ts size).diagnostics.map fun d => d.span.offset).Pairwise
      (· < ·)) := by
  have hrecovers : Recovers size ts (parse ts size) :=
    recovers_segmentsWithin size ts.length (Nat.le_refl _)
  obtain ⟨places, hplaces, hspans⟩ := hrecovers.exists_places
  refine ⟨hrecovers, ⟨places, hplaces.increasing, fun i hi => (hplaces.within i hi).2, hspans⟩,
    fun hordered => ?_⟩
  have hoffsets : ((parse ts size).diagnostics.map fun d => d.span.offset) =
      places.map fun i => (spanAt ts size i).offset := by
    have := congrArg (List.map Span.offset) hspans
    rwa [List.map_map, List.map_map] at this
  rw [hoffsets, List.pairwise_map]
  exact hplaces.increasing.imp_of_mem fun {i j} _ hj hij =>
    hordered.offset_spanAt_lt hij (hplaces.within j hj).2

/-- Three segments fail. The first is blamed on the word that the second starts with, the second on
a later token, and the third on a token that was read. The last statement is kept. -/
theorem parse_recovers_thrice :
    let scanned := scan (utf8 "print let = 1; super; print 2;")
    let parsed := parse scanned.tokens scanned.size
    Ordered scanned.tokens scanned.size ∧ parsed.stmts.length = 1 ∧
      (parsed.diagnostics.map fun d => d.span.offset) = [6, 10, 15] ∧
      (parsed.diagnostics.map fun d => d.span.offset).Pairwise (· < ·) := by
  intro scanned parsed
  have hordered : Ordered scanned.tokens scanned.size := ordered_scan _
  have hparsed : parsed.stmts.length = 1 ∧ (parsed.diagnostics.map fun d => d.span.offset) =
      [6, 10, 15] := by
    decide +kernel
  exact ⟨hordered, hparsed.1, hparsed.2, (parse_recovers scanned.tokens scanned.size).2.2 hordered⟩

end Lox
