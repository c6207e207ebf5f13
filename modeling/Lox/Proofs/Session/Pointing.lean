import Lox.Proofs.Session.Blame
import Lox.Proofs.Syntax.Brackets
import Lox.Proofs.Syntax.Recovery

/-!
# What a diagnostic points at

Every diagnostic of a run in a new session points at one **spot** of the source: a token, the end of
the source, a subscript from its bracket to the one that closes it, or the start of a lexeme that is
refused. Which of them it can be depends on the problem (`Problem.spots`). No two spots are at the
same span, so it is just one.

That resolution and evaluation blame no other spans needs no look at what they do with spans. Move
every span that is not at a spot. The program stays as it is, so what resolution and evaluation make
of it does, too; and a span that is blamed in the end has not moved. The main theorem is
`diagnostics_point_at_spots`.
-/

namespace Lox

/-- What a diagnostic can point at. -/
inductive Spot
  | token
  | ending
  | subscript
  | refused
  deriving DecidableEq

/-- A span is at a spot of a source. Of a refused lexeme it has the first byte, and it goes no
further than the lexeme. -/
def Spot.Spans (spot : Spot) (source : Text) (s : Span) : Prop :=
  match spot with
  | token => ∃ t ∈ (scan source).tokens, s = t.span
  | ending => s = ⟨source.length, 1⟩
  | subscript =>
    ∃ opening closing, Closes (scan source).tokens opening closing ∧
      s = opening.span.through closing.span
  | refused =>
    ∃ p ∈ placed source, (∃ problem, p.piece.kind = .refused problem) ∧ s.offset = p.offset ∧
      0 < s.length ∧ s.stop ≤ p.span.stop

/-- The spots that a problem can be reported at. -/
def Problem.spots : Problem → List Spot
  | .scan _ => [.refused]
  | .parse _ => [.token, .ending]
  | .resolve _ => [.token]
  | .runtime problem => if problem.cause = .subscript then [.subscript] else [.token]

theorem Problem.stage_of_ending {problem : Problem} (h : Spot.ending ∈ problem.spots) :
    problem.stage = .parse := by
  cases problem with
  | parse => rfl
  | scan | resolve => simp [spots] at h
  | runtime problem =>
    rw [spots] at h
    split_ifs at h <;> simp at h

/-! ## A span is at one spot -/

section Spots

variable {source : Text} {s : Span} {spot other : Spot}

/-- A bracket that is closed comes before the one that closes it. -/
theorem Closes.before {ts : List Token} {size : Nat} {opening closing : Token}
    (h : Closes ts opening closing) (hordered : Ordered ts size) :
    opening ∈ ts ∧ closing ∈ ts ∧ opening.span.stop ≤ closing.span.offset := by
  obtain ⟨before, after, rfl, -, hclosing⟩ := h
  have hmem := mem_of_closing? hclosing
  have hapart := (List.pairwise_append.mp hordered.apart).2.1
  exact ⟨by simp, by simp [hmem], List.rel_of_pairwise_cons hapart hmem⟩

theorem Spot.Spans.inside (h : spot.Spans source s) :
    0 < s.length ∧ (s.stop ≤ source.length ∨ spot = .ending) := by
  cases spot with
  | token =>
    obtain ⟨t, ht, rfl⟩ := h
    obtain ⟨hpos, hstop⟩ := token_in_source ht
    exact ⟨hpos, .inl hstop⟩
  | ending =>
    obtain rfl : s = _ := h
    exact ⟨Nat.one_pos, .inr rfl⟩
  | subscript =>
    obtain ⟨opening, closing, hcloses, rfl⟩ := h
    obtain ⟨hopening, hclosing, hbefore⟩ := hcloses.before (ordered_scan source)
    obtain ⟨hpos, -⟩ := token_in_source hopening
    obtain ⟨hpos', hstop⟩ := token_in_source hclosing
    simp only [Span.through, Span.stop] at hbefore hstop ⊢
    omega
  | refused =>
    obtain ⟨p, hp, -, -, hpos, hstop⟩ := h
    exact ⟨hpos, .inl (hstop.trans (lies_of_mem_placed hp).text_eq.1)⟩

/-- A span at a spot has a byte, so it is blamed as it is. -/
theorem Spot.Spans.blamed_eq (h : spot.Spans source s) : s.blamed = s := by
  simp only [Span.blamed, beq_iff_eq, if_neg (Nat.ne_of_gt h.inside.1)]

/-- There is one piece of a source at an offset. -/
theorem eq_of_mem_placed {p q : Placed} (hp : p ∈ placed source) (hq : q ∈ placed source)
    (h : p.offset = q.offset) : p = q := by
  have hcovers : ∀ p ∈ placed source, p.Covers p.offset := fun p hp =>
    ⟨Nat.le_refl _, Nat.lt_add_of_pos_right (lies_of_mem_placed hp).length_pos⟩
  have hwithin : p.offset < 0 + ((pieces source).flatMap Piece.text).length := by
    rw [Nat.zero_add, text_pieces]
    exact Nat.lt_of_lt_of_le (hcovers p hp).2 (lies_of_mem_placed hp).text_eq.1
  exact (place_covers (Nat.zero_le _) hwithin).unique ⟨hp, hcovers p hp⟩ ⟨hq, h ▸ hcovers q hq⟩

/-- The spot of a span that starts with a piece. -/
def Placed.spotOf (p : Placed) (s : Span) : Spot :=
  match p.token? with
  | none => .refused
  | some t => if s = t.span then .token else .subscript

theorem exists_placed_of_mem_tokens {t : Token} (h : t ∈ (scan source).tokens) :
    ∃ p ∈ placed source, p.token? = some t ∧ p.offset = t.span.offset := by
  rw [scan_eq] at h
  obtain ⟨p, hp, htoken⟩ := List.mem_filterMap.mp h
  exact ⟨p, hp, htoken, by rw [(Placed.token?_span htoken).1]; rfl⟩

/-- A span at a spot is at the end of the source or starts with a piece that tells the spot. -/
theorem Spot.Spans.starts (h : spot.Spans source s) :
    spot = .ending ∧ s.offset = source.length ∨
      ∃ p ∈ placed source, p.offset = s.offset ∧ spot = p.spotOf s := by
  cases spot with
  | token =>
    obtain ⟨t, ht, rfl⟩ := h
    obtain ⟨p, hp, htoken, hoffset⟩ := exists_placed_of_mem_tokens ht
    exact .inr ⟨p, hp, hoffset, by simp only [Placed.spotOf, htoken, if_true]⟩
  | ending => exact .inl ⟨rfl, congrArg Span.offset h⟩
  | subscript =>
    obtain ⟨opening, closing, hcloses, rfl⟩ := h
    obtain ⟨hopening, hclosing, hbefore⟩ := hcloses.before (ordered_scan source)
    obtain ⟨p, hp, htoken, hoffset⟩ := exists_placed_of_mem_tokens hopening
    have hne : opening.span.through closing.span ≠ opening.span := by
      intro heq
      have hlength := congrArg Span.length heq
      have hpos := (token_in_source hclosing).1
      simp only [Span.through, Span.stop] at hlength hbefore
      omega
    exact .inr ⟨p, hp, hoffset, by simp only [Placed.spotOf, htoken, if_neg hne]⟩
  | refused =>
    obtain ⟨p, hp, ⟨problem, hkind⟩, hoffset, -⟩ := h
    exact .inr ⟨p, hp, hoffset.symm, by simp only [Placed.spotOf, Placed.token?, hkind]⟩

theorem Spot.Spans.unique (h : spot.Spans source s) (h' : other.Spans source s) : other = spot := by
  have hinside : ∀ p ∈ placed source, p.offset < source.length := fun p hp =>
    Nat.lt_of_lt_of_le (Nat.lt_add_of_pos_right (lies_of_mem_placed hp).length_pos)
      (lies_of_mem_placed hp).text_eq.1
  rcases h.starts with ⟨hspot, hend⟩ | ⟨p, hp, hoffset, hspot⟩ <;>
    rcases h'.starts with ⟨hspot', hend'⟩ | ⟨q, hq, hoffset', hspot'⟩
  · rw [hspot, hspot']
  · have := hinside q hq
    omega
  · have := hinside p hp
    omega
  · rw [hspot, hspot', eq_of_mem_placed hp hq (hoffset.trans hoffset'.symm)]

end Spots

/-! ## Scanning and parsing -/

theorem exists_spot_of_mem_scan {source : Text} {d : Diagnostic}
    (h : d ∈ (scan source).diagnostics) : ∃ spot ∈ d.problem.spots, spot.Spans source d.span := by
  rw [scan_eq] at h
  obtain ⟨p, hp, hd⟩ := List.mem_filterMap.mp h
  obtain ⟨-, hoffset, hpos, hstop⟩ := (lies_of_mem_placed hp).blamed hd
  obtain ⟨problem, hproblem, rfl⟩ := Option.map_eq_some_iff.mp hd
  have hkind : p.piece.kind = .refused problem := by
    unfold Placed.problem? at hproblem
    split at hproblem
    · next hkind => rw [hkind, Option.some.inj hproblem]
    · cases hproblem
  exact ⟨.refused, List.mem_singleton_self _, p, hp, ⟨problem, hkind⟩, hoffset, hpos, hstop⟩

theorem exists_spot_of_mem_parse {source : Text} {d : Diagnostic}
    (h : d ∈ (parse (scan source).tokens (scan source).size).diagnostics) :
    ∃ spot ∈ d.problem.spots, spot.Spans source d.span := by
  have hspots : d.problem.spots = [.token, .ending] := by
    have hstage := stage_of_mem_parse h
    obtain ⟨problem, span⟩ := d
    cases problem with
    | parse => rfl
    | _ => cases hstage
  have hrecovers :
      Recovers (scan source).size (scan source).tokens
        (parse (scan source).tokens (scan source).size) :=
    recovers_segmentsWithin _ _ (Nat.le_refl _)
  obtain ⟨places, -, hspans⟩ := hrecovers.exists_places
  obtain ⟨i, -, hspan⟩ := List.mem_map.mp (hspans ▸ List.mem_map_of_mem h)
  rw [hspots, ← hspan, spanAt]
  cases hi : (scan source).tokens[i]? with
  | none => exact ⟨.ending, by simp, by rw [size_scan]; rfl⟩
  | some t =>
    have htoken : Spot.token.Spans source t.span := ⟨t, List.mem_of_getElem? hi, rfl⟩
    rw [Option.map_some, Option.getD_some, htoken.blamed_eq]
    exact ⟨.token, by simp, htoken⟩

/-! ## Resolution and evaluation -/

section Keeping

open Classical in
/-- Spans of a set stay, and every other moves. -/
noncomputable def Span.keepIn (P : Span → Prop) (s : Span) : Span :=
  if P s then s else ⟨s.offset + 1, s.length⟩

theorem Span.keepIn_of_mem {P : Span → Prop} {s : Span} (h : P s) : s.keepIn P = s := if_pos h

theorem Span.mem_of_keepIn {P : Span → Prop} {s : Span} (h : (s.keepIn P).offset = s.offset) :
    P s := by
  by_contra hs
  rw [Span.keepIn, if_neg hs] at h
  exact Nat.succ_ne_self _ h

variable (source : Text)

/-- The guise that moves every span that is at no token of a source, and for subscripts at no
brackets. -/
noncomputable def Guise.keeping : Guise where
  span := Span.keepIn (Spot.token.Spans source)
  literal := Prod.mk
  subscript := Span.keepIn (Spot.subscript.Spans source)
  name := id

theorem Guise.lawful_keeping : (Guise.keeping source).Lawful := ⟨fun _ _ h => h, rfl, rfl⟩

/-- The guise as a disguise. -/
noncomputable def Disguise.keeping : Disguise where
  toGuise := .keeping source
  sameLiteral := Relabelling.sameLiteral_kept
  lawful := Guise.lawful_keeping source

theorem keepsSpans_keeping : Grammar.KeepsSpans (.keeping source) (scan source).tokens where
  name := rfl
  literal := rfl
  span t ht := Span.keepIn_of_mem ⟨t, ht, rfl⟩
  subscript opening closing hcloses := Span.keepIn_of_mem ⟨opening, closing, hcloses, rfl⟩

variable {source}

/-- What is resolved of a source stays as it is in the guise, and so does what is reported. -/
theorem dress_resolveProgram {run : Nat} {root : StaticScope}
    (hparse : (parse (scan source).tokens (scan source).size).diagnostics = []) :
    let resolved := resolveProgram run root (parse (scan source).tokens (scan source).size).stmts
    dressStmts (.keeping source) resolved.value = resolved.value ∧
      ∀ d ∈ resolved.diagnostics, d.Dressed (.keeping source) d := by
  intro resolved
  have hroot : StaticScopes.AlikeIn (.keeping source) [root] [root] := .cons (fun _ => rfl) .nil
  obtain ⟨hvalue, -, hdiagnostics⟩ :=
    dresses_resolveStmts (Guise.lawful_keeping source)
      (fun _ _ => rfl : ∀ r keyword, Prod.mk run keyword =
        (run, ((Guise.keeping source).literal r keyword).2)) .none
      (parse (scan source).tokens (scan source).size).stmts _ _ hroot
  rw [Grammar.dressStmts_parse (keepsSpans_keeping source) hparse] at hvalue hdiagnostics
  exact ⟨hvalue.symm, List.forall₂_same.mp hdiagnostics⟩

theorem exists_spot_of_mem_resolve {run : Nat} {root : StaticScope} {d : Diagnostic}
    (hparse : (parse (scan source).tokens (scan source).size).diagnostics = [])
    (h : d ∈ (resolveProgram run root
      (parse (scan source).tokens (scan source).size).stmts).diagnostics) :
    ∃ spot ∈ d.problem.spots, spot.Spans source d.span := by
  obtain ⟨problem, site, rfl, hd⟩ := (dress_resolveProgram hparse).2 d h
  have hoffset : site.offset = (site.keepIn (Spot.token.Spans source)).offset :=
    congrArg (fun d => d.span.offset) hd
  have htoken := Span.mem_of_keepIn hoffset.symm
  exact ⟨.token, List.mem_singleton_self _, htoken.blamed_eq.symm ▸ htoken⟩

/-- All names are kept, so those of classes are. -/
theorem keepsClass_keeping (state : State) : state.KeepsClass (.keeping source) := by
  intro stmt next _
  cases stmt with
  | classDecl => exact rfl
  | _ => trivial

namespace Session

variable {console : Console} {limit budget : Nat}

/-- The program of a source leaves the same behind in the guise. -/
theorem dress_runProgram {program : List Stmt}
    (hprogram : (fresh console limit).program? source = some program) :
    (runProgram limit budget program (fresh console limit).heap console).dress (.keeping source) =
      runProgram limit budget program (fresh console limit).heap console := by
  have hstmts : dressStmts (.keeping source) program = program := by
    obtain ⟨-, hparse, -, rfl⟩ := analyse_ok (program?_eq_some hprogram)
    exact (dress_resolveProgram hparse).1
  have hfresh : (fresh console limit).heap.dress (.keeping source) = (fresh console limit).heap :=
    dress_fresh (fun _ => rfl) console limit
  calc (runProgram limit budget program (fresh console limit).heap console).dress (.keeping source)
      = runProgram limit budget (dressStmts (.keeping source) program)
          ((fresh console limit).heap.dress (.keeping source)) console :=
        (runProgram_dress (.keeping source) fun state _ => keepsClass_keeping state).symm
    _ = runProgram limit budget program (fresh console limit).heap console := by rw [hstmts, hfresh]

theorem exists_spot_of_runProgram {program : List Stmt} {problem : RuntimeProblem} {site : Span}
    (hprogram : (fresh console limit).program? source = some program)
    (houtcome : (runProgram limit budget program (fresh console limit).heap console).outcome =
      .stopped (.blame problem site)) :
    ∃ spot ∈ (Problem.runtime problem).spots, spot.Spans source site := by
  have hstays : (Outcome.stopped (.blame problem site)).dress (.keeping source) =
      .stopped (.blame problem site) := by
    rw [← houtcome]
    exact congrArg Ended.outcome (dress_runProgram hprogram)
  have hsite : (Guise.keeping source).blame problem site = site := by
    injection hstays with hstop
    injection hstop
  by_cases hcause : problem.cause = .subscript
  · rw [Guise.blame_subscript _ hcause] at hsite
    exact ⟨.subscript, by simp [Problem.spots, hcause],
      Span.mem_of_keepIn (congrArg Span.offset hsite)⟩
  · rw [Guise.blame_other _ hcause] at hsite
    exact ⟨.token, by simp [Problem.spots, hcause], Span.mem_of_keepIn (congrArg Span.offset hsite)⟩

theorem exists_spot_of_mem_run {d : Diagnostic}
    (hd : d ∈ ((fresh console limit).run budget source).1.ending.diagnostics) :
    ∃ spot ∈ d.problem.spots, spot.Spans source d.span := by
  cases hresult :
    (analyse (fresh console limit).runs (fresh console limit).rootNames source).result with
  | error ds =>
    rw [run_of_error budget hresult] at hd
    rcases mem_of_analyse_error hresult hd with hscan | hparse | ⟨hparse, hresolve⟩
    · exact exists_spot_of_mem_scan hscan
    · exact exists_spot_of_mem_parse hparse
    · exact exists_spot_of_mem_resolve hparse hresolve
  | ok program =>
    have hprogram : (fresh console limit).program? source = some program := by
      rw [program?, hresult]; rfl
    rw [(run_of_program?_eq_some budget hprogram).1] at hd
    obtain ⟨problem, site, houtcome, rfl⟩ := exists_blame_of_mem hd
    obtain ⟨spot, hspot, hspans⟩ := exists_spot_of_runProgram hprogram houtcome
    exact ⟨spot, hspot, hspans.blamed_eq.symm ▸ hspans⟩

end Session

end Keeping

/-- Every diagnostic of a run in a new session points at exactly one spot of the source, and it is
one that its problem is reported at: the start of a refused lexeme for scanning, a token or the end
of the source for parsing, a token for resolution, and for evaluation a token or, if a subscript
fails, all from its bracket to the one that closes it. So its span has a byte, and it lies in the
source unless parsing reports the end. -/
theorem Session.diagnostics_point_at_spots (console : Console) (limit budget : Nat) (source : Text)
    (d : Diagnostic) (hd : d ∈ ((fresh console limit).run budget source).1.ending.diagnostics) :
    (∃ spot ∈ d.problem.spots, spot.Spans source d.span ∧
      ∀ other : Spot, other.Spans source d.span → other = spot) ∧
      0 < d.span.length ∧
        (d.span.stop ≤ source.length ∨ d.stage = .parse ∧ d.span = ⟨source.length, 1⟩) := by
  obtain ⟨spot, hspot, hspans⟩ := exists_spot_of_mem_run hd
  refine ⟨⟨spot, hspot, hspans, fun other => hspans.unique⟩, hspans.inside.1, ?_⟩
  rcases hspans.inside.2 with hstop | rfl
  · exact .inl hstop
  · exact .inr ⟨Problem.stage_of_ending hspot, hspans⟩

/-- The brackets of a list inside a subscript close before those of the subscript. -/
theorem Session.diagnostics_point_at_spots_nested :
    let source := utf8 "let l = [nil]; l[[l]];"
    ∃ d ∈ ((fresh ⟨[], [], none, none⟩ 9).run 100 source).1.ending.diagnostics,
      d.problem.spots = [.subscript] ∧ d.span = ⟨16, 5⟩ ∧
        ∃ spot ∈ d.problem.spots, spot.Spans source d.span ∧
          ∀ other : Spot, other.Spans source d.span → other = spot := by
  intro source
  have hfound : ((fresh ⟨[], [], none, none⟩ 9).run 100 source).1.ending.diagnostics.map
      (fun d => (d.problem.spots, d.span)) = [([.subscript], ⟨16, 5⟩)] := by decide +kernel
  obtain ⟨d, hd, heq⟩ :=
    List.mem_map.mp (hfound ▸ List.mem_singleton_self ([Spot.subscript], (⟨16, 5⟩ : Span)))
  obtain ⟨hspots, hspan⟩ := Prod.mk.inj heq
  exact ⟨d, hd, hspots, hspan,
    (diagnostics_point_at_spots ⟨[], [], none, none⟩ 9 100 source d hd).1⟩

end Lox
