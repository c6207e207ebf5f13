import Lox.Proofs.Session.Agreement
import Lox.Proofs.Session.Staging
import Lox.Proofs.Syntax.Sites

/-!
# What a session blames

A diagnostic is blamed on bytes of a source. Before evaluation that is the source that is being run.
Evaluation may also be in a function that an earlier source has left behind, and blames the bytes of
that source then.

Evaluation makes no spans of its own, and commutes with every map of places. So the sites of a set
of sources stay the only spans of the heap while programs from these sources are run: take every
other span to one of the sites, and the programs and the heap stay as they are; so does what
evaluation makes of them. The main theorem is `blamed_in_session`.
-/

namespace Lox

/-- The diagnostics that a run ends with. -/
def Ending.diagnostics : Ending → List Diagnostic
  | .diagnosed ds => ds
  | .faulted _ | .exhausted => []

/-- A span that a source can be blamed with: some of its bytes, or its end. -/
def InSource (source : Text) (s : Span) : Prop :=
  0 < s.length ∧ s.stop ≤ source.length ∨ s = ⟨source.length, 1⟩

instance (source : Text) (s : Span) : Decidable (InSource source s) :=
  inferInstanceAs (Decidable (_ ∨ _))

/-- A site is blamed inside of the source, or at its end. -/
theorem IsSite.inSource {source : Text} {site : Span}
    (h : IsSite (scan source).tokens (scan source).size site) : InSource source site.blamed := by
  rcases h.in_source with ⟨hoffset, hstop⟩ | rfl
  · refine .inl ?_
    simp only [Span.blamed, Span.stop, beq_iff_eq] at hstop ⊢
    split <;> omega
  · exact .inr rfl

/-! ## Evaluation among sites -/

section Onto

variable (P : Span → Prop) (base : Span)

/-- Marks with spans of a set only, and with the same function literals. -/
noncomputable def Relabelling.onto : Relabelling where
  span := Span.onto P base
  literal run keyword := (run, keyword)
  sameLiteral := Relabelling.sameLiteral_kept

variable {P base}

theorem Span.onto_onto (hbase : P base) (s : Span) :
    Span.onto P base (Span.onto P base s) = Span.onto P base s :=
  Span.onto_of_mem (Span.onto_mem hbase s)

/-- The program of a source whose sites are in the set has no other spans. -/
theorem markStmts_onto {ts : List Token} {size : Nat} (hbase : P base)
    (hsites : ∀ s, IsSite ts size s → P s) (run : Nat) (root : StaticScope) :
    markStmts (Relabelling.onto P base).toMarks
      (resolveProgram run root (parse ts size).stmts).value =
      (resolveProgram run root (parse ts size).stmts).value := by
  have hkeeps : Keeps (Span.onto P base) ts size := keeps_onto hsites
  have hcomp : (Relabelling.onto P base).toMarks.comp (.into run (Span.onto P base)) =
      .into run (Span.onto P base) := by
    simp only [Marks.comp, Marks.into, Relabelling.onto, Function.comp_def, Span.onto_onto hbase]
  rw [← hkeeps.markStmts_resolveProgram run root, markStmts_markStmts, hcomp]

/-- A program with spans of the set only, run in a heap with such spans only, leaves no other
spans. -/
theorem runProgram_onto {limit budget : Nat} {program : List Stmt} {h : Heap} {console : Console}
    (hprogram : markStmts (Relabelling.onto P base).toMarks program = program)
    (hheap : h.mark (Relabelling.onto P base).toMarks = h) :
    (runProgram limit budget program h console).mark (Relabelling.onto P base) =
      runProgram limit budget program h console := by
  rw [← runProgram_mark, hprogram, hheap]

/-- What is blamed after all places were moved onto sites is one of them. -/
theorem mem_of_blame_onto {ended : Ended} (hbase : P base)
    (hended : ended.mark (Relabelling.onto P base) = ended) {problem : RuntimeProblem} {site : Span}
    (houtcome : ended.outcome = .stopped (.blame problem site)) : P site := by
  have hsite := congrArg Ended.outcome hended
  simp only [Ended.mark, houtcome, Outcome.mark, Stop.mark, Outcome.stopped.injEq, Stop.blame.injEq,
    true_and] at hsite
  rw [← hsite]
  exact Span.onto_mem hbase site

end Onto

namespace Session

/-! ## The sites of a session -/

/-- A span is a site of one of some sources. -/
def SiteOf (sources : List Text) (s : Span) : Prop :=
  ∃ source ∈ sources, IsSite (scan source).tokens (scan source).size s

theorem siteOf_ending {sources : List Text} {source : Text} (h : source ∈ sources) :
    SiteOf sources (.emptyAt (scan source).size) := ⟨source, h, .ending⟩

variable {sources : List Text} {base : Span}

/-- The program of one of some sources, run in a heap with sites of these sources only, leaves no
other spans. -/
theorem runProgram_siteOf {s : Session} (budget : Nat) {source : Text} {program : List Stmt}
    (hbase : SiteOf sources base) (hsource : source ∈ sources)
    (hprogram : s.program? source = some program)
    (hheap : s.heap.mark (Relabelling.onto (SiteOf sources) base).toMarks = s.heap) :
    (runProgram s.limit budget program s.heap s.console).mark
      (Relabelling.onto (SiteOf sources) base) =
      runProgram s.limit budget program s.heap s.console := by
  obtain ⟨-, -, -, hvalue⟩ := analyse_ok (program?_eq_some hprogram)
  have hstays := markStmts_onto hbase (fun s hs => ⟨source, hsource, hs⟩) s.runs s.rootNames
  rw [hvalue] at hstays
  exact runProgram_onto hstays hheap

theorem heap_after_onto {console : Console} {limit : Nat} {runs : List (Nat × Text)}
    (hbase : SiteOf sources base) (hruns : ∀ r ∈ runs, r.2 ∈ sources) :
    (after console limit runs).heap.mark (Relabelling.onto (SiteOf sources) base).toMarks =
      (after console limit runs).heap := by
  induction runs using List.reverseRecOn with
  | nil => exact mark_fresh _ console limit
  | append_singleton before r ih =>
    have hbefore := ih fun r hr => hruns r (List.mem_append_left _ hr)
    rw [after_concat]
    cases hprogram : (after console limit before).program? r.2 with
    | none =>
      obtain ⟨report, hrun, -⟩ := run_of_program?_eq_none r.1 hprogram
      rw [hrun]
      exact hbefore
    | some program =>
      rw [(run_of_program?_eq_some r.1 hprogram).2]
      exact congrArg Ended.heap (runProgram_siteOf _ hbase (hruns r (by simp)) hprogram hbefore)

/-! ## Diagnostics -/

/-- A stage before evaluation reports only if the stages before it have not. -/
theorem mem_of_analyse_error {run : Nat} {root : StaticScope} {source : Text} {ds : List Diagnostic}
    {d : Diagnostic} (h : (analyse run root source).result = .error ds) (hd : d ∈ ds) :
    d ∈ (scan source).diagnostics ∨
      d ∈ (parse (scan source).tokens (scan source).size).diagnostics ∨
      (parse (scan source).tokens (scan source).size).diagnostics = [] ∧
        d ∈ (resolveProgram run root
          (parse (scan source).tokens (scan source).size).stmts).diagnostics := by
  by_cases hscan : (scan source).diagnostics = []
  · by_cases hparse : (parse (scan source).tokens (scan source).size).diagnostics = []
    · have hds :
          (resolveProgram run root
            (parse (scan source).tokens (scan source).size).stmts).diagnostics = ds := by
        simp only [result_analyse, hscan, hparse, List.isEmpty_nil, if_true] at h
        split at h
        · cases h
        · exact Except.error.inj h
      exact .inr (.inr ⟨hparse, hds ▸ hd⟩)
    · simp only [result_analyse, hscan, List.isEmpty_iff, hparse, if_true, if_false,
        Except.error.injEq] at h
      exact .inr (.inl (h ▸ hd))
  · simp only [result_analyse, List.isEmpty_iff, hscan, if_false, Except.error.injEq] at h
    exact .inl (h ▸ hd)

/-- The stages before evaluation blame the source that is being run. -/
theorem inSource_of_analyse {run : Nat} {root : StaticScope} {source : Text} {ds : List Diagnostic}
    {d : Diagnostic} (h : (analyse run root source).result = .error ds) (hd : d ∈ ds) :
    InSource source d.span := by
  rcases mem_of_analyse_error h hd with hscan | hparse | ⟨-, hresolve⟩
  · rw [scan_eq] at hscan
    obtain ⟨p, hp, hpiece⟩ := List.mem_filterMap.mp hscan
    obtain ⟨-, -, hpos, hstop⟩ := (lies_of_mem_placed hp).blamed hpiece
    exact .inl ⟨hpos, hstop.trans (lies_of_mem_placed hp).text_eq.1⟩
  · obtain ⟨site, hsite, hspan⟩ := exists_site_of_mem_parse hparse
    exact hspan ▸ hsite.inSource
  · obtain ⟨site, hsite, hspan⟩ := exists_site_of_mem_resolve hresolve
    exact hspan ▸ hsite.inSource

/-- What evaluation reports is where it has stopped. -/
theorem exists_blame_of_mem {outcome : Outcome} {d : Diagnostic}
    (h : d ∈ (endingOf outcome).diagnostics) :
    ∃ problem site, outcome = .stopped (.blame problem site) ∧
      d = ⟨.runtime problem, site.blamed⟩ := by
  cases outcome with
  | completed | exhausted => cases h
  | stopped stop =>
    cases stop with
    | blame problem site => exact ⟨problem, site, rfl, List.mem_singleton.mp h⟩
    | fault => cases h

/-- A diagnostic of a run in a session points into a source of the session, that of the run or one
that was run before. Unless it comes from evaluation, it points into the source of the run. -/
theorem blamed_in_session (console : Console) (limit : Nat) (before : List (Nat × Text))
    (budget : Nat) (source : Text) (d : Diagnostic)
    (hd : d ∈ ((after console limit before).run budget source).1.ending.diagnostics) :
    (∃ blamed ∈ source :: before.map Prod.snd, InSource blamed d.span) ∧
      (d.stage ≠ .runtime → InSource source d.span) := by
  cases hresult :
    (analyse (after console limit before).runs (after console limit before).rootNames source).result
    with
  | error ds =>
    simp only [run, hresult] at hd
    have hin : InSource source d.span := inSource_of_analyse hresult hd
    exact ⟨⟨source, List.mem_cons_self, hin⟩, fun _ => hin⟩
  | ok program =>
    have hprogram : (after console limit before).program? source = some program := by
      rw [program?, hresult]; rfl
    have hbase : SiteOf (source :: before.map Prod.snd) (.emptyAt (scan source).size) :=
      siteOf_ending List.mem_cons_self
    have hheap : (after console limit before).heap.mark _ = (after console limit before).heap :=
      heap_after_onto hbase fun r hr => List.mem_cons_of_mem _ (List.mem_map_of_mem hr)
    rw [(run_of_program?_eq_some budget hprogram).1] at hd
    obtain ⟨problem, site, houtcome, rfl⟩ := exists_blame_of_mem hd
    have hstays := runProgram_siteOf budget hbase List.mem_cons_self hprogram hheap
    obtain ⟨blamed, hmem, hsite⟩ := mem_of_blame_onto hbase hstays houtcome
    exact ⟨⟨blamed, hmem, hsite.inSource⟩, fun h => absurd rfl h⟩

/-- The source of the run need not be the one: a function that an earlier source has left behind is
blamed where it was written. -/
theorem blamed_outside_run :
    let first := utf8 "fun negated(x) \x7b return -x; \x7d"
    let second := utf8 "negated(nil);"
    let report := ((after ⟨[], [], none, none⟩ 10 [(100, first)]).run 100 second).1
    report.ending.diagnostics.map Diagnostic.span = [⟨24, 1⟩] ∧ ¬ InSource second ⟨24, 1⟩ := by
  decide +kernel

/-- What fails was written in an earlier source than the one that is run. -/
theorem blamed_in_session_earlier :
    let first := utf8 "fun negated(x) \x7b return -x; \x7d"
    let second := utf8 "negated(nil);"
    ∃ d ∈ ((after ⟨[], [], none, none⟩ 10 [(100, first)]).run 100 second).1.ending.diagnostics,
      d.stage = .runtime ∧ ∃ blamed ∈ [second, first], InSource blamed d.span := by
  intro first second
  have hspans :
      ((after ⟨[], [], none, none⟩ 10 [(100, first)]).run 100 second).1.ending.diagnostics.map
        (fun d => d.stage) = [.runtime] := by decide +kernel
  obtain ⟨d, hd, hstage⟩ := List.mem_map.mp (hspans ▸ List.mem_singleton_self Stage.runtime)
  exact ⟨d, hd, hstage,
    (blamed_in_session ⟨[], [], none, none⟩ 10 [(100, first)] 100 second d hd).1⟩

end Session

end Lox
