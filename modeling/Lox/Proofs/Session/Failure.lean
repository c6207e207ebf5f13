import Lox.Proofs.Evaluation.RootScope
import Lox.Proofs.Session.Blame
import Lox.Proofs.Session.Soundness
import Lox.Proofs.Session.Staging
import Lox.Proofs.Syntax.Sites

/-!
# What a run that fails leaves behind

A run that fails in evaluation stops at one statement of its program. The statements before it have
completed, so each has made its declarations. The one that fails has made none, and those after it
are not looked at. So the names of the root scope are those from before the run with the
declarations of the completed statements added in order, and since resolution asks a scope only what
it says of a name, the next source is resolved as if against these names
(`failed_run_keeps_bindings`).
-/

namespace Lox

open Code Resolve

/-! ## The statement that fails -/

/-- The statement at which the run of a program stops, counted from zero, and why it stops. -/
def failure? (limit budget : Nat) : List Stmt → Heap → Console → Option (Nat × Stop)
  | [], _, _ => none
  | s :: rest, heap, console =>
    match runStmt limit budget s heap console with
    | ⟨.completed, heap, console⟩ =>
      (failure? limit budget rest heap console).map fun (k, stop) => (k + 1, stop)
    | ⟨.stopped stop, _, _⟩ => some (0, stop)
    | ⟨.exhausted, _, _⟩ => none

section Program

variable {limit budget : Nat} {stop : Stop} {h : Heap} {console : Console}

theorem exists_failure {program : List Stmt}
    (hrun : (runProgram limit budget program h console).outcome = .stopped stop) :
    ∃ k, failure? limit budget program h console = some (k, stop) := by
  induction program generalizing h console with
  | nil => cases hrun
  | cons s rest ih =>
    rw [runProgram] at hrun
    rw [failure?]
    rcases hfirst : runStmt limit budget s h console with ⟨_ | _ | _, h', console'⟩
    · simp only [hfirst] at hrun
      obtain ⟨k, hk⟩ := ih hrun
      exact ⟨k + 1, by simp [hk]⟩
    · simp only [hfirst, Outcome.stopped.injEq] at hrun
      exact ⟨0, by simp [hrun]⟩
    · simp [hfirst] at hrun

/-! ## The names of the root scope -/

/-- The names of a scope once statements have made their declarations, in order. -/
def StaticScope.declaring (names : StaticScope) (ss : List Stmt) : StaticScope :=
  ss.foldl (fun names s => s.declared ++ names) names

theorem StaticScope.Alike.declaring {names names' : StaticScope} (halike : names.Alike names')
    (ss : List Stmt) : (names.declaring ss).Alike (names'.declaring ss) := by
  induction ss generalizing names names' with
  | nil => exact halike
  | cons s ss ih => exact ih (halike.append s.declared)

/-- A program that is resolved without a report and fails has made the declarations of the
statements before the one that fails. -/
theorem rootNames_of_failure {run k : Nat} {source : List Stmt} {top : StaticScope}
    (htidy : Every Tidy (.stmts source))
    (hclean : (resolveStmts run .none source [top]).diagnostics = [])
    (hroot : Heap.root < h.scopes.size)
    (hfails : failure? limit budget (resolveStmts run .none source [top]).value h console =
      some (k, stop)) :
    (h.rootNames.declaring (source.take k)).Alike
      (runProgram limit budget (resolveStmts run .none source [top]).value h
        console).heap.rootNames := by
  induction source generalizing top h console k with
  | nil => cases hfails
  | cons s rest ih =>
    obtain ⟨hmade, hlater, hvalue, -⟩ := resolveStmts_cons htidy hclean
    rw [hvalue, failure?] at hfails
    rw [hvalue, runProgram]
    rcases hfirst : runStmt limit budget (s.resolve run .none [top]).value h
      console with ⟨_ | _ | _, h', console'⟩
    · simp only [hfirst, Option.map_eq_some_iff, Prod.exists, Prod.mk.injEq] at hfails ⊢
      obtain ⟨k, stop, hrest, rfl, rfl⟩ := hfails
      obtain ⟨hroot', hnames⟩ := rootNames_runStmt hmade hroot hfirst
      rw [Stmt.declared_resolve] at hnames
      exact fun name => (hnames.declaring (rest.take k) name).trans
        (ih (every_tail htidy) hlater hroot' hrest name)
    · simp only [hfirst, Option.some.injEq, Prod.mk.injEq] at hfails ⊢
      obtain ⟨rfl, rfl⟩ := hfails
      exact rootNames_runStmt_stopped hmade hroot hfirst
    · simp [hfirst] at hfails

end Program

/-! ## Resolution against names that are alike -/

/-- A report that is moved nowhere stays as it is. -/
theorem Diagnostic.Moved.eq_of_id {stage : Stage} {d d' : Diagnostic}
    (h : Diagnostic.Moved stage id d d') : d = d' := by
  obtain ⟨site, hspan, hspan'⟩ := h.span
  cases d
  cases d'
  exact congrArg₂ Diagnostic.mk h.problem (hspan.trans hspan'.symm)

/-- The stages before evaluation ask the names of the root scope only what they say of a name. -/
theorem analyse_alike {names names' : StaticScope} (halike : names.Alike names') (run : Nat)
    (source : Text) : analyse run names source = analyse run names' source := by
  have hkeeps : Keeps id (scan source).tokens (scan source).size := fun _ _ => rfl
  obtain ⟨hvalue, -, hmoved⟩ := matches_resolveStmts id run run .none
    (parse (scan source).tokens (scan source).size).stmts [names] [names'] (.cons halike .nil)
  have hkept := hkeeps.markStmts_resolveProgram run names
  rw [hkeeps.markStmts_parse] at hvalue hmoved
  have hprogram :
      (resolveProgram run names' (parse (scan source).tokens (scan source).size).stmts).value =
      (resolveProgram run names (parse (scan source).tokens (scan source).size).stmts).value :=
    hvalue.trans hkept
  have hreports :
      (resolveProgram run names (parse (scan source).tokens (scan source).size).stmts).diagnostics =
      (resolveProgram run names'
        (parse (scan source).tokens (scan source).size).stmts).diagnostics :=
    List.forall₂_eq_eq_eq ▸ hmoved.imp fun _ _ h => h.eq_of_id
  simp only [analyse, hprogram, hreports]

namespace Session

/-- A run with a report of evaluation got as far as evaluation, which stopped there. -/
theorem program_of_stopped {s : Session} {budget : Nat} {source : Text} {d : Diagnostic}
    (hd : d ∈ (s.run budget source).1.ending.diagnostics) (hstage : d.stage = .runtime) :
    ∃ program problem site, s.program? source = some program ∧
      (runProgram s.limit budget program s.heap s.console).outcome =
        .stopped (.blame problem site) ∧
      (s.run budget source).1.ending = .diagnosed [⟨.runtime problem, site.blamed⟩] := by
  have hends := analyse_endsAt s.runs s.rootNames source
  cases hresult : (analyse s.runs s.rootNames source).result with
  | error ds =>
    -- The reports are those of an earlier stage.
    rw [hresult] at hends
    obtain ⟨last, hlast, -, hends⟩ := hends
    rw [run_of_error budget hresult] at hd
    exact absurd ((hends.stage d hd).symm.trans hstage) hlast
  | ok program =>
    have hprogram : s.program? source = some program := by rw [program?, hresult]; rfl
    rw [(run_of_program?_eq_some budget hprogram).1] at hd ⊢
    generalize houtcome : (runProgram s.limit budget program s.heap s.console).outcome =
      outcome at hd ⊢
    cases outcome with
    | completed | exhausted => cases hd
    | stopped stop =>
      cases stop with
      | fault fault => cases hd
      | blame problem site => exact ⟨program, problem, site, hprogram, houtcome, rfl⟩

/-- A run that fails keeps the bindings that the statements before the failing one have made, and no
others. The next source is taken through its stages as if against the names from before the run with
those declarations added. -/
theorem failed_run_keeps_bindings {s : Session} {budget : Nat} {source : Text} {d : Diagnostic}
    (hroot : Heap.root < s.heap.scopes.size) (hplaced : LiteralsPlaced source)
    (hd : d ∈ (s.run budget source).1.ending.diagnostics) (hstage : d.stage = .runtime) :
    let stmts := (parse (scan source).tokens (scan source).size).stmts
    let program := (resolveProgram s.runs s.rootNames stmts).value
    let later := (s.run budget source).2
    ∃ k problem site, failure? s.limit budget program s.heap s.console =
      some (k, .blame problem site) ∧
      (s.run budget source).1.ending = .diagnosed [⟨.runtime problem, site.blamed⟩] ∧
      (s.rootNames.declaring (stmts.take k)).Alike later.rootNames ∧
      ∀ next, analyse later.runs later.rootNames next =
        analyse later.runs (s.rootNames.declaring (stmts.take k)) next := by
  intro stmts program later
  obtain ⟨made, problem, site, hprogram, hstopped, hending⟩ := program_of_stopped hd hstage
  obtain ⟨hscan, hparse, hclean, rfl⟩ := analyse_ok (program?_eq_some hprogram)
  obtain ⟨k, hfails⟩ := exists_failure hstopped
  have htidy : Every Tidy (.stmts stmts) :=
    every_tidy (shaped_of_parse hparse) (hplaced hscan hparse)
  have hnames : (s.rootNames.declaring (stmts.take k)).Alike later.rootNames := by
    have hlater : later.rootNames =
        (runProgram s.limit budget program s.heap s.console).heap.rootNames := by
      simp only [later, (run_of_program?_eq_some budget hprogram).2]
      rfl
    rw [hlater]
    exact rootNames_of_failure htidy hclean hroot hfails
  exact ⟨k, problem, site, hfails, hending, hnames, fun next => (analyse_alike hnames _ next).symm⟩

/-- What a block, a body and the failing statement itself declare is not in the root scope, and
neither is what comes later. -/
theorem failed_run_keeps_bindings_call :
    let source := utf8
      "let a; fun f() \x7b const b = 1; b + a; \x7d class C \x7b\x7d \x7b let d; \x7d let b = f(); let e;"
    let s := fresh ⟨[], [], none, none⟩ 10
    let names : StaticScope := [(utf8 "C", false), (utf8 "f", false), (utf8 "a", true)]
    (∃ d ∈ (s.run 100 source).1.ending.diagnostics, d.stage = .runtime) ∧
      (names ++ s.rootNames).Alike (s.run 100 source).2.rootNames := by
  intro source s names
  have hwithin :
      placedWithin 20 (.stmts (parse (scan source).tokens (scan source).size).stmts) = true := by
    decide +kernel
  have hreport : ∃ d ∈ (s.run 100 source).1.ending.diagnostics, d.stage = .runtime := by
    decide +kernel
  have hindex :
      (failure? s.limit 100
        (resolveProgram s.runs s.rootNames
        (parse (scan source).tokens (scan source).size).stmts).value s.heap s.console).map
        Prod.fst = some 4 := by
    decide +kernel
  have hdeclared : names ++ s.rootNames =
      s.rootNames.declaring ((parse (scan source).tokens (scan source).size).stmts.take 4) := by
    decide +kernel
  have hroot : Heap.root < s.heap.scopes.size := Nat.one_pos
  obtain ⟨d, hd, hstage⟩ := hreport
  obtain ⟨k, problem, site, hfails, -, hnames, -⟩ :=
    failed_run_keeps_bindings hroot (fun _ _ => everyPlaced_of_placedWithin hwithin) hd hstage
  rw [hfails] at hindex
  obtain rfl : k = 4 := Option.some.inj hindex
  exact ⟨⟨d, hd, hstage⟩, hdeclared ▸ hnames⟩

end Session

end Lox
