import Lox.Proofs.Evaluation.Printouts
import Lox.Proofs.Session.Failure

/-!
# The transcript of a session

What can be seen of a session is its **transcript**: for each source that is run, the report and
what was printed. It depends on what the session holds when it starts, the heap with the root scope
and the input that is left, and on nothing else that went before (`transcript_of_resumes`). Earlier
printouts make no difference to evaluation, and the number of runs so far only tells the function
literals of different runs apart: later numbers do that as well (`run_recast`).
-/

namespace Lox

/-! ## Later runs -/

/-- Marks for function literals of later runs than before, from a first run on. -/
def Relabelling.later (first more : Nat) : Relabelling where
  span := id
  literal run keyword := (if run < first then run else run + more, keyword)
  sameLiteral run keyword run' keyword' := by
    dsimp only
    split <;> split <;> omega

section Later

variable {first run : Nat} (more : Nat)

/-- Programs of earlier runs stay as they are. -/
theorem markStmts_later_of_lt (hrun : run < first) (root : StaticScope) (source : Text) :
    let program :=
      (resolveProgram run root (parse (scan source).tokens (scan source).size).stmts).value
    markStmts (Relabelling.later first more).toMarks program = program := by
  have hkeeps : Keeps id (scan source).tokens (scan source).size := fun _ _ => rfl
  have hcomp : (Relabelling.later first more).toMarks.comp (.into run id) = .into run id := by
    simp [Marks.comp, Marks.into, Relabelling.later, hrun]
  dsimp only
  rw [← hkeeps.markStmts_resolveProgram run root, markStmts_markStmts, hcomp]

/-- A later run makes the same of a source, with its function literals marked for it. -/
theorem analyse_later (hrun : first ≤ run) (root : StaticScope) (source : Text) :
    analyse (run + more) root source =
      { analyse run root source with
        result := (analyse run root source).result.map
          (markStmts (Relabelling.later first more).toMarks) } := by
  have hkeeps : Keeps id (scan source).tokens (scan source).size := fun _ _ => rfl
  have hcomp : (Relabelling.later first more).toMarks.comp (.into run id) =
      Marks.comp (.into (run + more) id) (.into run id) := by
    simp [Marks.comp, Marks.into, Relabelling.later, Nat.not_lt.mpr hrun]
  obtain ⟨hvalue, -, hmoved⟩ := matches_resolveStmts id run (run + more) .none
    (parse (scan source).tokens (scan source).size).stmts [root] [root] (.cons (.refl root) .nil)
  rw [hkeeps.markStmts_parse] at hvalue hmoved
  have hprogram :
    (resolveProgram (run + more) root (parse (scan source).tokens (scan source).size).stmts).value =
      markStmts (Relabelling.later first more).toMarks
        (resolveProgram run root (parse (scan source).tokens (scan source).size).stmts).value := by
    refine hvalue.trans ?_
    change markStmts _
      (resolveProgram run root (parse (scan source).tokens (scan source).size).stmts).value = _
    rw [← hkeeps.markStmts_resolveProgram run root, markStmts_markStmts, markStmts_markStmts, hcomp]
  have hreports :
      (resolveProgram run root (parse (scan source).tokens (scan source).size).stmts).diagnostics =
      (resolveProgram (run + more) root
        (parse (scan source).tokens (scan source).size).stmts).diagnostics :=
    List.forall₂_eq_eq_eq ▸ hmoved.imp fun _ _ h => h.eq_of_id
  simp only [analyse, hprogram, ← hreports]
  split_ifs <;> rfl

end Later

theorem length_markStmts (m : Marks) (program : List Stmt) :
    (markStmts m program).length = program.length := by
  induction program with
  | nil => rfl
  | cons s rest ih => simp [markStmts, ih]

namespace Session

variable {s s' : Session} {first more budget : Nat} {old : List Text}

/-- A session with earlier printouts, and with later runs in place of those from a first one on. -/
def recast (first more : Nat) (old : List Text) (s : Session) : Session :=
  ⟨s.heap.mark (Relabelling.later first more).toMarks, s.console.below old, s.runs + more, s.limit⟩

theorem rootNames_recast : (s.recast first more old).rootNames = s.rootNames := by
  have hview :
      ∀ s : Session, s.rootNames =
      s.heap.rootView.map fun global => (global.name, global.mutable) := by
    intro s
    simp [rootNames, Heap.rootView]
  rw [hview, hview, recast, Heap.rootView_mark]

theorem endingOf_mark (outcome : Outcome) :
    endingOf (outcome.mark (Relabelling.later first more)) = endingOf outcome := by
  cases outcome with
  | stopped stop => cases stop <;> rfl
  | completed | exhausted => rfl

/-- A run does the same in a session that is recast. -/
theorem run_recast (h : first ≤ s.runs) (source : Text) :
    (s.recast first more old).run budget source =
      ((s.run budget source).1, (s.run budget source).2.recast first more old) := by
  have hanalysis := analyse_later more h s.rootNames source
  have hruns : s.runs + more + 1 = s.runs + 1 + more := Nat.add_right_comm _ _ _
  obtain ⟨heap, console, runs, limit⟩ := s
  have hended :
      ∀ program, runProgram limit budget (markStmts (Relabelling.later first more).toMarks program)
      (heap.mark (Relabelling.later first more).toMarks) (console.below old) =
      ((runProgram limit budget program heap console).mark (Relabelling.later first more)).below
      old := by
    intro program
    rw [runProgram_below, runProgram_mark]
  rw [run_eq, run_eq, rootNames_recast]
  simp only [recast, hanalysis] at hruns ⊢
  cases hresult : (analyse runs (rootNames ⟨heap, console, runs, limit⟩) source).result with
  | error ds => simp [Except.map, hruns]
  | ok program =>
    simp [Except.map, conclude, hended, Ended.below, Ended.mark, endingOf_mark,
      length_markStmts, hruns]

theorem runs_run (s : Session) (budget : Nat) (source : Text) :
    (s.run budget source).2.runs = s.runs + 1 := by
  cases hprogram : s.program? source with
  | none =>
    obtain ⟨report, hrun, -⟩ := run_of_program?_eq_none budget hprogram
    rw [hrun]
  | some program => rw [(run_of_program?_eq_some budget hprogram).2]

theorem output_run_grows (s : Session) (budget : Nat) (source : Text) :
    s.console.output <+: (s.run budget source).2.console.output := by
  cases hprogram : s.program? source with
  | none =>
    obtain ⟨report, hrun, -⟩ := run_of_program?_eq_none budget hprogram
    rw [hrun]
  | some program =>
    rw [(run_of_program?_eq_some budget hprogram).2]
    exact (keeps_runProgram s.limit budget program s.heap s.console).2

/-! ## Transcripts -/

/-- What can be seen of one run in a session. -/
structure Step where
  source : Text
  report : RunReport
  output : Text

/-- The session after sources have been run. -/
def through (budget : Nat) (s : Session) (sources : List Text) : Session :=
  sources.foldl (fun s source => (s.run budget source).2) s

/-- What can be seen of sources that are run one after another. -/
def transcript (budget : Nat) : Session → List Text → List Step
  | _, [] => []
  | s, source :: rest =>
    let next := (s.run budget source).2
    ⟨source, (s.run budget source).1, next.console.output.drop s.console.output.length⟩ ::
      transcript budget next rest

/-- The transcript of more sources goes on from the first. -/
theorem transcript_append (s : Session) (sources more : List Text) :
    s.transcript budget (sources ++ more) =
      s.transcript budget sources ++ (s.through budget sources).transcript budget more := by
  induction sources generalizing s with
  | nil => rfl
  | cons source rest ih => simp only [List.cons_append, transcript, ih, through, List.foldl_cons]

theorem length_transcript (s : Session) (sources : List Text) :
    (s.transcript budget sources).length = sources.length := by
  induction sources generalizing s with
  | nil => rfl
  | cons source rest ih => simp only [transcript, List.length_cons, ih]

/-- What a session has printed in the end is what was printed before and what each run has
printed. -/
theorem output_through (s : Session) (sources : List Text) :
    (s.through budget sources).console.output =
      s.console.output ++ ((s.transcript budget sources).map Step.output).flatten := by
  induction sources generalizing s with
  | nil => simp [through, transcript]
  | cons source rest ih =>
    obtain ⟨new, hnew⟩ := s.output_run_grows budget source
    rw [through, List.foldl_cons]
    refine (ih _).trans ?_
    rw [transcript, List.map_cons, List.flatten_cons, ← hnew, List.drop_left, List.append_assoc]

/-- The transcript of a session that is recast is the same. -/
theorem transcript_recast (h : first ≤ s.runs) (sources : List Text) :
    (s.recast first more old).transcript budget sources = s.transcript budget sources := by
  induction sources generalizing s with
  | nil => rfl
  | cons source rest ih =>
    have hlater : first ≤ (s.run budget source).2.runs := by
      rw [runs_run]
      omega
    have houtput : ∀ s : Session, (s.recast first more old).console.output =
        old.reverse.flatten ++ s.console.output :=
      fun s => Console.output_below old s.console
    simp only [transcript, run_recast h, ih hlater, houtput, List.length_append,
      List.drop_length_add_append]

/-! ## What the transcript depends on -/

/-- The heap of a session has function literals of its own runs only. -/
def Settled (s : Session) : Prop :=
  ∀ first more, s.runs ≤ first → s.heap.mark (Relabelling.later first more).toMarks = s.heap

theorem settled_fresh (console : Console) (limit : Nat) : (fresh console limit).Settled :=
  fun _ _ _ => mark_fresh _ console limit

theorem Settled.run (hs : s.Settled) (source : Text) : (s.run budget source).2.Settled := by
  intro first more hfirst
  rw [runs_run] at hfirst
  have hheap := hs first more (by omega)
  cases hprogram : s.program? source with
  | none =>
    obtain ⟨report, hrun, -⟩ := run_of_program?_eq_none budget hprogram
    rw [hrun]
    exact hheap
  | some program =>
    obtain ⟨-, -, -, rfl⟩ := analyse_ok (program?_eq_some hprogram)
    rw [(run_of_program?_eq_some budget hprogram).2]
    have hended :=
      runProgram_mark (Relabelling.later first more) s.limit budget
        (resolveProgram s.runs s.rootNames
          (parse (scan source).tokens (scan source).size).stmts).value s.heap s.console
    rw [markStmts_later_of_lt more (by omega), hheap] at hended
    exact (congrArg Ended.heap hended).symm

theorem Settled.through (hs : s.Settled) (sources : List Text) :
    (s.through budget sources).Settled := by
  induction sources generalizing s with
  | nil => exact hs
  | cons source rest ih => exact ih (hs.run source)

/-- A session holds what another has left: the heap with the root scope, and the input. -/
structure Resumes (s s' : Session) : Prop where
  heap : s'.heap = s.heap
  input : s'.console.input = s.console.input
  inputProblem : s'.console.inputProblem = s.console.inputProblem
  printProblem : s'.console.printProblem = s.console.printProblem
  limit : s'.limit = s.limit
  runs : s.runs ≤ s'.runs

/-- A session that holds what another has left goes on as the other does. -/
theorem transcript_of_resumes (hs : s.Settled) (h : s.Resumes s') (sources : List Text) :
    s'.transcript budget sources = s.transcript budget sources := by
  -- Both come from one session that has printed nothing.
  let start : Session := { s with console := { s.console with printed := [] } }
  have hfirst : s.runs ≤ start.runs := le_rfl
  have hstart : start.recast s.runs 0 s.console.printed = s := by
    simp only [start, recast, Console.below, hs s.runs 0 le_rfl, List.nil_append, Nat.add_zero]
  have hlater : start.recast s.runs (s'.runs - s.runs) s'.console.printed = s' := by
    obtain ⟨heap, ⟨printed, input, inputProblem, printProblem⟩, runs, limit⟩ := s
    obtain ⟨heap', ⟨printed', input', inputProblem', printProblem'⟩, runs', limit'⟩ := s'
    obtain ⟨rfl, rfl, rfl, rfl, rfl, hruns⟩ := h
    simp only [start, recast, Console.below, hs runs _ le_rfl, List.nil_append,
      Nat.add_sub_cancel' hruns]
  rw [← hstart, ← hlater, transcript_recast hfirst, transcript_recast hfirst]

end Session

end Lox
