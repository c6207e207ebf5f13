import Lox.Proofs.Evaluation.Flow
import Lox.Proofs.Evaluation.Grafting
import Lox.Proofs.Resolution.Parts
import Lox.Proofs.Session.Blame
import Lox.Proofs.Session.Lineage

/-!
# Jumps in a session

The sources of a session may be run in any order and leave functions behind for each other. If in
each of them every `break` and `continue` stands in the body of a loop, with no function in between,
and every `return` in the body of a function, then no run of the session blames a jump, and each
statement and each call ends as its construct asks (`jumps_stay_in_construct`).
-/

namespace Lox

open Code

/-- The jumps of a source stand where they are admitted. -/
def JumpsPlaced (source : Text) : Prop :=
  (scan source).diagnostics = [] → (parse (scan source).tokens (scan source).size).diagnostics =
    [] → Confined .top (.stmts (parse (scan source).tokens (scan source).size).stmts)

/-! ## Resolution moves no jump -/

namespace Code

variable {run : Nat} {context : ClassContext} {S : StaticScopes}

theorem within_resolved (flow : Flow) (c : Code) :
    (c.resolved run context S).within flow = c.within flow := by
  cases c with
  | stmt s =>
    cases s with
    | classDecl name superclass methods => cases superclass <;> rfl
    | _ => rfl
  | _ => rfl

theorem Allowed.resolved {flow : Flow} {c : Code} (h : c.Allowed flow) :
    (c.resolved run context S).Allowed flow := by
  cases c with
  | stmt s =>
    cases s with
    | classDecl name superclass methods => cases superclass <;> trivial
    | _ => exact h
  | _ => trivial

/-- Resolution moves no jump. -/
theorem Confined.resolved {flow : Flow} {c : Code} (h : Confined flow c) :
    Confined flow (c.resolved run context S) := by
  induction h generalizing context S with
  | intro hallowed _ ih =>
    refine .intro hallowed.resolved fun d hd => ?_
    obtain ⟨source, context', S', hsource, rfl⟩ := child_resolved hd
    rw [within_resolved]
    exact ih source hsource

/-- Whether every jump in a part stands in a place that admits it, and the part goes no deeper than
a number. -/
def confinedWithin : Nat → Flow → Code → Bool
  | 0, _, _ => false
  | levels + 1, flow, c =>
    allowedHere flow c && (children c).all (confinedWithin levels (c.within flow))
where
  allowedHere (flow : Flow) : Code → Bool
    | .stmt (.brk _) | .stmt (.cont _) => flow.loop
    | .stmt (.ret _ _) => flow.function
    | _ => true

theorem allowed_of_allowedHere {flow : Flow} {c : Code}
    (h : confinedWithin.allowedHere flow c = true) : c.Allowed flow := by
  cases c with
  | stmt s =>
    cases s with
    | brk | cont | ret => exact h
    | _ => trivial
  | _ => trivial

theorem confined_of_confinedWithin (levels : Nat) {flow : Flow} {c : Code}
    (h : confinedWithin levels flow c = true) : Confined flow c := by
  induction levels generalizing flow c with
  | zero => cases h
  | succ levels ih =>
    obtain ⟨hhere, hchildren⟩ := Bool.and_eq_true_iff.mp h
    exact .intro (allowed_of_allowedHere hhere) fun d hd =>
      ih (List.all_eq_true.mp hchildren d (mem_children hd))

end Code

/-! ## Statements and calls -/

/-- A state in which a statement is executed on its own. -/
def State.alone (state : State) (s : Stmt) : State := { state with control := .exec s .done }

theorem Flow.Admits.normal_or_returned {flow : Flow} {signal : Signal} (h : flow.Admits signal)
    (hloop : flow.loop = false) : signal = .normal ∨ ∃ keyword v, signal = .returned keyword v := by
  cases signal with
  | normal => exact .inl rfl
  | returned keyword v => exact .inr ⟨keyword, v, rfl⟩
  | broke | continued => exact absurd h (by simp [Flow.Admits, hloop])

theorem Flow.Admits.normal {signal : Signal} (h : Flow.top.Admits signal) : signal = .normal := by
  cases signal with
  | normal => rfl
  | returned | broke | continued => cases h

namespace State.Orderly

variable {base : Flow} {limit n : Nat} {state : State} {s : Stmt} {signal : Signal} {heap : Heap}
    {console : Console}

/-- A statement on its own ends with a signal that is admitted wherever the statement is
confined. -/
theorem admits_of_alone (h : state.Orderly base)
    (hrun : Lox.runFor limit n (state.alone s) = .finished signal heap console) {flow : Flow}
    (hs : Confined flow (.stmt s)) : flow.Admits signal := by
  have horderly : (state.alone s).Orderly flow :=
    ⟨⟨h.bears.heap, hs.functions, trivial⟩, hs, trivial⟩
  have hnext := horderly.runFor limit n
  rw [hrun] at hnext
  exact hnext

/-- A loop on its own ends in the normal way or returns. -/
theorem loop_of_alone (h : state.Orderly base) {condition closer : Option Expr} {body : Stmt}
    (hrun : Lox.runFor limit n (state.alone (.loop condition body closer)) =
      .finished signal heap console) {flow : Flow}
    (hs : Confined flow (.stmt (.loop condition body closer))) :
    signal = .normal ∨ ∃ keyword v, signal = .returned keyword v := by
  have hadmits : Flow.Admits { flow with loop := false } signal :=
    h.admits_of_alone hrun (hs.loop rfl)
  exact hadmits.normal_or_returned rfl

/-- A call gives a value or is stopped, and no jump is blamed then. -/
theorem call_returns (h : state.Orderly base) {callee : Value} {arguments : List Value}
    {paren : Span} {next : ValueCont} (hcalls : state.Calls callee arguments paren next) (n : Nat) :
    (∃ stop heap console, Lox.runFor limit (n + 1) state = .stopped stop heap console ∧
      stop.Quiet) ∨
    (∃ state', Lox.runFor limit (n + 1) state = .running state' ∧ state.depth < state'.depth) ∨
    state.Returned limit (n + 1) next := by
  rcases hcalls.returns n with ⟨state', hrun, -, hdepth⟩ | hreturned | hfailed
  · exact .inr (.inl ⟨state', hrun, hdepth⟩)
  · exact .inr (.inr hreturned)
  · obtain ⟨stop, heap, console, hrun⟩ := hfailed.stopped
    have hnext := h.runFor limit (n + 1)
    rw [hrun] at hnext
    exact .inl ⟨stop, heap, console, hrun, hnext⟩

end State.Orderly

namespace Session

variable {console : Console} {limit : Nat} {runs before rest : List (Nat × Text)} {r : Nat × Text}
    {program : List Stmt}

/-- A program whose jumps are placed is confined. -/
theorem confined_program {s : Session} {source : Text} (hplaced : JumpsPlaced source)
    (hprogram : s.program? source = some program) : Confined .top (.stmts program) := by
  obtain ⟨hscan, hparse, -, rfl⟩ := analyse_ok (program?_eq_some hprogram)
  exact (hplaced hscan hparse).resolved

variable (hplaced : ∀ r ∈ runs, JumpsPlaced r.2)

include hplaced

/-- The functions that a session leaves behind are confined. -/
theorem confined_after (hruns : runs = before ++ rest) :
    (after console limit before).heap.Bears (Every FunctionsConfined) := by
  induction before using List.reverseRecOn generalizing rest with
  | nil => exact bears_fresh _
  | append_singleton before r ih =>
    have hsplit : runs = before ++ r :: rest := by simpa using hruns
    rw [after_concat]
    cases hprogram : (after console limit before).program? r.2 with
    | none =>
      obtain ⟨report, hrun, -⟩ := run_of_program?_eq_none r.1 hprogram
      rw [hrun]
      exact ih hsplit
    | some program =>
      rw [(run_of_program?_eq_some r.1 hprogram).2, limit_after]
      have hconfined := confined_program (hplaced r (by simp [hsplit])) hprogram
      exact bears_runProgram hereditary_functionsConfined
        (ih hsplit) hconfined.functions limit r.1 _

/-- Every state that a session passes is orderly. -/
theorem orderly_of_reaches {state : State} (h : Reaches console limit runs state) :
    state.Orderly .top := by
  obtain ⟨before, r, rest, program, hruns, hprogram, hpasses⟩ := h
  have hconfined := confined_program (hplaced r (by simp [hruns])) hprogram
  exact orderly_of_passes hpasses (confined_after hplaced hruns) hconfined

/-- No run of a session blames a jump. -/
theorem quiet_run (hruns : runs = before ++ r :: rest) {d : Diagnostic}
    (hd : d ∈ ((after console limit before).run r.1 r.2).1.ending.diagnostics)
    {problem : RuntimeProblem} (hproblem : d.problem = .runtime problem) :
    problem.cause ≠ .signal := by
  have hends :=
    analyse_endsAt (after console limit before).runs (after console limit before).rootNames r.2
  cases hresult :
    (analyse (after console limit before).runs (after console limit before).rootNames r.2).result
    with
  | error ds =>
    rw [hresult] at hends
    obtain ⟨last, hlast, -, hends⟩ := hends
    rw [run_of_error r.1 hresult] at hd
    have hstage : d.stage = .runtime := congrArg Problem.stage hproblem
    exact absurd (hends.stage d hd ▸ hstage) hlast
  | ok program =>
    have hprogram : (after console limit before).program? r.2 = some program := by
      rw [program?, hresult]; rfl
    rw [(run_of_program?_eq_some r.1 hprogram).1, limit_after] at hd
    obtain ⟨problem', site, houtcome, rfl⟩ := exists_blame_of_mem hd
    obtain rfl := Problem.runtime.inj hproblem
    have hconfined := confined_program (hplaced r (by simp [hruns])) hprogram
    exact quiet_runProgram houtcome (confined_after hplaced hruns) hconfined

omit hplaced

/-- Control flow stays in its construct. In a session in whose sources each `break` and `continue`
stands in the body of a loop, with no function in between, and each `return` in the body of a
function, no run blames a jump for standing elsewhere. Whenever the machine executes a statement,
and the statement on its own finishes with a signal, that signal is what the machine goes on with;
wherever the statement may stand admits it; a loop, or a statement that is executed outside of all
loops of its function, finishes in the normal way or returns; and a statement outside of all
functions finishes in the normal way. No signal ever arrives where it is not admitted. And a call is
under way, or has returned a value, or was stopped by an error other than that of a jump. -/
theorem jumps_stay_in_construct (console : Console) (limit : Nat) (runs : List (Nat × Text))
    (hplaced : ∀ r ∈ runs, JumpsPlaced r.2) :
    (∀ before r rest, runs = before ++ r :: rest →
      ∀ d ∈ ((after console limit before).run r.1 r.2).1.ending.diagnostics,
      d.problem ∉ [.runtime .breakOutsideLoop, .runtime .continueOutsideLoop,
        .runtime .returnOutsideFunction]) ∧
    ∀ state, Reaches console limit runs state →
      (∀ s next, state.control = .exec s next → ∀ n signal heap console',
        runFor limit n (state.alone s) = .finished signal heap console' →
          (∃ k ≤ n, ∃ scope depth, runFor limit k state =
            .running ⟨.finish signal next, scope, depth, heap, console'⟩) ∧
          (∀ flow, Confined flow (.stmt s) → flow.Admits signal) ∧
          ((∃ condition body closer, s = .loop condition body closer) ∨
            (next.flow .top).loop = false →
            signal = .normal ∨ ∃ keyword v, signal = .returned keyword v) ∧
          (next.flow .top = .top → signal = .normal)) ∧
      (∀ signal next, state.control = .finish signal next → (next.flow .top).Admits signal) ∧
      (∀ callee arguments paren next, state.Calls callee arguments paren next → ∀ n,
        (∃ stop heap console', runFor limit (n + 1) state = .stopped stop heap console' ∧
          stop.Quiet) ∨
        (∃ state', runFor limit (n + 1) state = .running state' ∧ state.depth < state'.depth) ∨
        state.Returned limit (n + 1) next) := by
  refine ⟨fun before r rest hruns d hd hmem => ?_, fun state hstate => ?_⟩
  · have hquiet : ∀ problem, d.problem = .runtime problem → problem.cause ≠ .signal :=
      fun problem => quiet_run hplaced hruns hd
    simp only [List.mem_cons, List.not_mem_nil, or_false] at hmem
    rcases hmem with hproblem | hproblem | hproblem <;> exact hquiet _ hproblem rfl
  have horderly := orderly_of_reaches hplaced hstate
  refine ⟨fun s next hcontrol n signal heap console' hrun => ?_, fun signal next hcontrol => ?_,
    fun callee arguments paren next hcalls n => horderly.call_returns hcalls n⟩
  · have hconfines := horderly.confines
    rw [hcontrol] at hconfines
    have hadmits : (next.flow .top).Admits signal := horderly.admits_of_alone hrun hconfines.1
    have hgraft : (state.alone s).graft next = state := by
      obtain ⟨control, scope, depth, heap, console⟩ := state
      obtain rfl : control = .exec s next := hcontrol
      rfl
    refine ⟨?_, fun flow hs => horderly.admits_of_alone hrun hs, ?_, fun htop => ?_⟩
    · have hgoes := runFor_graft hrun next
      rwa [hgraft] at hgoes
    · rintro (⟨condition, body, closer, rfl⟩ | hloop)
      · exact horderly.loop_of_alone hrun hconfines.1
      · exact hadmits.normal_or_returned hloop
    · rw [htop] at hadmits
      exact hadmits.normal
  · have hconfines := horderly.confines
    rw [hcontrol] at hconfines
    exact hconfines.1

/-- A function that leaves a loop in each of the three ways, called by a later source until it
fails. -/
theorem jumps_stay_in_construct_calls :
    let runs := [
      (200, utf8 "fun f(x, y) \x7b for ; ; \x7b if x \x7b x = y; continue; \x7d if y \x7b break; \x7d return x; \x7d return -y; \x7d"),
      (200, utf8 "print f(true, false); f(false, true);")]
    (∀ r ∈ runs, JumpsPlaced r.2) ∧
      (after ⟨[], [], none, none⟩ 9 runs).console.output = utf8 "false\n" ∧
      ∀ before r rest, runs = before ++ r :: rest →
        ∀ d ∈ ((after ⟨[], [], none, none⟩ 9 before).run r.1 r.2).1.ending.diagnostics,
          d.problem ∉ [.runtime .breakOutsideLoop, .runtime .continueOutsideLoop,
            .runtime .returnOutsideFunction] := by
  intro runs
  have hplaced : ∀ r ∈ runs, JumpsPlaced r.2 := by
    have hwithin : (runs.all fun r =>
        Code.confinedWithin 20 .top (.stmts (parse (scan r.2).tokens (scan r.2).size).stmts)) =
          true := by decide +kernel
    exact fun r hr _ _ => confined_of_confinedWithin 20 (List.all_eq_true.mp hwithin r hr)
  have houtput : (after ⟨[], [], none, none⟩ 9 runs).console.output = utf8 "false\n" := by
    decide +kernel
  exact ⟨hplaced, houtput, (jumps_stay_in_construct ⟨[], [], none, none⟩ 9 runs hplaced).1⟩

end Session

end Lox
