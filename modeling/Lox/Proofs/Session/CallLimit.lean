import Lox.Proofs.Evaluation.CallDepth
import Lox.Proofs.Session.Soundness

/-!
# The limit on active calls

Two new sessions that differ in their limits run a source alike, unless the smaller limit stops a
run: then it has printed the start of what the other one prints. The limit is kept at every moment
of a session. No call changes the number of calls that were active before it, whether it gives a
value or a failure comes out of it, and a program leaves none active.
-/

namespace Lox

namespace Ending

/-- A run ended because too many calls were active. -/
def TooDeep (ending : Ending) : Prop :=
  ∃ ds, ending = .diagnosed ds ∧ ∃ d ∈ ds, d.message = utf8 "Maximum call depth exceeded"

theorem tooDeep_diagnosed {ds : List Diagnostic} :
    (diagnosed ds).TooDeep ↔ ∃ d ∈ ds, d.message = utf8 "Maximum call depth exceeded" := by
  constructor
  · rintro ⟨ds', heq, hd⟩
    cases heq
    exact hd
  · exact fun hd => ⟨ds, rfl, hd⟩

theorem not_tooDeep {ending : Ending} (h : ∀ ds, ending ≠ diagnosed ds) : ¬ ending.TooDeep := by
  rintro ⟨ds, heq, -⟩
  exact h ds heq

instance (ending : Ending) : Decidable ending.TooDeep :=
  match ending with
  | .diagnosed _ => decidable_of_iff _ tooDeep_diagnosed.symm
  | .faulted _ | .exhausted => isFalse (not_tooDeep fun _ => Ending.noConfusion)

instance (ending : Ending) : Decidable (ending = .exhausted) :=
  match ending with
  | .exhausted => isTrue rfl
  | .diagnosed _ | .faulted _ => isFalse Ending.noConfusion

end Ending

namespace Session

/-- Every state that a session reaches is balanced. -/
theorem balanced_of_reaches {console : Console} {limit : Nat} {runs : List (Nat × Text)}
    {state : State} (h : Reaches console limit runs state) : state.Balanced limit := by
  obtain ⟨before, r, rest, program, -, -, hpasses⟩ := h
  exact balanced_of_passes hpasses

/-- A run of a new session, with the limit where it is used. -/
theorem run_fresh (console : Console) (limit budget : Nat) (source : Text) :
    (fresh console limit).run budget source =
      match (analyse 0 (fresh console 0).rootNames source).result with
      | .error ds => (⟨.diagnosed ds, (analyse 0 (fresh console 0).rootNames source).log⟩,
          { fresh console limit with runs := 1 })
      | .ok program => conclude 0 limit (analyse 0 (fresh console 0).rootNames source) program
          (runProgram limit budget program (fresh console 0).heap console) :=
  run_eq budget (fresh console limit) source

/-- A run under a greater limit leads to the same, or the run was cut short. -/
theorem run_limits (console : Console) {m m' : Nat} (hm : m ≤ m') {budget budget' : Nat}
    {source : Text} (h : ((fresh console m).run budget source).1.ending ≠ .exhausted)
    (h' : ((fresh console m').run budget' source).1.ending ≠ .exhausted) :
    ((fresh console m').run budget' source =
      (((fresh console m).run budget source).1,
        { ((fresh console m).run budget source).2 with limit := m' })) ∨
    ((fresh console m).run budget source).1.ending.TooDeep ∧
      ((fresh console m).run budget source).2.console.output <+:
        ((fresh console m').run budget' source).2.console.output := by
  rw [run_fresh] at h h'
  rw [run_fresh console m, run_fresh console m']
  cases hresult : (analyse 0 (fresh console 0).rootNames source).result with
  | error ds => exact .inl rfl
  | ok program =>
    rw [hresult] at h h'
    dsimp only at h h' ⊢
    have hended : (runProgram m budget program (fresh console 0).heap console).outcome ≠
        .exhausted :=
      fun houtcome => h (congrArg endingOf houtcome)
    have hended' : (runProgram m' budget' program (fresh console 0).heap console).outcome ≠
        .exhausted :=
      fun houtcome => h' (congrArg endingOf houtcome)
    rcases runProgram_limits hm hended hended' with heq | ⟨⟨paren, hstopped⟩, houtput⟩
    · rw [← heq]
      exact .inl rfl
    · refine .inr ⟨?_, houtput⟩
      change (endingOf _).TooDeep
      rw [hstopped]
      exact Ending.tooDeep_diagnosed.2
        ⟨⟨.runtime .callDepth, paren.blamed⟩, List.mem_singleton_self _, rfl⟩

/-- **The limit on active calls only cuts.** Of two new sessions that run a source to its end, the
one with the smaller limit does all that the other does, or ends for its limit with the start of the
other's output. At every moment of a session the calls that are active are counted and within the
limit, those of natives and of classes without a constructor included. Every call that is made
leaves as many active as before, when its value is given back as well as when a failure comes out of
it, and a program that ends leaves none active, however it ends. -/
theorem call_limit_only_cuts (console : Console) (m m' : Nat) (hm : m ≤ m') :
    (∀ source budget budget', ((fresh console m).run budget source).1.ending ≠ .exhausted →
      ((fresh console m').run budget' source).1.ending ≠ .exhausted →
      (¬ ((fresh console m).run budget source).1.ending.TooDeep →
        ((fresh console m').run budget' source).1 = ((fresh console m).run budget source).1 ∧
        ((fresh console m').run budget' source).2.console =
          ((fresh console m).run budget source).2.console ∧
        ((fresh console m').run budget' source).2.globals =
          ((fresh console m).run budget source).2.globals) ∧
      (((fresh console m).run budget source).1.ending.TooDeep →
        ((fresh console m).run budget source).2.console.output <+:
          ((fresh console m').run budget' source).2.console.output)) ∧
    (∀ runs state, Reaches console m runs state → state.depth = state.control.calls ∧
      state.control.calls ≤ m ∧
      ∀ callee arguments paren next, state.Calls callee arguments paren next →
        (∃ problem, problem.RefusesCall ∧ step m state =
          .stopped (.blame problem paren) state.heap state.console) ∨
        state.Accounted m next) ∧
    ∀ budget program heap console, (execute m budget program 0 heap console).1.outcome ≠
      .exhausted →
      (execute m budget program 0 heap console).2 = 0 := by
  refine ⟨fun source budget budget' h h' => ?_,
    fun runs state hreaches => ?_, fun budget program heap console h => ?_⟩
  · rcases run_limits console hm h h' with heq | ⟨hdeep, houtput⟩
    · rw [heq]
      exact ⟨fun _ => ⟨rfl, rfl, rfl⟩, fun _ => List.prefix_rfl⟩
    · exact ⟨fun hnot => absurd hdeep hnot, fun _ => houtput⟩
  · have hbalanced := balanced_of_reaches hreaches
    refine ⟨hbalanced.counted, hbalanced.counted ▸ hbalanced.within, ?_⟩
    intro callee arguments paren next hcalls
    exact hbalanced.refused_or_accounted hcalls
  · obtain ⟨hrun, hleft⟩ := execute_eq m budget program heap console
    exact hleft (hrun ▸ h)

/-- With a limit of one call, a function that calls itself once prints the start of what it prints
with a greater limit; two calls are enough. -/
theorem call_limit_only_cuts_recursion :
    let source := utf8 "fun f(x) \x7b print x; if x \x7b f(false); \x7d \x7d f(true);"
    (((fresh ⟨[], [], none, none⟩ 1).run 100 source).1.ending.TooDeep ∧
      ((fresh ⟨[], [], none, none⟩ 1).run 100 source).2.console.output = utf8 "true\n" ∧
      ((fresh ⟨[], [], none, none⟩ 9).run 100 source).2.console.output = utf8 "true\nfalse\n" ∧
      ((fresh ⟨[], [], none, none⟩ 1).run 100 source).2.console.output <+:
        ((fresh ⟨[], [], none, none⟩ 9).run 100 source).2.console.output) ∧
    ¬ ((fresh ⟨[], [], none, none⟩ 2).run 100 source).1.ending.TooDeep ∧
      ((fresh ⟨[], [], none, none⟩ 9).run 100 source).1 =
        ((fresh ⟨[], [], none, none⟩ 2).run 100 source).1 := by
  intro source
  have hone : ((fresh ⟨[], [], none, none⟩ 1).run 100 source).1.ending.TooDeep ∧
      ((fresh ⟨[], [], none, none⟩ 1).run 100 source).1.ending ≠ .exhausted ∧
      ((fresh ⟨[], [], none, none⟩ 1).run 100 source).2.console.output = utf8 "true\n" := by
    decide +kernel
  have htwo : ¬ ((fresh ⟨[], [], none, none⟩ 2).run 100 source).1.ending.TooDeep ∧
      ((fresh ⟨[], [], none, none⟩ 2).run 100 source).1.ending ≠ .exhausted := by decide +kernel
  have hnine : ((fresh ⟨[], [], none, none⟩ 9).run 100 source).1.ending ≠ .exhausted ∧
      ((fresh ⟨[], [], none, none⟩ 9).run 100 source).2.console.output = utf8 "true\nfalse\n" := by
    decide +kernel
  have hcuts := (call_limit_only_cuts ⟨[], [], none, none⟩ 1 9 (by decide)).1 source 100 100
  have hkeeps := (call_limit_only_cuts ⟨[], [], none, none⟩ 2 9 (by decide)).1 source 100 100
  have hcut := (hcuts hone.2.1 hnine.1).2 hone.1
  have hsame := (hkeeps htwo.2 hnine.1).1 htwo.1
  exact ⟨⟨hone.1, hone.2.2, hnine.2, hcut⟩, htwo.1, hsame.1⟩

end Session

end Lox
