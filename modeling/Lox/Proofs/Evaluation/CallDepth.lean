import Lox.Proofs.Evaluation.Advance
import Lox.Proofs.Evaluation.Frames

/-!
# The number of active calls

A call that has a body leaves an activation in the continuation, so the calls that are active can be
counted there. The machine keeps their number in its state. A state is **balanced** if the two agree
and the limit is kept: every step keeps a state balanced, whether it starts a call, ends one or does
neither.

A call that is made leads to a state that is called from where it was made, and stays so until its
value is given back or the machine fails. So more calls are active in between, and as many as before
when it has returned or the failure has come out of it (`State.Accounted`). After a statement,
however it has ended, none is active, and so it makes no difference that their number goes from
statement to statement (`execute_eq`).

The limit is asked for nowhere but where a call is made. So two machines with different limits take
the same steps until the smaller limit refuses a call, and what was printed up to there is the start
of what the other one prints.
-/

namespace Lox

/-! ## Counting calls -/

mutual

/-- The number of calls that are active below a continuation. -/
def ValueCont.calls : ValueCont → Nat
  | .activation next => next.calls + 1
  | .unary _ _ next | .binaryLeft _ _ _ next | .binaryRight _ _ _ next | .logical _ _ next
  | .assign _ next | .callee _ _ next | .argument _ _ _ _ next | .construct _ next | .get _ next
  | .getKeyObject _ _ next | .getKey _ _ next | .indexObject _ _ next | .index _ _ next
  | .setObject _ _ next | .setKeyObject _ _ _ next | .setKey _ _ _ next | .setField _ _ next
  | .setIndexObject _ _ _ next | .setIndex _ _ _ next | .setElement _ _ _ next | .field _ _ _ next
  | .element _ _ next => next.calls
  | .discard next | .print next | .declare _ _ next | .branch _ _ next | .loopTest _ next
  | .loopCloser _ next | .ret _ next => next.calls

@[inherit_doc ValueCont.calls]
def StmtCont.calls : StmtCont → Nat
  | .done => 0
  | .statements _ next | .leave _ next | .loopBody _ next => next.calls
  | .functionBody _ next => next.calls

end

/-- The number of calls that are active in what the machine looks at. -/
def Control.calls : Control → Nat
  | .eval _ next | .give _ next => next.calls
  | .exec _ next | .finish _ next => next.calls

/-- The machine counts the calls that are active, and they are within the limit. -/
structure State.Balanced (limit : Nat) (s : State) : Prop where
  counted : s.depth = s.control.calls
  within : s.depth ≤ limit

section Steps

variable {scope : ScopeId} {heap : Heap} {c c' : Control}

theorem calls_runBody (body : List Stmt) (next : StmtCont) :
    (runBody body next).calls = next.calls := by
  cases body <;> rfl

theorem calls_runLoop (loop : Loop) (next : StmtCont) : (runLoop loop next).calls = next.calls := by
  unfold runLoop
  cases loop.condition <;> rfl

theorem calls_closeLoop (loop : Loop) (next : StmtCont) :
    (closeLoop loop next).calls = next.calls := by
  unfold closeLoop
  cases loop.closer with
  | none => exact calls_runLoop loop next
  | some => rfl

/-- A turn neither starts nor ends a call. -/
theorem Turn.calls_eq (h : Turn scope heap c c') : c'.calls = c.calls := by
  cases h with
  | writes h => cases h <;> rfl
  | @chosen v thenBranch elseBranch => cases (if v.isTrue then thenBranch else elseBranch) <;> rfl
  | loop | loopCloser => exact calls_runLoop _ _
  | statements => exact calls_runBody _ _
  | loopNormal | loopContinued => exact calls_closeLoop _ _
  | _ => rfl

/-- A call is made only where one more is within the limit. -/
theorem Transition.balanced {limit depth : Nat} {console : Console} {next : Next}
    (htrans : Transition limit scope depth heap console c next) (hcounted : depth = c.calls)
    (hle : depth ≤ limit) : next.All (State.Balanced limit) := by
  cases htrans with
  | turn hturn => exact ⟨hcounted.trans hturn.calls_eq.symm, hle⟩
  | fails | nativeFails | finished => trivial
  | object hvia | list hvia | property hvia | superMethod hvia | superIdle hvia | «instance» hvia
  | native hvia | idle hvia =>
    cases hvia <;> exact ⟨hcounted, hle⟩
  | enter hcalls _ hlimit | construct hcalls _ _ hlimit =>
    have hmore : depth + 1 = c.calls + 1 := congrArg (· + 1) hcounted
    refine ⟨hmore.trans ((calls_runBody _ _).trans ?_).symm, hlimit⟩
    cases hcalls <;> rfl
  | block =>
    refine ⟨?_, hle⟩
    rw [calls_runBody]
    exact hcounted
  | activation => exact ⟨Nat.sub_eq_of_eq_add hcounted, Nat.le_trans (Nat.sub_le depth 1) hle⟩
  | _ => exact ⟨hcounted, hle⟩

end Steps

/-- Every step keeps a state balanced. -/
theorem balanced_step {limit : Nat} {s : State} (h : s.Balanced limit) :
    (step limit s).All (State.Balanced limit) :=
  (transition_step limit s).balanced h.counted h.within

theorem balanced_runFor {limit n : Nat} {s : State} (h : s.Balanced limit) :
    (runFor limit n s).All (State.Balanced limit) := by
  apply invariant_runFor
  · exact h
  · intro m _ s' _ hbalanced
    exact balanced_step hbalanced

/-- A statement of a program starts with no call active, however the one before it has ended. -/
theorem balanced_of_passes {limit budget : Nat} {program : List Stmt} {heap : Heap}
    {console : Console} {state : State} (h : Passes limit budget program heap console state) :
    state.Balanced limit := by
  induction h with
  | @here s rest heap console n state hn hrun =>
    have hstart : (State.ofStmt s heap console).Balanced limit := ⟨rfl, Nat.zero_le limit⟩
    have hbalanced := balanced_runFor (n := n) hstart
    rwa [hrun] at hbalanced
  | later _ _ ih => exact ih

/-! ## Calls and their returns -/

/-- A state calls a value that can be called, with arguments, for a continuation. -/
def State.Calls (s : State) : Value → List Value → Span → ValueCont → Prop := s.control.Calls s.heap

/-- The problems that a call is refused for before it is made. -/
def RuntimeProblem.RefusesCall : RuntimeProblem → Prop
  | .tooManyArguments _ _ | .notEnoughArguments _ _ | .callDepth => True
  | _ => False

/-- A call that a state has made has returned after a number of steps: its value was given to what
it was made for, in the scope and with the number of active calls from before. -/
def State.Returned (limit n : Nat) (s : State) (next : ValueCont) : Prop :=
  ∃ k ≤ n, ∃ v heap console, runFor limit k s =
    .running ⟨.give v next, s.scope, s.depth, heap, console⟩

/-- The machine has failed inside of a call that a state has made. On its way out, the failure comes
to what the call was made for, in the scope and with the number of active calls from before. -/
def State.Failed (limit n : Nat) (s : State) (next : ValueCont) : Prop :=
  ∃ k < n, ∃ last stop heap console, runFor limit k s = .running last ∧ step limit last =
    .stopped stop heap console ∧ Unwinding.Passes ⟨.value next, s.scope, s.depth⟩ last.unwinding

theorem State.Failed.stopped {limit n : Nat} {s : State} {next : ValueCont}
    (h : s.Failed limit n next) :
    ∃ stop heap console, runFor limit n s = .stopped stop heap console := by
  obtain ⟨k, hk, last, stop, heap, console, hrun, hstep, -⟩ := h
  obtain ⟨m, rfl⟩ := Nat.exists_eq_add_of_lt hk
  refine ⟨stop, heap, console, ?_⟩
  rw [Nat.add_assoc, runFor_add, hrun]
  simp only [runFor, hstep]

/-- Only the end of a statement of the program finishes the machine. -/
theorem control_of_finished {limit : Nat} {s : State} {signal : Signal} {heap : Heap}
    {console : Console} (h : step limit s = .finished signal heap console) :
    s.control = .finish signal .done := by
  obtain ⟨control, scope, depth, heap', console'⟩ := s
  have htrans := transition_step limit ⟨control, scope, depth, heap', console'⟩
  rw [h] at htrans
  cases htrans
  rfl

section Calls

variable {limit : Nat} {s : State} {callee : Value} {arguments : List Value} {paren : Span}
    {next : ValueCont}

theorem State.Calls.calls_eq (h : s.Calls callee arguments paren next) :
    s.control.calls = next.calls := by
  obtain ⟨control, scope, depth, heap, console⟩ := s
  cases h <;> rfl

/-- A call is refused, and changes nothing, or one more is within the limit. -/
theorem State.Calls.refused_or_lt (h : s.Calls callee arguments paren next) :
    (∃ problem, problem.RefusesCall ∧ step limit s =
      .stopped (.blame problem paren) s.heap s.console) ∨
    s.depth < limit := by
  rw [show step limit s = call limit callee arguments paren next s.scope s.depth s.heap s.console
    from Control.Calls.step_eq h]
  unfold call
  dsimp only
  split
  · exact .inl ⟨.tooManyArguments _ _, trivial, rfl⟩
  split
  · exact .inl ⟨.notEnoughArguments _ _, trivial, rfl⟩
  split
  · exact .inl ⟨.callDepth, trivial, rfl⟩
  · next hlimit => exact .inr (Nat.lt_of_not_le hlimit)

/-- A failure of the call itself has left it in one step. -/
theorem State.Calls.passes (h : s.Calls callee arguments paren next) :
    Unwinding.Passes ⟨.value next, s.scope, s.depth⟩ s.unwinding := by
  obtain ⟨control, scope, depth, heap, console⟩ := s
  cases h <;> exact .out rfl .here

/-- A state that is called from somewhere, with no call active above, gives back the value. -/
theorem State.CalledFrom.eq_give {base : Nat} {origin : ScopeId × ValueCont}
    (h : s.CalledFrom base origin) (hdepth : ¬ base < s.depth) :
    ∃ v, s = ⟨.give v origin.2, origin.1, base, s.heap, s.console⟩ := by
  obtain ⟨control, scope, depth, heap, console⟩ := s
  obtain ⟨calls, hcalls, horigin⟩ := h
  dsimp only at hcalls hdepth horigin
  obtain rfl : calls = 0 := by omega
  cases control with
  | give v next' =>
    cases horigin
    exact ⟨v, by rw [hcalls]; rfl⟩
  | _ => cases horigin

/-- The machine does not finish above a call. -/
theorem State.CalledFrom.not_finished {base : Nat} {origin : ScopeId × ValueCont}
    (h : s.CalledFrom base origin) (hdepth : base < s.depth) {signal : Signal} {heap : Heap}
    {console : Console} : step limit s ≠ .finished signal heap console := by
  intro hfinished
  obtain ⟨calls, hcalls, horigin⟩ := h
  rw [control_of_finished hfinished] at horigin
  cases calls with
  | zero => omega
  | succ calls => cases horigin

/-- After a call was made more calls are active than before, or the call has returned, or a failure
has left it. -/
theorem State.Calls.returns (h : s.Calls callee arguments paren next) (n : Nat) :
    (∃ s', runFor limit (n + 1) s = .running s' ∧ s'.CalledFrom s.depth (s.scope, next) ∧
      s.depth < s'.depth) ∨
    s.Returned limit (n + 1) next ∨ s.Failed limit (n + 1) next := by
  -- a step from the call itself, or from a state above it, stays above it, gives the value back or
  -- fails
  have hsettled : ∀ {k : Nat} {last : State}, runFor limit k s = .running last →
      (step limit last).All (State.CalledFrom s.depth (s.scope, next)) →
      (∀ signal heap console, step limit last ≠ .finished signal heap console) →
      Unwinding.Passes ⟨.value next, s.scope, s.depth⟩ last.unwinding →
      (∃ s', runFor limit (k + 1) s = .running s' ∧ s'.CalledFrom s.depth (s.scope, next) ∧
        s.depth < s'.depth) ∨ s.Returned limit (k + 1) next ∨ s.Failed limit (k + 1) next := by
    intro k last hrun hall hnot hpasses
    have hnext : runFor limit (k + 1) s = step limit last := by rw [runFor_succ_eq, hrun]
    cases hstep : step limit last with
    | running s' =>
      rw [hstep] at hall hnext
      by_cases hdepth : s.depth < s'.depth
      · exact .inl ⟨s', hnext, hall, hdepth⟩
      · obtain ⟨v, hv⟩ := State.CalledFrom.eq_give hall hdepth
        exact .inr (.inl ⟨k + 1, Nat.le_refl _, v, s'.heap, s'.console, by rw [hnext, hv]⟩)
    | finished signal heap console => exact absurd hstep (hnot signal heap console)
    | stopped stop heap console =>
      exact .inr (.inr ⟨k, Nat.lt_succ_self k, last, stop, heap, console, hrun, hstep, hpasses⟩)
  induction n with
  | zero =>
    refine hsettled rfl (Control.Calls.calledFrom h)
      (fun signal heap console hfinished => ?_) h.passes
    have hcontrol := control_of_finished hfinished
    obtain ⟨control, scope, depth, heap', console'⟩ := s
    cases h <;> cases hcontrol
  | succ n ih =>
    rcases ih with ⟨s', hrun, hfrom, hdepth⟩ | ⟨k, hk, hreturned⟩ | ⟨k, hk, hfailed⟩
    · exact hsettled hrun (calledFrom_step limit hfrom hdepth)
        (fun _ _ _ => hfrom.not_finished hdepth) (hfrom.passes hdepth)
    · exact .inr (.inl ⟨k, Nat.le_succ_of_le hk, hreturned⟩)
    · exact .inr (.inr ⟨k, Nat.lt_succ_of_lt hk, hfailed⟩)

/-- A call that a state makes for a continuation is accounted for: with it, the calls are within the
limit; and more calls are active than before until it ends. Then as many are as before, whether it
has returned or failed. -/
structure State.Accounted (limit : Nat) (s : State) (next : ValueCont) : Prop where
  within : s.control.calls + 1 ≤ limit
  outside : next.calls = s.control.calls
  balance : ∀ n, (∃ s', runFor limit (n + 1) s = .running s' ∧ s.control.calls < s'.control.calls) ∨
    s.Returned limit (n + 1) next ∨ s.Failed limit (n + 1) next

/-- Every call is refused before it is made, or accounted for. -/
theorem State.Balanced.refused_or_accounted (hs : s.Balanced limit)
    (h : s.Calls callee arguments paren next) :
    (∃ problem, problem.RefusesCall ∧ step limit s =
      .stopped (.blame problem paren) s.heap s.console) ∨
    s.Accounted limit next := by
  refine h.refused_or_lt.imp id fun hlimit => ⟨?_, h.calls_eq.symm, fun n => ?_⟩
  · rw [← hs.counted]
    exact hlimit
  · refine (h.returns n).imp (fun ⟨s', hrun, _, hdepth⟩ => ⟨s', hrun, ?_⟩) id
    have hs' : (runFor limit (n + 1) s).All (State.Balanced limit) := balanced_runFor hs
    rw [hrun] at hs'
    rwa [hs.counted, State.Balanced.counted hs'] at hdepth

end Calls

/-! ## Two limits -/

section Limits

variable {m m' : Nat} (hm : m ≤ m')

include hm

/-- A smaller limit makes no difference to a step, unless it refuses a call. -/
theorem step_limits (s : State) :
    step m s = step m' s ∨ ∃ blame,
      step m s = .stopped (.blame .callDepth blame) s.heap s.console := by
  obtain ⟨control, scope, depth, heap, console⟩ := s
  have htrans := transition_step m ⟨control, scope, depth, heap, console⟩
  generalize step m ⟨control, scope, depth, heap, console⟩ = next at htrans ⊢
  cases htrans with
  | fails hfails =>
    cases hfails with
    | callDepth => exact .inr ⟨_, rfl⟩
    | notWritable hwrites howner =>
      exact .inl (Transition.eq_step (.fails (.notWritable hwrites howner)))
    | _ => exact .inl (Transition.eq_step (.fails (by constructor <;> assumption)))
  | turn hturn => exact .inl (Transition.eq_step (.turn hturn))
  | enter hcalls harity hlimit =>
    exact .inl (Transition.eq_step (.enter hcalls harity (hlimit.trans_le hm)))
  | construct hcalls hconstructor harity hlimit =>
    exact .inl (Transition.eq_step (.construct hcalls hconstructor harity (hlimit.trans_le hm)))
  | «instance» hcalls hconstructor harity hlimit =>
    exact .inl (Transition.eq_step (.instance hcalls hconstructor harity (hlimit.trans_le hm)))
  | native hcalls harity hlimit hv =>
    exact .inl (Transition.eq_step (.native hcalls harity (hlimit.trans_le hm) hv))
  | nativeFails hcalls harity hlimit hstop =>
    exact .inl (Transition.eq_step (.nativeFails hcalls harity (hlimit.trans_le hm) hstop))
  | idle hcalls hidle harity hlimit =>
    exact .inl (Transition.eq_step (.idle hcalls hidle harity (hlimit.trans_le hm)))
  | _ => exact .inl (Transition.eq_step (by constructor <;> assumption))

/-- The machine with the smaller limit runs as the other one does, or is stopped where the other one
goes on. -/
theorem runFor_limits (n : Nat) (s : State) :
    runFor m n s = runFor m' n s ∨
    ∃ paren heap console, runFor m n s = .stopped (.blame .callDepth paren) heap console ∧
      console.output <+: (runFor m' n s).console.output := by
  induction n generalizing s with
  | zero => exact .inl rfl
  | succ n ih =>
    rcases step_limits hm s with hstep | ⟨paren, hstep⟩
    · simp only [runFor, hstep]
      cases step m' s with
      | running s' => exact ih s'
      | finished | stopped => exact .inl rfl
    · refine .inr ⟨paren, s.heap, s.console, ?_, (keeps_runFor m' (n + 1) s).output⟩
      rw [runFor, hstep]

end Limits

/-! ## Whole programs -/

/-- A run that has ended goes no further with a greater budget. -/
theorem runFor_of_le {limit budget n : Nat} {s : State} (hn : budget ≤ n)
    (h : (runFor limit budget s).ended.outcome ≠ .exhausted) :
    runFor limit n s = runFor limit budget s := by
  obtain ⟨more, rfl⟩ := Nat.exists_eq_add_of_le hn
  rw [runFor_add]
  cases hrun : runFor limit budget s with
  | running s' =>
    rw [hrun] at h
    exact absurd rfl h
  | finished | stopped => rfl

section First

variable {limit budget : Nat} {s : Stmt} {rest : List Stmt} {heap : Heap} {console : Console}

theorem runProgram_of_completed {heap' : Heap} {console' : Console}
    (h : runStmt limit budget s heap console = ⟨.completed, heap', console'⟩) :
    runProgram limit budget (s :: rest) heap console =
      runProgram limit budget rest heap' console' := by
  rw [runProgram, h]

theorem runProgram_of_not_completed
    (h : (runStmt limit budget s heap console).outcome ≠ .completed) :
    runProgram limit budget (s :: rest) heap console = runStmt limit budget s heap console := by
  rw [runProgram]
  split
  · next hcompleted =>
    rw [hcompleted] at h
    exact absurd rfl h
  · rfl

/-- What the first statement prints is the start of what the program prints. -/
theorem output_runProgram_cons :
    (runStmt limit budget s heap console).console.output <+:
      (runProgram limit budget (s :: rest) heap console).console.output := by
  rw [runProgram]
  split
  · next heap' console' hcompleted =>
    rw [hcompleted]
    exact (keeps_runProgram limit budget rest heap' console').2
  · exact List.prefix_rfl

/-- A program that ends has a first statement that ends. -/
theorem runStmt_ne_exhausted
    (h : (runProgram limit budget (s :: rest) heap console).outcome ≠ .exhausted) :
    (runStmt limit budget s heap console).outcome ≠ .exhausted := by
  intro hstmt
  have hnot : (runStmt limit budget s heap console).outcome ≠ .completed := by
    rw [hstmt]; exact Outcome.noConfusion
  rw [runProgram_of_not_completed hnot] at h
  exact h hstmt

end First

section Programs

variable {m m' : Nat} (hm : m ≤ m') {budget budget' : Nat}

include hm

/-- A statement ends the same under a greater limit, or is stopped at the depth of its calls with
part of the output. -/
theorem runStmt_limits {s : Stmt} {heap : Heap} {console : Console}
    (h : (runStmt m budget s heap console).outcome ≠ .exhausted)
    (h' : (runStmt m' budget' s heap console).outcome ≠ .exhausted) :
    runStmt m budget s heap console = runStmt m' budget' s heap console ∨
    (∃ paren, (runStmt m budget s heap console).outcome = .stopped (.blame .callDepth paren)) ∧
      (runStmt m budget s heap console).console.output <+:
        (runStmt m' budget' s heap console).console.output := by
  have hrun := runFor_of_le (Nat.le_max_left budget budget') h
  have hrun' := runFor_of_le (Nat.le_max_right budget budget') h'
  unfold runStmt
  rw [← hrun, ← hrun']
  rcases runFor_limits hm (max budget budget') (.ofStmt s heap console) with heq
    | ⟨paren, heap', console', heq, houtput⟩
  · exact .inl (by rw [heq])
  · refine .inr ⟨⟨paren, by rw [heq]; rfl⟩, ?_⟩
    rw [Next.ended_console, Next.ended_console, heq]
    exact houtput

theorem runProgram_limits {program : List Stmt} {heap : Heap} {console : Console}
    (h : (runProgram m budget program heap console).outcome ≠ .exhausted)
    (h' : (runProgram m' budget' program heap console).outcome ≠ .exhausted) :
    runProgram m budget program heap console = runProgram m' budget' program heap console ∨
    (∃ paren, (runProgram m budget program heap console).outcome =
      .stopped (.blame .callDepth paren)) ∧
      (runProgram m budget program heap console).console.output <+:
        (runProgram m' budget' program heap console).console.output := by
  induction program generalizing heap console with
  | nil => exact .inl rfl
  | cons s rest ih =>
    rcases runStmt_limits hm (runStmt_ne_exhausted h) (runStmt_ne_exhausted h') with heq
      | ⟨⟨paren, hstopped⟩, houtput⟩
    · by_cases hcompleted : (runStmt m budget s heap console).outcome = .completed
      · rcases hrun : runStmt m budget s heap console with ⟨outcome, heap₁, console₁⟩
        rw [hrun] at heq hcompleted
        obtain rfl : outcome = .completed := hcompleted
        rw [runProgram_of_completed hrun] at h ⊢
        rw [runProgram_of_completed heq.symm] at h' ⊢
        exact ih h h'
      · rw [runProgram_of_not_completed hcompleted, runProgram_of_not_completed (heq ▸ hcompleted)]
        exact .inl heq
    · have hnot : (runStmt m budget s heap console).outcome ≠ .completed := by
        rw [hstopped]; exact Outcome.noConfusion
      rw [runProgram_of_not_completed hnot]
      exact .inr ⟨⟨paren, hstopped⟩, houtput.trans output_runProgram_cons⟩

end Programs

/-! ## The count from statement to statement -/

/-- The number of calls that are active in what remains. -/
def Rest.calls : Rest → Nat
  | .value next => next.calls
  | .stmt next => next.calls

/-- A failure that has left everything has left every call. -/
theorem Unwinding.depth_all {u : Unwinding} (h : u.depth = u.rest.calls) : u.all.depth = 0 := by
  induction u using Unwinding.all.induct with
  | case1 u hnone =>
    rw [all]
    split
    · obtain ⟨rest, scope, depth⟩ := u
      cases rest with
      | value k => cases k <;> cases hnone
      | stmt k => cases k <;> first | exact h | cases hnone
    · next hsome => cases hnone.symm.trans hsome
  | case2 u u' hsome ih =>
    have hall : u.all = u'.all := by
      rw [all]
      split
      · next hnone => cases hnone.symm.trans hsome
      · next hsome' => rw [Option.some.inj (hsome.symm.trans hsome')]
    rw [hall]
    refine ih ?_
    obtain ⟨rest, scope, depth⟩ := u
    cases rest with
    | value k =>
      cases k with
      | activation =>
        cases hsome
        exact Nat.sub_eq_of_eq_add h
      | _ =>
        cases hsome
        exact h
    | stmt k => cases k <;> cases hsome <;> exact h

theorem traceFor_snd (limit n : Nat) (s : State) : (traceFor limit n s).2 = runFor limit n s := by
  induction n generalizing s with
  | zero => rfl
  | succ n ih =>
    simp only [traceFor, runFor]
    cases step limit s with
    | running s' => exact ih s'
    | finished | stopped => rfl

/-- The last state of a run that has ended is the one that the last step was taken from. -/
theorem step_traceFor {limit n : Nat} {s : State} (hs : s.Balanced limit)
    (h : ∀ s', runFor limit n s ≠ .running s') :
    (traceFor limit n s).1.Balanced limit ∧ step limit (traceFor limit n s).1 =
      runFor limit n s := by
  induction n generalizing s with
  | zero => exact absurd rfl (h s)
  | succ n ih =>
    simp only [traceFor, runFor] at h ⊢
    have hstep := balanced_step hs
    cases hnext : step limit s with
    | running s' =>
      rw [hnext] at h hstep
      exact ih hstep h
    | finished | stopped => exact ⟨hs, hnext⟩

/-- No call is active after a run that has ended. -/
theorem callsLeft_traceFor {limit n : Nat} {s : State} (hs : s.Balanced limit)
    (h : ∀ s', runFor limit n s ≠ .running s') :
    (traceFor limit n s).2.callsLeft (traceFor limit n s).1 = 0 := by
  obtain ⟨hlast, hstep⟩ := step_traceFor hs h
  rw [traceFor_snd]
  cases hnext : runFor limit n s with
  | running s' => exact absurd hnext (h s')
  | finished signal heap console =>
    have hcontrol := control_of_finished (hstep.trans hnext)
    have hcounted := hlast.counted
    rw [hcontrol] at hcounted
    exact hcounted
  | stopped stop heap console =>
    refine Unwinding.depth_all ?_
    refine hlast.counted.trans ?_
    generalize (traceFor limit n s).1 = last
    obtain ⟨control, scope, depth, heap, console⟩ := last
    cases control <;> rfl

theorem executeStmt_eq (limit budget : Nat) (s : Stmt) (heap : Heap) (console : Console) :
    (executeStmt limit budget s 0 heap console).1 = runStmt limit budget s heap console ∧
    ((runStmt limit budget s heap console).outcome ≠ .exhausted →
      (executeStmt limit budget s 0 heap console).2 = 0) := by
  have hstart : (State.ofStmt s heap console).Balanced limit := ⟨rfl, Nat.zero_le limit⟩
  refine ⟨congrArg Next.ended (traceFor_snd limit budget (.ofStmt s heap console)),
    fun hended => ?_⟩
  refine callsLeft_traceFor hstart fun s' hrunning => hended ?_
  exact congrArg (fun next => next.ended.outcome) hrunning

/-- A program that is run with the count of calls going from statement to statement does what it
does with none active at the start of each, and leaves none active, however it ends. -/
theorem execute_eq (limit budget : Nat) (program : List Stmt) (heap : Heap) (console : Console) :
    (execute limit budget program 0 heap console).1 = runProgram limit budget program heap console ∧
    ((runProgram limit budget program heap console).outcome ≠ .exhausted →
      (execute limit budget program 0 heap console).2 = 0) := by
  induction program generalizing heap console with
  | nil => exact ⟨rfl, fun _ => rfl⟩
  | cons s rest ih =>
    obtain ⟨hrun, hleft⟩ := executeStmt_eq limit budget s heap console
    rw [← hrun] at hleft
    rw [execute, runProgram, ← hrun]
    generalize executeStmt limit budget s 0 heap console = ended at hleft ⊢
    obtain ⟨⟨outcome, heap', console'⟩, depth⟩ := ended
    cases outcome with
    | completed =>
      obtain rfl : depth = 0 := hleft (by simp)
      exact ih heap' console'
    | stopped stop => exact ⟨rfl, hleft⟩
    | exhausted => exact ⟨rfl, hleft⟩

end Lox
