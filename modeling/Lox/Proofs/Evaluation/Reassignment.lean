import Lox.Proofs.Evaluation.Runs

/-!
# What is blamed on a constant

A run that stops because a name may not be assigned to stops at an assignment. No other step is
blamed so (`sparing_step`), whatever values it goes on with, and what a program stops for is what
one of its steps stops for, or a keyword that stands outside of what takes it (`stops_runProgram`).
-/

namespace Lox

/-- A problem is not that a name may not be assigned to. -/
def RuntimeProblem.Sparing : RuntimeProblem → Prop
  | .constant _ _ => False
  | _ => True

/-- No name is blamed for being assigned to. -/
def Stop.Sparing : Stop → Prop
  | .blame p _ => p.Sparing
  | .fault _ => True

/-- Something holds of what the machine stops for, if it stops. -/
def Next.Stops (Q : Stop → Prop) : Next → Prop
  | .stopped stop _ _ => Q stop
  | .running _ | .finished _ _ _ => True

/-- Only the assignment to a constant is not sparing. -/
theorem RuntimeProblem.sparing_of_cause {p : RuntimeProblem} (hcause : p.cause ≠ .assignment) :
    p.Sparing := by
  cases p with
  | constant kind name => exact hcause rfl
  | _ => trivial

theorem Control.eq_of_cause_assignment {c : Control} (hcause : c.cause = .assignment) :
    ∃ v use k, c = .give v (.assign use k) := by
  unfold Control.cause at hcause
  split at hcause
  · exact ⟨_, _, _, rfl⟩
  all_goals cases hcause

/-! ## Steps -/

/-- Only an assignment is blamed for a name that may not be assigned to. -/
theorem sparing_step (limit : Nat) {s : State}
    (hs : ∀ v use next, s.control ≠ .give v (.assign use next)) :
    (step limit s).Stops Stop.Sparing := by
  obtain ⟨control, scope, depth, h, c⟩ := s
  have htrans := transition_step limit ⟨control, scope, depth, h, c⟩
  generalize step limit ⟨control, scope, depth, h, c⟩ = next at htrans ⊢
  cases htrans with
  | @fails _ stop hfails =>
    cases stop with
    | fault => trivial
    | blame problem site =>
      refine RuntimeProblem.sparing_of_cause fun hcause => ?_
      rw [hfails.cause_eq] at hcause
      obtain ⟨v, use, k, rfl⟩ := Control.eq_of_cause_assignment hcause
      exact hs v use k rfl
  | @nativeFails _ b arguments paren _ stop _ _ _ hstop =>
    rcases b.blames_call arguments stop hstop with ⟨problem, rfl, hcause⟩ | rfl
    · exact RuntimeProblem.sparing_of_cause (hcause ▸ Cause.noConfusion)
    · trivial
  | _ => trivial

/-- An assignment is not blamed if the name it finds may be assigned to. -/
theorem sparing_assign {limit : Nat} {s : State} {v : Value} {use : NameUse} {next : ValueCont}
    (hcontrol : s.control = .give v (.assign use next))
    (hmutable : ∀ outer binding, s.heap.find s.scope (use.depth.getD 0) use.ident.name =
      .ok (outer, binding) → binding.mutable = true) : (step limit s).Stops Stop.Sparing := by
  obtain ⟨control, scope, depth, h, c⟩ := s
  obtain rfl : control = _ := hcontrol
  simp only [step, stepValue, Heap.target]
  cases hfind : h.find scope (use.depth.getD 0) use.ident.name with
  | error fault => trivial
  | ok found =>
    simp only [hmutable found.1 found.2 hfind, if_true]
    trivial

/-! ## Runs -/

section Runs

variable {Q : Stop → Prop} {limit budget : Nat} {program : List Stmt} {heap : Heap}
    {console : Console}

theorem stops_runFor {n : Nat} {s : State}
    (hsteps : ∀ m < n, ∀ s', runFor limit m s = .running s' → (step limit s').Stops Q) :
    (runFor limit n s).Stops Q := by
  apply invariant_runFor
  · trivial
  · intro m hm s' hrun _
    exact hsteps m hm s' hrun

/-- What a program stops for is what one of its steps stops for, or a keyword that has nothing to
take it. -/
theorem stops_runProgram (hbreak : ∀ site, Q (.blame .breakOutsideLoop site))
    (hcontinue : ∀ site, Q (.blame .continueOutsideLoop site))
    (hreturn : ∀ site, Q (.blame .returnOutsideFunction site))
    (hsteps : ∀ s, Passes limit budget program heap console s → (step limit s).Stops Q)
    {stop : Stop} (hstop : (runProgram limit budget program heap console).outcome = .stopped stop) :
    Q stop := by
  induction program generalizing heap console with
  | nil => cases hstop
  | cons s rest ih =>
    have hstmt : (runFor limit budget (.ofStmt s heap console)).Stops Q :=
      stops_runFor fun m hm s' hs' => hsteps s' (.here hm hs')
    simp only [runProgram] at hstop
    split at hstop
    · next heap' console' hrun => exact ih (fun s' hs' => hsteps s' (.later hrun hs')) hstop
    · simp only [runStmt] at hstop
      cases hnext : runFor limit budget (.ofStmt s heap console) with
      | running s' =>
        rw [hnext] at hstop
        cases hstop
      | stopped stop' heap' console' =>
        rw [hnext] at hstop hstmt
        obtain rfl := Outcome.stopped.inj hstop
        exact hstmt
      | finished signal heap' console' =>
        rw [hnext] at hstop
        cases signal with
        | normal => cases hstop
        | broke keyword =>
          obtain rfl := Outcome.stopped.inj hstop
          exact hbreak keyword
        | continued keyword =>
          obtain rfl := Outcome.stopped.inj hstop
          exact hcontinue keyword
        | returned keyword v =>
          obtain rfl := Outcome.stopped.inj hstop
          exact hreturn keyword

end Runs

end Lox
