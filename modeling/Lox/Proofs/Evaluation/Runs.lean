import Lox.Machine.Run
import Lox.Proofs.Evaluation.Steps

/-!
# Runs keep what fits

A run of a program passes states, statement after statement. If the program has been visited with
the frames that the root scope mirrors, every state that is passed fits, and the run does not end
with a fault.
-/

namespace Lox

open Code

/-- The run of a program passes a state, and takes a step from it. -/
inductive Passes (limit budget : Nat) : List Stmt → Heap → Console → State → Prop
  | here {s : Stmt} {rest : List Stmt} {heap : Heap} {console : Console} {n : Nat} {state : State} :
      n < budget → runFor limit n (.ofStmt s heap console) = .running state →
      Passes limit budget (s :: rest) heap console state
  | later {s : Stmt} {rest : List Stmt} {heap heap' : Heap} {console console' : Console}
      {state : State} : runStmt limit budget s heap console = ⟨.completed, heap', console'⟩ →
      Passes limit budget rest heap' console' state →
      Passes limit budget (s :: rest) heap console state

/-- A statement completes just if the machine finishes it in the normal way. -/
theorem Next.ended_eq_completed {next : Next} {heap : Heap} {console : Console}
    (h : next.ended = ⟨.completed, heap, console⟩) : next = .finished .normal heap console := by
  cases next with
  | running | stopped => cases h
  | finished signal heap' console' =>
    cases signal with
    | normal =>
      cases h
      rfl
    | _ => cases h

/-- The heap that a step or a run leads to. -/
def Next.heap : Next → Heap
  | .running state => state.heap
  | .finished _ heap _ | .stopped _ heap _ => heap

theorem Next.ended_heap (next : Next) : next.ended.heap = next.heap := by
  cases next with
  | running | stopped => rfl
  | finished signal => cases signal <;> rfl

/-- Going on after a number of steps. -/
theorem runFor_add (limit m n : Nat) (state : State) :
    runFor limit (m + n) state = match runFor limit m state with
      | .running state' => runFor limit n state'
      | last => last := by
  induction m generalizing state with
  | zero => rw [Nat.zero_add]; rfl
  | succ m ih =>
    rw [Nat.succ_add]
    simp only [runFor]
    cases step limit state with
    | running state' => exact ih state'
    | finished | stopped => rfl

/-- A step after a number of steps. -/
theorem runFor_succ_eq (limit n : Nat) (s : State) :
    runFor limit (n + 1) s = match runFor limit n s with
      | .running s' => step limit s'
      | last => last := by
  rw [runFor_add]
  cases runFor limit n s with
  | running s' =>
    simp only [runFor]
    cases step limit s' <;> rfl
  | finished | stopped => rfl

/-- What holds of a state and is kept by every step of a run from it holds of what the run leads
to. -/
theorem invariant_runFor {P : Next → Prop} {limit n : Nat} {state : State}
    (hstate : P (.running state))
    (hstep : ∀ m < n, ∀ state', runFor limit m state = .running state' → P (.running state') →
      P (step limit state')) : P (runFor limit n state) := by
  induction n with
  | zero => exact hstate
  | succ n ih =>
    have hbefore := ih fun m hm => hstep m (Nat.lt_succ_of_lt hm)
    rw [runFor_succ_eq]
    cases hrun : runFor limit n state with
    | running state' =>
      rw [hrun] at hbefore
      exact hstep n n.lt_succ_self state' hrun hbefore
    | finished | stopped =>
      rw [hrun] at hbefore
      exact hbefore

namespace Chronicle

variable {w : Chronicle} {final frames : List Frame} {limit budget : Nat}

/-- What is asked of a state that is passed: it asks for no deep copy of a value that contains
itself, and the chronicle tells what opens the scopes that it makes. -/
structure Covers (w : Chronicle) (limit : Nat) (state : State) : Prop where
  acyclic : ∀ x, state.call? = some (.native (.builtin .deepCopy), [x]) → state.depth < limit →
    state.heap.Acyclic x
  records : w.Records state.heap state.opening (step limit state)

/-- What the machine leads to in any number of steps. -/
theorem FitsState.runFor {n : Nat} {state : State} (hstate : w.FitsState final state)
    (hcovers : ∀ m < n, ∀ state', runFor limit m state = .running state' → w.Covers limit state') :
    w.FitsNext final state.heap (Lox.runFor limit n state) := by
  apply invariant_runFor
  · exact ⟨.refl _, hstate⟩
  · intro m hm state' hrun hfits
    have hcovered := hcovers m hm state' hrun
    exact .of_grows hfits.1 (hfits.2.step hcovered.acyclic hcovered.records)

/-- The statement that a program starts with is ready to run. -/
theorem fitsState_ofStmt {s : Stmt} {rest : List Stmt} {heap : Heap} (console : Console)
    (hprogram : w.Visited frames (.stmts (s :: rest))) (hheap : w.FitsHeap heap)
    (hm : w.Mirrors heap Heap.root frames) :
    w.FitsState (declareIn s.declared frames) (.ofStmt s heap console) := by
  obtain ⟨context, hprogram⟩ := hprogram
  exact ⟨hheap, frames, hm, ⟨context, hprogram.first⟩, rfl, rfl⟩

section Program

variable {program : List Stmt} {heap : Heap} {console : Console}
    (hprogram : w.Visited frames (.stmts program)) (hheap : w.FitsHeap heap)
    (hm : w.Mirrors heap Heap.root frames)
    (hcovers : ∀ state, Passes limit budget program heap console state → w.Covers limit state)

include hprogram hheap hm hcovers

/-- The first statement of a program: what it leads to in any number of steps, and what is left if
it completes. -/
theorem fits_runStmt {s : Stmt} {rest : List Stmt} (hcons : program = s :: rest) :
    (∀ n ≤ budget, w.FitsNext (declareIn s.declared frames) heap
      (runFor limit n (.ofStmt s heap console))) ∧
    ∀ heap' console', runStmt limit budget s heap console = ⟨.completed, heap', console'⟩ →
      heap.Grows heap' ∧ w.Visited (declareIn s.declared frames) (.stmts rest) ∧ w.FitsHeap heap' ∧
      w.Mirrors heap' Heap.root (declareIn s.declared frames) ∧
      ∀ state, Passes limit budget rest heap' console' state → w.Covers limit state := by
  subst hcons
  have hfits :
      ∀ n ≤ budget, w.FitsNext (declareIn s.declared frames) heap
      (runFor limit n (.ofStmt s heap console)) :=
    fun n hn => (fitsState_ofStmt console hprogram hheap hm).runFor fun m hm state' hstate' =>
      hcovers state' (.here (hm.trans_le hn) hstate')
  refine ⟨hfits, fun heap' console' hrun => ?_⟩
  have hnext := hfits budget le_rfl
  rw [Next.ended_eq_completed hrun] at hnext
  obtain ⟨context, hprogram⟩ := hprogram
  exact ⟨hnext.1, ⟨context, hprogram.next⟩, hnext.2.1, hnext.2.2 rfl,
    fun state hstate => hcovers state (.later hrun hstate)⟩

/-- Every state that the run of a program passes fits. -/
theorem fits_of_passes {state : State} (hpasses : Passes limit budget program heap console state) :
    heap.Grows state.heap ∧ ∃ final, w.FitsState final state := by
  induction hpasses generalizing frames with
  | @here s rest heap console n state hn hrun =>
    have hnext := (fits_runStmt hprogram hheap hm hcovers rfl).1 n hn.le
    rw [hrun] at hnext
    exact ⟨hnext.1, _, hnext.2⟩
  | @later s rest heap heap' console console' state hrun _ ih =>
    obtain ⟨hg, hprogram', hheap', hm', hcovers'⟩ :=
      (fits_runStmt hprogram hheap hm hcovers rfl).2 heap' console' hrun
    obtain ⟨hg', hfits⟩ := ih hprogram' hheap' hm' hcovers'
    exact ⟨hg.trans hg', hfits⟩

/-- The run of a program leaves a heap that fits, and ends without a fault. -/
theorem fits_runProgram :
    heap.Grows (runProgram limit budget program heap console).heap ∧
      w.FitsHeap (runProgram limit budget program heap console).heap ∧
      ∀ fault, (runProgram limit budget program heap console).outcome ≠
        .stopped (.fault fault) := by
  induction program generalizing heap console frames with
  | nil => exact ⟨.refl heap, hheap, nofun⟩
  | cons s rest ih =>
    obtain ⟨hfits, hlater⟩ := fits_runStmt hprogram hheap hm hcovers rfl
    have hnext := hfits budget le_rfl
    have hended : runStmt limit budget s heap console =
        (runFor limit budget (.ofStmt s heap console)).ended := rfl
    simp only [runProgram]
    cases hrun : runFor limit budget (.ofStmt s heap console) with
    | running state =>
      rw [hrun] at hnext hended
      rw [hended]
      exact ⟨hnext.1, hnext.2.heap, nofun⟩
    | stopped stop heap' console' =>
      rw [hrun] at hnext hended
      rw [hended]
      exact ⟨hnext.1, hnext.2.1, fun fault heq => hnext.2.2 fault (Outcome.stopped.inj heq)⟩
    | finished signal heap' console' =>
      rw [hrun] at hnext hended
      rw [hended]
      cases signal with
      | normal =>
        obtain ⟨hg, hprogram', hheap', hm', hcovers'⟩ := hlater heap' console' hended
        obtain ⟨hg', hrest⟩ := ih hprogram' hheap' hm' hcovers'
        exact ⟨hg.trans hg', hrest⟩
      | returned | broke | continued => exact ⟨hnext.1, hnext.2.1, nofun⟩

end Program

end Chronicle

end Lox
