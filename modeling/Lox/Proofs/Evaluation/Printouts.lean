import Lox.Proofs.Evaluation.Advance

/-!
# What was printed before

A program cannot tell what was printed before it started. A console with earlier printouts is the
console with these below whatever it prints itself (`Console.below`), and a step from the one does
what a step from the other does. So does a run (`runProgram_below`): what it prints comes after the
earlier printouts, and is the same without them.
-/

namespace Lox

/-- A console with earlier printouts below its own. -/
def Console.below (old : List Text) (c : Console) : Console :=
  { c with printed := c.printed ++ old }

/-- A state with earlier printouts. -/
def State.below (old : List Text) (s : State) : State := { s with console := s.console.below old }

/-- What a step leads to, with earlier printouts. -/
def Next.below (old : List Text) : Next → Next
  | .running s => .running (s.below old)
  | .finished signal heap console => .finished signal heap (console.below old)
  | .stopped stop heap console => .stopped stop heap (console.below old)

/-- What a native leaves behind, with earlier printouts. -/
def Builtin.Answer.below (old : List Text) (answer : Answer) : Answer :=
  { answer with console := answer.console.below old }

/-- How a program ended, with earlier printouts. -/
def Ended.below (old : List Text) (ended : Ended) : Ended :=
  { ended with console := ended.console.below old }

/-- What is printed comes after the earlier printouts. -/
theorem Console.output_below (old : List Text) (c : Console) :
    (c.below old).output = old.reverse.flatten ++ c.output := by
  simp [output, below]

theorem Console.readLine_below (old : List Text) (c : Console) :
    (c.below old).readLine = (c.readLine.1, c.readLine.2.below old) := by
  unfold readLine below
  cases cutLine? c.input with
  | some found => rfl
  | none => cases c.inputProblem <;> rfl

/-! ## Steps -/

section Steps

variable (old : List Text) (scope : ScopeId) (depth : Nat) (h : Heap) (c : Console)

/-- A native does the same. -/
theorem Builtin.call_below (b : Builtin) (arguments : List Value) (blame : Span) :
    b.call arguments blame h (c.below old) = (b.call arguments blame h c).below old := by
  have hread :
      ∀ c : Console, readLine.read blame h (c.below old) = (readLine.read blame h c).below old := by
    intro c
    simp only [readLine.read, Console.readLine_below]
    cases c.readLine with
    | mk result rest => cases result <;> rfl
  cases b with
  | read =>
    simp only [call, readLine]
    split
    · exact hread c
    · have hprint : ∀ t, (c.below old).print t = (c.print t).below old := fun _ => rfl
      have hproblem : ∀ c : Console, (c.below old).printProblem = c.printProblem := fun _ => rfl
      rw [hprint, hproblem]
      split
      · rfl
      · exact hread _
  | deepCopy =>
    simp only [call]
    split <;> rfl
  | _ => rfl

variable {old scope depth h c}

/-- A transition is one with earlier printouts as well. -/
theorem Transition.below {limit : Nat} {control : Control} {next : Next}
    (htrans : Transition limit scope depth h c control next) :
    Transition limit scope depth h (c.below old) control (next.below old) := by
  cases htrans with
  | turn hturn => exact .turn hturn
  | fails hfails => exact .fails hfails
  | @native _ b arguments paren _ _ hcalls harity hlimit hv =>
    have hcall := Builtin.call_below old h c b arguments paren
    have hnative : Transition limit scope depth h (c.below old) control _ :=
      .native hcalls harity hlimit ((congrArg Builtin.Answer.result hcall).trans hv)
    rwa [hcall] at hnative
  | @nativeFails _ b arguments paren _ _ hcalls harity hlimit hstop =>
    have hcall := Builtin.call_below old h c b arguments paren
    have hnative : Transition limit scope depth h (c.below old) control _ :=
      .nativeFails hcalls harity hlimit ((congrArg Builtin.Answer.result hcall).trans hstop)
    rwa [hcall] at hnative
  | idle hcalls hidle harity hlimit => exact .idle hcalls hidle harity hlimit
  | enter hcalls harity hlimit => exact .enter hcalls harity hlimit
  | construct hcalls hconstructor harity hlimit =>
    exact .construct hcalls hconstructor harity hlimit
  | _ => constructor <;> assumption

end Steps

theorem step_below (old : List Text) (limit : Nat) (s : State) :
    step limit (s.below old) = (step limit s).below old :=
  (transition_step limit s).below.eq_step.symm

/-! ## Runs -/

variable (old : List Text) (limit budget : Nat)

theorem runFor_below (s : State) :
    runFor limit budget (s.below old) = (runFor limit budget s).below old := by
  induction budget generalizing s with
  | zero => rfl
  | succ budget ih =>
    simp only [runFor, step_below]
    cases step limit s with
    | running s' => exact ih s'
    | finished | stopped => rfl

theorem runStmt_below (s : Stmt) (heap : Heap) (console : Console) :
    runStmt limit budget s heap (console.below old) =
      (runStmt limit budget s heap console).below old := by
  have hrun := runFor_below old limit budget (.ofStmt s heap console)
  have hended : ∀ next : Next, (next.below old).ended = next.ended.below old := by
    intro next
    cases next with
    | running | stopped => rfl
    | finished signal => cases signal <;> rfl
  rw [runStmt, runStmt, ← hended, ← hrun]
  rfl

/-- A program runs as it does without the earlier printouts. -/
theorem runProgram_below (program : List Stmt) (heap : Heap) (console : Console) :
    runProgram limit budget program heap (console.below old) =
      (runProgram limit budget program heap console).below old := by
  induction program generalizing heap console with
  | nil => rfl
  | cons s rest ih =>
    simp only [runProgram, runStmt_below]
    generalize runStmt limit budget s heap console = ended
    obtain ⟨outcome, heap', console'⟩ := ended
    cases outcome with
    | completed => exact ih heap' console'
    | stopped | exhausted => rfl

end Lox
