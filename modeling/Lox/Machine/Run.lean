import Lox.Machine.Step

/-!
# Runs of the machine

A statement runs until the machine has finished it or stops. As a program may not end at all, a run
is given a **budget** of steps for each statement of the program; one that uses it up is told apart
from every other outcome. A program runs one statement after another in the root scope.

The number of active calls goes from each statement of a program to the next. A failure goes out of
all that it happened in: blocks and bodies restore the scope around them, and a call that it leaves
is not active any more. `execute` runs a program so. As no statement leaves a call active, it does
what `runProgram` does, which starts each statement with none.
-/

namespace Lox

/-- How a program ended. -/
inductive Outcome
  | completed
  | stopped (stop : Stop)
  | exhausted

/-- How a program ended, and what it left behind. -/
structure Ended where
  outcome : Outcome
  heap : Heap
  console : Console

/-- Lets the machine run for a number of steps. -/
def runFor (limit : Nat) : Nat → State → Next
  | 0, s => .running s
  | budget + 1, s =>
    match step limit s with
    | .running s => runFor limit budget s
    | last => last

/-- The state in which a statement of a program starts: in the root scope, with no call active. -/
def State.ofStmt (s : Stmt) (heap : Heap) (console : Console) : State :=
  ⟨.exec s .done, Heap.root, 0, heap, console⟩

/-- How a statement of a program ended. What only a loop or a function takes is a problem of its
keyword, and a machine that is still running has used up its budget. -/
def Next.ended : Next → Ended
  | .running s => ⟨.exhausted, s.heap, s.console⟩
  | .stopped stop heap console => ⟨.stopped stop, heap, console⟩
  | .finished .normal heap console => ⟨.completed, heap, console⟩
  | .finished (.broke keyword) heap console =>
    ⟨.stopped (.blame .breakOutsideLoop keyword), heap, console⟩
  | .finished (.continued keyword) heap console =>
    ⟨.stopped (.blame .continueOutsideLoop keyword), heap, console⟩
  | .finished (.returned keyword _) heap console =>
    ⟨.stopped (.blame .returnOutsideFunction keyword), heap, console⟩

/-- Runs a statement of a program in the root scope. -/
def runStmt (limit budget : Nat) (s : Stmt) (heap : Heap) (console : Console) : Ended :=
  (runFor limit budget (.ofStmt s heap console)).ended

/-- Runs the statements of a program, in order, up to the first that does not complete. -/
def runProgram (limit budget : Nat) : List Stmt → Heap → Console → Ended
  | [], heap, console => ⟨.completed, heap, console⟩
  | s :: rest, heap, console =>
    match runStmt limit budget s heap console with
    | ⟨.completed, heap, console⟩ => runProgram limit budget rest heap console
    | ended => ended

/-! ## Failures -/

/-- What remains to be done with a value or after a statement. -/
inductive Rest
  | value (next : ValueCont)
  | stmt (next : StmtCont)

/-- What remains after what the machine looks at. -/
def Control.rest : Control → Rest
  | .eval _ next | .give _ next => .value next
  | .exec _ next | .finish _ next => .stmt next

/-- A failure on its way out: what it has not left yet, the innermost scope, and the number of
active calls. -/
structure Unwinding where
  rest : Rest
  scope : ScopeId
  depth : Nat

/-- A failure in a state. -/
def State.unwinding (s : State) : Unwinding := ⟨s.control.rest, s.scope, s.depth⟩

/-- What waits for the construct that is innermost. -/
def ValueCont.outside : ValueCont → Rest
  | .unary _ _ next | .binaryLeft _ _ _ next | .binaryRight _ _ _ next | .logical _ _ next
  | .assign _ next | .callee _ _ next | .argument _ _ _ _ next | .activation next
  | .construct _ next | .get _ next | .getKeyObject _ _ next | .getKey _ _ next
  | .indexObject _ _ next | .index _ _ next | .setObject _ _ next | .setKeyObject _ _ _ next
  | .setKey _ _ _ next | .setField _ _ next | .setIndexObject _ _ _ next | .setIndex _ _ _ next
  | .setElement _ _ _ next | .field _ _ _ next | .element _ _ next => .value next
  | .discard next | .print next | .declare _ _ next | .branch _ _ next | .loopTest _ next
  | .loopCloser _ next | .ret _ next => .stmt next

/-- A failure leaves the innermost construct, unless it has left them all. The end of a call takes
it off the count. -/
def Unwinding.out? : Unwinding → Option Unwinding
  | ⟨.value (.activation next), scope, depth⟩ => some ⟨.value next, scope, depth - 1⟩
  | ⟨.value k, scope, depth⟩ => some ⟨k.outside, scope, depth⟩
  | ⟨.stmt (.statements _ next), scope, depth⟩ | ⟨.stmt (.loopBody _ next), scope, depth⟩ =>
    some ⟨.stmt next, scope, depth⟩
  | ⟨.stmt (.leave outer next), _, depth⟩ => some ⟨.stmt next, outer, depth⟩
  | ⟨.stmt (.functionBody caller next), _, depth⟩ => some ⟨.value next, caller, depth⟩
  | ⟨.stmt .done, _, _⟩ => none

theorem Unwinding.sizeOf_out? {u u' : Unwinding} (h : u.out? = some u') :
    sizeOf u'.rest < sizeOf u.rest := by
  obtain ⟨rest, scope, depth⟩ := u
  cases rest with
  | value k => cases k <;> cases h <;> simp +arith [ValueCont.outside]
  | stmt k => cases k <;> cases h <;> simp +arith

/-- A failure leaves everything. -/
def Unwinding.all (u : Unwinding) : Unwinding :=
  match _h : u.out? with
  | none => u
  | some u' => u'.all
termination_by sizeOf u.rest
decreasing_by exact sizeOf_out? _h

/-- Lets the machine run for a number of steps, and tells the last state that it was in. -/
def traceFor (limit : Nat) : Nat → State → State × Next
  | 0, s => (s, .running s)
  | budget + 1, s =>
    match step limit s with
    | .running s => traceFor limit budget s
    | last => (s, last)

/-- The number of active calls after a run, given the last state that the machine was in. -/
def Next.callsLeft (last : State) : Next → Nat
  | .running s => s.depth
  | .finished _ _ _ => last.depth
  | .stopped _ _ _ => last.unwinding.all.depth

/-- Runs a statement of a program in the root scope with a number of calls active, and tells how
many are afterwards. -/
def executeStmt (limit budget : Nat) (s : Stmt) (depth : Nat) (heap : Heap) (console : Console) :
    Ended × Nat :=
  let (last, next) := traceFor limit budget ⟨.exec s .done, Heap.root, depth, heap, console⟩
  (next.ended, next.callsLeft last)

/-- Runs the statements of a program, in order, up to the first that does not complete. The number
of active calls goes from each to the next, and out of the program. -/
def execute (limit budget : Nat) : List Stmt → Nat → Heap → Console → Ended × Nat
  | [], depth, heap, console => (⟨.completed, heap, console⟩, depth)
  | s :: rest, depth, heap, console =>
    match executeStmt limit budget s depth heap console with
    | (⟨.completed, heap, console⟩, depth) => execute limit budget rest depth heap console
    | ended => ended

end Lox
