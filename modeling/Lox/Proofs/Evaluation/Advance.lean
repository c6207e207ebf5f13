import Lox.Proofs.Evaluation.RootScope
import Lox.Proofs.Evaluation.Runs

/-!
# Steps take nothing away

Whatever a step of the machine does, the heap grows: scopes stay where they are and keep their
names. And what was printed stays: the output only gets longer. This asks nothing of the program,
and holds along every run.

The states that a run passes come one after another: of two of them, one **precedes** what the other
has, or they are the same (`passes_total`). So no two steps make the same scope.
-/

namespace Lox

namespace Console

/-- What is printed comes last. -/
theorem output_print (c : Console) (t : Text) : (c.print t).output = c.output ++ t := by
  simp [output, print]

theorem output_readLine (c : Console) : c.readLine.2.output = c.output := by
  unfold readLine
  cases cutLine? c.input with
  | some cut => rfl
  | none => cases c.inputProblem <;> rfl

end Console

/-- The console that a step or a run leads to. -/
def Next.console : Next → Console
  | .running state => state.console
  | .finished _ _ console | .stopped _ _ console => console

theorem Next.ended_console (next : Next) : next.ended.console = next.console := by
  cases next with
  | running | stopped => rfl
  | finished signal => cases signal <;> rfl

/-- What a step or a run leads to has all that a heap had, and all that was printed. -/
structure Next.Keeps (h : Heap) (c : Console) (next : Next) : Prop where
  heap : h.Grows next.heap
  output : c.output <+: next.console.output

/-! ## Natives -/

namespace Builtin

/-- Reading a line may print a prompt. -/
theorem output_readLine (prompt : Value) (blame : Span) (h : Heap) (c : Console) :
    c.output <+: (readLine prompt blame h c).console.output := by
  have hread : ∀ c : Console, (readLine.read blame h c).console.output = c.output := by
    intro c
    rw [← c.output_readLine]
    unfold readLine.read
    rcases c.readLine with ⟨line | problem, c'⟩ <;> rfl
  have hprompt : c.output <+: (c.print (prompt.printed h)).output := by
    rw [Console.output_print]
    exact List.prefix_append _ _
  unfold readLine
  split
  · rw [hread]
  · dsimp only
    split
    · exact hprompt
    · rwa [hread]

/-- A native takes nothing back that was printed. -/
theorem output_call (b : Builtin) (arguments : List Value) (blame : Span) (h : Heap) (c : Console) :
    c.output <+: (b.call arguments blame h c).console.output := by
  simp only [call]
  cases b with
  | read => exact output_readLine _ blame h c
  | deepCopy =>
    dsimp only
    cases h.deepCopy (arguments.getD 0 .nil) <;> exact List.prefix_rfl
  | _ => exact List.prefix_rfl

end Builtin

/-! ## Steps -/

section Steps

variable (scope : ScopeId) (depth : Nat) (h : Heap) (c : Console)

theorem keeps_of_grows {next : Next} {h : Heap} {c : Console} (hheap : h.Grows next.heap)
    (hconsole : next.console = c) : next.Keeps h c :=
  ⟨hheap, by rw [hconsole]⟩

theorem keeps_of_eq {next : Next} {h : Heap} {c : Console} (hheap : next.heap = h)
    (hconsole : next.console = c) : next.Keeps h c :=
  keeps_of_grows (by rw [hheap]) hconsole

theorem grows_take (id : InstanceId) (property : Property) : h.Grows (h.take id property).2 := by
  cases property with
  | own v => rfl
  | method method => exact Heap.grows_fork _ _

theorem grows_defineClass (name : Text) (superclass : Option ClassId) (methods : List Method)
    (inner : ScopeId) : h.Grows (defineClass name superclass methods inner scope h) :=
  (Heap.grows_newClass _).trans (Heap.grows_define _ _ _ _)

variable {scope depth h c}

/-- A transition takes nothing away. -/
theorem Transition.keeps {limit : Nat} {control : Control} {next : Next}
    (htrans : Transition limit scope depth h c control next) : next.Keeps h c := by
  cases htrans with
  | turn | fails | finished | idle | leave | bodyEnd | bodyReturn | activation =>
    exact keeps_of_eq rfl rfl
  | lambda | declareNil | declare | assign => exact keeps_of_grows (Heap.grows_define _ _ _ _) rfl
  | classDecl => exact keeps_of_grows (grows_defineClass scope h _ _ _ _) rfl
  | subclass =>
    exact keeps_of_grows ((Heap.grows_fork _ _).trans (grows_defineClass scope _ _ _ _ _)) rfl
  | object | «instance» => exact keeps_of_grows (Heap.grows_newInstance _ _) rfl
  | list => exact keeps_of_grows (Heap.grows_newList _) rfl
  | setField => exact keeps_of_grows (Heap.grows_modifyInstance _ _) rfl
  | setElement => exact keeps_of_grows (Heap.grows_modifyList _ _) rfl
  | property => exact keeps_of_grows (grows_take h _ _) rfl
  | superMethod | enter | block => exact keeps_of_grows (Heap.grows_fork _ _) rfl
  | superIdle => exact keeps_of_grows (.of_scopes_eq rfl le_rfl le_rfl le_rfl) rfl
  | @construct _ made =>
    have hmade : h.Grows (h.newInstance (some made) []).2 := Heap.grows_newInstance _ _
    exact keeps_of_grows (hmade.trans ((Heap.grows_fork _ _).trans (Heap.grows_fork _ _))) rfl
  | @native _ b arguments paren | @nativeFails _ b arguments paren =>
    exact ⟨(b.effect_call arguments paren h c).grows, b.output_call arguments paren h c⟩
  | @print v =>
    refine ⟨.refl h, ?_⟩
    change c.output <+: (c.printLine (v.printed h)).output
    rw [Console.printLine, Console.output_print]
    exact List.prefix_append _ _

end Steps

/-- A step takes nothing away. -/
theorem keeps_step (limit : Nat) (s : State) : (step limit s).Keeps s.heap s.console :=
  (transition_step limit s).keeps

/-! ## Runs -/

/-- A run grows the heap and prints more. -/
theorem keeps_runFor (limit n : Nat) (s : State) : (runFor limit n s).Keeps s.heap s.console := by
  apply invariant_runFor
  · exact keeps_of_eq rfl rfl
  · intro m _ s' _ hbefore
    have hstep := keeps_step limit s'
    exact ⟨hbefore.heap.trans hstep.heap, hbefore.output.trans hstep.output⟩

section Programs

variable (limit budget : Nat)

theorem keeps_runStmt (s : Stmt) (heap : Heap) (console : Console) :
    heap.Grows (runStmt limit budget s heap console).heap ∧
      console.output <+: (runStmt limit budget s heap console).console.output := by
  have hkeeps := keeps_runFor limit budget (.ofStmt s heap console)
  rw [runStmt, Next.ended_heap, Next.ended_console]
  exact ⟨hkeeps.heap, hkeeps.output⟩

/-- So does a program. -/
theorem keeps_runProgram (program : List Stmt) (heap : Heap) (console : Console) :
    heap.Grows (runProgram limit budget program heap console).heap ∧
      console.output <+: (runProgram limit budget program heap console).console.output := by
  induction program generalizing heap console with
  | nil => exact ⟨.refl heap, List.prefix_rfl⟩
  | cons s rest ih =>
    have hstmt := keeps_runStmt limit budget s heap console
    rw [runProgram]
    split
    · next heap' console' hcompleted =>
      rw [hcompleted] at hstmt
      exact ⟨hstmt.1.trans (ih heap' console').1, hstmt.2.trans (ih heap' console').2⟩
    · exact hstmt

end Programs

/-! ## The order of the states that a run passes -/

/-- The scopes that the step from a state makes are there in a heap. -/
def Precedes (limit : Nat) (state : State) (h : Heap) : Prop :=
  ∀ state', step limit state = .running state' → state'.heap.scopes.size ≤ h.scopes.size

theorem Precedes.trans {limit : Nat} {state : State} {h h' : Heap} (hp : Precedes limit state h)
    (hg : h.Grows h') : Precedes limit state h' :=
  fun state' hstep => (hp state' hstep).trans hg.scopes

section Order

variable {limit budget : Nat} {program : List Stmt} {heap : Heap} {console : Console}

/-- A state of a program has a heap that has grown. -/
theorem grows_of_passes {state : State} (hpasses : Passes limit budget program heap console state) :
    heap.Grows state.heap := by
  induction hpasses with
  | @here s rest heap console n state _ hrun =>
    have hkeeps := keeps_runFor limit n (.ofStmt s heap console)
    rw [hrun] at hkeeps
    exact hkeeps.heap
  | @later s rest heap heap' console console' state hrun _ ih =>
    have hkeeps := keeps_runStmt limit budget s heap console
    rw [hrun] at hkeeps
    exact hkeeps.1.trans ih

/-- What a step makes is there after any later step. -/
theorem precedes_runFor {m n : Nat} {state a : State} (hm : m < n)
    (ha : runFor limit m state = .running a) : Precedes limit a (runFor limit n state).heap := by
  intro a' hstep
  obtain ⟨k, rfl⟩ := Nat.exists_eq_add_of_lt hm
  rw [Nat.add_assoc, runFor_add, ha]
  simp only [runFor, hstep]
  exact (keeps_runFor limit k a').heap.scopes

/-- A state precedes what its statement leaves. -/
theorem precedes_runStmt {s : Stmt} {n : Nat} {state : State} (hn : n < budget)
    (hrun : runFor limit n (.ofStmt s heap console) = .running state) :
    Precedes limit state (runStmt limit budget s heap console).heap := by
  rw [runStmt, Next.ended_heap]
  exact precedes_runFor hn hrun

/-- What a step makes is there at the end of the program. -/
theorem precedes_runProgram {state : State}
    (hpasses : Passes limit budget program heap console state) :
    Precedes limit state (runProgram limit budget program heap console).heap := by
  induction hpasses with
  | @here s rest heap console n state hn hrun =>
    have hstate := precedes_runStmt hn hrun
    simp only [runProgram]
    split
    · next heap' console' hcompleted =>
      rw [hcompleted] at hstate
      exact hstate.trans (keeps_runProgram limit budget rest heap' console').1
    · exact hstate
  | @later s rest heap heap' console console' state hrun _ ih =>
    simp only [runProgram, hrun]
    exact ih

/-- Of two states that the run of a program passes, one precedes the other, or they are the same. -/
theorem passes_total {a b : State} (ha : Passes limit budget program heap console a)
    (hb : Passes limit budget program heap console b) :
    a = b ∨ Precedes limit a b.heap ∨ Precedes limit b a.heap := by
  induction ha with
  | @here s rest heap console m a hm hrun =>
    cases hb with
    | @here _ _ _ _ n _ hn hrun' =>
      rcases Nat.lt_trichotomy m n with hlt | rfl | hlt
      · have hprecedes := precedes_runFor hlt hrun
        rw [hrun'] at hprecedes
        exact .inr (.inl hprecedes)
      · exact .inl (Next.running.inj (hrun.symm.trans hrun'))
      · have hprecedes := precedes_runFor hlt hrun'
        rw [hrun] at hprecedes
        exact .inr (.inr hprecedes)
    | later hcompleted hrest =>
      have hprecedes := precedes_runStmt hm hrun
      rw [hcompleted] at hprecedes
      exact .inr (.inl (hprecedes.trans (grows_of_passes hrest)))
  | @later s rest heap heap' console console' a hcompleted hrest ih =>
    cases hb with
    | here hn hrun =>
      have hprecedes := precedes_runStmt hn hrun
      rw [hcompleted] at hprecedes
      exact .inr (.inr (hprecedes.trans (grows_of_passes hrest)))
    | @later _ _ _ heap'' _ console'' _ hcompleted' hrest' =>
      obtain ⟨rfl, rfl⟩ : heap' = heap'' ∧ console' = console'' := by
        have heq := hcompleted.symm.trans hcompleted'
        exact ⟨(Ended.mk.inj heq).2.1, (Ended.mk.inj heq).2.2⟩
      exact ih hrest'

end Order

end Lox
