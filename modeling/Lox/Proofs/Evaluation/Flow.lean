import Lox.Proofs.Evaluation.Bearing

/-!
# Control flow stays in its construct

A place in a program admits some ways for a statement to end: `break` and `continue` are at home in
the body of a loop, and `return` in the body of a function. A part is **confined** to a place if its
own jumps find what they need there or inside the part itself. What a continuation waits for is a
place as well: after the body of a loop any jump of a loop is welcome, after the body of a function
none.

Evaluation keeps to this. If every function there is is confined, and what is evaluated is confined
to the place that its continuation makes, then this stays so, no signal arrives where it is not
admitted, and no `break`, `continue` or `return` is ever blamed (`Orderly.runFor`).
-/

namespace Lox

open Code

/-! ## Places -/

/-- The ways to end that a place admits, besides the normal one. -/
structure Flow where
  loop : Bool
  function : Bool
  deriving DecidableEq

namespace Flow

/-- Outside of all loops and functions. -/
def top : Flow := ⟨false, false⟩

/-- In the body of a function, outside of its loops. -/
def body : Flow := ⟨false, true⟩

/-- In the body of a loop. -/
def inLoop (flow : Flow) : Flow := { flow with loop := true }

/-- A place admits a signal. -/
def Admits (flow : Flow) : Signal → Prop
  | .normal => True
  | .returned _ _ => flow.function = true
  | .broke _ | .continued _ => flow.loop = true

end Flow

namespace Code

/-- The place that a part makes for what stands in it. -/
def within (flow : Flow) : Code → Flow
  | .stmt (.loop _ _ _) => flow.inLoop
  | .function _ => .body
  | _ => flow

/-- A statement that jumps does so from a place that admits it. -/
def Allowed (flow : Flow) : Code → Prop
  | .stmt (.brk _) | .stmt (.cont _) => flow.loop = true
  | .stmt (.ret _ _) => flow.function = true
  | _ => True

/-- Every jump in a part stands in a place that admits it, if the part stands in a given place. -/
inductive Confined : Flow → Code → Prop
  | intro {flow : Flow} {c : Code} :
      c.Allowed flow → (∀ d, Child d c → Confined (c.within flow) d) → Confined flow c

/-- What is confined is allowed where it stands. -/
theorem Confined.here {flow : Flow} {c : Code} (h : Confined flow c) : c.Allowed flow := by
  cases h with
  | intro h _ => exact h

/-- Its parts are confined to what it opens. -/
theorem Confined.child {flow : Flow} {c d : Code} (h : Confined flow c) (hd : Child d c) :
    Confined (c.within flow) d := by
  cases h with
  | intro _ h => exact h d hd

theorem Confined.next {flow : Flow} {s : Stmt} {rest : List Stmt}
    (h : Confined flow (.stmts (s :: rest))) : Confined flow (.stmts rest) := by
  refine .intro trivial fun d hd => ?_
  cases hd with
  | member hs => exact h.child (.member (List.mem_cons_of_mem _ hs))

/-- A loop is confined wherever its body may end. -/
theorem Confined.loop {flow flow' : Flow} {condition closer : Option Expr} {body : Stmt}
    (h : Confined flow (.stmt (.loop condition body closer)))
    (hfunction : flow'.function = flow.function) :
    Confined flow' (.stmt (.loop condition body closer)) := by
  have hwithin : within flow' (.stmt (.loop condition body closer)) =
      within flow (.stmt (.loop condition body closer)) := by
    simp only [within, Flow.inLoop, hfunction]
  refine .intro trivial fun d hd => ?_
  rw [hwithin]
  exact h.child hd

/-- The functions in a part are confined. -/
def FunctionsConfined : Code → Prop
  | .function f => Confined .body (.function f)
  | _ => True

/-- The functions in it are confined to themselves. -/
theorem Confined.functions {flow : Flow} {c : Code} (h : Confined flow c) :
    Every FunctionsConfined c := by
  induction h with
  | @intro flow c hallowed hchild ih =>
    refine .intro ?_ ih
    cases c with
    | function f => exact .intro trivial hchild
    | _ => trivial

theorem hereditary_functionsConfined : Hereditary (Every FunctionsConfined) :=
  hereditary_every fun _ => trivial

/-- A jump in a function stays in its body. -/
theorem Every.confined_body {f : Function} (h : Every FunctionsConfined (.function f)) {s : Stmt}
    (hs : s ∈ f.body) : Confined .body (.stmt s) := by
  have hf : Confined .body (.function f) := h.here
  exact (hf.child .body).child (.member hs)

end Code

/-! ## Continuations -/

/-- The place that a continuation makes for a statement. -/
def StmtCont.flow (base : Flow) : StmtCont → Flow
  | .done => base
  | .statements _ next | .leave _ next => next.flow base
  | .loopBody _ next => (next.flow base).inLoop
  | .functionBody _ _ => .body

section Definitions

variable (base : Flow)

mutual

/-- The statements that wait are confined to the places that they wait for. -/
def ValueCont.Confines : ValueCont → Prop
  | .unary _ _ next | .binaryLeft _ _ _ next | .binaryRight _ _ _ next | .logical _ _ next
  | .assign _ next | .callee _ _ next | .argument _ _ _ _ next | .activation next
  | .construct _ next | .get _ next | .getKeyObject _ _ next | .getKey _ _ next
  | .indexObject _ _ next | .index _ _ next | .setObject _ _ next | .setKeyObject _ _ _ next
  | .setKey _ _ _ next | .setField _ _ next | .setIndexObject _ _ _ next | .setIndex _ _ _ next
  | .setElement _ _ _ next | .field _ _ _ next | .element _ _ next => next.Confines
  | .discard next | .print next | .declare _ _ next => next.Confines
  | .branch thenBranch elseBranch next =>
    (∀ s ∈ thenBranch, Confined (next.flow base) (.stmt s)) ∧
      (∀ s ∈ elseBranch, Confined (next.flow base) (.stmt s)) ∧ next.Confines
  | .loopTest loop next | .loopCloser loop next =>
    Confined (next.flow base) (.stmt loop.stmt) ∧ next.Confines
  | .ret _ next => (next.flow base).function = true ∧ next.Confines

/-- The same, for what remains after a statement. -/
def StmtCont.Confines : StmtCont → Prop
  | .done => True
  | .statements rest next => (∀ s ∈ rest, Confined (next.flow base) (.stmt s)) ∧ next.Confines
  | .leave _ next => next.Confines
  | .loopBody loop next => Confined (next.flow base) (.stmt loop.stmt) ∧ next.Confines
  | .functionBody _ next => next.Confines

end

/-- What is looked at is confined to the place that its continuation makes, and a signal is admitted
there. -/
def Control.Confines : Control → Prop
  | .eval _ next | .give _ next => next.Confines base
  | .exec s next => Confined (next.flow base) (.stmt s) ∧ next.Confines base
  | .finish signal next => (next.flow base).Admits signal ∧ next.Confines base

/-- No jump is blamed for having left its construct. -/
def Stop.Quiet : Stop → Prop
  | .blame problem _ => problem.cause ≠ .signal
  | .fault _ => True

/-- What a step leads to is confined, and no jump is blamed. -/
def Next.Confines : Next → Prop
  | .running state => state.control.Confines base
  | .finished signal _ _ => base.Admits signal
  | .stopped stop _ _ => stop.Quiet

end Definitions

variable {base : Flow} {scope : ScopeId} {depth : Nat} {heap : Heap} {console : Console}

section Going

variable {next : StmtCont} (hn : next.Confines base)

include hn

/-- A body is entered where its statements may stand. -/
theorem confines_runBody {body : List Stmt}
    (hbody : ∀ s ∈ body, Confined (next.flow base) (.stmt s)) :
    (runBody body next).Confines base := by
  cases body with
  | nil => exact ⟨trivial, hn⟩
  | cons s rest =>
    exact ⟨hbody s List.mem_cons_self, fun s hs => hbody s (List.mem_cons_of_mem _ hs), hn⟩

theorem confines_runBranch {branch : Option Stmt}
    (hbranch : ∀ s ∈ branch, Confined (next.flow base) (.stmt s)) :
    (runBranch branch next).Confines base := by
  cases branch with
  | none => exact ⟨trivial, hn⟩
  | some s => exact ⟨hbranch s rfl, hn⟩

theorem confines_loopBody {loop : Loop} (hloop : Confined (next.flow base) (.stmt loop.stmt)) :
    (Control.exec loop.body (.loopBody loop next)).Confines base :=
  ⟨hloop.child (.inner List.mem_cons_self), hloop, hn⟩

/-- A loop waits for the jumps of its own body. -/
theorem confines_runLoop {loop : Loop} (hloop : Confined (next.flow base) (.stmt loop.stmt)) :
    (runLoop loop next).Confines base := by
  unfold runLoop
  split
  · exact ⟨hloop, hn⟩
  · exact confines_loopBody hn hloop

theorem confines_closeLoop {loop : Loop} (hloop : Confined (next.flow base) (.stmt loop.stmt)) :
    (closeLoop loop next).Confines base := by
  unfold closeLoop
  split
  · exact ⟨hloop, hn⟩
  · exact confines_runLoop hn hloop

end Going

section Shared

variable {c : Control} (hc : c.Confines base)

include hc

/-- A call leaves what waits for it. -/
theorem Control.Confines.calls {callee : Value} {arguments : List Value} {paren : Span}
    {k : ValueCont} (hcalls : c.Calls heap callee arguments paren k) : k.Confines base := by
  cases hcalls <;> exact hc

theorem Control.Confines.reads {owner : Value} {name : Text} {blame : Span} {k : ValueCont}
    (hreads : c.Reads heap owner name blame k) : k.Confines base := by
  cases hreads <;> exact hc

theorem Control.Confines.supers {superclass : ClassId} {receiver : InstanceId} {method : Ident}
    {k : ValueCont} (hsupers : c.Supers scope heap superclass receiver method k) :
    k.Confines base := by
  cases hsupers
  exact hc

end Shared

/-! ## Steps -/

/-- A turn leads from one confined place to another: a signal goes to the nearest construct that
takes it. -/
theorem Turn.confines {c c' : Control} (hturn : Turn scope heap c c') (hc : c.Confines base) :
    c'.Confines base := by
  cases hturn with
  | writes hwrites => cases hwrites <;> exact hc
  | discard => exact ⟨trivial, hc⟩
  | chosen =>
    refine confines_runBranch hc.2.2 fun s hs => ?_
    split at hs
    · exact hc.1 s hs
    · exact hc.2.1 s hs
  | loopTrue => exact confines_loopBody hc.2 hc.1
  | loopFalse => exact ⟨trivial, hc.2⟩
  | loopCloser => exact confines_runLoop hc.2 hc.1
  | evaluate | print | declare => exact hc.2
  | branch =>
    refine ⟨fun s hthen => hc.1.child (.inner ?_), fun s helse => hc.1.child (.inner ?_), hc.2⟩
    · exact List.mem_append_left _ (Option.mem_toList.mpr hthen)
    · exact List.mem_append_right _ (Option.mem_toList.mpr helse)
  | @loop condition body closer k =>
    have hloop : Confined (k.flow base) (.stmt (Loop.stmt ⟨condition, body, closer⟩)) := hc.1
    exact confines_runLoop hc.2 hloop
  | ret | retNil | brk | cont => exact ⟨hc.1.here, hc.2⟩
  | statements => exact confines_runBody hc.2.2 hc.2.1
  | skipped => exact ⟨hc.1, hc.2.2⟩
  | loopNormal | loopContinued => exact confines_closeLoop hc.2.2 hc.2.1
  | loopBroke => exact ⟨trivial, hc.2.2⟩
  | loopReturned => exact ⟨hc.1, hc.2.2⟩
  | _ => exact hc

/-- No failure blames a jump, since no signal of a jump arrives at the end of a function. -/
theorem Fails.quiet {limit : Nat} {c : Control} {stop : Stop}
    (hfails : Fails limit scope depth heap c stop) (hc : c.Confines base) : stop.Quiet := by
  cases stop with
  | fault => trivial
  | blame problem site =>
    intro hcause
    rw [hfails.cause_eq] at hcause
    cases hfails with
    | broke | continued => cases hc.1
    | superMethod hvia | tooMany hvia | notEnough hvia | callDepth hvia | undefined hvia
    | notReadable hvia | notWritable hvia => cases hvia <;> cases hcause
    | _ => cases hcause

/-- A function is entered in a flow of its own. -/
theorem confines_enter {next : ValueCont} (hn : next.Confines base) {c : Closure}
    (hc : Every FunctionsConfined (.function c.function)) (arguments : List Value) :
    (enter c arguments next scope depth heap console).Confines base := by
  have hbody : (StmtCont.functionBody scope next).Confines base := hn
  exact confines_runBody hbody fun s hs => hc.confined_body hs

/-- Every step keeps jumps inside of what takes them. -/
theorem Transition.confines {limit : Nat} {c : Control} {next : Next}
    (htrans : Transition limit scope depth heap console c next)
    (hheap : heap.Bears (Every FunctionsConfined))
    (hholds : c.Holds (fun _ => Every FunctionsConfined)
      (Value.Bears (Every FunctionsConfined)) scope) (hc : c.Confines base) :
    next.Confines base := by
  cases htrans with
  | turn hturn => exact hturn.confines hc
  | fails hfails => exact hfails.quiet hc
  | finished => exact hc.1
  | declareNil | classDecl | subclass => exact ⟨trivial, hc.2⟩
  | declare | print => exact ⟨trivial, hc⟩
  | object hgathers => cases hgathers <;> exact hc
  | list hlists => cases hlists <;> exact hc
  | property hreads => exact hc.reads hreads
  | superMethod hsupers | superIdle hsupers => exact hc.supers hsupers
  | enter hcalls =>
    have hk := hc.calls hcalls
    have hactivation : (ValueCont.activation _).Confines base := hk
    exact confines_enter hactivation (hholds.calls hcalls).1 _
  | @construct _ made _ _ k constructor hcalls hconstructor =>
    have hk := hc.calls hcalls
    have hwaits :
        (ValueCont.construct (heap.newInstance (some made) []).1 (.activation k)).Confines base :=
      hk
    have hconstructor : heap.constructor? made = some constructor := hconstructor
    have hfunction : Every FunctionsConfined (.function constructor.function) :=
      hheap.constructor? hconstructor
    refine confines_enter hwaits ?_ _
    exact hfunction
  | «instance» hcalls | native hcalls | idle hcalls => exact hc.calls hcalls
  | @nativeFails _ b arguments _ _ stop _ _ _ hstop =>
    rcases b.blames_call arguments stop hstop with ⟨problem, rfl, hcause⟩ | rfl
    · exact fun hsignal => absurd (hcause.symm.trans hsignal) Cause.noConfusion
    · trivial
  | @block body k =>
    have hleave : (StmtCont.leave scope k).Confines base := hc.2
    exact confines_runBody hleave fun s hs => (hc.1.child .block).child (.member hs)
  | bodyEnd | bodyReturn => exact hc.2
  | _ => exact hc

/-- All functions are confined, and what is looked at is confined to its place. -/
structure State.Orderly (base : Flow) (state : State) : Prop where
  bears : state.Bears (Every FunctionsConfined)
  confines : state.control.Confines base

theorem State.Orderly.step {state : State} (h : state.Orderly base) (limit : Nat) :
    (Lox.step limit state).Confines base :=
  (transition_step limit state).confines h.bears.heap h.bears.control h.confines

/-- What an orderly state leads to in any number of steps. -/
theorem State.Orderly.runFor {state : State} (h : state.Orderly base) (limit n : Nat) :
    (Lox.runFor limit n state).Confines base := by
  apply invariant_runFor
  · exact h.confines
  · intro m _ state' hrun hconfines
    have hbears := h.bears.runFor hereditary_functionsConfined limit m
    rw [hrun] at hbears
    exact State.Orderly.step ⟨hbears, hconfines⟩ limit

/-! ## Runs of programs -/

section Runs

variable {limit budget : Nat} {program : List Stmt}

/-- The statements of a confined program are orderly. -/
theorem orderly_ofStmt (console : Console) (hheap : heap.Bears (Every FunctionsConfined))
    (hprogram : Confined .top (.stmts program)) {s : Stmt} (hs : s ∈ program) :
    (State.ofStmt s heap console).Orderly .top := by
  have hconfined := hprogram.child (.member hs)
  exact ⟨⟨hheap, hconfined.functions, trivial⟩, hconfined, trivial⟩

/-- Every state that the run of a program passes is orderly. -/
theorem orderly_of_passes {state : State} (hpasses : Passes limit budget program heap console state)
    (hheap : heap.Bears (Every FunctionsConfined)) (hprogram : Confined .top (.stmts program)) :
    state.Orderly .top := by
  refine ⟨bears_of_passes hereditary_functionsConfined hpasses hheap hprogram.functions, ?_⟩
  induction hpasses with
  | @here s rest heap console n state hn hrun =>
    have hnext := (orderly_ofStmt console hheap hprogram List.mem_cons_self).runFor limit n
    rw [hrun] at hnext
    exact hnext
  | @later s rest heap heap' console console' state hrun _ ih =>
    have hs := (hprogram.child (.member List.mem_cons_self)).functions
    have hheap' := bears_runStmt hereditary_functionsConfined hheap hs limit budget console
    rw [hrun] at hheap'
    exact ih hheap' hprogram.next

/-- A statement of a program that does not run to its end is not blamed for a jump. -/
theorem quiet_ended {next : Next} (hnext : next.Confines .top) {stop : Stop}
    (h : next.ended.outcome = .stopped stop) : stop.Quiet := by
  cases next with
  | running => cases h
  | stopped => exact Outcome.stopped.inj h ▸ hnext
  | finished signal =>
    cases signal with
    | normal => cases h
    | returned | broke | continued => cases hnext

/-- The run of a program blames no jump. -/
theorem quiet_runProgram {stop : Stop}
    (h : (runProgram limit budget program heap console).outcome = .stopped stop)
    (hheap : heap.Bears (Every FunctionsConfined)) (hprogram : Confined .top (.stmts program)) :
    stop.Quiet := by
  induction program generalizing heap console with
  | nil => cases h
  | cons s rest ih =>
    have hs := (hprogram.child (.member List.mem_cons_self)).functions
    have hheap' := bears_runStmt hereditary_functionsConfined hheap hs limit budget console
    have hnext := (orderly_ofStmt console hheap hprogram List.mem_cons_self).runFor limit budget
    simp only [runProgram] at h
    split at h
    · next hrun =>
      rw [hrun] at hheap'
      exact ih h hheap' hprogram.next
    · exact quiet_ended hnext h

end Runs

end Lox
