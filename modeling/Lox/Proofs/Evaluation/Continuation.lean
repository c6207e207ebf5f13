import Lox.Machine
import Lox.Proofs.Evaluation.Mirror

/-!
# Continuations that fit

A continuation is waiting in a scope, and knows which frames the scopes around it mirror when it
goes on. It **fits** if the parts of the program that it holds have been visited with those frames,
and the values that it holds fit.

What comes after the statements of a block or of a body leaves the scope, so it asks nothing of the
frames there: such statements may end early, when some of their names are not declared. A statement
of the program itself goes on with the frames that its declarations have made.
-/

namespace Lox

open Code

namespace Chronicle

section Definitions

variable (w : Chronicle) (final : List Frame) (h : Heap)

/-- An expression is visited, and declares nothing. -/
def Operand (frames : List Frame) (e : Expr) : Prop := w.Visited frames (.expr e) ∧ e.declared = []

/-- A statement without braces is visited, and declares nothing. -/
def Branch (frames : List Frame) (s : Stmt) : Prop := w.Visited frames (.stmt s) ∧ s.declared = []

/-- The statement that a loop comes from is visited. -/
def Looping (frames : List Frame) (loop : Loop) : Prop :=
  w.Visited frames (.stmt (.loop loop.condition loop.body loop.closer))

/-- The value that a signal carries fits. -/
def FitsSignal : Signal → Prop
  | .returned _ v => w.FitsValue h v
  | .normal | .broke _ | .continued _ => True

mutual

/-- What remains to be done with a value, in a scope that mirrors frames. -/
def FitsValueCont (id : ScopeId) (frames : List Frame) : ValueCont → Prop
  | .unary _ _ next | .activation next | .get _ next => FitsValueCont id frames next
  | .binaryLeft _ _ right next => w.Operand frames right ∧ FitsValueCont id frames next
  | .binaryRight _ _ left next => w.FitsValue h left ∧ FitsValueCont id frames next
  | .logical _ right next => w.Operand frames right ∧ FitsValueCont id frames next
  | .assign use next =>
    (∃ value, w.Visited frames (.expr (.assign use value))) ∧ FitsValueCont id frames next
  | .callee arguments _ next => (∀ e ∈ arguments, w.Operand frames e) ∧ FitsValueCont id frames next
  | .argument callee before rest _ next =>
    w.FitsValue h callee ∧ (∀ v ∈ before, w.FitsValue h v) ∧ (∀ e ∈ rest, w.Operand frames e) ∧
      FitsValueCont id frames next
  | .construct made next => w.FitsValue h (.object made) ∧ FitsValueCont id frames next
  | .getKeyObject _ key next => w.Operand frames key ∧ FitsValueCont id frames next
  | .getKey owner _ next => w.FitsValue h owner ∧ FitsValueCont id frames next
  | .indexObject position _ next => w.Operand frames position ∧ FitsValueCont id frames next
  | .index owner _ next => w.FitsValue h owner ∧ FitsValueCont id frames next
  | .setObject _ value next => w.Operand frames value ∧ FitsValueCont id frames next
  | .setKeyObject _ key value next =>
    w.Operand frames key ∧ w.Operand frames value ∧ FitsValueCont id frames next
  | .setKey owner _ value next =>
    w.FitsValue h owner ∧ w.Operand frames value ∧ FitsValueCont id frames next
  | .setField owner _ next => w.FitsValue h (.object owner) ∧ FitsValueCont id frames next
  | .setIndexObject position _ value next =>
    w.Operand frames position ∧ w.Operand frames value ∧ FitsValueCont id frames next
  | .setIndex owner _ value next =>
    w.FitsValue h owner ∧ w.Operand frames value ∧ FitsValueCont id frames next
  | .setElement owner position _ next =>
    w.FitsValue h (.list owner) ∧ w.FitsValue h position ∧ FitsValueCont id frames next
  | .field before _ rest next =>
    (∀ name v, (name, v) ∈ before → w.FitsValue h v) ∧ (∀ f ∈ rest, w.Operand frames f.value) ∧
      FitsValueCont id frames next
  | .element before rest next =>
    (∀ v ∈ before, w.FitsValue h v) ∧ (∀ e ∈ rest, w.Operand frames e) ∧
      FitsValueCont id frames next
  | .discard next | .print next | .ret _ next => FitsStmtCont id frames next
  | .declare mutable name next =>
    name ∉ reservedNames ∧ FitsStmtCont id (declareIn [(name, mutable)] frames) next
  | .branch thenBranch elseBranch next =>
    (∀ s ∈ thenBranch, w.Branch frames s) ∧ (∀ s ∈ elseBranch, w.Branch frames s) ∧
      FitsStmtCont id frames next
  | .loopTest loop next | .loopCloser loop next =>
    w.Looping frames loop ∧ FitsStmtCont id frames next

/-- What remains to be done after a statement, in a scope that mirrors frames. -/
def FitsStmtCont (id : ScopeId) (frames : List Frame) : StmtCont → Prop
  | .done => id = Heap.root ∧ frames = final
  | .statements rest next =>
    w.Visited frames (.stmts rest) ∧ ∀ frames', FitsStmtCont id frames' next
  | .leave outer next => ∃ frames', w.Mirrors h outer frames' ∧ FitsStmtCont outer frames' next
  | .loopBody loop next => w.Looping frames loop ∧ FitsStmtCont id frames next
  | .functionBody caller next =>
    ∃ frames', w.Mirrors h caller frames' ∧ FitsValueCont caller frames' next

end

/-- What the machine looks at in a scope fits. -/
def FitsControl (id : ScopeId) : Control → Prop
  | .eval e next => ∃ frames, w.Mirrors h id frames ∧ w.Visited frames (.expr e) ∧
      w.FitsValueCont final h id (declareIn e.declared frames) next
  | .exec s next => ∃ frames, w.Mirrors h id frames ∧ w.Visited frames (.stmt s) ∧
      w.FitsStmtCont final h id (declareIn s.declared frames) next
  | .give v next =>
    ∃ frames, w.Mirrors h id frames ∧ w.FitsValue h v ∧ w.FitsValueCont final h id frames next
  | .finish signal next =>
      ∃ frames, w.Mirrors h id frames ∧ w.FitsSignal h signal ∧
        w.FitsStmtCont final h id frames next

/-- A state of the machine fits. -/
structure FitsState (state : State) : Prop where
  heap : w.FitsHeap state.heap
  control : w.FitsControl final state.heap state.scope state.control

/-- What a step leads to fits: the heap has only grown, a program that goes on finds its names
declared, and nothing ends with a fault. -/
def FitsNext : Next → Prop
  | .running state => h.Grows state.heap ∧ w.FitsState final state
  | .finished signal heap _ =>
      h.Grows heap ∧ w.FitsHeap heap ∧ ∀ _ : signal = .normal, w.Mirrors heap Heap.root final
  | .stopped stop heap _ => h.Grows heap ∧ w.FitsHeap heap ∧ ∀ fault, stop ≠ .fault fault

end Definitions

/-! ## Growth -/

section Growth

variable {w : Chronicle} {final : List Frame} {h h' : Heap}

mutual

theorem FitsValueCont.mono (hg : h.Grows h') {id : ScopeId} {frames : List Frame} :
    {next : ValueCont} →
    w.FitsValueCont final h id frames next → w.FitsValueCont final h' id frames next
  | .unary _ _ next, hn | .activation next, hn | .get _ next, hn =>
    (FitsValueCont.mono hg hn : w.FitsValueCont final h' id frames next)
  | .binaryLeft _ _ _ _, hn | .logical _ _ _, hn | .assign _ _, hn | .callee _ _ _, hn
  | .getKeyObject _ _ _, hn | .indexObject _ _ _, hn | .setObject _ _ _, hn =>
    ⟨hn.1, FitsValueCont.mono hg hn.2⟩
  | .binaryRight _ _ _ _, hn | .construct _ _, hn | .getKey _ _ _, hn | .index _ _ _, hn
  | .setField _ _ _, hn => ⟨hn.1.mono hg, FitsValueCont.mono hg hn.2⟩
  | .argument _ _ _ _ _, hn =>
    ⟨hn.1.mono hg, fun v hv => (hn.2.1 v hv).mono hg, hn.2.2.1, FitsValueCont.mono hg hn.2.2.2⟩
  | .setKeyObject _ _ _ _, hn | .setIndexObject _ _ _ _, hn =>
    ⟨hn.1, hn.2.1, FitsValueCont.mono hg hn.2.2⟩
  | .setKey _ _ _ _, hn | .setIndex _ _ _ _, hn =>
    ⟨hn.1.mono hg, hn.2.1, FitsValueCont.mono hg hn.2.2⟩
  | .setElement _ _ _ _, hn => ⟨hn.1.mono hg, hn.2.1.mono hg, FitsValueCont.mono hg hn.2.2⟩
  | .field _ _ _ _, hn =>
    ⟨fun name v hv => (hn.1 name v hv).mono hg, hn.2.1, FitsValueCont.mono hg hn.2.2⟩
  | .element _ _ _, hn => ⟨fun v hv => (hn.1 v hv).mono hg, hn.2.1, FitsValueCont.mono hg hn.2.2⟩
  | .discard _, hn | .print _, hn | .ret _ _, hn => FitsStmtCont.mono hg hn
  | .declare _ _ _, hn => ⟨hn.1, FitsStmtCont.mono hg hn.2⟩
  | .branch _ _ _, hn => ⟨hn.1, hn.2.1, FitsStmtCont.mono hg hn.2.2⟩
  | .loopTest _ _, hn | .loopCloser _ _, hn => ⟨hn.1, FitsStmtCont.mono hg hn.2⟩

theorem FitsStmtCont.mono (hg : h.Grows h') {id : ScopeId} {frames : List Frame} :
    {next : StmtCont} →
    w.FitsStmtCont final h id frames next → w.FitsStmtCont final h' id frames next
  | .done, hn => hn
  | .statements _ _, hn => ⟨hn.1, fun frames' => FitsStmtCont.mono hg (hn.2 frames')⟩
  | .leave _ _, ⟨frames', hm, hn⟩ => ⟨frames', hm.mono hg, FitsStmtCont.mono hg hn⟩
  | .loopBody _ _, hn => ⟨hn.1, FitsStmtCont.mono hg hn.2⟩
  | .functionBody _ _, ⟨frames', hm, hn⟩ => ⟨frames', hm.mono hg, FitsValueCont.mono hg hn⟩

end

end Growth

end Chronicle

end Lox
