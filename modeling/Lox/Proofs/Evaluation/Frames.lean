import Lox.Machine.Run
import Lox.Proofs.Evaluation.Transitions

/-!
# What a call returns to

Below the calls that are active lies what the outermost of them was called for: a scope and a
continuation that waits there for a value. `Control.beneath` finds it under a number of calls.
Whatever a call does, it leaves what lies below it alone, and when the last of the calls has ended
its value is given to that continuation, in that scope (`calledFrom_step`). A failure inside of the
call comes out at the same place (`State.CalledFrom.passes`).
-/

namespace Lox

/-- Something holds of the state that a step leads to, if the machine goes on. -/
def Next.All (P : State → Prop) : Next → Prop
  | .running s => P s
  | .finished _ _ _ | .stopped _ _ _ => True

/-! ## What lies below calls -/

mutual

/-- The scope and the continuation that lie below a number of calls. -/
def ValueCont.beneath : ValueCont → Nat → ScopeId → Option (ScopeId × ValueCont)
  | next, 0, id => some (id, next)
  | .activation next, calls + 1, id => next.beneath calls id
  | .unary _ _ next, calls + 1, id | .binaryLeft _ _ _ next, calls + 1, id
  | .binaryRight _ _ _ next, calls + 1, id | .logical _ _ next, calls + 1, id
  | .assign _ next, calls + 1, id | .callee _ _ next, calls + 1, id
  | .argument _ _ _ _ next, calls + 1, id | .construct _ next, calls + 1, id
  | .get _ next, calls + 1, id | .getKeyObject _ _ next, calls + 1, id
  | .getKey _ _ next, calls + 1, id | .indexObject _ _ next, calls + 1, id
  | .index _ _ next, calls + 1, id | .setObject _ _ next, calls + 1, id
  | .setKeyObject _ _ _ next, calls + 1, id | .setKey _ _ _ next, calls + 1, id
  | .setField _ _ next, calls + 1, id | .setIndexObject _ _ _ next, calls + 1, id
  | .setIndex _ _ _ next, calls + 1, id | .setElement _ _ _ next, calls + 1, id
  | .field _ _ _ next, calls + 1, id | .element _ _ next, calls + 1, id =>
    next.beneath (calls + 1) id
  | .discard next, calls + 1, id | .print next, calls + 1, id | .declare _ _ next, calls + 1, id
  | .branch _ _ next, calls + 1, id | .loopTest _ next, calls + 1, id
  | .loopCloser _ next, calls + 1, id | .ret _ next, calls + 1, id => next.beneath (calls + 1) id

@[inherit_doc ValueCont.beneath]
def StmtCont.beneath : StmtCont → Nat → ScopeId → Option (ScopeId × ValueCont)
  | .done, _, _ => none
  | .statements _ next, calls, id | .loopBody _ next, calls, id => next.beneath calls id
  | .leave outer next, calls, _ => next.beneath calls outer
  | .functionBody caller next, calls, _ => next.beneath calls caller

end

theorem ValueCont.beneath_zero (next : ValueCont) (id : ScopeId) :
    next.beneath 0 id = some (id, next) := by
  cases next <;> rfl

/-- The scope and the continuation that lie below a number of calls. Below none, they are those that
a value is given to. -/
def Control.beneath : Control → Nat → ScopeId → Option (ScopeId × ValueCont)
  | .give _ next, 0, id => some (id, next)
  | _, 0, _ => none
  | .eval _ next, calls + 1, id | .give _ next, calls + 1, id => next.beneath (calls + 1) id
  | .exec _ next, calls + 1, id | .finish _ next, calls + 1, id => next.beneath (calls + 1) id

/-- The calls that are active above a depth were made for a continuation in a scope. -/
def State.CalledFrom (base : Nat) (origin : ScopeId × ValueCont) (s : State) : Prop :=
  ∃ calls, s.depth = base + calls ∧ s.control.beneath calls s.scope = some origin

/-! ## Steps -/

section Steps

variable {calls : Nat} {scope : ScopeId} {heap : Heap} {c c' : Control}

theorem beneath_runBody (body : List Stmt) (next : StmtCont) :
    (runBody body next).beneath (calls + 1) scope = next.beneath (calls + 1) scope := by
  cases body <;> rfl

theorem beneath_runLoop (loop : Loop) (next : StmtCont) :
    (runLoop loop next).beneath (calls + 1) scope = next.beneath (calls + 1) scope := by
  unfold runLoop
  cases loop.condition <;> rfl

theorem beneath_closeLoop (loop : Loop) (next : StmtCont) :
    (closeLoop loop next).beneath (calls + 1) scope = next.beneath (calls + 1) scope := by
  unfold closeLoop
  cases loop.closer with
  | none => exact beneath_runLoop loop next
  | some => rfl

/-- A turn leaves what lies below the calls that are active. -/
theorem Turn.beneath_eq (h : Turn scope heap c c') :
    c'.beneath (calls + 1) scope = c.beneath (calls + 1) scope := by
  cases h with
  | writes h => cases h <;> rfl
  | @chosen v thenBranch elseBranch =>
    cases (if v.isTrue then thenBranch else elseBranch) <;> rfl
  | loop | loopCloser => exact beneath_runLoop _ _
  | statements => exact beneath_runBody _ _
  | loopNormal | loopContinued => exact beneath_closeLoop _ _
  | _ => rfl

/-- A value that ends a call is given to what the call was made for. -/
theorem Transition.calledFrom {limit base depth : Nat} {origin : ScopeId × ValueCont}
    {console : Console} {next : Next} (htrans : Transition limit scope depth heap console c next)
    (hdepth : depth = base + (calls + 1)) (h : c.beneath (calls + 1) scope = some origin) :
    next.All (State.CalledFrom base origin) := by
  have hmore : depth + 1 = base + (calls + 1 + 1) := congrArg (· + 1) hdepth
  cases htrans with
  | turn hturn => exact ⟨calls + 1, hdepth, hturn.beneath_eq.trans h⟩
  | fails | nativeFails | finished => trivial
  | object hvia | list hvia | property hvia | superMethod hvia | superIdle hvia | «instance» hvia
  | native hvia | idle hvia =>
    cases hvia <;> exact ⟨calls + 1, hdepth, h⟩
  | enter hcalls | construct hcalls =>
    refine ⟨calls + 1 + 1, hmore, ?_⟩
    rw [beneath_runBody]
    cases hcalls <;> exact h
  | block =>
    refine ⟨calls + 1, hdepth, ?_⟩
    rw [beneath_runBody]
    exact h
  | @activation v next =>
    subst hdepth
    refine ⟨calls, rfl, ?_⟩
    cases calls with
    | zero => exact (ValueCont.beneath_zero next scope).symm.trans h
    | succ calls => exact h
  | _ => exact ⟨calls + 1, hdepth, h⟩

/-- A state that makes a call leads to one that is called from there, or to the value. -/
theorem Control.Calls.calledFrom {limit depth : Nat} {callee : Value} {arguments : List Value}
    {paren : Span} {k : ValueCont} {console : Console}
    (hcalls : c.Calls heap callee arguments paren k) :
    (step limit ⟨c, scope, depth, heap, console⟩).All (State.CalledFrom depth (scope, k)) := by
  have htrans := transition_step limit ⟨c, scope, depth, heap, console⟩
  generalize step limit ⟨c, scope, depth, heap, console⟩ = next at htrans ⊢
  cases htrans with
  | fails | nativeFails | finished => trivial
  | turn hturn =>
    cases hcalls <;> cases hturn with
    | writes hwrites => cases hwrites
  | enter hvia | construct hvia =>
    cases hcalls <;> cases hvia <;>
      exact ⟨1, rfl, (beneath_runBody _ _).trans (ValueCont.beneath_zero _ _)⟩
  | «instance» hvia | native hvia | idle hvia => cases hcalls <;> cases hvia <;> exact ⟨0, rfl, rfl⟩
  | object hvia | list hvia | property hvia | superMethod hvia | superIdle hvia =>
    cases hcalls <;> cases hvia
  | _ => cases hcalls

end Steps

/-- What a call was made for stays below it, and gets its value in the end. -/
theorem calledFrom_step (limit : Nat) {base : Nat} {origin : ScopeId × ValueCont} {s : State}
    (h : s.CalledFrom base origin) (hdepth : base < s.depth) :
    (step limit s).All (State.CalledFrom base origin) := by
  obtain ⟨calls, hcalls, horigin⟩ := h
  cases calls with
  | zero => exact absurd hcalls (Nat.ne_of_gt hdepth)
  | succ calls => exact (transition_step limit s).calledFrom hcalls horigin

/-! ## Failures -/

/-- The scope and the continuation that lie below a number of calls. -/
def Rest.beneath : Rest → Nat → ScopeId → Option (ScopeId × ValueCont)
  | .value next, calls, id => next.beneath calls id
  | .stmt next, calls, id => next.beneath calls id

/-- A failure on its way out comes to a place. -/
inductive Unwinding.Passes (place : Unwinding) : Unwinding → Prop
  | here : Passes place place
  | out {u u' : Unwinding} : u.out? = some u' → Passes place u' → Passes place u

/-- One construct further out, a failure above calls is still above them, or has left the last. -/
theorem Unwinding.out?_of_beneath {u : Unwinding} {base calls : Nat} {outer : ScopeId}
    {next : ValueCont} (hdepth : u.depth = base + (calls + 1))
    (h : u.rest.beneath (calls + 1) u.scope = some (outer, next)) :
    ∃ u', u.out? = some u' ∧
      (u' = ⟨.value next, outer, base⟩ ∨ ∃ calls', u'.depth = base + (calls' + 1) ∧
      u'.rest.beneath (calls' + 1) u'.scope = some (outer, next)) := by
  obtain ⟨rest, scope, depth⟩ := u
  dsimp only at hdepth h
  cases rest with
  | value k =>
    cases k with
    | activation k =>
      subst hdepth
      refine ⟨_, rfl, ?_⟩
      cases calls with
      | zero =>
        obtain ⟨rfl, rfl⟩ :=
          Prod.mk.inj (Option.some.inj ((ValueCont.beneath_zero k scope).symm.trans h))
        exact .inl rfl
      | succ calls => exact .inr ⟨calls, rfl, h⟩
    | _ => exact ⟨_, rfl, .inr ⟨calls, hdepth, h⟩⟩
  | stmt k =>
    cases k with
    | done => cases h
    | _ => exact ⟨_, rfl, .inr ⟨calls, hdepth, h⟩⟩

/-- A failure above calls leaves them all, and comes to what the first of them was made for. -/
theorem Unwinding.passes_of_beneath {u : Unwinding} {base calls : Nat} {outer : ScopeId}
    {next : ValueCont} (hdepth : u.depth = base + (calls + 1))
    (h : u.rest.beneath (calls + 1) u.scope = some (outer, next)) :
    Passes ⟨.value next, outer, base⟩ u := by
  induction hsize : sizeOf u.rest using Nat.strongRecOn generalizing u calls with
  | ind size ih =>
    obtain ⟨u', hout, rfl | ⟨calls', hdepth', h'⟩⟩ := out?_of_beneath hdepth h
    · exact .out hout .here
    · exact .out hout (ih _ (hsize ▸ sizeOf_out? hout) hdepth' h' rfl)

/-- A failure in a state that is called from somewhere comes out there, with as many calls active as
before. -/
theorem State.CalledFrom.passes {base : Nat} {outer : ScopeId} {next : ValueCont} {s : State}
    (h : s.CalledFrom base (outer, next)) (hdepth : base < s.depth) :
    Unwinding.Passes ⟨.value next, outer, base⟩ s.unwinding := by
  obtain ⟨calls, hcalls, horigin⟩ := h
  cases calls with
  | zero => exact absurd hcalls (Nat.ne_of_gt hdepth)
  | succ calls =>
    obtain ⟨control, scope, depth, heap, console⟩ := s
    refine Unwinding.passes_of_beneath hcalls ?_
    cases control <;> exact horigin

end Lox
