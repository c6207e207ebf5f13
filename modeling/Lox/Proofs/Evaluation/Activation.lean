import Lox.Machine.Step
import Lox.Proofs.Evaluation.Continuation

/-!
# What a step opens and looks up

A step of the machine may open scopes: one for a block, one for the superclass of a class, one for
the receiver of a method, one for the parameters of a call. `State.opening` says what opens them, in
order. A step may look up a name, with the distance that resolution has written into the program:
`State.lookup?` says which.

Where the scopes mirror the frames of the part that is looked at, the distance leads to a scope that
has been opened by what resolution has found, and the name is bound there.
-/

namespace Lox

open Code

/-! ## Openings -/

/-- What opens the scope of a receiver, if there is a method to bind. -/
def openingOf (method : Option Closure) : List Opener :=
  (method.map fun c => Opener.receiver c.function).toList

/-- The method that reading a property binds. -/
def Heap.methodAt? (h : Heap) (owner : Value) (name : Text) : Option Closure :=
  match owner with
  | .object id =>
    match h.property? id name with
    | some (.method method) => some method
    | _ => none
  | _ => none

/-- The method that is read from a superclass. -/
def Heap.superMethod? (h : Heap) (superclass : ClassId) (name : Text) : Option Closure :=
  if name == constructorName then h.constructor? superclass else h.method? superclass name

/-- What opens the scopes of a call. A constructor gets its receiver first. -/
def Heap.callOpening (h : Heap) : Value → List Opener
  | .closure c => [.call c.function]
  | .classRef id =>
    ((h.constructor? id).map fun c => [Opener.receiver c.function, .call c.function]).getD []
  | _ => []

/-- The value that a state calls and the arguments that it calls it with. -/
def State.call? (state : State) : Option (Value × List Value) :=
  match state.control with
  | .give callee (.callee [] _ _) => some (callee, [])
  | .give last (.argument callee before [] _ _) => some (callee, (last :: before).reverse)
  | _ => none

/-- What opens the scopes that a step makes, in the order in which they are made. -/
def State.opening (state : State) : List Opener :=
  match state.control with
  | .exec (.block body) _ => [.block body]
  | .exec (.classDecl name (some use) methods) _ => [.superclass name use methods]
  | .eval (.superRef _ method slot) _ =>
    match state.heap.superOf state.scope (slot.getD 0) with
    | .ok (superclass, _) => openingOf (state.heap.superMethod? superclass method.name)
    | .error _ => []
  | .give v (.get name _) => openingOf (state.heap.methodAt? v name.name)
  | .give v (.getKey owner _ _) => openingOf (state.heap.methodAt? owner (v.printed state.heap))
  | _ => (state.call?.map fun call => state.heap.callOpening call.1).getD []

/-- A step from a state makes a scope, opened by something. -/
def State.Opens (limit : Nat) (state : State) (id : ScopeId) (opener : Opener) : Prop :=
  ∃ i state', step limit state = .running state' ∧ id = state.heap.scopes.size + i ∧
    id < state'.heap.scopes.size ∧ state.opening[i]? = some opener

/-! ## Names that are looked up -/

/-- The name and the distance that a part of a program looks up itself. -/
def Code.lookup? : Code → Option (Text × Option Nat)
  | .expr (.var use) | .expr (.assign use _) | .stmt (.classDecl _ (some use) _) =>
    some (use.ident.name, use.depth)
  | .expr (.thisRef _ slot) => some (thisName, slot)
  | .expr (.superRef _ _ slot) => some (superName, slot)
  | _ => none

/-- The name and the distance that a state looks up. -/
def State.lookup? (state : State) : Option (Text × Option Nat) :=
  match state.control with
  | .eval (.assign _ _) _ => none
  | .eval e _ => (Code.expr e).lookup?
  | .exec s _ => (Code.stmt s).lookup?
  | .give _ (.assign use _) => some (use.ident.name, use.depth)
  | _ => none

/-- A part of a program is what a state looks at. An assignment is, once more, when it has its
value. -/
def State.LooksAt (state : State) (node : Code) : Prop :=
  match state.control with
  | .eval e _ => node = .expr e
  | .exec s _ => node = .stmt s
  | .give _ (.assign use _) => ∃ value, node = .expr (.assign use value)
  | _ => False

namespace Chronicle

variable {w : Chronicle} {h : Heap} {id : ScopeId} {frames : List Frame}

/-- What resolution has written into a part that looks up a name. -/
theorem Visited.lookup {node : Code} (hnode : w.Visited frames node) {name : Text}
    {slot : Option Nat} (hlookup : node.lookup? = some (name, slot)) :
    ∃ depth mutable, (scopesOf frames).find? name = some (depth, mutable) ∧ slot = some depth := by
  obtain ⟨context, hnode⟩ := hnode
  obtain ⟨frame, rest, rfl⟩ := hnode.frames_ne_nil
  have hmade : Made context (frame.names :: scopesOf rest) node := hnode.made w.made
  have hanchored : Anchored context (frame.names :: scopesOf rest) := hnode.anchored w.made
  cases node with
  | expr e =>
    cases e with
    | var use | assign use _ =>
      obtain ⟨rfl, rfl⟩ := Prod.mk.inj (Option.some.inj hlookup)
      exact Made.use_pointsAt hmade rfl
    | thisRef keyword _ =>
      obtain ⟨rfl, rfl⟩ := Prod.mk.inj (Option.some.inj hlookup)
      obtain ⟨hcontext, rfl⟩ := Made.this_slot hmade
      cases context with
      | none => exact absurd rfl hcontext
      | plain =>
        obtain ⟨depth, mutable, hfind⟩ := hanchored
        exact ⟨depth, mutable, hfind, by rw [hfind]; rfl⟩
      | subclass =>
        obtain ⟨depth, mutable, -, hfind, -⟩ := hanchored
        exact ⟨depth, mutable, hfind, by rw [hfind]; rfl⟩
    | superRef keyword method _ =>
      obtain ⟨rfl, rfl⟩ := Prod.mk.inj (Option.some.inj hlookup)
      obtain ⟨rfl, rfl⟩ := Made.super_slot hmade
      obtain ⟨depth, -, mutable, -, hfind⟩ := hanchored
      exact ⟨depth + 1, mutable, hfind, by rw [hfind]; rfl⟩
    | _ => cases hlookup
  | stmt s =>
    cases s with
    | classDecl name superclass methods =>
      cases superclass with
      | none => cases hlookup
      | some use =>
        obtain ⟨rfl, rfl⟩ := Prod.mk.inj (Option.some.inj hlookup)
        exact Made.superclass_pointsAt hmade
    | _ => cases hlookup
  | _ => cases hlookup

/-- Around a use of the superclass, the receiver lies one scope nearer. -/
theorem Visited.receiver_of_super {keyword : Span} {method : Ident} {slot : Option Nat}
    (hnode : w.Visited frames (.expr (.superRef keyword method slot))) :
    ∃ depth mutable mutable', (scopesOf frames).find? thisName = some (depth, mutable) ∧
      (scopesOf frames).find? superName = some (depth + 1, mutable') ∧ slot = some (depth + 1) := by
  obtain ⟨context, hnode⟩ := hnode
  obtain ⟨rfl, rfl⟩ := Made.super_slot (hnode.made w.made)
  obtain ⟨depth, mutable, mutable', hthis, hsuper⟩ := hnode.anchored w.made
  exact ⟨depth, mutable, mutable', hthis, hsuper, by rw [hsuper]; rfl⟩

/-- A name that resolution finds is found by evaluation. -/
theorem Mirrors.find_ok (hm : w.Mirrors h id frames) {name : Text} {depth : Nat} {mutable : Bool}
    (hfind : (scopesOf frames).find? name = some (depth, mutable)) :
    ∃ outer binding, h.find id depth name = .ok (outer, binding) ∧ (h.bindings outer).get? name =
      some binding := by
  obtain ⟨frame, outer, binding, -, -, houter, hbinding⟩ := hm.find hfind
  exact ⟨outer, binding, by simp [Heap.find, houter, hbinding], hbinding⟩

theorem Mirrors.lookup_ok (hm : w.Mirrors h id frames) (hh : w.FitsHeap h) {name : Text}
    {depth : Nat} {mutable : Bool} (hfind : (scopesOf frames).find? name = some (depth, mutable)) :
    ∃ v, h.lookup id depth name = .ok v ∧ w.FitsBinding h name v := by
  obtain ⟨outer, binding, hok, hbinding⟩ := hm.find_ok hfind
  exact ⟨binding.value, by simp [Heap.lookup, hok, Except.map], hh.get?_binding hbinding⟩

/-- Where a part looks up a name, evaluation finds a value for it. -/
theorem Visited.lookup_ok {node : Code} (hnode : w.Visited frames node) (hm : w.Mirrors h id frames)
    (hh : w.FitsHeap h) {name : Text} {slot : Option Nat}
    (hlookup : node.lookup? = some (name, slot)) :
    ∃ v, h.lookup id (slot.getD 0) name = .ok v ∧ w.FitsBinding h name v := by
  obtain ⟨depth, mutable, hfind, rfl⟩ := hnode.lookup hlookup
  exact hm.lookup_ok hh hfind

/-- Where the superclass is used, there is a class under `super` and an instance under `this`. -/
theorem Visited.superOf_ok {keyword : Span} {method : Ident} {slot : Option Nat}
    (hnode : w.Visited frames (.expr (.superRef keyword method slot))) (hm : w.Mirrors h id frames)
    (hh : w.FitsHeap h) :
    ∃ superclass receiver, h.lookup id (slot.getD 0) superName = .ok (.classRef superclass) ∧
      h.lookup id (slot.getD 0 - 1) thisName = .ok (.object receiver) ∧
      h.superOf id (slot.getD 0) = .ok (superclass, receiver) ∧ receiver < h.instances.size := by
  obtain ⟨depth, mutable, mutable', hthis, hsuper, rfl⟩ := hnode.receiver_of_super
  obtain ⟨v, hv, hvfits⟩ := hm.lookup_ok hh hsuper
  obtain ⟨u, hu, hufits⟩ := hm.lookup_ok hh hthis
  obtain ⟨superclass, rfl⟩ := hvfits.superclass rfl
  obtain ⟨receiver, rfl⟩ := hufits.receiver rfl
  exact ⟨superclass, receiver, hv, hu, by simp [Heap.superOf, hv, hu], hufits.fits⟩

/-- What a state that fits looks up, with the part of the program that says so. -/
theorem FitsState.lookup {final : List Frame} {state : State} (hstate : w.FitsState final state)
    {name : Text} {slot : Option Nat} (hlookup : state.lookup? = some (name, slot)) :
    ∃ node frames, state.LooksAt node ∧ node.lookup? = some (name, slot) ∧ w.Visited frames node ∧
      w.Mirrors state.heap state.scope frames := by
  obtain ⟨control, id, depth, h, console⟩ := state
  obtain ⟨-, hcontrol⟩ := hstate
  cases control with
  | eval e next =>
    obtain ⟨frames, hm, he, -⟩ := hcontrol
    cases e with
    | assign => cases hlookup
    | _ => exact ⟨_, frames, rfl, hlookup, he, hm⟩
  | exec s next =>
    obtain ⟨frames, hm, hs, -⟩ := hcontrol
    exact ⟨.stmt s, frames, rfl, hlookup, hs, hm⟩
  | give v next =>
    obtain ⟨frames, hm, -, hn⟩ := hcontrol
    cases next with
    | assign use next =>
      obtain ⟨⟨value, hnode⟩, -⟩ := hn
      exact ⟨_, frames, ⟨value, rfl⟩, hlookup, hnode, hm⟩
    | _ => cases hlookup
  | finish => cases hlookup

end Chronicle

end Lox
