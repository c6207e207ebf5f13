import Lox.Proofs.Heap.Growth
import Lox.Proofs.Resolution.Walk

/-!
# Scopes that mirror the walk

The scopes around a scope of the heap **mirror** a list of frames if they match it one by one, going
outwards: each has been opened by what opens its frame, and binds the names that the frame declares.
Where they do, the distance that resolution has given to a use of a name leads evaluation to a scope
that binds the name.

A heap **fits** if everything in it is ready to be evaluated: the scope of each function mirrors the
frames that the function has been visited with, and under `this` and `super` there are instances and
classes. Each change that evaluation makes to the heap keeps that.
-/

namespace Lox

open Code

/-- The programs of a session, with the names of the root scope they are resolved against, and what
each scope of the heap has been opened by. -/
structure Chronicle where
  programs : StaticScope → List Stmt → Prop
  opened : ScopeId → Opener → Prop
  made : ∀ names body, programs names body → Made .none [names] (.stmts body)

/-! ## Frames -/

@[simp] theorem declareIn_nil (frames : List Frame) : declareIn [] frames = frames := by
  cases frames <;> rfl

/-- Declarations one after another. -/
theorem declareIn_declareIn (later earlier : StaticScope) (frames : List Frame) :
    declareIn later (declareIn earlier frames) = declareIn (later ++ earlier) frames := by
  cases frames with
  | nil => rfl
  | cons frame rest => simp [declareIn]

theorem mem_of_lookup {scope : StaticScope} {name : Text} {mutable : Bool}
    (h : scope.lookup name = some mutable) : (name, mutable) ∈ scope := by
  obtain ⟨before, after, rfl, -⟩ := List.lookup_eq_some_iff.mp h
  exact List.mem_append_right _ List.mem_cons_self

/-- The distance of a name leads to a frame that declares it. -/
theorem exists_frame_of_find? {frames : List Frame} {name : Text} {depth : Nat} {mutable : Bool}
    (h : (scopesOf frames).find? name = some (depth, mutable)) :
    ∃ frame, frames[depth]? = some frame ∧ (name, mutable) ∈ frame.names := by
  induction frames generalizing depth with
  | nil => cases h
  | cons frame rest ih =>
    simp only [scopesOf, List.map_cons, StaticScopes.find?] at h
    split at h
    · next found hfound =>
      obtain ⟨rfl, rfl⟩ := Prod.mk.inj (Option.some.inj h)
      exact ⟨frame, rfl, mem_of_lookup hfound⟩
    · obtain ⟨⟨depth', mutable'⟩, hrest, heq⟩ := Option.map_eq_some_iff.mp h
      obtain ⟨rfl, rfl⟩ := Prod.mk.inj heq
      exact ih hrest

namespace Chronicle

variable (w : Chronicle)

/-- A part of a program is visited with some frames around it. -/
def Visited (frames : List Frame) (c : Code) : Prop := ∃ context, Visit w.programs context frames c

variable {w}

/-- What is visited is tidy. -/
theorem Visited.tidy {frames : List Frame} {c : Code} (h : w.Visited frames c) : c.Tidy := by
  obtain ⟨context, h⟩ := h
  exact h.tidy w.made

variable (w) (h : Heap)

/-! ## Mirrors -/

/-- The scopes around a scope match frames one by one. -/
inductive Mirrors : ScopeId → List Frame → Prop
  | last {id : ScopeId} {frame : Frame} : w.opened id frame.opener → id < h.scopes.size →
      (∀ d ∈ frame.names, h.Bound id d.1) → Mirrors id [frame]
  | inside {id outer : ScopeId} {frame : Frame} {rest : List Frame} : w.opened id frame.opener →
      id < h.scopes.size → (∀ d ∈ frame.names, h.Bound id d.1) → h.enclosing? id = some outer →
      Mirrors outer rest → Mirrors id (frame :: rest)

/-- A function is ready to be called: its scope mirrors the frames it has been visited with. -/
def FitsClosure (c : Closure) : Prop :=
  ∃ frames, w.Visited frames (.function c.function) ∧ w.Mirrors h c.scope frames

/-- A method is ready for a receiver. -/
def FitsMethod (c : Closure) : Prop :=
  ∃ frames, w.Visited (receiverFrame c.function :: frames) (.function c.function) ∧
    w.Mirrors h c.scope frames

/-- A value lies in the heap, and what is ready to be called in it is ready for that. -/
def FitsValue : Value → Prop
  | .list id => id < h.lists.size
  | .object id => id < h.instances.size
  | .closure c => w.FitsClosure h c
  | .classRef id => id < h.classes.size
  | .nil | .bool _ | .number _ | .string _ | .char _ | .native _ => True

/-- A binding has a value that fits; a receiver is an instance, and a superclass is a class. -/
structure FitsBinding (name : Text) (value : Value) : Prop where
  fits : w.FitsValue h value
  receiver : name = thisName → ∃ id, value = .object id
  superclass : name = superName → ∃ id, value = .classRef id

/-- A class has methods that are ready for a receiver. -/
structure FitsClass (c : ClassDef) : Prop where
  methods : ∀ name m, (name, m) ∈ c.methods → w.FitsMethod h m
  constructor : ∀ m ∈ c.constructor, w.FitsMethod h m

/-- Everything in a heap fits. -/
structure FitsHeap : Prop where
  root : Heap.root < h.scopes.size
  bindings : ∀ id name binding, (name, binding) ∈ h.bindings id → w.FitsBinding h name binding.value
  elements : ∀ id, ∀ v ∈ h.elements id, w.FitsValue h v
  fields : ∀ id name v, (name, v) ∈ h.fields id → w.FitsValue h v
  classes : ∀ (id : ClassId) c, h.classes[id]? = some c → w.FitsClass h c

variable {w h}

/-- A mirrored scope is there. -/
theorem Mirrors.lt {id : ScopeId} {frames : List Frame} (hm : w.Mirrors h id frames) :
    id < h.scopes.size := by
  cases hm with
  | last _ hid _ | inside _ hid _ _ _ => exact hid

/-- More names may be bound in the innermost scope. -/
theorem Mirrors.declare {id : ScopeId} {frames : List Frame} (hm : w.Mirrors h id frames)
    {names : StaticScope} (hbound : ∀ d ∈ names, h.Bound id d.1) :
    w.Mirrors h id (declareIn names frames) := by
  have happend : ∀ {frame : Frame}, (∀ d ∈ frame.names, h.Bound id d.1) →
      ∀ d ∈ names ++ frame.names, h.Bound id d.1 := fun hframe d hd =>
    (List.mem_append.mp hd).elim (hbound d) (hframe d)
  cases hm with
  | last hopened hid hframe => exact .last hopened hid (happend hframe)
  | inside hopened hid hframe henclosing hrest =>
    exact .inside hopened hid (happend hframe) henclosing hrest

/-- The scope at a distance matches the frame at that distance. -/
theorem Mirrors.ancestor {id : ScopeId} {frames : List Frame} (hm : w.Mirrors h id frames)
    {distance : Nat} {frame : Frame} (hframe : frames[distance]? = some frame) :
    ∃ outer, h.ancestor? id distance = some outer ∧ w.opened outer frame.opener ∧
      ∀ d ∈ frame.names, h.Bound outer d.1 := by
  induction hm generalizing distance with
  | @last id last hopened hid hbound =>
    cases distance with
    | zero =>
      obtain rfl := Option.some.inj hframe
      exact ⟨id, rfl, hopened, hbound⟩
    | succ distance => cases hframe
  | @inside id outer first rest hopened hid hbound henclosing _ ih =>
    cases distance with
    | zero =>
      obtain rfl := Option.some.inj hframe
      exact ⟨id, rfl, hopened, hbound⟩
    | succ distance =>
      obtain ⟨found, hfound, hrest⟩ := ih hframe
      exact ⟨found, by simp [Heap.ancestor?, henclosing, hfound], hrest⟩

/-- A name that resolution finds at a distance is bound there. -/
theorem Mirrors.find {id : ScopeId} {frames : List Frame} (hm : w.Mirrors h id frames) {name : Text}
    {depth : Nat} {mutable : Bool} (hfind : (scopesOf frames).find? name = some (depth, mutable)) :
    ∃ frame outer binding, frames[depth]? = some frame ∧ w.opened outer frame.opener ∧
      h.ancestor? id depth = some outer ∧ (h.bindings outer).get? name = some binding := by
  obtain ⟨frame, hframe, hmem⟩ := exists_frame_of_find? hfind
  obtain ⟨outer, houter, hopened, hbound⟩ := hm.ancestor hframe
  obtain ⟨binding, hbinding⟩ := hbound _ hmem
  exact ⟨frame, outer, binding, hframe, hopened, houter, hbinding⟩

/-! ## Growth -/

section Growth

variable {h' : Heap} (hg : h.Grows h')

include hg

/-- It is mirrored in a heap that has grown. -/
theorem Mirrors.mono {id : ScopeId} {frames : List Frame} (hm : w.Mirrors h id frames) :
    w.Mirrors h' id frames := by
  induction hm with
  | last hopened hid hbound =>
    exact .last hopened (hid.trans_le hg.scopes) fun d hd => hg.bound _ _ (hbound d hd)
  | inside hopened hid hbound henclosing _ ih =>
    exact .inside hopened (hid.trans_le hg.scopes) (fun d hd => hg.bound _ _ (hbound d hd))
      (hg.enclosing _ _ henclosing) ih

omit hg in
/-- A scope that is opened inside a scope that mirrors frames. -/
theorem Mirrors.fork {id : ScopeId} {frames : List Frame} (hm : w.Mirrors h id frames)
    {frame : Frame} {bindings : Entries Binding} (hopened : w.opened h.scopes.size frame.opener)
    (hbound : ∀ d ∈ frame.names, ∃ b, bindings.get? d.1 = some b) :
    w.Mirrors (h.fork id bindings).2 h.scopes.size (frame :: frames) := by
  refine .inside hopened (by simp [Heap.fork]) (fun d hd => ?_) ?_
    (hm.mono (Heap.grows_fork id bindings))
  · rw [Heap.Bound, Heap.bindings_fork, if_pos rfl]
    exact hbound d hd
  · rw [Heap.enclosing?_fork, if_pos rfl]

theorem FitsClosure.mono {c : Closure} (hc : w.FitsClosure h c) : w.FitsClosure h' c := by
  obtain ⟨frames, hvisited, hm⟩ := hc
  exact ⟨frames, hvisited, hm.mono hg⟩

theorem FitsMethod.mono {c : Closure} (hc : w.FitsMethod h c) : w.FitsMethod h' c := by
  obtain ⟨frames, hvisited, hm⟩ := hc
  exact ⟨frames, hvisited, hm.mono hg⟩

/-- A value that fits does so in a heap that has grown. -/
theorem FitsValue.mono {v : Value} (hv : w.FitsValue h v) : w.FitsValue h' v := by
  cases v with
  | list => exact hv.trans_le hg.lists
  | object => exact hv.trans_le hg.instances
  | classRef => exact hv.trans_le hg.classes
  | closure => exact FitsClosure.mono hg hv
  | _ => trivial

theorem FitsBinding.mono {name : Text} {v : Value} (hb : w.FitsBinding h name v) :
    w.FitsBinding h' name v :=
  ⟨hb.fits.mono hg, hb.receiver, hb.superclass⟩

theorem FitsClass.mono {c : ClassDef} (hc : w.FitsClass h c) : w.FitsClass h' c :=
  ⟨fun name m hm => (hc.methods name m hm).mono hg, fun m hm => (hc.constructor m hm).mono hg⟩

/-- A heap fits if all that is new in it fits. What is new may need all of what is new. -/
theorem FitsHeap.grow (hh : w.FitsHeap h)
    (bindings : ∀ id name binding, (name, binding) ∈ h'.bindings id →
      (name, binding) ∈ h.bindings id ∨ w.FitsBinding h' name binding.value)
    (elements : ∀ id, ∀ v ∈ h'.elements id, v ∈ h.elements id ∨ w.FitsValue h' v)
    (fields : ∀ id name v, (name, v) ∈ h'.fields id → (name, v) ∈ h.fields id ∨ w.FitsValue h' v)
    (classes : ∀ (id : ClassId) c, h'.classes[id]? = some c → h.classes[id]? = some c ∨
      w.FitsClass h' c) : w.FitsHeap h' where
  root := hh.root.trans_le hg.scopes
  bindings id name binding hmem :=
    (bindings id name binding hmem).elim (fun old => (hh.bindings id name binding old).mono hg)
      fun new => new
  elements id v hmem :=
    (elements id v hmem).elim (fun old => (hh.elements id v old).mono hg) fun new => new
  fields id name v hmem :=
    (fields id name v hmem).elim (fun old => (hh.fields id name v old).mono hg) fun new => new
  classes id c hmem :=
    (classes id c hmem).elim (fun old => (hh.classes id c old).mono hg) fun new => new

end Growth

/-! ## Changes of the heap -/

section Changes

variable (hh : w.FitsHeap h)

include hh

/-- A scope is opened with bindings that fit. -/
theorem FitsHeap.fork (id : ScopeId) {bindings : Entries Binding}
    (hbindings : ∀ name binding, (name, binding) ∈ bindings → w.FitsBinding h name binding.value) :
    w.FitsHeap (h.fork id bindings).2 := by
  refine FitsHeap.grow (Heap.grows_fork id bindings) hh (fun at' name binding hmem => ?_)
    (fun _ _ => .inl) (fun _ _ _ => .inl) fun _ _ => .inl
  rw [Heap.bindings_fork] at hmem
  split at hmem
  · exact .inr ((hbindings name binding hmem).mono (Heap.grows_fork id bindings))
  · exact .inl hmem

/-- A function may be bound under a name that it knows itself by, so the new heap has to be asked
whether it fits. -/
theorem FitsHeap.define (id : ScopeId) {name : Text} (mutable : Bool) {v : Value}
    (hv : w.FitsBinding (h.define id name mutable v) name v) :
    w.FitsHeap (h.define id name mutable v) := by
  refine FitsHeap.grow (Heap.grows_define id name mutable v) hh (fun at' other binding hmem => ?_)
    (fun _ _ => .inl) (fun _ _ _ => .inl) fun _ _ => .inl
  rw [Heap.bindings_define] at hmem
  split at hmem
  · rcases Entries.mem_put hmem with heq | hmem
    · obtain ⟨rfl, rfl⟩ := Prod.mk.inj heq
      exact .inr hv
    · exact .inl hmem
  · exact .inl hmem

theorem FitsHeap.newList {elements : Array Value} (helements : ∀ v ∈ elements, w.FitsValue h v) :
    w.FitsHeap (h.newList elements).2 := by
  refine FitsHeap.grow (Heap.grows_newList elements) hh (fun _ _ _ => .inl) (fun id v hmem => ?_)
    (fun _ _ _ => .inl) fun _ _ => .inl
  rw [Heap.elements_newList] at hmem
  split at hmem
  · exact .inr ((helements v hmem).mono (Heap.grows_newList elements))
  · exact .inl hmem

/-- A change of the elements of one list, to values that fit. -/
theorem FitsHeap.modifyList (id : ListId) {change : Array Value → Array Value}
    (hchange : ∀ v ∈ change (h.elements id), v ∈ h.elements id ∨ w.FitsValue h v) :
    w.FitsHeap { h with lists := h.lists.modify id change } := by
  refine FitsHeap.grow (Heap.grows_modifyList id change) hh (fun _ _ _ => .inl)
    (fun at' v hmem => ?_) (fun _ _ _ => .inl) fun _ _ => .inl
  rw [Heap.elements_modify] at hmem
  split at hmem
  · next hat =>
    obtain ⟨rfl, -⟩ := hat
    exact (hchange v hmem).imp_right (FitsValue.mono (Heap.grows_modifyList _ change))
  · exact .inl hmem

/-- An instance is made of values that fit. -/
theorem FitsHeap.newInstance (ofClass : Option ClassId) {fields : Entries Value}
    (hfields : ∀ name v, (name, v) ∈ fields → w.FitsValue h v) :
    w.FitsHeap (h.newInstance ofClass fields).2 := by
  refine FitsHeap.grow (Heap.grows_newInstance ofClass fields) hh (fun _ _ _ => .inl)
    (fun _ _ => .inl) (fun id name v hmem => ?_) fun _ _ => .inl
  rw [Heap.fields_newInstance] at hmem
  split at hmem
  · exact .inr ((hfields name v hmem).mono (Heap.grows_newInstance ofClass fields))
  · exact .inl hmem

/-- A change of the properties of one instance, to values that fit. -/
theorem FitsHeap.modifyInstance (id : InstanceId) {change : Entries Value → Entries Value}
    (hchange : ∀ name v, (name, v) ∈ change (h.fields id) → (name, v) ∈ h.fields id ∨
      w.FitsValue h v) :
    w.FitsHeap { h with
      instances := h.instances.modify id fun o => { o with fields := change o.fields } } := by
  refine FitsHeap.grow (Heap.grows_modifyInstance id change) hh (fun _ _ _ => .inl)
    (fun _ _ => .inl) (fun at' name v hmem => ?_) fun _ _ => .inl
  rw [Heap.fields_modify] at hmem
  split at hmem
  · next hat =>
    obtain ⟨rfl, -⟩ := hat
    exact (hchange name v hmem).imp_right (FitsValue.mono (Heap.grows_modifyInstance _ change))
  · exact .inl hmem

/-- A class is made and bound under its name, which its methods know. -/
theorem FitsHeap.defineClass (id : ScopeId) {name : Text} (hname : name ∉ reservedNames)
    {c : ClassDef}
    (hc : w.FitsClass ((h.newClass c).2.define id name false (.classRef h.classes.size)) c) :
    w.FitsHeap ((h.newClass c).2.define id name false (.classRef h.classes.size)) := by
  have hg : h.Grows ((h.newClass c).2.define id name false (.classRef h.classes.size)) :=
    (Heap.grows_newClass c).trans (Heap.grows_define ..)
  refine FitsHeap.grow hg hh (fun at' other binding hmem => ?_) (fun _ _ => .inl)
    (fun _ _ _ => .inl) fun id c' hmem => ?_
  · rw [Heap.bindings_define] at hmem
    split at hmem
    · rcases Entries.mem_put hmem with heq | hmem
      · obtain ⟨rfl, rfl⟩ := Prod.mk.inj heq
        refine .inr ⟨?_, fun h => absurd (h ▸ thisName_mem_reservedNames) hname, fun _ => ⟨_, rfl⟩⟩
        simp [FitsValue, Heap.define, Heap.newClass]
      · exact .inl hmem
    · exact .inl hmem
  · simp only [Heap.define, Heap.newClass, Array.getElem?_push] at hmem
    split at hmem
    · obtain rfl := Option.some.inj hmem
      exact .inr hc
    · exact .inl hmem

/-! ## What is read from a heap that fits -/

theorem FitsHeap.get?_binding {id : ScopeId} {name : Text} {binding : Binding}
    (hget : (h.bindings id).get? name = some binding) : w.FitsBinding h name binding.value :=
  hh.bindings id name binding (Entries.mem_of_get? hget)

theorem FitsHeap.constructor? {id : ClassId} {c : Closure} (hc : h.constructor? id = some c) :
    w.FitsMethod h c := by
  obtain ⟨d, hd, hc⟩ := Option.bind_eq_some_iff.mp hc
  exact (hh.classes id d hd).constructor c hc

/-- A method that is found on the way up fits. -/
theorem FitsHeap.methodWithin {name : Text} {fuel : Nat} {id : ClassId} {c : Closure}
    (hc : h.methodWithin name fuel id = some c) : w.FitsMethod h c := by
  induction fuel generalizing id with
  | zero => cases hc
  | succ fuel ih =>
    simp only [Heap.methodWithin] at hc
    split at hc
    · cases hc
    · next d hd =>
      split at hc
      · next m hm =>
        obtain rfl := Option.some.inj hc
        exact (hh.classes id d hd).methods name m (Entries.mem_of_get? hm)
      · obtain ⟨superclass, -, hc⟩ := Option.bind_eq_some_iff.mp hc
        exact ih hc

theorem FitsHeap.field? {id : InstanceId} {name : Text} {v : Value}
    (hv : h.field? id name = some v) : w.FitsValue h v := by
  have hget : (h.fields id).get? name = some v := by
    simp only [Heap.field?] at hv
    split at hv
    · cases hv
    · exact hv
  exact hh.fields id name v (Entries.mem_of_get? hget)

end Changes

end Chronicle

end Lox
