import Lox.Proofs.Session.Lineage

/-!
# Use of the superclass

A use of `super` means what is written around it. The method around it stands in a class
declaration, and the scope that an execution of this declaration has made for the methods holds the
class that was extended then. From there the method is looked up, first in that class and then
further up (`Heap.FirstDefinition`), and it gets the receiver that `this` has in the same place.
Neither the class of the receiver nor what has become of the names since plays a part.

The main theorem is `super_dispatch_lexical`.
-/

namespace Lox

open Code

/-! ## Walking up the classes -/

namespace Heap

variable {h : Heap} {name : Text}

/-- A method is the first definition of a name on the way up from a class. -/
inductive FirstDefinition (h : Heap) (name : Text) : ClassId → Closure → Prop
  | own {id : ClassId} {c : ClassDef} {m : Closure} :
      h.classes[id]? = some c → c.methods.get? name = some m → FirstDefinition h name id m
  | inherited {id superclass : ClassId} {c : ClassDef} {m : Closure} :
      h.classes[id]? = some c → c.methods.get? name = none → c.superclass = some superclass →
      FirstDefinition h name superclass m → FirstDefinition h name id m

/-- The method that is found is the first definition on the way up. -/
theorem firstDefinition_of_methodWithin {fuel : Nat} {id : ClassId} {m : Closure}
    (hm : h.methodWithin name fuel id = some m) : h.FirstDefinition name id m := by
  induction fuel generalizing id with
  | zero => cases hm
  | succ fuel ih =>
    simp only [methodWithin] at hm
    split at hm
    · cases hm
    · next c hc =>
      split at hm
      · next method hget =>
        obtain rfl := Option.some.inj hm
        exact .own hc hget
      · next hget =>
        obtain ⟨superclass, hsuperclass, hm⟩ := Option.bind_eq_some_iff.mp hm
        exact .inherited hc hget hsuperclass (ih hm)

/-- As superclasses are older than their subclasses, the place of a class is enough to get to the
top. -/
theorem methodWithin_of_firstDefinition (hancestral : h.Ancestral) {id : ClassId} {m : Closure}
    (hm : h.FirstDefinition name id m) {fuel : Nat} (hfuel : id < fuel) :
    h.methodWithin name fuel id = some m := by
  induction hm generalizing fuel with
  | own hc hget =>
    obtain ⟨fuel, rfl⟩ := Nat.exists_eq_add_one_of_ne_zero (Nat.ne_zero_of_lt hfuel)
    simp only [methodWithin, hc, hget]
  | inherited hc hget hsuperclass _ ih =>
    obtain ⟨fuel, rfl⟩ := Nat.exists_eq_add_one_of_ne_zero (Nat.ne_zero_of_lt hfuel)
    have hlt := hancestral _ _ hc _ hsuperclass
    simp only [methodWithin, hc, hget, hsuperclass, Option.bind_some]
    exact ih (hlt.trans_le (Nat.lt_succ_iff.mp hfuel))

/-- The method of a class is the first definition on the way up. -/
theorem method?_eq_some_iff (hancestral : h.Ancestral) {id : ClassId} {m : Closure} :
    h.method? id name = some m ↔ h.FirstDefinition name id m :=
  ⟨firstDefinition_of_methodWithin,
    fun hm => methodWithin_of_firstDefinition hancestral hm (Nat.lt_succ_self id)⟩

theorem lookup_eq_ok {id outer : ScopeId} {distance : Nat} {binding : Binding}
    (houter : h.ancestor? id distance = some outer)
    (hget : (h.bindings outer).get? name = some binding) :
    h.lookup id distance name = .ok binding.value := by
  simp only [lookup, find, houter, hget, Except.map]

end Heap

/-! ## Words in a traced heap -/

namespace Lineage

variable {l : Lineage} {h : Heap} {id : ScopeId} {openers : List Opener}

/-- A word that a scope binds from the start is found in the scope, with a value that the lineage
tells of. -/
theorem TracedHeap.word (hh : l.TracedHeap h) (hw : l.Within h id openers) {distance : Nat}
    {opener : Opener} (hopener : openers[distance]? = some opener) {word : Text}
    (hword : opener.word? = some word) :
    ∃ outer binding, h.ancestor? id distance = some outer ∧ l.opened outer opener ∧
      h.lookup id distance word = .ok binding.value ∧ l.Binds outer word binding opener := by
  obtain ⟨outer, houter, hlt, hopened⟩ := hw.ancestor hopener
  obtain ⟨binding, hget⟩ := hh.words outer opener hopened hlt word hword
  exact ⟨outer, binding, houter, hopened, Heap.lookup_eq_ok houter hget,
    hh.binds outer opener word binding hopened (Entries.mem_of_get? hget)⟩

end Lineage

namespace MethodPlace

variable (p : MethodPlace)

theorem openers_receiver : p.openers[p.inner.length]? = some (.receiver p.function) := by
  simp [openers]

theorem openers_superclass :
    p.openers[p.inner.length + 1]? = some (.superclass p.name p.superclass p.methods) := by
  simp [openers]

/-- A part of a program is written in a place. -/
def Has (programs : StaticScope → List Stmt → Prop) (c : Code) : Prop :=
  ∃ context frames, Visit programs context frames c ∧ openersOf frames = p.openers

end MethodPlace

/-! ## What a step gives -/

/-- A step goes on with a method whose scope knows its receiver. -/
def State.GivesBound (limit : Nat) (state : State) (next : ValueCont) (m : Closure)
    (receiver : InstanceId) : Prop :=
  step limit state = .running { state with
    control := .give (.closure ⟨m.function, state.heap.scopes.size⟩) next
    heap := (state.heap.fork m.scope [(thisName, ⟨false, .object receiver⟩)]).2 }

/-- A native takes no arguments and does nothing. -/
def Native.DoesNothing (limit : Nat) (n : Native) : Prop :=
  n.arity = 0 ∧ ∀ paren next scope depth heap console, depth < limit →
    call limit (.native n) [] paren next scope depth heap console =
    .running ⟨.give .nil next, scope, depth, heap, console⟩

theorem doesNothing_idle (limit serial : Nat) : (Native.idle serial).DoesNothing limit := by
  refine ⟨rfl, fun paren next scope depth heap console hdepth => ?_⟩
  simp [call, invoke, Heap.arity?, Native.arity, Nat.not_le.mpr hdepth]

/-- The state that the machine has come to, if it goes on. -/
def Next.state? : Next → Option State
  | .running state => some state
  | .finished _ _ _ | .stopped _ _ _ => none

theorem Next.eq_running_of_state? {next : Next} {state : State} (h : next.state? = some state) :
    next = .running state := by
  cases next with
  | running => exact congrArg Next.running (Option.some.inj h)
  | finished | stopped => cases h

section Step

variable {limit : Nat} {state : State} {keyword : Span} {method : Ident} {slot : Option Nat}
    {next : ValueCont} {superclass : ClassId} {receiver : InstanceId}
    (hcontrol : state.control = .eval (.superRef keyword method slot) next)
    (hsuper : state.heap.superOf state.scope (slot.getD 0) = .ok (superclass, receiver))

include hcontrol hsuper

/-- A use of the superclass takes one step. -/
theorem step_superRef : step limit state =
    getSuper superclass receiver method next state.scope state.depth state.heap state.console := by
  obtain ⟨control, scope, depth, heap, console⟩ := state
  obtain rfl : control = _ := hcontrol
  dsimp only at hsuper
  simp only [step, stepExpr, hsuper]

/-- A method that is found is given with its receiver. -/
theorem givesBound_of_superMethod? {m : Closure}
    (hm : state.heap.superMethod? superclass method.name = some m) :
    state.GivesBound limit next m receiver := by
  rw [State.GivesBound, step_superRef hcontrol hsuper, getSuper]
  rw [Heap.superMethod?] at hm
  split at hm
  · next hname =>
    simp only [hname, if_true, hm]
    rfl
  · next hname =>
    simp only [hname, hm]
    rfl

end Step

namespace Session

variable {console : Console} {limit : Nat} {runs : List (Nat × Text)}

/-- The scope of the methods around a place was made when the class was declared, by one step of the
session, and this class was the value of its superclass then. -/
def ExtendedAt (console : Console) (limit : Nat) (runs : List (Nat × Text)) (place : MethodPlace)
    (home : ScopeId) (superclass : ClassId) : Prop :=
  ∃ made next, Reaches console limit runs made ∧ made.control = .exec place.declaration next ∧
    made.heap.lookup made.scope (place.superclass.depth.getD 0) place.superclass.ident.name =
    .ok (.classRef superclass) ∧
    made.Opens limit home (.superclass place.name place.superclass place.methods) ∧
    ∀ other opener, Reaches console limit runs other → other.Opens limit home opener → other = made

theorem extendedAt {place : MethodPlace} {home : ScopeId} {superclass : ClassId}
    (hopened : Opened console limit runs home
      (.superclass place.name place.superclass place.methods))
    (h : Extended console limit runs home superclass) :
    ExtendedAt console limit runs place home superclass := by
  obtain ⟨made, name, use, methods, next, hreaches, hcontrol, hopens, hlookup⟩ := h
  obtain ⟨rfl, rfl, rfl⟩ :=
    Opener.superclass.inj (opened_unique hopened (.inr ⟨made, hreaches, hopens⟩))
  exact ⟨made, next, hreaches, hcontrol, hlookup, hopens,
    fun other opener hother hopens' => (eq_of_opens hother hreaches hopens' hopens).1⟩

/-- The programs of a session arise among names that nothing is asked of. -/
theorem arises_programs {names : StaticScope} {body : List Stmt}
    (h : Programs console limit runs names body) :
    (Code.stmts body).Arises (fun _ => True) .none [.root] := by
  obtain ⟨before, r, rest, -, -, hprogram⟩ := h
  exact arises_program hprogram (fun _ _ => trivial) fun _ _ => trivial

section Places

variable {place : MethodPlace} {keyword : Span} {slot : Option Nat}

/-- In a place, `super` is looked up in the scope that the class has made for its methods. -/
theorem slot_of_superRef (hplace : place.IsIn (Programs console limit runs)) {method : Ident}
    (hhas : place.Has (Programs console limit runs) (.expr (.superRef keyword method slot))) :
    slot = some (place.inner.length + 1) := by
  obtain ⟨context, frames, hvisit, hopeners⟩ := hhas
  obtain ⟨-, S, hunder, rfl⟩ := (hvisit.arises fun _ _ => arises_programs).superRef
  rw [hopeners] at hunder
  rw [hplace.find?_superName hunder, Option.map_some]

/-- In a place, `this` is looked up in the scope of the receiver, one scope nearer. -/
theorem slot_of_thisRef (hplace : place.IsIn (Programs console limit runs))
    (hhas : place.Has (Programs console limit runs) (.expr (.thisRef keyword slot))) :
    slot = some place.inner.length := by
  obtain ⟨context, frames, hvisit, hopeners⟩ := hhas
  obtain ⟨S, hunder, rfl⟩ := (hvisit.arises fun _ _ => arises_programs).thisRef
  rw [hopeners] at hunder
  rw [hplace.find?_thisName hunder, Option.map_some]

/-- A state that looks at a use of the superclass is in the scopes of the place in which the use is
written. -/
theorem exists_place {state : State} (hreaches : Reaches console limit runs state) {method : Ident}
    {next : ValueCont} (hcontrol : state.control = .eval (.superRef keyword method slot) next) :
    ∃ place : MethodPlace, place.IsIn (Programs console limit runs) ∧
      place.Has (Programs console limit runs) (.expr (.superRef keyword method slot)) ∧
      (lineage console limit runs).Within state.heap state.scope place.openers := by
  have htraced := (traced_of_reaches hreaches).control
  rw [hcontrol] at htraced
  obtain ⟨context, frames, hvisit, hwithin⟩ := htraced.1
  obtain ⟨rfl, -⟩ := (hvisit.arises fun _ _ => arises_programs).superRef
  obtain ⟨place, hplace, hopeners⟩ := Visit.exists_place hvisit
  exact ⟨place, hplace, ⟨_, frames, hvisit, hopeners⟩, hopeners ▸ hwithin⟩

end Places

/-- **Use of the superclass is lexical.** Whenever a session evaluates `super` with the name of a
method, the use is written in a method of some class declaration, perhaps inside of functions in
that method, with no other class between.

* As many scopes out as that makes lies the scope that one execution of the declaration has made for
  the methods, and the superclass is the class that the declaration extended then.
* The receiver is the instance that any `this` in the same place of the program gives at this
  moment.
* A method that is no constructor is the first definition on the way up from the superclass, and the
  step gives it with the receiver bound. If there is none, the method's name is blamed.
* For the constructor, the step gives the one that the superclass itself declares, with the receiver
  bound, and if it declares none, a native that takes no arguments and does nothing. -/
theorem super_dispatch_lexical (console : Console) (limit : Nat) (runs : List (Nat × Text))
    (state : State) (hreaches : Reaches console limit runs state) (keyword : Span) (method : Ident)
    (slot : Option Nat) (next : ValueCont)
    (hcontrol : state.control = .eval (.superRef keyword method slot) next) :
    ∃ (place : MethodPlace) (home : ScopeId) (superclass : ClassId) (receiver : InstanceId),
      place.IsIn (Programs console limit runs) ∧
      place.Has (Programs console limit runs) (.expr (.superRef keyword method slot)) ∧
      state.heap.ancestor? state.scope (place.inner.length + 1) = some home ∧
      ExtendedAt console limit runs place home superclass ∧
      state.heap.superOf state.scope (slot.getD 0) = .ok (superclass, receiver) ∧
      state.heap.lookup state.scope place.inner.length thisName = .ok (.object receiver) ∧
      (∀ keyword' slot', place.Has (Programs console limit runs) (.expr (.thisRef keyword' slot')) →
        step limit { state with control := .eval (.thisRef keyword' slot') next } =
          .running { state with control := .give (.object receiver) next }) ∧
      (method.name ≠ constructorName →
        (∀ m, state.heap.FirstDefinition method.name superclass m →
          state.GivesBound limit next m receiver) ∧
        ((∀ m, ¬ state.heap.FirstDefinition method.name superclass m) →
          step limit state = .stopped (.blame (.undefinedProperty method.name) method.span)
            state.heap state.console)) ∧
      (method.name = constructorName →
        (∀ m, state.heap.constructor? superclass = some m →
          state.GivesBound limit next m receiver) ∧
        (state.heap.constructor? superclass = none → ∃ idle : Native, idle.DoesNothing limit ∧
          step limit state = .running { state with
            control := .give (.native idle) next
            heap := { state.heap with idles := state.heap.idles + 1 } })) := by
  obtain ⟨place, hplace, hhas, hwithin⟩ := exists_place hreaches hcontrol
  have hheap := (traced_of_reaches hreaches).heap
  have hslot := slot_of_superRef hplace hhas
  obtain ⟨home, _, hhome, hopened, hclass, -, superclass, rfl, hextended⟩ :=
    hheap.word hwithin place.openers_superclass rfl
  obtain ⟨_, _, -, -, hobject, -, receiver, rfl⟩ := hheap.word hwithin place.openers_receiver rfl
  have hsuper : state.heap.superOf state.scope (slot.getD 0) = .ok (superclass, receiver) := by
    simp only [hslot, Option.getD_some, Heap.superOf, hclass, Nat.add_sub_cancel, hobject]
  refine ⟨place, home, superclass, receiver, hplace, hhas, hhome, extendedAt hopened hextended,
    hsuper, hobject, fun keyword' slot' hthis => ?_, fun hname => ?_, fun hname => ?_⟩
  · rw [slot_of_thisRef hplace hthis]
    simp only [step, stepExpr, readName, Option.getD_some, hobject]
  · have hsame : state.heap.superMethod? superclass method.name =
        state.heap.method? superclass method.name := by
      simp [Heap.superMethod?, hname]
    have hfirst : ∀ m, state.heap.method? superclass method.name = some m ↔
        state.heap.FirstDefinition method.name superclass m :=
      fun m => Heap.method?_eq_some_iff hheap.ancestral
    refine ⟨fun m hm => givesBound_of_superMethod? hcontrol hsuper
      (hsame.trans ((hfirst m).mpr hm)), fun hnone => ?_⟩
    have hmethod : state.heap.method? superclass method.name = none :=
      Option.eq_none_iff_forall_ne_some.mpr fun m hm => hnone m ((hfirst m).mp hm)
    rw [step_superRef hcontrol hsuper]
    simp [getSuper, hname, hmethod]
  · have hsame : state.heap.superMethod? superclass method.name =
        state.heap.constructor? superclass := by
      simp [Heap.superMethod?, hname]
    refine ⟨fun m hm => givesBound_of_superMethod? hcontrol hsuper (hsame.trans hm),
      fun hnone => ?_⟩
    refine ⟨.idle state.heap.idles, doesNothing_idle limit _, ?_⟩
    rw [step_superRef hcontrol hsuper]
    simp [getSuper, hname, hnone, Heap.newIdle]

/-- The slot of a use of the superclass that the machine looks at. -/
def superSlot? : Control → Option (Option Nat)
  | .eval (.superRef _ _ slot) _ => some slot
  | _ => none

theorem control_of_superSlot? {control : Control} {slot : Option Nat}
    (h : superSlot? control = some slot) :
    ∃ keyword method next, control = .eval (.superRef keyword method slot) next := by
  unfold superSlot? at h
  split at h
  · next keyword method slot' next =>
    obtain rfl := Option.some.inj h
    exact ⟨keyword, method, next, rfl⟩
  · cases h

/-- A function in a method of a class uses the superclass. The receiver is an instance of a subclass
that overrides the method, and the name that the class extends has been given another class. -/
theorem super_dispatch_lexical_rebound :
    let source :=
      utf8 "\x7b class A \x7b m() \x7b return nil; \x7d \x7d class Z \x7b m() \x7b return true; \x7d \x7d let base = A;" ++
      utf8 "class B extends base \x7b m() \x7b fun go() \x7b this; return super.m(); \x7d return go(); \x7d \x7d" ++
      utf8 "class C extends B \x7b m() \x7b return false; \x7d n() \x7b return super.m(); \x7d \x7d base = Z; print C().n(); \x7d"
    ∃ state keyword method slot next, Reaches ⟨[], [], none, none⟩ 9 [(200, source)] state ∧
      state.control = .eval (.superRef keyword method slot) next ∧
      ∃ place home superclass receiver,
        place.Has (Programs ⟨[], [], none, none⟩ 9 [(200, source)])
          (.expr (.superRef keyword method slot)) ∧
        ExtendedAt ⟨[], [], none, none⟩ 9 [(200, source)] place home superclass ∧
        state.heap.superOf state.scope (slot.getD 0) = .ok (superclass, receiver) ∧
        (state.heap.classes[superclass]?).map ClassDef.name = some (utf8 "A") ∧
        ((state.heap.classOf? receiver).bind (state.heap.classes[·]?)).map ClassDef.name =
          some (utf8 "C") := by
  intro source
  have hnames :
    (((fresh ⟨[], [], none, none⟩ 9).program? source).bind fun program =>
      program.head?.bind fun s =>
      (runFor 9 45 (.ofStmt s (fresh ⟨[], [], none, none⟩ 9).heap ⟨[], [], none, none⟩)).state?.bind
        fun state =>
        (superSlot? state.control).bind fun slot =>
          (state.heap.superOf state.scope (slot.getD 0)).toOption.map fun found =>
          ((state.heap.classes[found.1]?).map ClassDef.name,
            ((state.heap.classOf? found.2).bind (state.heap.classes[·]?)).map ClassDef.name)) =
      some (some (utf8 "A"), some (utf8 "C")) := by decide +kernel
  obtain ⟨program, hprogram, hnames⟩ := Option.bind_eq_some_iff.mp hnames
  obtain ⟨s, hs, hnames⟩ := Option.bind_eq_some_iff.mp hnames
  obtain ⟨state, hstate, hnames⟩ := Option.bind_eq_some_iff.mp hnames
  obtain ⟨slot, hslot, hnames⟩ := Option.bind_eq_some_iff.mp hnames
  obtain ⟨found, hfound, hnames⟩ := Option.map_eq_some_iff.mp hnames
  obtain ⟨rest, rfl⟩ := List.head?_eq_some_iff.mp hs
  obtain ⟨keyword, method, next, hcontrol⟩ := control_of_superSlot? hslot
  have hreaches : Reaches ⟨[], [], none, none⟩ 9 [(200, source)] state :=
    reaches_of_passes hprogram (.here (by decide) (Next.eq_running_of_state? hstate))
  obtain ⟨place, home, superclass, receiver, -, hhas, -, hextended, hsuper, -⟩ :=
    super_dispatch_lexical ⟨[], [], none, none⟩ 9 [(200, source)] state hreaches keyword method slot
      next hcontrol
  rw [hsuper] at hfound
  obtain rfl := Option.some.inj hfound
  obtain ⟨hsuperclass, hreceiver⟩ := Prod.mk.inj hnames
  exact ⟨state, keyword, method, slot, next, hreaches, hcontrol, place, home, superclass, receiver,
    hhas, hextended, hsuper, hsuperclass, hreceiver⟩

end Session

end Lox
