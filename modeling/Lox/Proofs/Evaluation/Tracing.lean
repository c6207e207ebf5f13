import Lox.Proofs.Evaluation.Advance
import Lox.Proofs.Evaluation.Calls
import Lox.Proofs.Evaluation.Holding
import Lox.Proofs.Evaluation.Lineage

/-!
# Steps keep the lineage

A state is **traced** if its heap is, if every part that it holds stands in its scope, and if every
value that it holds is traced. A step from a traced state leads to a traced one, provided that the
lineage tells of the scopes that the step opens (`TracedState.step`), and so every state that a run
passes is traced (`traced_of_passes`).
-/

namespace Lox

open Code

namespace Lineage

/-! ## Traced states -/

section Definitions

variable (l : Lineage) (h : Heap) (id : ScopeId)

/-- What remains to be done with a value holds only what is traced. -/
abbrev TracedValueCont (next : ValueCont) : Prop := next.Holds (l.Stands h) (l.TracedValue h) id

/-- What remains to be done after a statement holds only what is traced. -/
abbrev TracedStmtCont (next : StmtCont) : Prop := next.Holds (l.Stands h) (l.TracedValue h) id

/-- The machine looks at something traced, and what remains is traced. -/
abbrev TracedControl (control : Control) : Prop := control.Holds (l.Stands h) (l.TracedValue h) id

/-- Everything in a state is traced. -/
structure TracedState (state : State) : Prop where
  heap : l.TracedHeap state.heap
  control : l.TracedControl state.heap state.scope state.control

/-- What a step leads to is traced. -/
def TracedNext : Next → Prop
  | .running state => l.TracedState state
  | .finished _ heap _ | .stopped _ heap _ => l.TracedHeap heap

/-- The lineage tells what has opened the scopes that a step makes. -/
def Records (openers : List Opener) (next : Next) : Prop :=
  ∀ i opener state, next = .running state → h.scopes.size + i < state.heap.scopes.size →
    openers[i]? = some opener → l.opened (h.scopes.size + i) opener

/-- The lineage tells of all that a step from a state does: of the scopes that it makes, and of a
class that it extends. -/
structure Tells (limit : Nat) (state : State) : Prop where
  records : l.Records state.heap state.opening (Lox.step limit state)
  superclasses : ∀ name use methods next superclass,
    state.control = .exec (.classDecl name (some use) methods) next →
    state.heap.lookup state.scope (use.depth.getD 0) use.ident.name = .ok (.classRef superclass) →
    l.extended state.heap.scopes.size superclass

end Definitions

variable {l : Lineage} {h : Heap} {id : ScopeId} {depth : Nat} {console : Console}

section Mono

variable {h' : Heap} (hg : h.Grows h')

include hg

theorem TracedValueCont.mono {next : ValueCont} (hn : l.TracedValueCont h id next) :
    l.TracedValueCont h' id next :=
  ValueCont.Holds.mono (fun _ _ hs => hs.mono hg) (fun _ hv => hv.mono hg) hn

theorem TracedStmtCont.mono {next : StmtCont} (hn : l.TracedStmtCont h id next) :
    l.TracedStmtCont h' id next :=
  StmtCont.Holds.mono (fun _ _ hs => hs.mono hg) (fun _ hv => hv.mono hg) hn

end Mono

/-- What a turn finds in a traced heap. -/
theorem TracedHeap.supplies (hh : l.TracedHeap h) :
    h.Supplies id (l.Stands h id) (l.TracedValue h) where
  part := Stands.part
  expr := Stands.expr
  inner := Stands.inner
  first := Stands.first
  rest := Stands.next
  function hf := hf.literal
  data := ofData_tracedValue
  lookup hv := hh.lookup hv
  stores := hh.stores

/-! ## Calls -/

/-- Parameters may all be assigned to. -/
theorem mem_parameterScope {params : List Ident} {arguments : List Value} {name : Text}
    {binding : Binding} (hmem : (name, binding) ∈ argumentBindings params arguments) :
    (name, binding.mutable) ∈ parameterScope params := by
  rcases mem_foldl_put hmem with hmem | ⟨⟨p, v⟩, hp, heq⟩
  · cases hmem
  · obtain ⟨rfl, rfl⟩ := Prod.mk.inj heq
    exact List.mem_reverse.mpr (List.mem_map.mpr ⟨p, (List.of_mem_zip hp).1, rfl⟩)

/-- A method with a receiver bound. -/
theorem traced_bindMethod (hh : l.TracedHeap h) {receiver : InstanceId} {c : Closure}
    (hc : l.Awaits h c) (hopened : l.opened h.scopes.size (.receiver c.function)) :
    l.TracedHeap (h.bindMethod receiver c).2 ∧
      l.TracedValue (h.bindMethod receiver c).2 (.closure (h.bindMethod receiver c).1) := by
  obtain ⟨context, frames, hvisit, hw⟩ := hc
  refine ⟨hh.fork hopened (fun name binding hmem => ?_) (fun name binding hmem => ?_) ?_,
    context, _, hvisit, hw.fork hopened _⟩
  · obtain ⟨rfl, rfl⟩ := Prod.mk.inj (List.mem_singleton.mp hmem)
    exact ⟨rfl, receiver, rfl⟩
  · obtain ⟨rfl, rfl⟩ := Prod.mk.inj (List.mem_singleton.mp hmem)
    trivial
  · rintro word ⟨rfl⟩
    exact ⟨_, rfl⟩

section Making

variable (hh : l.TracedHeap h)

include hh

/-- A name of the program is bound. -/
theorem TracedHeap.declare {c : Code} (hc : l.Stands h id c) {d : Deed} (hd : d ∈ c.deeds)
    {name : Text} {mutable : Bool} (hdeclared : d.declared? = some (name, mutable)) {v : Value}
    (hv : l.TracedValue h v) : l.TracedHeap (h.define id name mutable v) :=
  hh.define (fun _ => hc.binds hd hdeclared v) hv

/-- An assignment changes the value of a name that may be assigned to, and nothing else. -/
theorem TracedHeap.assign {use : NameUse} {outer : ScopeId}
    (htarget : h.target id (use.depth.getD 0) use.ident = .ok outer) {v : Value}
    (hv : l.TracedValue h v) : l.TracedHeap (h.define outer use.ident.name true v) := by
  obtain ⟨binding, hmem, hmutable⟩ := Heap.exists_of_target htarget
  refine hh.define (fun opener hopened => ?_) hv
  have hbinds := hh.binds outer opener _ binding hopened hmem
  cases opener with
  | root | block | call =>
    have hholds := (binds_iff (by trivial)).mp hbinds
    rw [hmutable] at hholds
    exact (binds_iff (by trivial)).mpr hholds
  | receiver f =>
    obtain ⟨-, receiver, rfl⟩ := hbinds
    cases hmutable
  | superclass name extended methods =>
    obtain ⟨-, superclass, rfl, -⟩ := hbinds
    cases hmutable

/-- A class is made, and bound under its name. -/
theorem TracedHeap.defineClass {name : Ident} {superclass : Option NameUse} {methods : List Method}
    (hs : l.Stands h id (.stmt (.classDecl name superclass methods))) {parent : Option ClassId}
    {inner : ScopeId} (hparent : ∀ superclass ∈ parent, superclass < h.classes.size)
    (hmethods : ∀ m f, .mk m f ∈ methods → l.Awaits h ⟨f, inner⟩) :
    l.TracedHeap (defineClass name.name parent methods inner id h) := by
  have hclass : l.TracedClass h h.classes.size
      ⟨name.name, parent, methodEntries inner methods, constructorOf inner methods⟩ := by
    refine ⟨hparent, fun key c hc => ?_, fun c hc => ?_⟩
    · obtain ⟨m, f, hmethod, rfl⟩ := mem_methodEntries hc
      exact hmethods m f hmethod
    · obtain ⟨m, f, hmethod, rfl⟩ := constructorOf_eq_some hc
      exact hmethods m f hmethod
  have hdeed : Deed.whole (.classDecl name superclass methods) ∈
      (Code.stmt (.classDecl name superclass methods)).deeds := List.mem_cons_self
  refine (hh.newClass hclass).define (fun opener => hs.binds hdeed rfl _) ?_
  simp [TracedValue, Heap.newClass]

/-- The scope that a superclass is known in. -/
theorem TracedHeap.superclass {name : Ident} {use : NameUse} {methods : List Method}
    {parent : ClassId} (hparent : l.TracedValue h (.classRef parent))
    (hopened : l.opened h.scopes.size (.superclass name use methods))
    (hextended : l.extended h.scopes.size parent) :
    l.TracedHeap (h.fork id [(superName, ⟨false, .classRef parent⟩)]).2 := by
  refine hh.fork hopened (fun other binding hmem => ?_) (fun other binding hmem => ?_) ?_
  · obtain ⟨rfl, rfl⟩ := Prod.mk.inj (List.mem_singleton.mp hmem)
    exact ⟨rfl, parent, rfl, hextended⟩
  · obtain ⟨rfl, rfl⟩ := Prod.mk.inj (List.mem_singleton.mp hmem)
    exact hparent
  · rintro word ⟨rfl⟩
    exact ⟨_, rfl⟩

/-- A native is called. -/
theorem TracedHeap.call (b : Builtin) {arguments : List Value}
    (harguments : ∀ v ∈ arguments, l.TracedValue h v) (paren : Span) (console : Console) :
    l.TracedHeap (b.call arguments paren h console).heap ∧
      ∀ v, (b.call arguments paren h console).result = .ok v → l.TracedValue h v := by
  have heffect := b.effect_call arguments paren h console
  have hkeeps : (b.call arguments paren h console).Keeps (l.TracedValue h) h :=
    b.keeps_stores_call ofData_tracedValue hh.stores harguments
  exact ⟨hh.of_stores heffect.grows heffect.scopes hkeeps.classes hkeeps.stores, hkeeps.result⟩

/-- The methods of a superclass, and its constructor. -/
theorem TracedHeap.superMethod {superclass : ClassId} {name : Text} {m : Closure}
    (hm : (if name == constructorName then h.constructor? superclass
      else h.method? superclass name) = some m) : l.Awaits h m := by
  split at hm
  · exact hh.constructor? hm
  · exact hh.methodWithin hm

end Making

/-! ## Transitions -/

/-- A value is given in a heap that has grown. -/
theorem TracedNext.give {h' : Heap} (hg : h.Grows h') (hh' : l.TracedHeap h') {v : Value}
    (hv : l.TracedValue h' v) {next : ValueCont} (hn : l.TracedValueCont h id next) :
    l.TracedNext (.running ⟨.give v next, id, depth, h', console⟩) :=
  ⟨hh', hv, TracedValueCont.mono hg hn⟩

/-- A statement has ended in a heap that has grown. -/
theorem TracedNext.finish {h' : Heap} (hg : h.Grows h') (hh' : l.TracedHeap h') {next : StmtCont}
    (hn : l.TracedStmtCont h id next) :
    l.TracedNext (.running ⟨.finish .normal next, id, depth, h', console⟩) :=
  ⟨hh', trivial, TracedStmtCont.mono hg hn⟩

section Calls

variable (hh : l.TracedHeap h) {next : ValueCont} (hn : l.TracedValueCont h id next)

include hh hn

theorem traced_enter {c : Closure} (hc : l.Stands h c.scope (.function c.function))
    {arguments : List Value} (harguments : ∀ v ∈ arguments, l.TracedValue h v)
    (hopened : l.opened h.scopes.size (.call c.function)) :
    l.TracedNext (enter c arguments next id depth h console) := by
  obtain ⟨context, frames, hvisit, hw⟩ := hc
  have hg : h.Grows (h.fork c.scope (argumentBindings c.function.params arguments)).2 :=
    Heap.grows_fork ..
  have hheap : l.TracedHeap (h.fork c.scope (argumentBindings c.function.params arguments)).2 := by
    refine hh.fork hopened (fun name binding hmem => ?_) (fun name binding hmem => ?_)
      (by simp [Opener.word?])
    · exact List.mem_append_left _ (mem_parameterScope hmem)
    · exact harguments _ (mem_argumentBindings hmem).2
  have hbody : l.TracedStmtCont _ h.scopes.size (.functionBody id next) :=
    TracedValueCont.mono hg hn
  exact ⟨hheap, hheap.supplies.runBody hbody ⟨context, _, hvisit.body, hw.fork hopened _⟩⟩

/-- An instance is made, and the constructor of its class started with it. -/
theorem traced_construct {made : ClassId} {arguments : List Value}
    (harguments : ∀ v ∈ arguments, l.TracedValue h v) {c : Closure}
    (hconstructor : h.constructor? made = some c)
    (hreceiver : l.opened h.scopes.size (.receiver c.function))
    (hcall : l.opened (h.scopes.size + 1) (.call c.function)) :
    l.TracedNext
      (enter ((h.newInstance (some made) []).2.bindMethod (h.newInstance (some made) []).1 c).1
        arguments
      (.construct (h.newInstance (some made) []).1 (.activation next)) id depth
      ((h.newInstance (some made) []).2.bindMethod (h.newInstance (some made) []).1 c).2
        console) := by
  have hg : h.Grows (h.newInstance (some made) []).2 := Heap.grows_newInstance ..
  have hheap : l.TracedHeap (h.newInstance (some made) []).2 :=
    hh.newInstance _ fun _ _ hmem => absurd hmem List.not_mem_nil
  have hawaits : l.Awaits (h.newInstance (some made) []).2 c :=
    (hh.constructor? hconstructor).mono hg
  have hmade :
      l.TracedHeap ((h.newInstance (some made) []).2.bindMethod h.instances.size c).2 ∧ _ :=
    traced_bindMethod hheap hawaits hreceiver
  have hgrows : h.Grows ((h.newInstance (some made) []).2.bindMethod h.instances.size c).2 :=
    hg.trans (Heap.grows_fork ..)
  have hsize : ((h.newInstance (some made) []).2.bindMethod h.instances.size c).2.scopes.size =
      h.scopes.size + 1 := by
    simp [Heap.bindMethod, Heap.fork, Heap.newInstance]
  have hnext : l.TracedValueCont _ id (.construct h.instances.size (.activation next)) :=
    TracedValueCont.mono hgrows hn
  exact traced_enter hmade.1 hnext hmade.2 (fun v hv => (harguments v hv).mono hgrows)
    (hsize ▸ hcall)

/-- A method is given with its receiver bound. -/
theorem traced_giveMethod {receiver : InstanceId} {c : Closure} (hc : l.Awaits h c)
    (hopened : l.opened h.scopes.size (.receiver c.function)) :
    l.TracedNext (.running ⟨.give (.closure (h.bindMethod receiver c).1) next, id, depth,
      (h.bindMethod receiver c).2, console⟩) := by
  obtain ⟨hheap, hbound⟩ := traced_bindMethod hh hc hopened
  exact .give (Heap.grows_fork ..) hheap hbound hn

theorem traced_property {owner : InstanceId} {name : Text} {p : Property}
    (hp : h.property? owner name = some p)
    (hopened : ∀ m, p = .method m → l.opened h.scopes.size (.receiver m.function)) :
    l.TracedNext
      (.running ⟨.give (h.take owner p).1 next, id, depth, (h.take owner p).2, console⟩) := by
  simp only [Heap.property?] at hp
  split at hp
  · next v hv =>
    obtain rfl := Option.some.inj hp
    exact ⟨hh, hh.stores.field? hv, hn⟩
  · obtain ⟨m, hm, rfl⟩ := Option.map_eq_some_iff.mp hp
    obtain ⟨d, -, hd⟩ := Option.bind_eq_some_iff.mp hm
    exact traced_giveMethod hh hn (hh.methodWithin hd) (hopened m rfl)

end Calls

/-- What a transition leads to is traced, if the lineage tells of the scopes that it opens and of
the class that it extends. -/
theorem traced_transition {limit : Nat} {c : Control} {next : Next}
    (htrans : Transition limit id depth h console c next) (hh : l.TracedHeap h)
    (hc : l.TracedControl h id c)
    (hopened : l.Records h (State.opening ⟨c, id, depth, h, console⟩) next)
    (hextended : ∀ name use methods k superclass, c = .exec (.classDecl name (some use) methods) k →
      h.lookup id (use.depth.getD 0) use.ident.name = .ok (.classRef superclass) →
      l.extended h.scopes.size superclass) : l.TracedNext next := by
  cases htrans with
  | turn hturn => exact ⟨hh, hturn.holds hh.supplies hc⟩
  | fails | finished => exact hh
  | @lambda name f =>
    have hclosure : l.TracedValue h (.closure ⟨f, id⟩) := hc.1.literal
    have hdeed : Deed.event (.declare name) ∈ (Code.expr (.lambda (some name) f)).deeds :=
      List.mem_cons_self
    have hg : h.Grows (h.define id name.name false (.closure ⟨f, id⟩)) := Heap.grows_define ..
    exact .give hg (hh.declare hc.1 hdeed rfl hclosure) (hclosure.mono hg) hc.2
  | @declareNil mutable name =>
    have hdeed : Deed.declare name mutable ∈ (Code.stmt (.declare mutable name none)).deeds :=
      List.mem_cons_self
    exact .finish (Heap.grows_define ..) (hh.declare (v := .nil) hc.1 hdeed rfl trivial) hc.2
  | @declare v mutable =>
    obtain ⟨hv, ⟨ident, init, rfl, hs⟩, hk⟩ := hc
    have hdeed : Deed.declare ident mutable ∈ (Code.stmt (.declare mutable ident init)).deeds :=
      List.mem_append_right _ List.mem_cons_self
    exact .finish (Heap.grows_define ..) (hh.declare hs hdeed rfl hv) hk
  | @assign v use k outer htarget =>
    have hg : h.Grows (h.define outer use.ident.name true v) := Heap.grows_define ..
    exact .give hg (hh.assign htarget hc.1) (TracedValue.mono hg hc.1) hc.2.2
  | classDecl =>
    obtain ⟨⟨context, frames, hvisit, hw⟩, hk⟩ := hc
    refine .finish (grows_defineClass ..)
      (hh.defineClass ⟨context, frames, hvisit, hw⟩ (by simp) fun m f hm => ?_) hk
    exact ⟨_, _, hvisit.method hm, by rwa [openersOf_declareIn]⟩
  | @subclass name use methods k parent hlookup =>
    obtain ⟨⟨context, frames, hvisit, hw⟩, hk⟩ := hc
    have hsuper : l.opened h.scopes.size (.superclass name use methods) :=
      hopened 0 _ _ rfl (by simp [defineClass, Heap.define, Heap.newClass, Heap.fork]) rfl
    have hparent : l.TracedValue h (.classRef parent) := hh.lookup hlookup
    have hg : h.Grows (h.fork id [(superName, ⟨false, .classRef parent⟩)]).2 := Heap.grows_fork ..
    have hheap : l.TracedHeap (h.fork id [(superName, ⟨false, .classRef parent⟩)]).2 :=
      hh.superclass hparent hsuper (hextended name use methods k parent rfl hlookup)
    refine .finish (hg.trans (grows_defineClass ..))
      (hheap.defineClass ⟨context, frames, hvisit, hw.mono hg⟩ ?_ ?_) hk
    · rintro superclass ⟨rfl⟩
      exact hparent
    · intro m f hm
      refine ⟨_, _, hvisit.submethod hm, ?_⟩
      rw [openersOf_cons, openersOf_declareIn]
      exact hw.fork hsuper _
  | object hgathers =>
    obtain ⟨hentries, hk⟩ := hc.gathers hgathers
    exact .give (v := .object _) (Heap.grows_newInstance ..) (hh.newInstance _ hentries) trivial hk
  | list hlists =>
    obtain ⟨helements, hk⟩ := hc.lists hlists
    refine .give (v := .list _) (Heap.grows_newList _) (hh.newList fun v hv => ?_) trivial hk
    exact helements v (List.mem_reverse.mp (List.mem_toArray.mp hv))
  | @setField v owner name =>
    have hg : h.Grows (h.setField owner name v) := Heap.grows_modifyInstance owner _
    exact .give hg (hh.of_stores hg rfl rfl (hh.stores.setField owner name hc.1))
      (TracedValue.mono hg hc.1) hc.2
  | @setElement v owner _ _ _ i =>
    have hg : h.Grows (h.setElement owner i v) := Heap.grows_modifyList owner _
    exact .give hg (hh.of_stores hg rfl rfl (hh.stores.setElement owner i hc.1))
      (TracedValue.mono hg hc.1) hc.2.2
  | property hreads hp =>
    refine traced_property hh (hc.reads hreads) hp ?_
    rintro m rfl
    refine hopened 0 _ _ rfl (by simp [Heap.take, Heap.bindMethod, Heap.fork]) ?_
    cases hreads <;> simp [State.opening, openingOf, Heap.methodAt?, hp]
  | superMethod hsupers hm =>
    refine traced_giveMethod hh (hc.supers hsupers) (hh.superMethod hm) ?_
    refine hopened 0 _ _ rfl (by simp [Heap.bindMethod, Heap.fork]) ?_
    cases hsupers with
    | intro hsuper => simp only [State.opening, hsuper, openingOf, Heap.superMethod?, hm]; rfl
  | superIdle hsupers =>
    have hg : h.Grows h.newIdle.2 := .of_scopes_eq rfl le_rfl le_rfl le_rfl
    have hheap : l.TracedHeap h.newIdle.2 := hh.of_stores hg rfl rfl (hh.stores.of_eq rfl rfl)
    exact .give (v := .native _) hg hheap trivial (hc.supers hsupers)
  | enter hcalls =>
    obtain ⟨hcallee, harguments, hk⟩ := hc.calls hcalls
    have hactivation : l.TracedValueCont h id (.activation _) := hk
    refine traced_enter hh hactivation hcallee harguments (hopened 0 _ _ rfl (by simp) ?_)
    cases hcalls <;> rfl
  | @construct _ made _ _ _ constructor hcalls hconstructor =>
    obtain ⟨-, harguments, hk⟩ := hc.calls hcalls
    have hconstructor : h.constructor? made = some constructor := hconstructor
    have hopening : State.opening ⟨c, id, depth, h, console⟩ = h.callOpening (.classRef made) := by
      cases hcalls <;> rfl
    simp only [hopening, Heap.callOpening, hconstructor] at hopened
    refine traced_construct hh hk harguments hconstructor (hopened 0 _ _ rfl ?_ rfl)
      (hopened 1 _ _ rfl ?_ rfl)
    · simp [Heap.bindMethod, Heap.fork, Heap.newInstance]
    · simp [Heap.bindMethod, Heap.fork, Heap.newInstance]
  | @«instance» _ made _ _ _ hcalls =>
    have hheap : l.TracedHeap (h.newInstance (some made) []).2 :=
      hh.newInstance _ fun _ _ hmem => absurd hmem List.not_mem_nil
    exact .give (v := .object _) (Heap.grows_newInstance ..) hheap trivial (hc.calls hcalls).2.2
  | @native _ b arguments paren _ v hcalls _ _ hv =>
    obtain ⟨-, harguments, hk⟩ := hc.calls hcalls
    obtain ⟨hheap, hresult⟩ := hh.call b harguments paren console
    have hg := (b.effect_call arguments paren h console).grows
    exact .give hg hheap ((hresult v hv).mono hg) hk
  | @nativeFails _ b _ paren _ _ hcalls => exact (hh.call b (hc.calls hcalls).2.1 paren console).1
  | idle hcalls => exact ⟨hh, trivial, (hc.calls hcalls).2.2⟩
  | @block body k =>
    obtain ⟨⟨context, frames, hvisit, hw⟩, hk⟩ := hc
    have hblock : l.opened h.scopes.size (.block body) :=
      hopened 0 _ _ rfl (by simp [Heap.fork]) rfl
    have hheap : l.TracedHeap (h.fork id []).2 := by
      refine hh.fork hblock (fun _ _ hmem => ?_) (fun _ _ hmem => ?_) (by simp [Opener.word?])
      · exact absurd hmem List.not_mem_nil
      · exact absurd hmem List.not_mem_nil
    have hleave : l.TracedStmtCont (h.fork id []).2 h.scopes.size (.leave id k) :=
      TracedStmtCont.mono (Heap.grows_fork ..) hk
    exact ⟨hheap, hheap.supplies.runBody hleave ⟨context, _, hvisit.block, hw.fork hblock _⟩⟩
  | leave | bodyReturn | activation => exact ⟨hh, hc⟩
  | bodyEnd | print => exact ⟨hh, trivial, hc.2⟩

/-- A step from a traced state leads to a traced one. -/
theorem TracedState.step {state : State} (hstate : l.TracedState state) {limit : Nat}
    (htells : l.Tells limit state) : l.TracedNext (Lox.step limit state) :=
  traced_transition (transition_step limit state) hstate.heap hstate.control htells.records
    htells.superclasses

/-! ## Runs -/

theorem TracedNext.heap {next : Next} (hn : l.TracedNext next) : l.TracedHeap next.heap := by
  cases next with
  | running => exact TracedState.heap hn
  | finished | stopped => exact hn

section Runs

variable {limit budget : Nat} {program : List Stmt} {heap : Heap}

/-- What the machine leads to in any number of steps. -/
theorem TracedState.runFor {n : Nat} {state : State} (hstate : l.TracedState state)
    (htells : ∀ m < n, ∀ state', Lox.runFor limit m state = .running state' →
      l.Tells limit state') :
    l.TracedNext (Lox.runFor limit n state) := by
  apply invariant_runFor
  · exact hstate
  · intro m hm state' hrun htraced
    exact TracedState.step htraced (htells m hm state' hrun)

variable (hheap : l.TracedHeap heap) (hprogram : l.Stands heap Heap.root (.stmts program))
  (htells : ∀ state, Passes limit budget program heap console state → l.Tells limit state)

include hheap hprogram htells

/-- The first statement of a program, in any number of steps. -/
theorem traced_ofStmt {s : Stmt} {rest : List Stmt} (hcons : program = s :: rest) {n : Nat}
    (hn : n ≤ budget) : l.TracedNext (runFor limit n (.ofStmt s heap console)) := by
  subst hcons
  have hstate : l.TracedState (.ofStmt s heap console) := ⟨hheap, hprogram.first, trivial⟩
  exact hstate.runFor fun m hm state' hstate' => htells state' (.here (hm.trans_le hn) hstate')

/-- What is left of a program whose first statement completes. -/
theorem traced_rest {s : Stmt} {rest : List Stmt} (hcons : program = s :: rest) {heap' : Heap}
    {console' : Console}
    (hrun : runStmt limit budget s heap console = ⟨.completed, heap', console'⟩) :
    l.TracedHeap heap' ∧ l.Stands heap' Heap.root (.stmts rest) ∧
      ∀ state, Passes limit budget rest heap' console' state → l.Tells limit state := by
  have htraced := traced_ofStmt hheap hprogram htells hcons le_rfl
  have hg := (keeps_runStmt limit budget s heap console).1
  subst hcons
  rw [hrun] at hg
  rw [Next.ended_eq_completed hrun] at htraced
  exact ⟨htraced, hprogram.next.mono hg, fun state hstate => htells state (.later hrun hstate)⟩

/-- Every state that the run of a program passes is traced. -/
theorem traced_of_passes {state : State}
    (hpasses : Passes limit budget program heap console state) : l.TracedState state := by
  induction hpasses with
  | @here s rest heap console n state hn hrun =>
    have htraced := traced_ofStmt hheap hprogram htells rfl hn.le
    rw [hrun] at htraced
    exact htraced
  | later hrun _ ih =>
    obtain ⟨hheap', hprogram', htells'⟩ := traced_rest hheap hprogram htells rfl hrun
    exact ih hheap' hprogram' htells'

/-- The run of a program leaves a traced heap. -/
theorem traced_runProgram : l.TracedHeap (runProgram limit budget program heap console).heap := by
  induction program generalizing heap console with
  | nil => exact hheap
  | cons s rest ih =>
    simp only [runProgram]
    split
    · next heap' console' hrun =>
      obtain ⟨hheap', hprogram', htells'⟩ := traced_rest hheap hprogram htells rfl hrun
      exact ih hheap' hprogram' htells'
    · rw [runStmt, Next.ended_heap]
      exact TracedNext.heap (traced_ofStmt hheap hprogram htells rfl le_rfl)

end Runs

end Lineage

end Lox
