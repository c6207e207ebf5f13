import Lox.Proofs.Evaluation.Tracing

/-!
# What evaluation holds

Evaluation takes programs apart, and makes no expression, statement or function of its own. So if
something goes down from each part of a program to what stands in it, and holds of all that a state
holds, it holds of all that the states after it hold: of the parts that wait to be evaluated, and of
every function that a name, a list, an instance or a class keeps (`State.Bears.runFor`).
-/

namespace Lox

open Code

/-- Something that goes down to what stands in a part. -/
structure Code.Hereditary (p : Code → Prop) : Prop where
  child : ∀ {c d : Code}, Child d c → p c → p d
  tail : ∀ {s : Stmt} {rest : List Stmt}, p (.stmts (s :: rest)) → p (.stmts rest)

/-- What holds of every part holds of every part of a part. -/
theorem Code.hereditary_every {p : Code → Prop} (htail : ∀ body, p (.stmts body)) :
    Hereditary (Every p) :=
  ⟨fun hd h => h.child hd, fun h => h.tail (htail _)⟩

section Definitions

variable (p : Code → Prop)

/-- Something holds of the function that a value is. -/
def Value.Bears : Value → Prop
  | .closure c => p (.function c.function)
  | _ => True

/-- Something holds of every function in a heap. -/
structure Heap.Bears (h : Heap) : Prop where
  values : ∀ id name binding, (name, binding) ∈ h.bindings id → binding.value.Bears p
  stores : h.Stores (Value.Bears p)
  methods : ∀ (id : ClassId) c, h.classes[id]? = some c →
    ∀ name m, (name, m) ∈ c.methods → p (.function m.function)
  constructors : ∀ (id : ClassId) c, h.classes[id]? = some c →
    ∀ m ∈ c.constructor, p (.function m.function)

/-- Something holds of every part and every function in a state. -/
structure State.Bears (state : State) : Prop where
  heap : state.heap.Bears p
  control : state.control.Holds (fun _ => p) (Value.Bears p) state.scope

/-- Something holds of all that a step leads to. -/
def Next.Bears : Next → Prop
  | .running state => state.Bears p
  | .finished _ heap _ | .stopped _ heap _ => heap.Bears p

end Definitions

variable {p : Code → Prop} {h : Heap} {id : ScopeId} {depth : Nat} {console : Console}

/-- Data bears no code. -/
theorem ofData_bears : OfData (Value.Bears p) := by
  intro v hv
  cases v with
  | closure => exact hv.elim
  | _ => trivial

/-! ## Heaps -/

namespace Heap.Bears

variable (hh : h.Bears p)

include hh

/-- Lists and instances may change as long as they store what bears. -/
theorem of_stores {h' : Heap} (hscopes : h'.scopes = h.scopes) (hclasses : h'.classes = h.classes)
    (hstores : h'.Stores (Value.Bears p)) : h'.Bears p where
  values id name binding hmem := hh.values id name binding (by rwa [Heap.bindings, ← hscopes])
  stores := hstores
  methods id c hc := hh.methods id c (hclasses ▸ hc)
  constructors id c hc := hh.constructors id c (hclasses ▸ hc)

/-- A scope is opened with bindings that bear. -/
theorem fork {bindings : Entries Binding}
    (hbindings : ∀ name binding, (name, binding) ∈ bindings → binding.value.Bears p) :
    (h.fork id bindings).2.Bears p where
  values at' name binding hmem := by
    rw [Heap.bindings_fork] at hmem
    split at hmem
    · exact hbindings name binding hmem
    · exact hh.values at' name binding hmem
  stores := hh.stores.of_eq rfl rfl
  methods := hh.methods
  constructors := hh.constructors

/-- A name is bound to a value that bears. -/
theorem define {name : Text} {mutable : Bool} {v : Value} (hv : v.Bears p) :
    (h.define id name mutable v).Bears p where
  values at' other binding hmem := by
    rw [Heap.bindings_define] at hmem
    split at hmem
    · rcases Entries.mem_put hmem with heq | hmem
      · obtain ⟨rfl, rfl⟩ := Prod.mk.inj heq
        exact hv
      · exact hh.values at' other binding hmem
    · exact hh.values at' other binding hmem
  stores := hh.stores.of_eq rfl rfl
  methods := hh.methods
  constructors := hh.constructors

/-- A class is made whose methods bear. -/
theorem newClass {c : ClassDef}
    (hmethods : ∀ name m, (name, m) ∈ c.methods → p (.function m.function))
    (hconstructor : ∀ m ∈ c.constructor, p (.function m.function)) : (h.newClass c).2.Bears p := by
  have hnew : ∀ (id : ClassId) c', (h.newClass c).2.classes[id]? = some c' →
      h.classes[id]? = some c' ∨ c' = c := by
    intro id c' hc'
    simp only [Heap.newClass, Array.getElem?_push] at hc'
    split at hc'
    · exact .inr (Option.some.inj hc').symm
    · exact .inl hc'
  refine ⟨hh.values, hh.stores.of_eq rfl rfl, fun id c' hc' => ?_, fun id c' hc' => ?_⟩
  · rcases hnew id c' hc' with hold | rfl
    · exact hh.methods id c' hold
    · exact hmethods
  · rcases hnew id c' hc' with hold | rfl
    · exact hh.constructors id c' hold
    · exact hconstructor

/-- A name leads to a value that bears. -/
theorem lookup {distance : Nat} {name : Text} {v : Value} (hv : h.lookup id distance name = .ok v) :
    v.Bears p := by
  obtain ⟨outer, binding, hmem, rfl⟩ := Heap.exists_of_lookup hv
  exact hh.values outer name binding hmem

/-- The constructor of a class bears. -/
theorem constructor? {id : ClassId} {c : Closure} (hc : h.constructor? id = some c) :
    p (.function c.function) := by
  obtain ⟨d, hd, hc⟩ := Option.bind_eq_some_iff.mp hc
  exact hh.constructors id d hd c hc

/-- A method that is found on the way up bears. -/
theorem methodWithin {name : Text} {fuel : Nat} {id : ClassId} {c : Closure}
    (hc : h.methodWithin name fuel id = some c) : p (.function c.function) := by
  obtain ⟨owner, d, hd, hmem⟩ := Heap.exists_of_methodWithin hc
  exact hh.methods owner d hd name c hmem

/-- A method with a receiver bound. -/
theorem bindMethod (receiver : InstanceId) (c : Closure) : (h.bindMethod receiver c).2.Bears p :=
  hh.fork fun name binding hmem => by
    obtain ⟨rfl, rfl⟩ := Prod.mk.inj (List.mem_singleton.mp hmem)
    trivial

/-- The method of a superclass, or its constructor. -/
theorem superMethod {superclass : ClassId} {name : Text} {m : Closure}
    (hm : (if name == constructorName then h.constructor? superclass
      else h.method? superclass name) = some m) : p (.function m.function) := by
  split at hm
  · exact hh.constructor? hm
  · exact hh.methodWithin hm

/-- So does what a property gives, and the heap afterwards. -/
theorem property? {receiver : InstanceId} {name : Text} {property : Property}
    (hproperty : h.property? receiver name = some property) :
    (h.take receiver property).1.Bears p ∧ (h.take receiver property).2.Bears p := by
  simp only [Heap.property?] at hproperty
  split at hproperty
  · next v hfield =>
    obtain rfl := Option.some.inj hproperty
    exact ⟨hh.stores.field? hfield, hh⟩
  · obtain ⟨c, hc, rfl⟩ := Option.map_eq_some_iff.mp hproperty
    obtain ⟨d, -, hd⟩ := Option.bind_eq_some_iff.mp hc
    have hfunction : p (.function c.function) := hh.methodWithin hd
    exact ⟨hfunction, hh.bindMethod receiver c⟩

/-- A native is called. -/
theorem call (b : Builtin) {arguments : List Value} (harguments : ∀ v ∈ arguments, v.Bears p)
    (paren : Span) (console : Console) :
    (b.call arguments paren h console).heap.Bears p ∧
      ∀ v, (b.call arguments paren h console).result = .ok v → v.Bears p := by
  have hkeeps : (b.call arguments paren h console).Keeps (Value.Bears p) h :=
    b.keeps_stores_call ofData_bears hh.stores harguments
  have heffect := b.effect_call arguments paren h console
  exact ⟨hh.of_stores heffect.scopes hkeeps.classes hkeeps.stores, hkeeps.result⟩

variable (hp : Hereditary p)

include hp

/-- What a turn finds in the heap. -/
theorem supplies : h.Supplies id p (Value.Bears p) where
  part he hpart := hp.child (.part hpart) he
  expr hs he := hp.child (.expr he) hs
  inner hs ht := hp.child (.inner ht) hs
  first hs := hp.child (.member List.mem_cons_self) hs
  rest hs := hp.tail hs
  function hf := hp.child .literal hf
  data := ofData_bears
  lookup hv := hh.lookup hv
  stores := hh.stores

/-- A class declaration makes a class of its own methods. -/
theorem defineClass {name : Ident} {superclass : Option NameUse} {methods : List Method}
    (hs : p (.stmt (.classDecl name superclass methods))) (parent : Option ClassId)
    (inner : ScopeId) : (defineClass name.name parent methods inner id h).Bears p := by
  refine Heap.Bears.define (hh.newClass (fun key c hc => ?_) fun c hc => ?_) trivial
  · obtain ⟨m, f, hm, rfl⟩ := mem_methodEntries hc
    exact hp.child (.method hm) hs
  · obtain ⟨m, f, hm, rfl⟩ := constructorOf_eq_some hc
    exact hp.child (.method hm) hs

/-- The body of a function is entered. -/
theorem enter {next : ValueCont} (hn : next.Holds (fun _ => p) (Value.Bears p) id) {c : Closure}
    (hc : p (.function c.function)) {arguments : List Value}
    (harguments : ∀ v ∈ arguments, v.Bears p) :
    (enter c arguments next id depth h console).Bears p := by
  have hheap : (h.fork c.scope (argumentBindings c.function.params arguments)).2.Bears p :=
    hh.fork fun name binding hmem => harguments _ (mem_argumentBindings hmem).2
  have hbody : (StmtCont.functionBody id next).Holds (fun _ => p) (Value.Bears p) h.scopes.size :=
    hn
  exact ⟨hheap, (hheap.supplies hp).runBody hbody (hp.child .body hc)⟩

end Heap.Bears

/-! ## Steps -/

variable (hp : Hereditary p)

include hp

/-- A transition makes no part of a program and no function of its own. -/
theorem Transition.bears {limit : Nat} {c : Control} {next : Next}
    (htrans : Transition limit id depth h console c next) (hh : h.Bears p)
    (hc : c.Holds (fun _ => p) (Value.Bears p) id) : next.Bears p := by
  cases htrans with
  | turn hturn => exact ⟨hh, hturn.holds (hh.supplies hp) hc⟩
  | fails | finished => exact hh
  | @lambda name f =>
    have hclosure : (Value.closure ⟨f, id⟩).Bears p := hp.child .literal hc.1
    exact ⟨hh.define hclosure, hclosure, hc.2⟩
  | declareNil => exact ⟨hh.define trivial, trivial, hc.2⟩
  | declare => exact ⟨hh.define hc.1, trivial, hc.2.2⟩
  | assign => exact ⟨hh.define hc.1, hc.1, hc.2.2⟩
  | classDecl => exact ⟨hh.defineClass hp hc.1 _ _, trivial, hc.2⟩
  | subclass =>
    refine ⟨Heap.Bears.defineClass (hh.fork fun other binding hmem => ?_) hp hc.1 _ _,
      trivial, hc.2⟩
    obtain ⟨rfl, rfl⟩ := Prod.mk.inj (List.mem_singleton.mp hmem)
    trivial
  | object hgathers =>
    obtain ⟨hentries, hk⟩ := hc.gathers hgathers
    exact ⟨hh.of_stores rfl rfl (hh.stores.newInstance none hentries), trivial, hk⟩
  | list hlists =>
    obtain ⟨helements, hk⟩ := hc.lists hlists
    refine ⟨hh.of_stores rfl rfl (hh.stores.newList fun v hv => ?_), trivial, hk⟩
    exact helements v (List.mem_reverse.mp (List.mem_toArray.mp hv))
  | setField => exact ⟨hh.of_stores rfl rfl (hh.stores.setField _ _ hc.1), hc⟩
  | setElement => exact ⟨hh.of_stores rfl rfl (hh.stores.setElement _ _ hc.1), hc.1, hc.2.2⟩
  | property hreads hproperty =>
    exact ⟨(hh.property? hproperty).2, (hh.property? hproperty).1, hc.reads hreads⟩
  | @superMethod _ _ receiver _ _ m hsupers hm =>
    have hfunction : p (.function m.function) := hh.superMethod hm
    exact ⟨hh.bindMethod receiver m, hfunction, hc.supers hsupers⟩
  | superIdle hsupers =>
    exact ⟨hh.of_stores rfl rfl (hh.stores.of_eq rfl rfl), trivial, hc.supers hsupers⟩
  | enter hcalls =>
    obtain ⟨hcallee, harguments, hk⟩ := hc.calls hcalls
    have hactivation : (ValueCont.activation _).Holds (fun _ => p) (Value.Bears p) id := hk
    exact hh.enter hp hactivation hcallee harguments
  | @construct _ made _ _ k constructor hcalls hconstructor =>
    obtain ⟨-, harguments, hk⟩ := hc.calls hcalls
    have hmade : (h.newInstance (some made) []).2.Bears p :=
      hh.of_stores rfl rfl (hh.stores.newInstance _ fun _ _ hmem => absurd hmem List.not_mem_nil)
    have hwaits : (ValueCont.construct (h.newInstance (some made) []).1 (.activation k)).Holds
        (fun _ => p) (Value.Bears p) id := hk
    have hfunction : p (.function constructor.function) := hmade.constructor? hconstructor
    refine (hmade.bindMethod _ constructor).enter hp hwaits ?_ harguments
    exact hfunction
  | «instance» hcalls =>
    refine ⟨hh.of_stores rfl rfl (hh.stores.newInstance _ ?_), trivial, (hc.calls hcalls).2.2⟩
    exact fun _ _ hmem => absurd hmem List.not_mem_nil
  | @native _ b arguments paren _ v hcalls _ _ hv =>
    obtain ⟨-, harguments, hk⟩ := hc.calls hcalls
    obtain ⟨hheap, hresult⟩ := hh.call b harguments paren console
    exact ⟨hheap, hresult v hv, hk⟩
  | @nativeFails _ b arguments paren _ _ hcalls =>
    exact (hh.call b (hc.calls hcalls).2.1 paren console).1
  | idle hcalls => exact ⟨hh, trivial, (hc.calls hcalls).2.2⟩
  | block =>
    have hheap : (h.fork id []).2.Bears p := hh.fork fun _ _ hmem => absurd hmem List.not_mem_nil
    have hleave : (StmtCont.leave id _).Holds (fun _ => p) (Value.Bears p) h.scopes.size := hc.2
    exact ⟨hheap, (hheap.supplies hp).runBody hleave (hp.child .block hc.1)⟩
  | leave => exact ⟨hh, hc⟩
  | bodyEnd => exact ⟨hh, trivial, hc.2⟩
  | bodyReturn => exact ⟨hh, hc⟩
  | activation => exact ⟨hh, hc⟩
  | print => exact ⟨hh, trivial, hc.2⟩

/-- Nor does a step. -/
theorem State.Bears.step {state : State} (hstate : state.Bears p) (limit : Nat) :
    (Lox.step limit state).Bears p :=
  (transition_step limit state).bears hp hstate.heap hstate.control

/-- Nor does a run of the machine. -/
theorem State.Bears.runFor {state : State} (hstate : state.Bears p) (limit n : Nat) :
    (Lox.runFor limit n state).Bears p := by
  apply invariant_runFor
  · exact hstate
  · intro m _ state' _ hbears
    exact State.Bears.step hp hbears limit

/-! ## Runs of programs -/

omit hp in
theorem Next.Bears.heap {next : Next} (hn : next.Bears p) : next.heap.Bears p := by
  cases next with
  | running => exact State.Bears.heap hn
  | finished | stopped => exact hn

section Runs

variable {budget : Nat} {program : List Stmt} {heap : Heap}

/-- A run of one statement bears what the statement does. -/
theorem bears_ofStmt {s : Stmt} (hheap : heap.Bears p) (hs : p (.stmt s)) (limit n : Nat)
    (console : Console) : (runFor limit n (.ofStmt s heap console)).Bears p := by
  have hstate : (State.ofStmt s heap console).Bears p := ⟨hheap, hs, trivial⟩
  exact hstate.runFor hp limit n

theorem bears_runStmt {s : Stmt} (hheap : heap.Bears p) (hs : p (.stmt s)) (limit budget : Nat)
    (console : Console) : (runStmt limit budget s heap console).heap.Bears p := by
  rw [runStmt, Next.ended_heap]
  exact (bears_ofStmt hp hheap hs limit budget console).heap

/-- Every state that the run of a program passes holds what the program and the heap held. -/
theorem bears_of_passes {limit : Nat} {state : State}
    (hpasses : Passes limit budget program heap console state) (hheap : heap.Bears p)
    (hprogram : p (.stmts program)) : state.Bears p := by
  induction hpasses with
  | @here s rest heap console n state hn hrun =>
    have hnext :=
      bears_ofStmt hp hheap (hp.child (.member List.mem_cons_self) hprogram) limit n console
    rw [hrun] at hnext
    exact hnext
  | @later s rest heap heap' console console' state hrun _ ih =>
    have hheap' :=
      bears_runStmt hp hheap (hp.child (.member List.mem_cons_self) hprogram) limit budget console
    rw [hrun] at hheap'
    exact ih hheap' (hp.tail hprogram)

/-- Programs leave a heap that bears what they do. -/
theorem bears_runProgram (hheap : heap.Bears p) (hprogram : p (.stmts program)) (limit budget : Nat)
    (console : Console) : (runProgram limit budget program heap console).heap.Bears p := by
  induction program generalizing heap console with
  | nil => exact hheap
  | cons s rest ih =>
    have hheap' :=
      bears_runStmt hp hheap (hp.child (.member List.mem_cons_self) hprogram) limit budget console
    simp only [runProgram]
    split
    · next hrun =>
      rw [hrun] at hheap'
      exact ih hheap' (hp.tail hprogram) _
    · exact hheap'

end Runs

end Lox
