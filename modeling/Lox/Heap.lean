import Lox.Diagnostic
import Lox.Entries
import Lox.Value

/-!
# The heap

The heap holds what outlives an expression: scopes with their bindings, lists, instances and
classes. Nothing is ever taken out of it, so a place in the heap stays valid, and a scope is
enclosed by an older one.

A name is reached by the number of scopes to go outwards and by its text. Resolution writes that
number into a tree; where it finds nothing there, evaluation ends with a **fault**, which is no
diagnostic: the program is not to blame.
-/

namespace Lox

/-- A value under a name, and whether the name may be given another. -/
structure Binding where
  mutable : Bool
  value : Value

/-- The bindings of a scope and the scope around it. -/
structure Scope where
  enclosing : Option ScopeId
  bindings : Entries Binding

/-- An instance of a class, or an object that was written out, which has no class. -/
structure Instance where
  ofClass : Option ClassId
  fields : Entries Value

/-- A class. Its constructor is no method: a subclass does not inherit it. -/
structure ClassDef where
  name : Text
  superclass : Option ClassId
  methods : Entries Closure
  constructor : Option Closure

/-- What a name of an instance can stand for. -/
inductive Property
  | own (value : Value)
  | method (method : Closure)

/-- Why evaluation ends without blaming the program. -/
inductive Fault
  | noScope (distance : Nat)
  | unbound (name : Text) (distance : Nat)
  | notAClass
  | notAnInstance
  | endlessCopy
  deriving DecidableEq, Repr

/-- What is said about a fault, if anything. -/
def Fault.message? : Fault → Option Text
  | noScope distance => some (utf8 "env: no scope " ++ Text.ofNat distance ++ utf8 " levels up")
  | unbound name distance =>
    some (utf8 "env: " ++ Quoted.text name ++ utf8 " not found " ++ Text.ofNat distance ++
      utf8 " levels up")
  | notAClass | notAnInstance | endlessCopy => none

/-- Why evaluation ends early: a problem that a span is to blame for, or a fault. -/
inductive Stop
  | blame (p : RuntimeProblem) (site : Span)
  | fault (f : Fault)

/-- Scopes, lists, instances and classes by their places. The last number tells constructors that do
nothing apart. -/
structure Heap where
  scopes : Array Scope
  lists : Array (Array Value)
  instances : Array Instance
  classes : Array ClassDef
  idles : Nat

namespace Heap

/-! ## Scopes -/

/-- The place of the root scope. -/
def root : ScopeId := 0

/-- A heap that holds only a root scope. -/
def ofBindings (bindings : Entries Binding) : Heap := ⟨#[⟨none, bindings⟩], #[], #[], #[], 0⟩

/-- The scope around a scope. -/
def enclosing? (h : Heap) (id : ScopeId) : Option ScopeId := h.scopes[id]?.bind Scope.enclosing

/-- The bindings of a scope. -/
def bindings (h : Heap) (id : ScopeId) : Entries Binding :=
  (h.scopes[id]?.map Scope.bindings).getD []

/-- Opens a scope inside another, with its first bindings. -/
def fork (h : Heap) (id : ScopeId) (bindings : Entries Binding) : ScopeId × Heap :=
  (h.scopes.size, { h with scopes := h.scopes.push ⟨some id, bindings⟩ })

/-- Binds a name in a scope, in place of an earlier binding of it there. -/
def define (h : Heap) (id : ScopeId) (name : Text) (mutable : Bool) (value : Value) : Heap :=
  { h with
    scopes := h.scopes.modify id fun s =>
      { s with bindings := s.bindings.put name ⟨mutable, value⟩ } }

/-- The scope that lies a number of scopes further out. -/
def ancestor? (h : Heap) : ScopeId → Nat → Option ScopeId
  | id, 0 => some id
  | id, distance + 1 => (h.enclosing? id).bind fun outer => h.ancestor? outer distance

/-- The scope and the binding of a name a number of scopes further out. -/
def find (h : Heap) (id : ScopeId) (distance : Nat) (name : Text) :
    Except Fault (ScopeId × Binding) :=
  match h.ancestor? id distance with
  | none => .error (.noScope distance)
  | some outer =>
    match (h.bindings outer).get? name with
    | none => .error (.unbound name distance)
    | some binding => .ok (outer, binding)

/-- The value of a name a number of scopes further out. -/
def lookup (h : Heap) (id : ScopeId) (distance : Nat) (name : Text) : Except Fault Value :=
  (h.find id distance name).map fun found => found.2.value

/-- The scope in which a name a number of scopes further out can be given another value. -/
def target (h : Heap) (id : ScopeId) (distance : Nat) (name : Ident) : Except Stop ScopeId :=
  match h.find id distance name.name with
  | .error fault => .error (.fault fault)
  | .ok (outer, binding) =>
    if binding.mutable then .ok outer
      else .error (.blame (.constant binding.value.kind name.name) name.span)

/-- Gives another value to a name a number of scopes further out. -/
def assign (h : Heap) (id : ScopeId) (distance : Nat) (name : Ident) (value : Value) :
    Except Stop Heap :=
  (h.target id distance name).map fun outer => h.define outer name.name true value

/-! ## Lists -/

/-- The elements of a list. -/
def elements (h : Heap) (id : ListId) : Array Value := h.lists[id]?.getD #[]

/-- Makes a list. -/
def newList (h : Heap) (elements : Array Value) : ListId × Heap :=
  (h.lists.size, { h with lists := h.lists.push elements })

/-- Puts a value at an index of a list. -/
def setElement (h : Heap) (id : ListId) (index : Nat) (value : Value) : Heap :=
  { h with lists := h.lists.modify id fun elements => elements.setIfInBounds index value }

/-- Puts a value at the end of a list. -/
def pushElement (h : Heap) (id : ListId) (value : Value) : Heap :=
  { h with lists := h.lists.modify id fun elements => elements.push value }

/-- Puts values at the end of a list, in order. -/
def appendElements (h : Heap) (id : ListId) (values : Array Value) : Heap :=
  { h with lists := h.lists.modify id fun elements => elements ++ values }

/-! ## Instances -/

/-- The properties of an instance. -/
def fields (h : Heap) (id : InstanceId) : Entries Value :=
  (h.instances[id]?.map Instance.fields).getD []

/-- The value of an instance's own property. One that holds `nil` counts as absent wherever it is
looked up; it keeps its place among the properties, and its name. -/
def field? (h : Heap) (id : InstanceId) (name : Text) : Option Value :=
  match (h.fields id).get? name with
  | some .nil => none
  | found => found

/-- The class of an instance. -/
def classOf? (h : Heap) (id : InstanceId) : Option ClassId := h.instances[id]?.bind Instance.ofClass

/-- Makes an instance. -/
def newInstance (h : Heap) (ofClass : Option ClassId) (fields : Entries Value) :
    InstanceId × Heap :=
  (h.instances.size, { h with instances := h.instances.push ⟨ofClass, fields⟩ })

/-- Puts a value under a name of an instance. -/
def setField (h : Heap) (id : InstanceId) (name : Text) (value : Value) : Heap :=
  { h with
    instances := h.instances.modify id fun o => { o with fields := o.fields.put name value } }

/-- Takes a name from an instance. -/
def removeField (h : Heap) (id : InstanceId) (name : Text) : Heap :=
  { h with instances := h.instances.modify id fun o => { o with fields := o.fields.remove name } }

/-! ## Classes -/

/-- Makes a class. -/
def newClass (h : Heap) (c : ClassDef) : ClassId × Heap :=
  (h.classes.size, { h with classes := h.classes.push c })

/-- The constructor that a class itself declares. -/
def constructor? (h : Heap) (id : ClassId) : Option Closure :=
  h.classes[id]?.bind ClassDef.constructor

/-- The method of a class or of the nearest superclass that has it, among the number of classes
given. -/
def methodWithin (h : Heap) (name : Text) : Nat → ClassId → Option Closure
  | 0, _ => none
  | fuel + 1, id =>
    match h.classes[id]? with
    | none => none
    | some c =>
      match c.methods.get? name with
      | some method => some method
      | none => c.superclass.bind (h.methodWithin name fuel)

/-- The method of a class or of the nearest superclass that has it. A superclass is older than its
subclasses, so there are at most as many classes to look at as the place of the class says, and one
more. -/
def method? (h : Heap) (id : ClassId) (name : Text) : Option Closure :=
  h.methodWithin name (id + 1) id

/-- A constructor that does nothing and is equal to no other. -/
def newIdle (h : Heap) : Native × Heap := (.idle h.idles, { h with idles := h.idles + 1 })

/-- A method whose scope knows its receiver. -/
def bindMethod (h : Heap) (receiver : InstanceId) (method : Closure) : Closure × Heap :=
  let (scope, h) := h.fork method.scope [(thisName, ⟨false, .object receiver⟩)]
  (⟨method.function, scope⟩, h)

/-- What a name of an instance stands for: its own property, or else a method of its class. -/
def property? (h : Heap) (id : InstanceId) (name : Text) : Option Property :=
  match h.field? id name with
  | some value => some (.own value)
  | none => ((h.classOf? id).bind fun c => h.method? c name).map Property.method

/-- The value of a property of an instance. A method gets the instance as its receiver. -/
def take (h : Heap) (id : InstanceId) : Property → Value × Heap
  | .own value => (value, h)
  | .method method =>
    let (bound, h) := h.bindMethod id method
    (.closure bound, h)

end Heap

end Lox
