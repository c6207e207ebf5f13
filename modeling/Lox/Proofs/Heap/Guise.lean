import Lox.Builtin
import Lox.Heap.Index
import Lox.Proofs.Evaluation.Causes
import Lox.Proofs.Syntax.Guise
import Lox.Value.Operation

/-!
# Values and heaps in another guise

Functions in a heap keep their trees, and scopes keep the names that programs declare, so a guise of
trees is a guise of values and heaps. A **disguise** is a guise that evaluation cannot tell from
what it replaces: it tells names and function literals apart that are different. Evaluation does
nothing with a span but blame it, so a disguise may move spans as it likes. What a problem is blamed
on tells a subscript from a token.

The names of properties, methods and classes are there to be seen by a program, and are left as they
are. So everything that is done to a heap is done alike to the heap in a disguise, and every text
that a program can ask for is the same.
-/

namespace Lox

/-- A guise that evaluation cannot see through. -/
structure Disguise extends Guise where
  sameLiteral : ∀ run keyword run' keyword',
    ((literal run keyword).1 = (literal run' keyword').1 ∧
      (literal run keyword).2.offset = (literal run' keyword').2.offset) ↔
    run = run' ∧ keyword.offset = keyword'.offset
  lawful : toGuise.Lawful

instance : Coe Disguise Guise := ⟨Disguise.toGuise⟩

/-! ## Entries and arrays -/

namespace Entries

variable {α β : Type} (f : α → β)

/-- The same names with other values. -/
def mapValues (entries : Entries α) : Entries β := entries.map fun entry => (entry.1, f entry.2)

/-- Other names with other values. -/
def dress (g : Guise) (entries : Entries α) : Entries β :=
  entries.map fun entry => (g.name entry.1, f entry.2)

section Lawful

variable {g : Guise} (hg : g.Lawful)

include hg

/-- An entry is found under its other name. -/
theorem get?_dress (entries : Entries α) (name : Text) :
    (entries.dress f g).get? (g.name name) = (entries.get? name).map f :=
  hg.lookup_map f entries name

/-- An entry is put under its other name. -/
theorem put_dress (entries : Entries α) (name : Text) (value : α) :
    put (g.name name) (f value) (entries.dress f g) = (put name value entries).dress f g := by
  induction entries with
  | nil => rfl
  | cons entry entries ih =>
    simp only [dress, List.map_cons, put, hg.beq_name] at ih ⊢
    split
    · rfl
    · rw [ih]
      rfl

end Lawful

theorem get?_mapValues (entries : Entries α) (name : Text) :
    (entries.mapValues f).get? name = (entries.get? name).map f :=
  get?_dress f (Guise.lawful_ofMarks (.moving id)) entries name

theorem put_mapValues (entries : Entries α) (name : Text) (value : α) :
    put name (f value) (entries.mapValues f) = (put name value entries).mapValues f :=
  put_dress f (Guise.lawful_ofMarks (.moving id)) entries name value

/-- Entries are removed by name, whatever becomes of the values. -/
theorem remove_mapValues (entries : Entries α) (name : Text) :
    remove name (entries.mapValues f) = (remove name entries).mapValues f := by
  induction entries with
  | nil => rfl
  | cons entry entries ih =>
    simp only [mapValues, List.map_cons, remove] at ih ⊢
    split
    · rfl
    · rw [ih]
      rfl

theorem names_mapValues (entries : Entries α) : (entries.mapValues f).names = entries.names := by
  simp [names, mapValues]

end Entries

/-- A change of one member commutes with a change of all. -/
theorem modify_map_of_comm {α β : Type} {f : α → β} {g : α → α} {g' : β → β}
    (h : ∀ a, g' (f a) = f (g a)) (xs : Array α) (i : Nat) :
    (xs.map f).modify i g' = (xs.modify i g).map f := by
  apply Array.ext_getElem?
  intro j
  simp only [Array.getElem?_modify, Array.getElem?_map]
  split
  · cases xs[j]? with
    | none => rfl
    | some a => simp [h]
  · rfl

/-! ## Values and heaps in a guise -/

/-- A function in a guise. -/
def Closure.dress (g : Guise) (c : Closure) : Closure := { c with function := c.function.dress g }

/-- A value in a guise. -/
def Value.dress (g : Guise) : Value → Value
  | .closure c => .closure (c.dress g)
  | v => v

/-- A binding in a guise. -/
def Binding.dress (g : Guise) (b : Binding) : Binding := { b with value := b.value.dress g }

/-- A scope in a guise. -/
def Scope.dress (g : Guise) (s : Scope) : Scope :=
  { s with bindings := s.bindings.dress (Binding.dress g) g }

/-- An instance in a guise. -/
def Instance.dress (g : Guise) (o : Instance) : Instance :=
  { o with fields := o.fields.mapValues (Value.dress g) }

/-- A class in a guise. -/
def ClassDef.dress (g : Guise) (c : ClassDef) : ClassDef :=
  { c with
    methods := c.methods.mapValues (Closure.dress g),
    constructor := c.constructor.map (Closure.dress g) }

/-- What a name of an instance stands for, in a guise. -/
def Property.dress (g : Guise) : Property → Property
  | .own value => .own (value.dress g)
  | .method c => .method (c.dress g)

/-- A heap in a guise. -/
def Heap.dress (g : Guise) (h : Heap) : Heap :=
  ⟨h.scopes.map (Scope.dress g), h.lists.map fun elements => elements.map (Value.dress g),
    h.instances.map (Instance.dress g), h.classes.map (ClassDef.dress g), h.idles⟩

/-- A problem in a guise. -/
def RuntimeProblem.dress (g : Guise) : RuntimeProblem → RuntimeProblem
  | .constant kind name => .constant kind (g.name name)
  | problem => problem

/-- Where a site is blamed for a problem, in a guise. -/
def Guise.blame (g : Guise) (problem : RuntimeProblem) (site : Span) : Span :=
  match problem.cause with
  | .subscript => g.subscript site
  | _ => g.span site

/-- A fault in a guise. -/
def Fault.dress (g : Guise) : Fault → Fault
  | .unbound name distance => .unbound (g.name name) distance
  | fault => fault

/-- The end of an evaluation in a guise. -/
def Stop.dress (g : Guise) : Stop → Stop
  | .blame problem site => .blame (problem.dress g) (g.blame problem site)
  | .fault f => .fault (f.dress g)

variable (g : Guise)

/-! ## Problems -/

/-- Only the assignment to a constant quotes a name that a guise changes. -/
theorem RuntimeProblem.dress_of_cause {problem : RuntimeProblem} (h : problem.cause ≠ .assignment) :
    problem.dress g = problem := by
  cases problem with
  | constant => exact absurd rfl h
  | _ => rfl

/-- A subscript is blamed at both of its brackets. -/
theorem Guise.blame_subscript {problem : RuntimeProblem} (h : problem.cause = .subscript)
    (site : Span) : g.blame problem site = g.subscript site := by
  rw [blame, h]

/-- Everything else is blamed at one place. -/
theorem Guise.blame_other {problem : RuntimeProblem} (h : problem.cause ≠ .subscript)
    (site : Span) : g.blame problem site = g.span site := by
  unfold blame
  split
  · next hcause => exact absurd hcause h
  · rfl

/-- A failed subscript is blamed at both of its brackets. -/
theorem Stop.dress_subscript {problem : RuntimeProblem} (h : problem.cause = .subscript)
    (site : Span) : (Stop.blame problem site).dress g = .blame problem (g.subscript site) := by
  rw [dress, RuntimeProblem.dress_of_cause g (by rw [h]; exact Cause.noConfusion),
    g.blame_subscript h]

/-- What is neither a subscript nor an assignment keeps its problem. -/
theorem Stop.dress_other {problem : RuntimeProblem} (hsubscript : problem.cause ≠ .subscript)
    (hassignment : problem.cause ≠ .assignment) (site : Span) :
    (Stop.blame problem site).dress g = .blame problem (g.span site) := by
  rw [dress, RuntimeProblem.dress_of_cause g hassignment, g.blame_other hsubscript]

/-! ## Values -/

namespace Value

@[simp] theorem dress_bool (b : Bool) : (bool b).dress g = bool b := rfl

@[simp] theorem dress_number (x : Float) : (number x).dress g = number x := rfl

@[simp] theorem dress_string (t : Text) : (string t).dress g = string t := rfl

@[simp] theorem dress_char (c : Char) : (char c).dress g = char c := rfl

@[simp] theorem dress_list (id : ListId) : (list id).dress g = list id := rfl

@[simp] theorem dress_object (id : InstanceId) : (object id).dress g = object id := rfl

@[simp] theorem dress_closure (c : Closure) : (closure c).dress g = closure (c.dress g) := rfl

@[simp] theorem dress_native (n : Native) : (native n).dress g = native n := rfl

@[simp] theorem dress_classRef (id : ClassId) : (classRef id).dress g = classRef id := rfl

@[simp] theorem dress_nil : nil.dress g = nil := rfl

/-- A value keeps its kind. -/
@[simp] theorem kind_dress (v : Value) : (v.dress g).kind = v.kind := by
  cases v <;> rfl

/-- A value stays true or false. -/
@[simp] theorem isTrue_dress (v : Value) : (v.dress g).isTrue = v.isTrue := by
  cases v <;> rfl

/-- Literals have no names and no marks. -/
@[simp] theorem ofLiteral_dress (l : Literal) : (ofLiteral l).dress g = ofLiteral l := by
  cases l <;> rfl

end Value

/-- A disguise tells function literals apart that were told apart. -/
theorem Function.sameLiteral_dress (d : Disguise) (f f' : Function) :
    Function.sameLiteral (f.dress d) (f'.dress d) = f.sameLiteral f' := by
  obtain ⟨keyword, run, params, body⟩ := f
  obtain ⟨keyword', run', params', body'⟩ := f'
  rw [Bool.eq_iff_iff]
  simpa [Function.sameLiteral, Function.dress, Function.run, Function.keyword] using
    d.sameLiteral run keyword run' keyword'

/-- A disguise keeps which values are equal. -/
theorem Value.equals_dress (d : Disguise) (v w : Value) :
    (v.dress d).equals (w.dress d) = v.equals w := by
  cases v with
  | closure c =>
    cases w with
    | closure c' => exact Function.sameLiteral_dress d c.function c'.function
    | _ => rfl
  | _ => cases w <;> rfl

/-! ## Scopes -/

namespace Heap

variable (h : Heap)

/-- Scopes stay inside of each other. -/
theorem enclosing?_dress (id : ScopeId) : (h.dress g).enclosing? id = h.enclosing? id := by
  simp only [enclosing?, dress, Array.getElem?_map]
  cases h.scopes[id]? <;> rfl

/-- A scope binds the other names to the values in their guise. -/
theorem bindings_dress (id : ScopeId) :
    (h.dress g).bindings id = (h.bindings id).dress (Binding.dress g) g := by
  simp only [bindings, dress, Array.getElem?_map]
  cases h.scopes[id]? <;> rfl

/-- A scope is opened under the same number. -/
theorem fork_dress (id : ScopeId) (bindings : Entries Binding) :
    (h.dress g).fork id (bindings.dress (Binding.dress g) g) =
      ((h.fork id bindings).1, (h.fork id bindings).2.dress g) := by
  simp [fork, dress, Scope.dress]

/-- A name is bound under its other name. -/
theorem define_dress (d : Disguise) (id : ScopeId) (name : Text) (mutable : Bool) (v : Value) :
    (h.dress d).define id (d.name name) mutable (v.dress d) =
      (h.define id name mutable v).dress d := by
  simp only [define, dress]
  rw [modify_map_of_comm fun s => ?_]
  simp only [Scope.dress, ← Entries.put_dress _ d.lawful]
  rfl

/-- The way out of a scope stays the same. -/
theorem ancestor?_dress (id : ScopeId) (distance : Nat) :
    (h.dress g).ancestor? id distance = h.ancestor? id distance := by
  induction distance generalizing id with
  | zero => rfl
  | succ distance ih =>
    simp only [ancestor?, enclosing?_dress]
    exact congrArg _ (funext ih)

/-- A binding is found where it was found. -/
theorem find_dress (d : Disguise) (id : ScopeId) (distance : Nat) (name : Text) :
    (h.dress d).find id distance (d.name name) =
      ((h.find id distance name).map fun found => (found.1, found.2.dress d)).mapError
        (Fault.dress d) := by
  simp only [find, ancestor?_dress]
  cases h.ancestor? id distance with
  | none => rfl
  | some outer =>
    simp only [bindings_dress, Entries.get?_dress _ d.lawful]
    cases (h.bindings outer).get? name <;> rfl

/-- A name leads to the value that it led to, in its guise. -/
theorem lookup_dress (d : Disguise) (id : ScopeId) (distance : Nat) (name : Text) :
    (h.dress d).lookup id distance (d.name name) =
      ((h.lookup id distance name).map (Value.dress d)).mapError (Fault.dress d) := by
  simp only [lookup, find_dress]
  cases h.find id distance name <;> rfl

/-- An assignment goes to the scope that it went to. -/
theorem target_dress (d : Disguise) (id : ScopeId) (distance : Nat) (name : Ident) :
    (h.dress d).target id distance (name.dress d) =
      (h.target id distance name).mapError (Stop.dress d) := by
  have hname : (name.dress (d : Guise)).name = d.name name.name := rfl
  simp only [target, hname, find_dress]
  cases h.find id distance name.name with
  | error fault => rfl
  | ok found =>
    obtain ⟨outer, mutable, v⟩ := found
    cases mutable with
    | true => rfl
    | false =>
      simp [Except.map, Except.mapError, Binding.dress, Ident.dress, Stop.dress,
        RuntimeProblem.dress, Guise.blame, RuntimeProblem.cause]

/-! ## Lists and instances -/

/-- The elements of a list are in their guise. -/
theorem elements_dress (id : ListId) :
    (h.dress g).elements id = (h.elements id).map (Value.dress g) := by
  simp only [elements, dress, Array.getElem?_map]
  cases h.lists[id]? <;> simp

/-- A list is made under the same number. -/
theorem newList_dress (elements : Array Value) :
    (h.dress g).newList (elements.map (Value.dress g)) =
      ((h.newList elements).1, (h.newList elements).2.dress g) := by
  simp [newList, dress]

/-- A change of the elements of one list. -/
theorem modifyList_dress (id : ListId) {change change' : Array Value → Array Value}
    (hchange : ∀ elements, change' (elements.map (Value.dress g)) =
      (change elements).map (Value.dress g)) :
    { h.dress g with lists := (h.dress g).lists.modify id change' } =
      ({ h with lists := h.lists.modify id change } : Heap).dress g := by
  simp only [dress]
  rw [modify_map_of_comm hchange]

theorem setElement_dress (id : ListId) (index : Nat) (v : Value) :
    (h.dress g).setElement id index (v.dress g) = (h.setElement id index v).dress g :=
  modifyList_dress g h id fun elements => by simp

theorem pushElement_dress (id : ListId) (v : Value) :
    (h.dress g).pushElement id (v.dress g) = (h.pushElement id v).dress g :=
  modifyList_dress g h id fun elements => by simp

theorem appendElements_dress (id : ListId) (values : Array Value) :
    (h.dress g).appendElements id (values.map (Value.dress g)) =
      (h.appendElements id values).dress g :=
  modifyList_dress g h id fun elements => by simp

/-- The properties of an instance keep their names. -/
theorem fields_dress (id : InstanceId) :
    (h.dress g).fields id = (h.fields id).mapValues (Value.dress g) := by
  simp only [fields, dress, Array.getElem?_map]
  cases h.instances[id]? <;> rfl

theorem field?_dress (id : InstanceId) (name : Text) :
    (h.dress g).field? id name = (h.field? id name).map (Value.dress g) := by
  simp only [field?, fields_dress, Entries.get?_mapValues]
  cases (h.fields id).get? name with
  | none => rfl
  | some v => cases v <;> rfl

theorem classOf?_dress (id : InstanceId) : (h.dress g).classOf? id = h.classOf? id := by
  simp only [classOf?, dress, Array.getElem?_map]
  cases h.instances[id]? <;> rfl

/-- An instance is made under the same number. -/
theorem newInstance_dress (ofClass : Option ClassId) (fields : Entries Value) :
    (h.dress g).newInstance ofClass (fields.mapValues (Value.dress g)) =
      ((h.newInstance ofClass fields).1, (h.newInstance ofClass fields).2.dress g) := by
  simp [newInstance, dress, Instance.dress]

/-- A property is set under its own name. -/
theorem setField_dress (id : InstanceId) (name : Text) (v : Value) :
    (h.dress g).setField id name (v.dress g) = (h.setField id name v).dress g := by
  simp only [setField, dress]
  rw [modify_map_of_comm fun o => ?_]
  simp only [Instance.dress, ← Entries.put_mapValues]

theorem removeField_dress (id : InstanceId) (name : Text) :
    (h.dress g).removeField id name = (h.removeField id name).dress g := by
  simp only [removeField, dress]
  rw [modify_map_of_comm fun o => ?_]
  simp only [Instance.dress, ← Entries.remove_mapValues]

/-! ## Classes -/

theorem classes_dress (id : ClassId) :
    (h.dress g).classes[id]? = h.classes[id]?.map (ClassDef.dress g) := by
  simp [dress]

/-- A class is made under the same number. -/
theorem newClass_dress (c : ClassDef) :
    (h.dress g).newClass (c.dress g) = ((h.newClass c).1, (h.newClass c).2.dress g) := by
  simp [newClass, dress]

/-- The constructor of a class is in its guise. -/
theorem constructor?_dress (id : ClassId) :
    (h.dress g).constructor? id = (h.constructor? id).map (Closure.dress g) := by
  simp only [constructor?, classes_dress]
  cases h.classes[id]? <;> rfl

/-- A method is found in the class where it was found. -/
theorem methodWithin_dress (name : Text) (fuel : Nat) (id : ClassId) :
    (h.dress g).methodWithin name fuel id =
      (h.methodWithin name fuel id).map (Closure.dress g) := by
  induction fuel generalizing id with
  | zero => rfl
  | succ fuel ih =>
    simp only [methodWithin, classes_dress]
    cases h.classes[id]? with
    | none => rfl
    | some c =>
      simp only [Option.map_some, ClassDef.dress, Entries.get?_mapValues]
      cases c.methods.get? name with
      | some method => rfl
      | none =>
        cases c.superclass with
        | none => rfl
        | some superclass => exact ih superclass

theorem method?_dress (id : ClassId) (name : Text) :
    (h.dress g).method? id name = (h.method? id name).map (Closure.dress g) :=
  methodWithin_dress g h name (id + 1) id

/-- A method is bound to the receiver that it was bound to. -/
theorem bindMethod_dress (d : Disguise) (receiver : InstanceId) (method : Closure) :
    (h.dress d).bindMethod receiver (method.dress d) =
      ((h.bindMethod receiver method).1.dress d, (h.bindMethod receiver method).2.dress d) := by
  have hfork := fork_dress d h method.scope [(thisName, ⟨false, .object receiver⟩)]
  simp only [Entries.dress, List.map_singleton, d.lawful.receiver] at hfork
  simp only [bindMethod, Closure.dress]
  exact congrArg (fun made : ScopeId × Heap =>
    ((⟨method.function.dress d, made.1⟩ : Closure), made.2)) hfork

/-- A property is found where it was found. -/
theorem property?_dress (id : InstanceId) (name : Text) :
    (h.dress g).property? id name = (h.property? id name).map (Property.dress g) := by
  simp only [property?, field?_dress, classOf?_dress]
  cases h.field? id name with
  | some v => rfl
  | none =>
    cases h.classOf? id with
    | none => rfl
    | some c =>
      simp only [Option.map_none, Option.bind_some, method?_dress]
      cases h.method? c name <;> rfl

/-- What a property gives is in its guise. -/
theorem take_dress (d : Disguise) (id : InstanceId) (property : Property) :
    (h.dress d).take id (property.dress d) =
      ((h.take id property).1.dress d, (h.take id property).2.dress d) := by
  cases property with
  | own v => rfl
  | method c => simp only [take, Property.dress, bindMethod_dress, Value.dress]

end Heap

/-! ## Printing -/

namespace Value

/-- Plain values are printed alike. -/
theorem printedPlain_dress (h : Heap) (v : Value) :
    printedPlain (h.dress g) (v.dress g) = printedPlain h v := by
  have hclass : ∀ id, printedPlain.className (h.dress g) id = printedPlain.className h id := by
    intro id
    simp only [printedPlain.className, Heap.classes_dress]
    cases h.classes[id]? <;> rfl
  cases v with
  | classRef id => exact hclass id
  | object id => simp only [printedPlain, dress, Heap.classOf?_dress, funext hclass]
  | _ => rfl

/-- Values are printed alike if what they hold is. -/
theorem printedWith_dress (h : Heap) (limit : Nat) {item item' : Value → Text}
    (hitem : ∀ v, item' (v.dress g) = item v) (v : Value) :
    printedWith (h.dress g) limit item' (v.dress g) = printedWith h limit item v := by
  have hplain := printedPlain_dress g h v
  cases v with
  | list id =>
    simp only [printedWith, dress, Heap.elements_dress, Array.toList_map, Array.size_map,
      ← List.map_take, List.map_map]
    rw [show item' ∘ dress g = item from funext hitem]
  | object id =>
    simp only [printedWith, dress, Heap.classOf?_dress]
    cases h.classOf? id with
    | some c => exact hplain
    | none =>
      simp only [Heap.fields_dress, Entries.mapValues, ← List.map_take, List.map_map,
        List.length_map]
      congr 2
      funext f
      simp [hitem]
  | _ => exact hplain

/-- A value is printed as before. -/
theorem printed_dress (h : Heap) (v : Value) : (v.dress g).printed (h.dress g) = v.printed h :=
  printedWith_dress g h maxPrintedItems (printedWith_dress g h 0 (printedPlain_dress g h)) v

end Value

/-! ## Copying -/

namespace Heap

/-- A value and a heap in a guise. -/
def dressCopy (copy : Value × Heap) : Value × Heap := (copy.1.dress g, copy.2.dress g)

variable {g} {copy : Heap → Value → Option (Value × Heap)}
  (hcopy : ∀ h v, copy (h.dress g) (v.dress g) = (copy h v).map (dressCopy g))

include hcopy

/-- Elements are copied in their guise, if each of them is. -/
theorem copyElements_dress (h : Heap) (values : List Value) :
    copyElements copy (h.dress g) (values.map (Value.dress g)) =
      (copyElements copy h values).map fun made =>
        (made.1.map (Value.dress g), made.2.dress g) := by
  induction values generalizing h with
  | nil => rfl
  | cons v rest ih =>
    simp only [List.map_cons, copyElements, hcopy]
    cases copy h v with
    | none => rfl
    | some made =>
      obtain ⟨v', h'⟩ := made
      simp only [Option.map_some, dressCopy, Option.bind_eq_bind, Option.bind_some, ih]
      cases copyElements copy h' rest <;> rfl

/-- Properties are copied in their guise, if each of them is. -/
theorem copyFields_dress (h : Heap) (fields : Entries Value) :
    copyFields copy (h.dress g) (fields.mapValues (Value.dress g)) =
      (copyFields copy h fields).map fun made =>
        (made.1.mapValues (Value.dress g), made.2.dress g) := by
  induction fields generalizing h with
  | nil => rfl
  | cons field rest ih =>
    obtain ⟨name, v⟩ := field
    simp only [Entries.mapValues, List.map_cons, copyFields, hcopy] at ih ⊢
    cases copy h v with
    | none => rfl
    | some made =>
      obtain ⟨v', h'⟩ := made
      simp only [Option.map_some, dressCopy, Option.bind_eq_bind, Option.bind_some, ih]
      cases copyFields copy h' rest <;> rfl

omit hcopy

/-- A value is copied in its guise, level by level. -/
theorem copyWithin_dress (levels : Nat) (h : Heap) (v : Value) :
    copyWithin levels (h.dress g) (v.dress g) = (copyWithin levels h v).map (dressCopy g) := by
  induction levels generalizing h v with
  | zero => cases v <;> rfl
  | succ levels ih =>
    cases v with
    | list id =>
      have helements := copyElements_dress ih h (h.elements id).toList
      simp only [copyWithin, Value.dress, elements_dress, Array.toList_map, helements]
      cases copyElements (copyWithin levels) h (h.elements id).toList with
      | none => rfl
      | some made =>
        have hlist := newList_dress g made.2 made.1.toArray
        simp only [List.map_toArray] at hlist
        simp only [Option.map_some, Option.bind_eq_bind, Option.bind_some, hlist]
        rfl
    | object id =>
      have hfields := copyFields_dress ih h (h.fields id)
      simp only [copyWithin, Value.dress, fields_dress, classOf?_dress, hfields]
      cases copyFields (copyWithin levels) h (h.fields id) with
      | none => rfl
      | some made =>
        simp only [Option.map_some, Option.bind_eq_bind, Option.bind_some, newInstance_dress]
        rfl
    | _ => rfl

/-- The deep copy of a value in a guise is its deep copy in that guise. -/
theorem deepCopy_dress (h : Heap) (v : Value) :
    (h.dress g).deepCopy (v.dress g) = (h.deepCopy v).map (dressCopy g) := by
  have hsizes : (h.dress g).lists.size = h.lists.size ∧ (h.dress g).instances.size =
      h.instances.size := by
    simp [dress]
  rw [deepCopy, deepCopy, hsizes.1, hsizes.2, copyWithin_dress]

end Heap

end Lox
