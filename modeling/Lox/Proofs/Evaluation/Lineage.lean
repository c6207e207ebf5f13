import Lox.Machine
import Lox.Proofs.Evaluation.Contents
import Lox.Proofs.Resolution.Enclosure

/-!
# Where functions and scopes come from

Every function that there is while programs run is written somewhere in them, and the scope it has
taken with it lies in scopes that have been opened by just what the function is written in. A
**lineage** tells what has opened each scope. A heap is **traced** if its functions and its names
agree with the lineage: a block binds no names but those that it declares, the scope of a receiver
binds an instance under `this`, and the scope of a superclass binds, under `super`, the class that
was extended when the scope was opened.

Nothing is asked of the distances that resolution writes into a program, and a run may end with a
fault.
-/

namespace Lox

open Code

/-- Where a binding is found. -/
theorem Heap.of_find_eq_ok {h : Heap} {id outer : ScopeId} {distance : Nat} {name : Text}
    {binding : Binding} (hfind : h.find id distance name = .ok (outer, binding)) :
    h.ancestor? id distance = some outer ∧ (h.bindings outer).get? name = some binding := by
  unfold Heap.find at hfind
  split at hfind
  · cases hfind
  · next found hfound =>
    split at hfind
    · cases hfind
    · next hget =>
      obtain ⟨rfl, rfl⟩ := Prod.mk.inj (Except.ok.inj hfind)
      exact ⟨hfound, hget⟩

/-- What is assigned to is bound, and may be assigned to. -/
theorem Heap.exists_of_target {h : Heap} {id outer : ScopeId} {distance : Nat} {name : Ident}
    (htarget : h.target id distance name = .ok outer) :
    ∃ binding, (name.name, binding) ∈ h.bindings outer ∧ binding.mutable = true := by
  simp only [Heap.target] at htarget
  split at htarget
  · cases htarget
  · next binding hfind =>
    split at htarget
    · next hmutable =>
      obtain rfl := Except.ok.inj htarget
      exact ⟨binding, Entries.mem_of_get? (Heap.of_find_eq_ok hfind).2, hmutable⟩
    · cases htarget

/-- A value that is found is that of a binding. -/
theorem Heap.exists_of_lookup {h : Heap} {id : ScopeId} {distance : Nat} {name : Text} {v : Value}
    (hv : h.lookup id distance name = .ok v) :
    ∃ outer binding, (name, binding) ∈ h.bindings outer ∧ binding.value = v := by
  rw [Heap.lookup] at hv
  cases hfind : h.find id distance name with
  | error fault =>
    rw [hfind] at hv
    cases hv
  | ok found =>
    rw [hfind] at hv
    exact ⟨found.1, found.2, Entries.mem_of_get? (Heap.of_find_eq_ok hfind).2, Except.ok.inj hv⟩

/-- Superclasses are older than their subclasses. -/
def Heap.Ancestral (h : Heap) : Prop :=
  ∀ (id : ClassId) c, h.classes[id]? = some c → ∀ superclass ∈ c.superclass, superclass < id

/-- A method that is found is one of a class. -/
theorem Heap.exists_of_methodWithin {h : Heap} {name : Text} {fuel : Nat} {id : ClassId}
    {c : Closure} (hc : h.methodWithin name fuel id = some c) :
    ∃ (owner : ClassId) (d : ClassDef), h.classes[owner]? = some d ∧ (name, c) ∈ d.methods := by
  induction fuel generalizing id with
  | zero => cases hc
  | succ fuel ih =>
    simp only [Heap.methodWithin] at hc
    split at hc
    · cases hc
    · next d hd =>
      split at hc
      · next m hm =>
        obtain rfl := Option.some.inj hc
        exact ⟨id, d, hd, Entries.mem_of_get? hm⟩
      · obtain ⟨superclass, -, hc⟩ := Option.bind_eq_some_iff.mp hc
        exact ih hc

/-- What has opened the scopes of a heap, and which classes have been extended, while programs
run. -/
structure Lineage where
  programs : StaticScope → List Stmt → Prop
  opened : ScopeId → Opener → Prop
  /-- A scope was opened for the methods of a class, and this class was the superclass then. -/
  extended : ScopeId → ClassId → Prop
  once : ∀ {id : ScopeId} {opener opener' : Opener}, opened id opener → opened id opener' →
    opener = opener'

/-- The word that is bound in a scope from the start. -/
def Opener.word? : Opener → Option Text
  | .receiver _ => some thisName
  | .superclass _ _ _ => some superName
  | .root | .block _ | .call _ => none

namespace Lineage

variable (l : Lineage)

/-- A name that the root scope can have: that of a native, or one that a program declares. -/
def Global (d : Text × Bool) : Prop :=
  (∃ b : Builtin, d = (utf8 b.name, true)) ∨
    ∃ names body, l.programs names body ∧ d ∈ declaresOf body

/-- A scope may have a binding, as far as its opener is concerned. -/
def Binds (id : ScopeId) (name : Text) (binding : Binding) : Opener → Prop
  | .receiver _ => name = thisName ∧ ∃ receiver, binding = ⟨false, .object receiver⟩
  | .superclass _ _ _ => name = superName ∧ ∃ superclass, binding = ⟨false, .classRef superclass⟩ ∧
      l.extended id superclass
  | opener => opener.Holds l.Global (name, binding.mutable)

section Definitions

variable (h : Heap)

/-- The scopes around a scope have been opened by openers, one by one. -/
inductive Within : ScopeId → List Opener → Prop
  | last {id : ScopeId} {opener : Opener} : l.opened id opener → id < h.scopes.size →
      Within id [opener]
  | inside {id outer : ScopeId} {opener : Opener} {openers : List Opener} :
      l.opened id opener → id < h.scopes.size → h.enclosing? id = some outer →
      Within outer openers → Within id (opener :: openers)

/-- A part of a program is evaluated in a scope that lies in just the scopes that the part is
written in. -/
def Stands (id : ScopeId) (c : Code) : Prop :=
  ∃ context frames, Visit l.programs context frames c ∧ l.Within h id (openersOf frames)

/-- A method comes from a class, and waits for a receiver. -/
def Awaits (c : Closure) : Prop :=
  ∃ context frames, Visit l.programs context (receiverFrame c.function :: frames)
    (.function c.function) ∧ l.Within h c.scope (openersOf frames)

/-- A function is written where its scope has been opened, and a class is there. -/
def TracedValue : Value → Prop
  | .closure c => l.Stands h c.scope (.function c.function)
  | .classRef id => id < h.classes.size
  | _ => True

/-- A class extends an older one, and its methods are its own. -/
structure TracedClass (id : ClassId) (c : ClassDef) : Prop where
  superclass : ∀ superclass ∈ c.superclass, superclass < id
  methods : ∀ name m, (name, m) ∈ c.methods → l.Awaits h m
  constructor : ∀ m ∈ c.constructor, l.Awaits h m

/-- All functions, classes and names of a heap agree with the lineage. -/
structure TracedHeap : Prop where
  root : Heap.root < h.scopes.size
  binds : ∀ id opener name binding, l.opened id opener → (name, binding) ∈ h.bindings id →
    l.Binds id name binding opener
  words : ∀ id opener, l.opened id opener → id < h.scopes.size →
    ∀ word ∈ opener.word?, h.Bound id word
  values : ∀ id name binding, (name, binding) ∈ h.bindings id → l.TracedValue h binding.value
  stores : h.Stores (l.TracedValue h)
  classes : ∀ (id : ClassId) c, h.classes[id]? = some c → l.TracedClass h id c

end Definitions

variable {l} {h : Heap} {id : ScopeId} {openers : List Opener}

/-- Data has no lineage. -/
theorem ofData_tracedValue : OfData (l.TracedValue h) := by
  intro v hv
  cases v with
  | closure | classRef => exact hv.elim
  | _ => trivial

/-- A class is younger than the one it extends. -/
theorem TracedHeap.ancestral (hh : l.TracedHeap h) : h.Ancestral :=
  fun id c hc => (hh.classes id c hc).superclass

/-- In a scope that statements are evaluated in, only the name counts and whether it may be assigned
to. -/
theorem binds_iff {name : Text} {binding : Binding} {opener : Opener} (hopen : opener.IsOpen) :
    l.Binds id name binding opener ↔ opener.Holds l.Global (name, binding.mutable) := by
  cases opener with
  | root | block | call => rfl
  | receiver | superclass => exact hopen.elim

/-- The innermost scope was opened for the innermost opener. -/
theorem Within.opened {opener : Opener} (hw : l.Within h id (opener :: openers)) :
    l.opened id opener := by
  cases hw with
  | last hopened _ | inside hopened _ _ _ => exact hopened

/-- The scope at a distance has been opened by the opener at that distance. -/
theorem Within.ancestor (hw : l.Within h id openers) {distance : Nat} {opener : Opener}
    (hopener : openers[distance]? = some opener) :
    ∃ outer, h.ancestor? id distance = some outer ∧ outer < h.scopes.size ∧
      l.opened outer opener := by
  induction hw generalizing distance with
  | @last id last hopened hid =>
    cases distance with
    | zero =>
      obtain rfl := Option.some.inj hopener
      exact ⟨id, rfl, hid, hopened⟩
    | succ distance => cases hopener
  | @inside id outer first openers hopened hid henclosing _ ih =>
    cases distance with
    | zero =>
      obtain rfl := Option.some.inj hopener
      exact ⟨id, rfl, hid, hopened⟩
    | succ distance =>
      obtain ⟨found, hfound, hrest⟩ := ih hopener
      exact ⟨found, by simp [Heap.ancestor?, henclosing, hfound], hrest⟩

/-! ## Parts of what stands in a scope -/

section Stands

/-- The first statement stands where all of them do. -/
theorem Stands.first {s : Stmt} {rest : List Stmt} (hs : l.Stands h id (.stmts (s :: rest))) :
    l.Stands h id (.stmt s) := by
  obtain ⟨context, frames, hvisit, hw⟩ := hs
  exact ⟨context, frames, hvisit.first, hw⟩

/-- So do the others. -/
theorem Stands.next {s : Stmt} {rest : List Stmt} (hs : l.Stands h id (.stmts (s :: rest))) :
    l.Stands h id (.stmts rest) := by
  obtain ⟨context, frames, hvisit, hw⟩ := hs
  exact ⟨context, _, hvisit.next, by rwa [openersOf_declareIn]⟩

/-- So do inner statements. -/
theorem Stands.inner {s s' : Stmt} (hs : l.Stands h id (.stmt s)) (hs' : s' ∈ s.inner) :
    l.Stands h id (.stmt s') := by
  obtain ⟨context, frames, hvisit, hw⟩ := hs
  exact ⟨context, frames, hvisit.inner hs', hw⟩

theorem Stands.expr {s : Stmt} {e : Expr} (hs : l.Stands h id (.stmt s)) (he : e ∈ s.exprs) :
    l.Stands h id (.expr e) := by
  obtain ⟨context, frames, hvisit, hw⟩ := hs
  exact ⟨context, frames, hvisit.expr he, hw⟩

/-- So do the parts of an expression. -/
theorem Stands.part {e e' : Expr} (hs : l.Stands h id (.expr e)) (he' : e' ∈ e.parts) :
    l.Stands h id (.expr e') := by
  obtain ⟨context, frames, hvisit, hw⟩ := hs
  exact ⟨context, frames, hvisit.part he', hw⟩

theorem Stands.literal {name : Option Ident} {f : Function}
    (hs : l.Stands h id (.expr (.lambda name f))) : l.Stands h id (.function f) := by
  obtain ⟨context, frames, hvisit, hw⟩ := hs
  exact ⟨context, _, hvisit.literal, by rwa [openersOf_declareIn]⟩

/-- A name that a part declares may be bound in its scope, whatever value it gets. -/
theorem Stands.binds {c : Code} (hs : l.Stands h id c) {d : Deed} (hd : d ∈ c.deeds) {name : Text}
    {mutable : Bool} (hdeclared : d.declared? = some (name, mutable)) (v : Value) {opener : Opener}
    (hopened : l.opened id opener) : l.Binds id name ⟨mutable, v⟩ opener := by
  obtain ⟨context, frames, hvisit, hw⟩ := hs
  have hglobal : ∀ names body, l.programs names body → ∀ x ∈ declaresOf body, l.Global x :=
    fun names body hprogram x hx => .inr ⟨names, body, hprogram, hx⟩
  obtain ⟨first, openers, hopeners, hopen, hholds⟩ := hvisit.holds hglobal hd hdeclared
  rw [hopeners] at hw
  obtain rfl := l.once hopened hw.opened
  exact (binds_iff hopen).mpr hholds

end Stands

/-! ## Growth -/

section Growth

variable {h' : Heap} (hg : h.Grows h')

include hg

/-- Where a scope lies does not change. -/
theorem Within.mono (hw : l.Within h id openers) : l.Within h' id openers := by
  induction hw with
  | last hopened hid => exact .last hopened (hid.trans_le hg.scopes)
  | inside hopened hid henclosing _ ih =>
    exact .inside hopened (hid.trans_le hg.scopes) (hg.enclosing _ _ henclosing) ih

theorem Stands.mono {c : Code} (hs : l.Stands h id c) : l.Stands h' id c := by
  obtain ⟨context, frames, hvisit, hw⟩ := hs
  exact ⟨context, frames, hvisit, hw.mono hg⟩

theorem Awaits.mono {c : Closure} (hc : l.Awaits h c) : l.Awaits h' c := by
  obtain ⟨context, frames, hvisit, hw⟩ := hc
  exact ⟨context, frames, hvisit, hw.mono hg⟩

/-- A traced value stays one. -/
theorem TracedValue.mono {v : Value} (hv : l.TracedValue h v) : l.TracedValue h' v := by
  cases v with
  | closure => exact Stands.mono hg hv
  | classRef => exact hv.trans_le hg.classes
  | _ => trivial

theorem TracedClass.mono {id : ClassId} {c : ClassDef} (hc : l.TracedClass h id c) :
    l.TracedClass h' id c :=
  ⟨hc.superclass, fun name m hm => (hc.methods name m hm).mono hg,
    fun m hm => (hc.constructor m hm).mono hg⟩

end Growth

/-- A scope lies within the one it was opened in. -/
theorem Within.fork (hw : l.Within h id openers) {opener : Opener}
    (hopened : l.opened h.scopes.size opener) (bindings : Entries Binding) :
    l.Within (h.fork id bindings).2 h.scopes.size (opener :: openers) := by
  refine .inside hopened (by simp [Heap.fork]) ?_ (hw.mono (Heap.grows_fork id bindings))
  rw [Heap.enclosing?_fork, if_pos rfl]

/-! ## Changes of the heap -/

section Changes

variable (hh : l.TracedHeap h)

include hh

/-- A heap is traced if all that is new in it is. What is new may need all of what is new. -/
theorem TracedHeap.grow {h' : Heap} (hg : h.Grows h')
    (binds : ∀ id opener name binding, l.opened id opener → (name, binding) ∈ h'.bindings id →
      (name, binding) ∈ h.bindings id ∨ l.Binds id name binding opener)
    (words : ∀ id opener, l.opened id opener → id < h'.scopes.size → ¬ id < h.scopes.size →
      ∀ word ∈ opener.word?, h'.Bound id word)
    (values : ∀ id name binding, (name, binding) ∈ h'.bindings id →
      (name, binding) ∈ h.bindings id ∨ l.TracedValue h' binding.value)
    (stores : h'.Stores (l.TracedValue h'))
    (classes : ∀ (id : ClassId) c, h'.classes[id]? = some c → h.classes[id]? = some c ∨
      l.TracedClass h' id c) : l.TracedHeap h' where
  root := hh.root.trans_le hg.scopes
  binds id opener name binding hopened hmem :=
    (binds id opener name binding hopened hmem).elim (hh.binds id opener name binding hopened)
      fun new => new
  words id opener hopened hid word hword := by
    by_cases hold : id < h.scopes.size
    · exact hg.bound _ _ (hh.words id opener hopened hold word hword)
    · exact words id opener hopened hid hold word hword
  values id name binding hmem :=
    (values id name binding hmem).elim (fun old => (hh.values id name binding old).mono hg)
      fun new => new
  stores := stores
  classes id c hmem :=
    (classes id c hmem).elim (fun old => (hh.classes id c old).mono hg) fun new => new

/-- Lists and instances may change as long as what they hold is traced. -/
theorem TracedHeap.of_stores {h' : Heap} (hg : h.Grows h') (hscopes : h'.scopes = h.scopes)
    (hclasses : h'.classes = h.classes) (hstores : h'.Stores (l.TracedValue h)) :
    l.TracedHeap h' := by
  have hbindings : ∀ id, h'.bindings id = h.bindings id :=
    fun id => by rw [Heap.bindings, Heap.bindings, hscopes]
  refine hh.grow hg (fun id _ name binding _ hmem => .inl (hbindings id ▸ hmem))
    (fun id opener _ hid hnew => ?_) (fun id name binding hmem => .inl (hbindings id ▸ hmem))
    (hstores.mono fun v hv => hv.mono hg) fun id c hmem => .inl (hclasses ▸ hmem)
  exact absurd (hscopes ▸ hid) hnew

/-- A scope is opened with what its opener binds. -/
theorem TracedHeap.fork {opener : Opener} (hopened : l.opened h.scopes.size opener)
    {bindings : Entries Binding}
    (hbinds : ∀ name binding, (name, binding) ∈ bindings →
      l.Binds h.scopes.size name binding opener)
    (hvalues : ∀ name binding, (name, binding) ∈ bindings → l.TracedValue h binding.value)
    (hwords : ∀ word ∈ opener.word?, ∃ binding, bindings.get? word = some binding) :
    l.TracedHeap (h.fork id bindings).2 := by
  have hg : h.Grows (h.fork id bindings).2 := Heap.grows_fork id bindings
  refine hh.grow hg (fun at' opener' name binding hopened' hmem => ?_)
    (fun at' opener' hopened' hid hnew => ?_) (fun at' name binding hmem => ?_)
    ((hh.stores.mono fun v hv => hv.mono hg).of_eq rfl rfl) fun _ _ => .inl
  · rw [Heap.bindings_fork] at hmem
    split at hmem
    · next heq =>
      subst heq
      obtain rfl := l.once hopened hopened'
      exact .inr (hbinds name binding hmem)
    · exact .inl hmem
  · have hid : at' < h.scopes.size + 1 := by simpa [Heap.fork] using hid
    obtain rfl : at' = h.scopes.size := (Nat.lt_succ_iff.mp hid).antisymm (Nat.not_lt.mp hnew)
    obtain rfl := l.once hopened hopened'
    intro word hword
    rw [Heap.Bound, Heap.bindings_fork, if_pos rfl]
    exact hwords word hword
  · rw [Heap.bindings_fork] at hmem
    split at hmem
    · exact .inr ((hvalues name binding hmem).mono hg)
    · exact .inl hmem

/-- A name is bound as its scope allows. -/
theorem TracedHeap.define {name : Text} {mutable : Bool} {v : Value}
    (hbinds : ∀ opener, l.opened id opener → l.Binds id name ⟨mutable, v⟩ opener)
    (hv : l.TracedValue h v) : l.TracedHeap (h.define id name mutable v) := by
  have hg : h.Grows (h.define id name mutable v) := Heap.grows_define ..
  have hmem : ∀ {at' : ScopeId} {other : Text} {binding : Binding},
      (other, binding) ∈ (h.define id name mutable v).bindings at' →
      (other, binding) ∈ h.bindings at' ∨ at' = id ∧ other = name ∧ binding = ⟨mutable, v⟩ := by
    intro at' other binding hmem
    rw [Heap.bindings_define] at hmem
    split at hmem
    · next hat =>
      rcases Entries.mem_put hmem with heq | hmem
      · exact .inr ⟨hat.1, Prod.mk.inj heq⟩
      · exact .inl hmem
    · exact .inl hmem
  refine hh.grow hg (fun at' opener other binding hopened hnew => ?_)
    (fun at' opener _ hid hnew => ?_) (fun at' other binding hnew => ?_)
    ((hh.stores.mono fun v hv => hv.mono hg).of_eq rfl rfl) fun _ _ => .inl
  · rcases hmem hnew with hold | ⟨rfl, rfl, rfl⟩
    · exact .inl hold
    · exact .inr (hbinds opener hopened)
  · simp only [Heap.define, Array.size_modify] at hid
    exact absurd hid hnew
  · rcases hmem hnew with hold | ⟨rfl, rfl, rfl⟩
    · exact .inl hold
    · exact .inr (hv.mono hg)

/-- A class is made that is traced. -/
theorem TracedHeap.newClass {c : ClassDef} (hc : l.TracedClass h h.classes.size c) :
    l.TracedHeap (h.newClass c).2 := by
  have hg : h.Grows (h.newClass c).2 := Heap.grows_newClass c
  refine hh.grow hg (fun _ _ _ _ _ => .inl) (fun _ _ _ hid hnew => absurd hid hnew)
    (fun _ _ _ => .inl) ((hh.stores.mono fun v hv => hv.mono hg).of_eq rfl rfl) fun id c' hmem => ?_
  simp only [Heap.newClass, Array.getElem?_push] at hmem
  split at hmem
  · next heq =>
    obtain rfl := Option.some.inj hmem
    exact .inr (heq ▸ hc.mono hg)
  · exact .inl hmem

theorem TracedHeap.newList {elements : Array Value}
    (helements : ∀ v ∈ elements, l.TracedValue h v) : l.TracedHeap (h.newList elements).2 :=
  hh.of_stores (Heap.grows_newList elements) rfl rfl (hh.stores.newList helements)

theorem TracedHeap.newInstance (ofClass : Option ClassId) {fields : Entries Value}
    (hfields : ∀ name v, (name, v) ∈ fields → l.TracedValue h v) :
    l.TracedHeap (h.newInstance ofClass fields).2 :=
  hh.of_stores (Heap.grows_newInstance ofClass fields) rfl rfl
    (hh.stores.newInstance ofClass hfields)

/-! ## What is read from a traced heap -/

/-- A name leads to a traced value. -/
theorem TracedHeap.lookup {distance : Nat} {name : Text} {v : Value}
    (hv : h.lookup id distance name = .ok v) : l.TracedValue h v := by
  obtain ⟨outer, binding, hmem, rfl⟩ := Heap.exists_of_lookup hv
  exact hh.values outer name binding hmem

theorem TracedHeap.constructor? {id : ClassId} {c : Closure} (hc : h.constructor? id = some c) :
    l.Awaits h c := by
  obtain ⟨d, hd, hc⟩ := Option.bind_eq_some_iff.mp hc
  exact (hh.classes id d hd).constructor c hc

/-- A method that is found on the way up awaits its receiver. -/
theorem TracedHeap.methodWithin {name : Text} {fuel : Nat} {id : ClassId} {c : Closure}
    (hc : h.methodWithin name fuel id = some c) : l.Awaits h c := by
  obtain ⟨owner, d, hd, hmem⟩ := Heap.exists_of_methodWithin hc
  exact (hh.classes owner d hd).methods name c hmem

end Changes

end Lineage

end Lox
