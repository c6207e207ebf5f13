import Mathlib
import Lox.Heap

/-!
# How a heap grows

What a change of the heap does to what can be read from it: to the bindings of a scope, to the scope
around it, to the elements of a list and to the properties of an instance. Nothing is ever taken
out, but for properties: every change **grows** the heap, so that a name that is bound in a scope
stays bound there, and a scope stays where it is.
-/

namespace Lox

/-! ## Entries -/

namespace Entries

variable {α : Type} {entries : Entries α} {name other : Text} {value : α}

/-- What is found is an entry. -/
theorem mem_of_get? (h : entries.get? name = some value) : (name, value) ∈ entries := by
  obtain ⟨before, after, rfl, -⟩ := List.lookup_eq_some_iff.mp h
  exact List.mem_append_right _ List.mem_cons_self

/-- Something is found under the name of an entry. -/
theorem get?_ne_none_of_mem (h : (name, value) ∈ entries) :
    ∃ found, entries.get? name = some found := by
  refine Option.ne_none_iff_exists'.mp fun hnone => ?_
  have := List.lookup_eq_none_iff.mp hnone (name, value) h
  simp at this

theorem get?_cons (key : Text) (old : α) (rest : Entries α) (other : Text) :
    get? ((key, old) :: rest) other = if other = key then some old else rest.get? other := by
  simp only [get?, List.lookup]
  by_cases h : other = key
  · simp [h]
  · simp [beq_eq_false_iff_ne.mpr h, h]

/-- The entry that is put is found, and the others as before. -/
theorem get?_put (entries : Entries α) (name other : Text) (value : α) :
    (entries.put name value).get? other = if other = name then some value
      else entries.get? other := by
  induction entries with
  | nil => rw [put, get?_cons]
  | cons entry rest ih =>
    obtain ⟨key, old⟩ := entry
    rw [put]
    by_cases hkey : name = key
    · subst hkey
      rw [if_pos (beq_self_eq_true name), get?_cons, get?_cons]
      split <;> rfl
    · rw [if_neg (by simpa using hkey), get?_cons, get?_cons, ih]
      split
      · next h => rw [if_neg (h ▸ Ne.symm hkey)]
      · rfl

/-- The entry that is put is the only new one. -/
theorem mem_put {entry : Text × α} (h : entry ∈ entries.put name value) :
    entry = (name, value) ∨ entry ∈ entries := by
  induction entries with
  | nil => exact .inl (List.mem_singleton.mp h)
  | cons first rest ih =>
    obtain ⟨key, old⟩ := first
    rw [put] at h
    split at h
    · rcases List.mem_cons.mp h with h | h
      · exact .inl h
      · exact .inr (List.mem_cons_of_mem _ h)
    · rcases List.mem_cons.mp h with h | h
      · exact .inr (h ▸ List.mem_cons_self)
      · exact (ih h).imp_right (List.mem_cons_of_mem _)

/-- What holds of all values and of a new one holds of all once it is put. -/
theorem forall_mem_put {p : α → Prop} (hvalue : p value) (h : ∀ key v, (key, v) ∈ entries → p v) :
    ∀ key v, (key, v) ∈ entries.put name value → p v := by
  intro key v hmem
  rcases mem_put hmem with heq | hmem
  · obtain ⟨rfl, rfl⟩ := Prod.mk.inj heq
    exact hvalue
  · exact h key v hmem

theorem mem_of_mem_remove {entry : Text × α} (h : entry ∈ entries.remove name) :
    entry ∈ entries := by
  induction entries with
  | nil => exact h
  | cons first rest ih =>
    obtain ⟨key, old⟩ := first
    rw [remove] at h
    split at h
    · exact List.mem_cons_of_mem _ h
    · rcases List.mem_cons.mp h with h | h
      · exact h ▸ List.mem_cons_self
      · exact List.mem_cons_of_mem _ (ih h)

end Entries

namespace Heap

variable (h : Heap)

/-! ## Scopes -/

/-- Only the new scope has the new bindings. -/
theorem bindings_fork (id : ScopeId) (bindings : Entries Binding) (at' : ScopeId) :
    (h.fork id bindings).2.bindings at' = if at' = h.scopes.size then bindings
      else h.bindings at' := by
  simp only [fork, Heap.bindings, Array.getElem?_push]
  split <;> rfl

/-- Only the new scope lies inside of the one it was opened in. -/
theorem enclosing?_fork (id : ScopeId) (bindings : Entries Binding) (at' : ScopeId) :
    (h.fork id bindings).2.enclosing? at' = if at' = h.scopes.size then some id
      else h.enclosing? at' := by
  simp only [fork, enclosing?, Array.getElem?_push]
  split <;> rfl

/-- Only one scope has a new binding. -/
theorem bindings_define (id : ScopeId) (name : Text) (mutable : Bool) (value : Value)
    (at' : ScopeId) :
    (h.define id name mutable value).bindings at' =
      if at' = id ∧ id < h.scopes.size then (h.bindings at').put name ⟨mutable, value⟩
        else h.bindings at' := by
  simp only [define, Heap.bindings, Array.getElem?_modify]
  by_cases hid : id = at'
  · subst hid
    rcases hs : h.scopes[id]? with _ | scope
    · simp [Nat.not_lt.mpr (Array.getElem?_eq_none_iff.mp hs)]
    · obtain ⟨hlt, -⟩ := Array.getElem?_eq_some_iff.mp hs
      simp [hlt]
  · simp [hid, Ne.symm hid]

/-- A binding moves no scope. -/
theorem enclosing?_define (id : ScopeId) (name : Text) (mutable : Bool) (value : Value)
    (at' : ScopeId) : (h.define id name mutable value).enclosing? at' = h.enclosing? at' := by
  simp only [define, enclosing?, Array.getElem?_modify]
  split
  · rcases h.scopes[at']? with _ | scope <;> rfl
  · rfl

/-! ## Lists and instances -/

/-- Only the new list has the new elements. -/
theorem elements_newList (elements : Array Value) (at' : ListId) :
    (h.newList elements).2.elements at' = if at' = h.lists.size then elements
      else h.elements at' := by
  simp only [newList, Heap.elements, Array.getElem?_push]
  split <;> rfl

/-- A change of the elements of one list. -/
theorem elements_modify (id : ListId) (change : Array Value → Array Value) (at' : ListId) :
    ({ h with lists := h.lists.modify id change } : Heap).elements at' =
      if at' = id ∧ id < h.lists.size then change (h.elements at') else h.elements at' := by
  simp only [Heap.elements, Array.getElem?_modify]
  by_cases hid : id = at'
  · subst hid
    rcases hs : h.lists[id]? with _ | elements
    · simp [Nat.not_lt.mpr (Array.getElem?_eq_none_iff.mp hs)]
    · obtain ⟨hlt, -⟩ := Array.getElem?_eq_some_iff.mp hs
      simp [hlt]
  · simp [hid, Ne.symm hid]

/-- Only the new instance has the new properties. -/
theorem fields_newInstance (ofClass : Option ClassId) (fields : Entries Value) (at' : InstanceId) :
    (h.newInstance ofClass fields).2.fields at' = if at' = h.instances.size then fields
      else h.fields at' := by
  simp only [newInstance, Heap.fields, Array.getElem?_push]
  split <;> rfl

/-- A change of the properties of one instance. -/
theorem fields_modify (id : InstanceId) (change : Entries Value → Entries Value)
    (at' : InstanceId) :
    ({ h with instances := h.instances.modify id fun o => { o with fields := change o.fields } } :
      Heap).fields at' =
      if at' = id ∧ id < h.instances.size then change (h.fields at') else h.fields at' := by
  simp only [Heap.fields, Array.getElem?_modify]
  by_cases hid : id = at'
  · subst hid
    rcases hs : h.instances[id]? with _ | o
    · simp [Nat.not_lt.mpr (Array.getElem?_eq_none_iff.mp hs)]
    · obtain ⟨hlt, -⟩ := Array.getElem?_eq_some_iff.mp hs
      simp [hlt]
  · simp [hid, Ne.symm hid]

theorem classOf?_newInstance (ofClass : Option ClassId) (fields : Entries Value) :
    (h.newInstance ofClass fields).2.classOf? h.instances.size = ofClass := by
  simp [classOf?, newInstance]

theorem classOf?_modify (id : InstanceId) (change : Entries Value → Entries Value)
    (at' : InstanceId) :
    ({ h with instances := h.instances.modify id fun o => { o with fields := change o.fields } } :
      Heap).classOf? at' =
      h.classOf? at' := by
  simp only [classOf?, Array.getElem?_modify]
  split
  · rcases h.instances[at']? with _ | o <;> rfl
  · rfl

/-! ## Growth -/

/-- A name is bound in a scope. -/
def Bound (id : ScopeId) (name : Text) : Prop := ∃ binding, (h.bindings id).get? name = some binding

/-- What holds of the places of a heap holds of those of another one: scopes stay where they are and
keep their names, and nothing is taken out. -/
structure Grows (h h' : Heap) : Prop where
  enclosing : ∀ id outer, h.enclosing? id = some outer → h'.enclosing? id = some outer
  bound : ∀ id name, h.Bound id name → h'.Bound id name
  scopes : h.scopes.size ≤ h'.scopes.size
  lists : h.lists.size ≤ h'.lists.size
  instances : h.instances.size ≤ h'.instances.size
  classes : h.classes.size ≤ h'.classes.size

variable {h}

/-- No change is the least that can be. -/
@[refl] theorem Grows.refl (h : Heap) : Grows h h :=
  ⟨fun _ _ => id, fun _ _ => id, le_rfl, le_rfl, le_rfl, le_rfl⟩

/-- Changes one after another grow the heap. -/
theorem Grows.trans {h₁ h₂ h₃ : Heap} (first : Grows h₁ h₂) (second : Grows h₂ h₃) : Grows h₁ h₃ :=
  ⟨fun id outer ho => second.enclosing id outer (first.enclosing id outer ho),
    fun id name hb => second.bound id name (first.bound id name hb),
    first.scopes.trans second.scopes, first.lists.trans second.lists,
    first.instances.trans second.instances, first.classes.trans second.classes⟩

/-- A change that leaves the scopes alone. -/
theorem Grows.of_scopes_eq {h h' : Heap} (scopes : h'.scopes = h.scopes)
    (lists : h.lists.size ≤ h'.lists.size) (instances : h.instances.size ≤ h'.instances.size)
    (classes : h.classes.size ≤ h'.classes.size) : Grows h h' := by
  refine ⟨fun id outer ho => ?_, fun id name hb => ?_, by rw [scopes], lists, instances, classes⟩
  · rwa [enclosing?, scopes]
  · rwa [Bound, Heap.bindings, scopes]

/-- A scope that is not there lies in none. -/
theorem enclosing?_eq_none_of_le {id : ScopeId} (hid : h.scopes.size ≤ id) :
    h.enclosing? id = none := by
  simp [enclosing?, Array.getElem?_eq_none hid]

theorem bindings_eq_nil_of_le {id : ScopeId} (hid : h.scopes.size ≤ id) : h.bindings id = [] := by
  simp [Heap.bindings, Array.getElem?_eq_none hid]

/-- A name is bound only in a scope that is there. -/
theorem Bound.lt {id : ScopeId} {name : Text} (hb : h.Bound id name) : id < h.scopes.size := by
  by_contra hid
  obtain ⟨binding, hget⟩ := hb
  rw [bindings_eq_nil_of_le (Nat.not_lt.mp hid)] at hget
  cases hget

/-- A scope more. -/
theorem grows_fork (id : ScopeId) (bindings : Entries Binding) :
    Grows h (h.fork id bindings).2 := by
  refine ⟨fun at' outer ho => ?_, fun at' name hb => ?_, by simp [fork], le_rfl, le_rfl, le_rfl⟩
  · rw [enclosing?_fork, if_neg]
    · exact ho
    · rintro rfl
      rw [enclosing?_eq_none_of_le le_rfl] at ho
      cases ho
  · rwa [Bound, bindings_fork, if_neg hb.lt.ne]

/-- A binding more, or another value for one. -/
theorem grows_define (id : ScopeId) (name : Text) (mutable : Bool) (value : Value) :
    Grows h (h.define id name mutable value) := by
  refine ⟨fun at' outer ho => ?_, fun at' other hb => ?_, by simp [define], le_rfl, le_rfl, le_rfl⟩
  · rwa [enclosing?_define]
  · rw [Bound, bindings_define]
    split
    · rw [Entries.get?_put]
      split
      · exact ⟨_, rfl⟩
      · exact hb
    · exact hb

theorem grows_newList (elements : Array Value) : Grows h (h.newList elements).2 :=
  .of_scopes_eq rfl (by simp [newList]) le_rfl le_rfl

/-- Other elements. -/
theorem grows_modifyList (id : ListId) (change : Array Value → Array Value) :
    Grows h { h with lists := h.lists.modify id change } :=
  .of_scopes_eq rfl (by simp) le_rfl le_rfl

theorem grows_newInstance (ofClass : Option ClassId) (fields : Entries Value) :
    Grows h (h.newInstance ofClass fields).2 :=
  .of_scopes_eq rfl le_rfl (by simp [newInstance]) le_rfl

/-- Other properties. -/
theorem grows_modifyInstance (id : InstanceId) (change : Entries Value → Entries Value) :
    Grows h { h with
      instances := h.instances.modify id fun o => { o with fields := change o.fields } } :=
  .of_scopes_eq rfl le_rfl (by simp) le_rfl

theorem grows_newClass (c : ClassDef) : Grows h (h.newClass c).2 :=
  .of_scopes_eq rfl le_rfl le_rfl (by simp [newClass])

/-- A name that is defined in a scope of the heap is bound there. -/
theorem bound_define {id : ScopeId} (hid : id < h.scopes.size) (name : Text) (mutable : Bool)
    (value : Value) : (h.define id name mutable value).Bound id name := by
  rw [Bound, bindings_define, if_pos ⟨rfl, hid⟩, Entries.get?_put, if_pos rfl]
  exact ⟨_, rfl⟩

end Heap

end Lox
