import Lox.Heap.Copy
import Lox.Proofs.Heap.Growth

/-!
# Deep copies

A list holds its elements and an instance the values of its properties. A value is **acyclic** if
nothing that is held in it, however deep, is held in itself. The copy of an acyclic value ends
(`deepCopy_of_acyclic`): a path through lists and instances without a repetition is no longer than
their number, which is the number of levels a copy may have.

A copy only adds lists and instances, so what it reads while it goes on is what was there when it
started. All that a copy does is told by the relation `Copied`, from which follows what every copy
keeps.
-/

namespace Lox

/-- A list or an instance. -/
inductive Value.Compound : Value → Prop
  | list (id : ListId) : Compound (.list id)
  | object (id : InstanceId) : Compound (.object id)

namespace Heap

open Relation

/-! ## What a value holds -/

/-- The elements of a list or the values of an instance's properties. -/
def contents (h : Heap) : Value → List Value
  | .list id => (h.elements id).toList
  | .object id => (h.fields id).map Prod.snd
  | _ => []

/-- One value holds another. -/
def Holds (h : Heap) (holder held : Value) : Prop := held ∈ h.contents holder

/-- Nothing in a value holds itself, however deep. -/
def Acyclic (h : Heap) (v : Value) : Prop := ∀ u, ReflTransGen h.Holds v u → ¬ TransGen h.Holds u u

/-- A list or an instance is one of the heap. -/
def Valid (h : Heap) : Value → Prop
  | .list id => id < h.lists.size
  | .object id => id < h.instances.size
  | _ => True

/-- The lists and instances in a value lie within a number of levels. -/
def Within (h : Heap) : Nat → Value → Prop
  | 0, .list _ | 0, .object _ => False
  | 0, _ => True
  | levels + 1, v => ∀ u ∈ h.contents v, h.Within levels u

variable {h : Heap} {v : Value}

/-! ## Acyclic values lie within as many levels as there are lists and instances -/

/-- The number that tells the lists and instances of a heap apart. -/
def place (h : Heap) : Value → Nat
  | .list id => id
  | .object id => h.lists.size + id
  | _ => 0

/-- A value that is a list or an instance of the heap. -/
inductive Container (h : Heap) : Value → Prop
  | list {id : ListId} : id < h.lists.size → Container h (.list id)
  | object {id : InstanceId} : id < h.instances.size → Container h (.object id)

/-- Lists and instances have places of their own. -/
theorem Container.place_lt (hv : h.Container v) : h.place v < h.lists.size + h.instances.size := by
  cases hv with
  | list hid => exact Nat.lt_add_right _ hid
  | object hid => exact Nat.add_lt_add_left hid _

/-- No two of them have the same. -/
theorem Container.place_inj {u : Value} (hu : h.Container u) (hv : h.Container v)
    (heq : h.place u = h.place v) : u = v := by
  cases hu with
  | list hu =>
    cases hv with
    | list hv => exact congrArg Value.list heq
    | object hv => exact absurd heq (hu.trans_le (Nat.le_add_right _ _)).ne
  | object hu =>
    cases hv with
    | list hv => exact absurd heq (hv.trans_le (Nat.le_add_right _ _)).ne'
    | object hv => exact congrArg Value.object (Nat.add_left_cancel heq)

/-- So a path without repetition is not longer than the heap. -/
theorem length_le_of_containers {path : List Value} (hnodup : path.Nodup)
    (hpath : ∀ u ∈ path, h.Container u) : path.length ≤ h.lists.size + h.instances.size := by
  have hplaces : (path.map h.place).Nodup :=
    hnodup.map_on fun u hu w hw heq => (hpath u hu).place_inj (hpath w hw) heq
  have hsub : path.map h.place ⊆ List.range (h.lists.size + h.instances.size) := by
    intro n hn
    obtain ⟨u, hu, rfl⟩ := List.mem_map.mp hn
    exact List.mem_range.mpr (hpath u hu).place_lt
  simpa using (hplaces.subperm hsub).length_le

theorem container_of_mem_contents {u : Value} (hv : h.Valid v) (hu : u ∈ h.contents v) :
    h.Container v := by
  cases v with
  | list id => exact .list hv
  | object id => exact .object hv
  | _ => cases hu

/-- What an acyclic value holds is acyclic. -/
theorem Acyclic.held {u : Value} (hv : h.Acyclic v) (hu : u ∈ h.contents v) : h.Acyclic u :=
  fun w hw => hv w (.head hu hw)

/-- The path holds what is above a value. It grows by one for each level, so no levels are left when
it is as long as it can be. -/
theorem within_of_path (hstored : ∀ u w, w ∈ h.contents u → h.Valid w) (levels : Nat) :
    ∀ (path : List Value) (v : Value), path.Nodup → (∀ u ∈ path, h.Container u) →
      path.length + levels = h.lists.size + h.instances.size →
        (∀ u ∈ path, TransGen h.Holds u v) → h.Valid v →
      h.Acyclic v → h.Within levels v := by
  have hfresh : ∀ {path : List Value} {v : Value}, (∀ u ∈ path, TransGen h.Holds u v) →
      h.Acyclic v → v ∉ path :=
    fun habove hv hmem => hv _ .refl (habove _ hmem)
  induction levels with
  | zero =>
    intro path v hnodup hpath hlength habove hvalid hv
    have hnot : ¬ h.Container v := by
      intro hcontainer
      have hle := length_le_of_containers (List.nodup_cons.mpr ⟨hfresh habove hv, hnodup⟩)
        (List.forall_mem_cons.mpr ⟨hcontainer, hpath⟩)
      simp only [List.length_cons] at hle
      omega
    cases v with
    | list id => exact hnot (.list hvalid)
    | object id => exact hnot (.object hvalid)
    | _ => trivial
  | succ levels ih =>
    intro path v hnodup hpath hlength habove hvalid hv u hu
    refine ih (v :: path) u (List.nodup_cons.mpr ⟨hfresh habove hv, hnodup⟩)
      (List.forall_mem_cons.mpr ⟨container_of_mem_contents hvalid hu, hpath⟩) ?_ ?_ (hstored v u hu)
      (hv.held hu)
    · simp only [List.length_cons]
      omega
    · exact List.forall_mem_cons.mpr ⟨.single hu, fun w hw => (habove w hw).tail hu⟩

/-- An acyclic value unfolds within as many levels as the heap has places. -/
theorem Acyclic.within (hv : h.Acyclic v) (hstored : ∀ u w, w ∈ h.contents u → h.Valid w)
    (hvalid : h.Valid v) : h.Within (h.lists.size + h.instances.size) v :=
  within_of_path hstored _ [] v List.nodup_nil nofun (Nat.zero_add _) nofun hvalid hv

/-! ## What a copy does -/

/-- A heap has what another has, unchanged, and perhaps more lists and instances. -/
structure Extends (h h' : Heap) : Prop where
  lists : h.lists.toList <+: h'.lists.toList
  instances : h.instances.toList <+: h'.instances.toList
  scopes : h'.scopes = h.scopes
  classes : h'.classes = h.classes

theorem getElem?_of_prefix {α : Type} {xs ys : Array α} (hpre : xs.toList <+: ys.toList) {i : Nat}
    (hi : i < xs.size) : ys[i]? = xs[i]? := by
  obtain ⟨rest, hrest⟩ := hpre
  rw [← Array.getElem?_toList, ← hrest, List.getElem?_append_left (by simpa using hi),
    Array.getElem?_toList]

namespace Extends

variable {h' h'' : Heap}

/-- A heap extends itself. -/
theorem refl (h : Heap) : Extends h h := ⟨List.prefix_rfl, List.prefix_rfl, rfl, rfl⟩

/-- Extensions one after the other. -/
theorem trans (first : Extends h h') (second : Extends h' h'') : Extends h h'' :=
  ⟨first.lists.trans second.lists, first.instances.trans second.instances,
    second.scopes.trans first.scopes, second.classes.trans first.classes⟩

theorem lists_size (he : Extends h h') : h.lists.size ≤ h'.lists.size := by
  simpa using he.lists.length_le

theorem instances_size (he : Extends h h') : h.instances.size ≤ h'.instances.size := by
  simpa using he.instances.length_le

/-- An extension grows the heap. -/
theorem grows (he : Extends h h') : h.Grows h' :=
  .of_scopes_eq he.scopes he.lists_size he.instances_size (by rw [he.classes])

/-- Lists stay as they were. -/
theorem elements (he : Extends h h') {id : ListId} (hid : id < h.lists.size) :
    h'.elements id = h.elements id := by
  rw [Heap.elements, Heap.elements, getElem?_of_prefix he.lists hid]

theorem instance? (he : Extends h h') {id : InstanceId} (hid : id < h.instances.size) :
    h'.instances[id]? = h.instances[id]? :=
  getElem?_of_prefix he.instances hid

/-- Instances stay as they were. -/
theorem fields (he : Extends h h') {id : InstanceId} (hid : id < h.instances.size) :
    h'.fields id = h.fields id := by
  rw [Heap.fields, Heap.fields, he.instance? hid]

/-- One list more. -/
theorem newList (he : Extends h h') (elements : Array Value) : Extends h (h'.newList elements).2 :=
  he.trans ⟨by simp [Heap.newList], List.prefix_rfl, rfl, rfl⟩

/-- One instance more. -/
theorem newInstance (he : Extends h h') (ofClass : Option ClassId) (fields : Entries Value) :
    Extends h (h'.newInstance ofClass fields).2 :=
  he.trans ⟨List.prefix_rfl, by simp [Heap.newInstance], rfl, rfl⟩

end Extends

/-- Values are copied one after the other: the heap before, the values, their copies, and the heap
after. A list or an instance is made when what it holds has been copied. -/
inductive Copied : Heap → List Value → List Value → Heap → Prop
  | nil (h : Heap) : Copied h [] [] h
  | leaf {h h' : Heap} {v : Value} {values values' : List Value} :
      ¬ v.Compound → Copied h values values' h' → Copied h (v :: values) (v :: values') h'
  | list {h h₁ h' : Heap} {id : ListId} {elements values values' : List Value} :
      Copied h (h.elements id).toList elements h₁ →
      Copied (h₁.newList elements.toArray).2 values values' h' →
      Copied h (.list id :: values) (.list h₁.lists.size :: values') h'
  | object {h h₁ h' : Heap} {id : InstanceId} {elements values values' : List Value} :
      Copied h ((h.fields id).map Prod.snd) elements h₁ →
      Copied (h₁.newInstance (h.classOf? id) ((h.fields id).names.zip elements)).2 values values'
      h' → Copied h (.object id :: values) (.object h₁.instances.size :: values') h'

/-- Copies one after the other. -/
theorem Copied.cons {h₁ h₂ : Heap} {v' : Value} {values values' : List Value}
    (hv : Copied h [v] [v'] h₁) (hvalues : Copied h₁ values values' h₂) :
    Copied h (v :: values) (v' :: values') h₂ := by
  cases hv with
  | leaf hv hnil =>
    cases hnil
    exact .leaf hv hvalues
  | list helements hnil =>
    cases hnil
    exact .list helements hvalues
  | object hfields hnil =>
    cases hnil
    exact .object hfields hvalues

/-- What was there before a copy is there after it. -/
theorem Copied.heap {h h' : Heap} {values values' : List Value} (hc : Copied h values values' h') :
    Extends h h' := by
  induction hc with
  | nil h => exact .refl h
  | leaf _ _ ih => exact ih
  | list _ _ helements hrest => exact (helements.newList _).trans hrest
  | object _ _ hfields hrest => exact (hfields.newInstance _ _).trans hrest

theorem Copied.length {h h' : Heap} {values values' : List Value}
    (hc : Copied h values values' h') : values'.length = values.length := by
  induction hc with
  | nil => rfl
  | leaf _ _ ih => rw [List.length_cons, List.length_cons, ih]
  | list _ _ _ hrest | object _ _ _ hrest => rw [List.length_cons, List.length_cons, hrest]

section Copying

variable {copy : Heap → Value → Option (Value × Heap)}

/-- Elements are copied if each of them is. -/
theorem copied_copyElements (hcopy : ∀ h v v' h', copy h v = some (v', h') → Copied h [v] [v'] h')
    {h h' : Heap} {values values' : List Value}
    (heq : copyElements copy h values = some (values', h')) : Copied h values values' h' := by
  induction values generalizing h values' with
  | nil =>
    cases heq
    exact .nil h'
  | cons v rest ih =>
    simp only [copyElements, Option.bind_eq_bind, Option.bind_eq_some_iff] at heq
    obtain ⟨⟨v', h₁⟩, hv, ⟨rest', h₂⟩, hrest, hmade⟩ := heq
    cases hmade
    exact (hcopy h v v' h₁ hv).cons (ih hrest)

/-- Properties are copied as elements are, and keep their names. -/
theorem copyFields_eq (h : Heap) (fields : Entries Value) :
    copyFields copy h fields =
      (copyElements copy h (fields.map Prod.snd)).map fun made =>
        (fields.names.zip made.1, made.2) := by
  induction fields generalizing h with
  | nil => rfl
  | cons field rest ih =>
    obtain ⟨name, v⟩ := field
    simp only [copyFields, List.map_cons, copyElements, Option.bind_eq_bind, ih]
    cases hv : copy h v with
    | none => rfl
    | some made =>
      cases hrest : copyElements copy made.2 (rest.map Prod.snd) with
      | none => simp [hrest]
      | some rest' => simp [hrest, Entries.names]

end Copying

/-- What the copier returns is copied, by induction on the levels. -/
theorem copied_copyWithin (levels : Nat) (h : Heap) (v v' : Value) (h' : Heap)
    (heq : copyWithin levels h v = some (v', h')) : Copied h [v] [v'] h' := by
  induction levels generalizing h v v' h' with
  | zero =>
    cases v with
    | list | object => cases heq
    | _ =>
      cases heq
      exact .leaf nofun (.nil h)
  | succ levels ih =>
    cases v with
    | list id =>
      simp only [copyWithin, Option.bind_eq_bind, Option.bind_eq_some_iff] at heq
      obtain ⟨⟨elements, h₁⟩, helements, hmade⟩ := heq
      cases hmade
      exact .list (copied_copyElements ih helements) (.nil _)
    | object id =>
      simp only [copyWithin, Option.bind_eq_bind, Option.bind_eq_some_iff, copyFields_eq,
        Option.map_eq_some_iff] at heq
      obtain ⟨_, ⟨⟨elements, h₁⟩, helements, rfl⟩, hmade⟩ := heq
      cases hmade
      exact .object (copied_copyElements ih helements) (.nil _)
    | _ =>
      cases heq
      exact .leaf nofun (.nil h)

/-! ## Copies of what lies within -/

/-- A way to copy ends for a value, whatever has been added to the heap. -/
def Copies (copy : Heap → Value → Option (Value × Heap)) (h : Heap) (v : Value) : Prop :=
  ∀ h', Extends h h' → ∃ v' h'', copy h' v = some (v', h'') ∧ Extends h h''

variable {copy : Heap → Value → Option (Value × Heap)}

/-- Copying elements ends if it does for each of them. -/
theorem copyElements_ends {values : List Value} (hvalues : ∀ v ∈ values, Copies copy h v) :
    ∀ h', Extends h h' → ∃ values' h'', copyElements copy h' values = some (values', h'') ∧
      Extends h h'' := by
  induction values with
  | nil => exact fun h' he => ⟨[], h', rfl, he⟩
  | cons v rest ih =>
    intro h' he
    obtain ⟨v', h₁, hv', he₁⟩ := hvalues v List.mem_cons_self h' he
    obtain ⟨rest', h₂, hrest', he₂⟩ := ih (fun u hu => hvalues u (List.mem_cons_of_mem _ hu)) h₁ he₁
    exact ⟨v' :: rest', h₂, by simp [copyElements, hv', hrest'], he₂⟩

/-- Copying ends within the levels that the value unfolds to. -/
theorem copies_of_within (hstored : ∀ u w, w ∈ h.contents u → h.Valid w) (levels : Nat) :
    ∀ v, h.Within levels v → h.Valid v → Copies (copyWithin levels) h v := by
  induction levels with
  | zero =>
    intro v hwithin _ h' he
    cases v with
    | list | object => exact hwithin.elim
    | _ => exact ⟨_, h', rfl, he⟩
  | succ levels ih =>
    intro v hwithin hvalid h' he
    have hitems : ∀ u ∈ h.contents v, Copies (copyWithin levels) h u := fun u hu =>
      ih u (hwithin u hu) (hstored v u hu)
    cases v with
    | list id =>
      obtain ⟨elements, h'', hcopy, he'⟩ := copyElements_ends hitems h' he
      rw [contents, ← he.elements hvalid] at hcopy
      refine ⟨.list h''.lists.size, (h''.newList elements.toArray).2, ?_, he'.newList _⟩
      simp [copyWithin, hcopy, Heap.newList]
    | object id =>
      obtain ⟨elements, h'', hcopy, he'⟩ := copyElements_ends hitems h' he
      rw [contents, ← he.fields hvalid] at hcopy
      refine ⟨.object h''.instances.size,
        (h''.newInstance (h'.classOf? id) ((h'.fields id).names.zip elements)).2, ?_,
        he'.newInstance _ _⟩
      simp [copyWithin, copyFields_eq, hcopy, Heap.newInstance]
    | _ => exact ⟨_, h', rfl, he⟩

/-- The deep copy of an acyclic value ends. -/
theorem deepCopy_of_acyclic (hstored : ∀ u w, w ∈ h.contents u → h.Valid w) (hvalid : h.Valid v)
    (hv : h.Acyclic v) : ∃ v' h', h.deepCopy v = some (v', h') := by
  obtain ⟨v', h', hcopy, -⟩ :=
    copies_of_within hstored _ v (hv.within hstored hvalid) hvalid h (.refl h)
  exact ⟨v', h', hcopy⟩

end Heap

end Lox
