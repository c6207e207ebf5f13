import Lox.Proofs.Heap.Unfolding
import Lox.Proofs.Evaluation.Runs

/-!
# A deep copy shares nothing that can be changed

The deep copy of an acyclic value unfolds to the tree that the value unfolds to, and its lists and
instances are all **made** by the copy, each at the end of one path only (`CopyOf`). Copying values
one after the other keeps this: what a later copy makes is not in the heap when an earlier one ends,
and no earlier copy can lead to it.

So a list or an instance is never in the value and in its copy at once. A later **change** of what
the copy has made leaves what the value unfolds to as it is, and a change of anything else leaves
the copy as it is (`deepCopy_separates`).
-/

namespace Lox.Heap

open Relation

/-- A list or an instance of the second heap that the first one has not. -/
def Made (h h' : Heap) (u : Value) : Prop := h'.Container u ∧ ¬ h.Container u

/-- The value at the end of a path that starts at one of several values. -/
def among? (h : Heap) (values : List Value) : List Nat → Option Value
  | [] => none
  | i :: path => values[i]?.bind fun v => h.follow? v path

/-- All lists and instances in several values are made between two heaps, and one path leads to
each. -/
structure Fresh (h h' : Heap) (values : List Value) : Prop where
  made : ∀ path u, h'.among? values path = some u → u.Compound → Made h h' u
  once : ∀ path path' u, h'.among? values path = some u → h'.among? values path' = some u →
    u.Compound → path = path'

variable {h h₁ h₂ h₃ : Heap} {u v v' : Value} {values values' : List Value}

/-! ## What is made -/

/-- A list or an instance of the heap is valid. -/
theorem Container.valid (hu : h.Container u) : h.Valid u := by
  cases hu with
  | list hid => exact hid
  | object hid => exact hid

theorem Container.compound (hu : h.Container u) : u.Compound := by
  cases hu with
  | list => exact .list _
  | object => exact .object _

/-- A valid list or instance is one of the heap. -/
theorem Container.of_valid (hu : h.Valid u) (hcompound : u.Compound) : h.Container u := by
  cases hcompound with
  | list => exact .list hu
  | object => exact .object hu

/-- Other values hold nothing. -/
theorem leaf_of_not_compound (h : Heap) (hu : ¬ u.Compound) :
    h.Valid u ∧ h.shape? u = none ∧ h.contents u = [] := by
  cases u with
  | list id => exact absurd (.list id) hu
  | object id => exact absurd (.object id) hu
  | _ => exact ⟨trivial, rfl, rfl⟩

/-- A list or an instance stays in a heap that grows. -/
theorem Extends.container (he : Extends h h₁) (hu : h.Container u) : h₁.Container u :=
  .of_valid (he.valid hu.valid) hu.compound

/-- What was made is made also as seen later. -/
theorem Made.later (hu : Made h h₁ u) (he : Extends h₁ h₂) : Made h h₂ u :=
  ⟨he.container hu.1, hu.2⟩

/-- What was made is made also as seen from earlier. -/
theorem Made.earlier (hu : Made h₁ h₂ u) (he : Extends h h₁) : Made h h₂ u :=
  ⟨hu.1, fun hold => hu.2 (he.container hold)⟩

/-- A new list is made. -/
theorem made_newList (h : Heap) (elements : Array Value) :
    Made h (h.newList elements).2 (.list h.lists.size) := by
  refine ⟨.list (by simp [newList]), fun hold => ?_⟩
  cases hold with
  | list hid => exact hid.ne rfl

/-- A new instance is made. -/
theorem made_newInstance (h : Heap) (ofClass : Option ClassId) (fields : Entries Value) :
    Made h (h.newInstance ofClass fields).2 (.object h.instances.size) := by
  refine ⟨.object (by simp [newInstance]), fun hold => ?_⟩
  cases hold with
  | object hid => exact hid.ne rfl

theorem contents_newList (h : Heap) (elements : List Value) :
    (h.newList elements.toArray).2.contents (.list h.lists.size) = elements := by
  rw [contents, elements_newList, if_pos rfl]

/-- A new instance holds its properties. -/
theorem contents_newInstance (h : Heap) (ofClass : Option ClassId) (fields : Entries Value) :
    (h.newInstance ofClass fields).2.contents (.object h.instances.size) = fields.map Prod.snd := by
  rw [contents, fields_newInstance, if_pos rfl]

theorem shape?_newInstance (h : Heap) (ofClass : Option ClassId) (fields : Entries Value) :
    (h.newInstance ofClass fields).2.shape? (.object h.instances.size) =
      some (.object ofClass fields.names) := by
  rw [shape?, fields_newInstance, if_pos rfl, classOf?_newInstance]

theorem among?_singleton {path : List Nat} (hu : h.among? [v] path = some u) :
    ∃ rest, path = 0 :: rest ∧ h.follow? v rest = some u := by
  obtain _ | ⟨_ | i, rest⟩ := path
  · cases hu
  · exact ⟨rest, rfl, hu⟩
  · cases hu

/-! ## Fresh values -/

namespace Fresh

/-- What is fresh is all there. -/
theorem whole (hf : Fresh h h₁ values) (hv : v ∈ values) : h₁.Whole v := by
  intro u hu
  obtain ⟨i, hi⟩ := List.mem_iff_getElem?.mp hv
  obtain ⟨path, hpath⟩ := exists_follow? hu
  by_cases hcompound : u.Compound
  · have hamong : h₁.among? values (i :: path) = some u := by
      rw [among?, hi, Option.bind_some, hpath]
    exact (hf.made _ u hamong hcompound).1.valid
  · exact (h₁.leaf_of_not_compound hcompound).1

/-- Paths lead to the same values later. -/
theorem among? (hf : Fresh h h₁ values) (he : Extends h₁ h₂) (path : List Nat) :
    h₂.among? values path = h₁.among? values path := by
  cases path with
  | nil => rfl
  | cons i path =>
    rw [Heap.among?, Heap.among?]
    cases hi : values[i]? with
    | none => rfl
    | some v => exact ((hf.whole (List.mem_of_getElem? hi)).agrees he).follow? path

/-- What is fresh stays fresh. -/
theorem later (hf : Fresh h h₁ values) (he : Extends h₁ h₂) : Fresh h h₂ values := by
  refine ⟨fun path u hu hcompound => ?_, fun path path' u hu hu' hcompound => ?_⟩
  · exact (hf.made path u (hf.among? he path ▸ hu) hcompound).later he
  · exact hf.once path path' u (hf.among? he path ▸ hu) (hf.among? he path' ▸ hu') hcompound

/-- The values that are copied later are made of what was not there before. -/
theorem cons (hv : Fresh h h₁ [v]) (hvalues : Fresh h₁ h₂ values) (he : Extends h h₁)
    (he' : Extends h₁ h₂) : Fresh h h₂ (v :: values) := by
  have hmade : ∀ path u, h₂.among? [v] path = some u → u.Compound → h₁.Container u :=
    fun path u hu hcompound =>
    (hv.made path u (hv.among? he' path ▸ hu) hcompound).1
  -- a path into the first value ends in the heap between the two, and no path into a later one does
  refine ⟨?_, ?_⟩
  · rintro (_ | ⟨_ | i, path⟩) u hu hcompound
    · cases hu
    · exact (hv.later he').made (0 :: path) u hu hcompound
    · exact (hvalues.made (i :: path) u hu hcompound).earlier he
  · rintro (_ | ⟨_ | i, path⟩) (_ | ⟨_ | j, path'⟩) u hu hu' hcompound
    · rfl
    · cases hu
    · cases hu
    · cases hu'
    · exact (hv.later he').once (0 :: path) (0 :: path') u hu hu' hcompound
    · exact absurd (hmade (0 :: path) u hu hcompound) (hvalues.made (j :: path') u hu' hcompound).2
    · cases hu'
    · exact absurd (hmade (0 :: path') u hu' hcompound) (hvalues.made (i :: path) u hu hcompound).2
    · have heq := hvalues.once (i :: path) (j :: path') u hu hu' hcompound
      rw [(List.cons.inj heq).1, (List.cons.inj heq).2]

/-- A list or an instance that is made last, and holds what was made before. -/
theorem node (hf : Fresh h h₁ values) (he : Extends h h₁) (he' : Extends h₁ h₂) (hv : Made h₁ h₂ v)
    (hcontents : h₂.contents v = values) : Fresh h h₂ [v] := by
  have hbelow : ∀ i path, h₂.follow? v (i :: path) = h₁.among? values (i :: path) := by
    intro i path
    rw [← hf.among? he', ← hcontents]
    rfl
  have habove : ∀ i path, h₂.follow? v (i :: path) ≠ some v := fun i path hv' =>
    hv.2 (hf.made (i :: path) v (hbelow i path ▸ hv') hv.1.compound).1
  refine ⟨fun path u hu hcompound => ?_, fun path path' u hu hu' hcompound => ?_⟩
  · obtain ⟨_ | ⟨i, path⟩, rfl, hu⟩ := among?_singleton hu
    · cases hu
      exact hv.earlier he
    · exact (hf.made (i :: path) u (hbelow i path ▸ hu) hcompound).later he'
  · obtain ⟨_ | ⟨i, path⟩, rfl, hu⟩ := among?_singleton hu <;>
      obtain ⟨_ | ⟨j, path'⟩, rfl, hu'⟩ := among?_singleton hu'
    · rfl
    · cases hu
      exact absurd hu' (habove j path')
    · cases hu'
      exact absurd hu (habove i path)
    · rw [hf.once (i :: path) (j :: path') u (hbelow i path ▸ hu) (hbelow j path' ▸ hu') hcompound]

/-- A value that is neither a list nor an instance. -/
theorem leaf (h : Heap) (hv : ¬ v.Compound) : Fresh h h [v] := by
  have hnone : ∀ path u, h.among? [v] path = some u → ¬ u.Compound := by
    intro path u hu
    obtain ⟨_ | ⟨i, path⟩, -, hend⟩ := among?_singleton hu
    · exact Option.some.inj hend ▸ hv
    · rw [follow?, (h.leaf_of_not_compound hv).2.2] at hend
      cases hend
  exact ⟨fun path u hu hcompound => absurd hcompound (hnone path u hu),
    fun path _ u hu _ hcompound => absurd hcompound (hnone path u hu)⟩

end Fresh

/-! ## Copies -/

/-- Some values of a heap have been copied, in order, between two later ones. -/
structure CopyOf (h h₁ h₂ : Heap) (values values' : List Value) : Prop where
  heap : Extends h₁ h₂
  fresh : Fresh h₁ h₂ values'
  unfolds : List.Forall₂ (fun v' v => ∀ levels, h₂.tree? levels v' = h.tree? levels v)
    values' values

namespace CopyOf

/-- No values have no copies. -/
theorem nil (h h₁ : Heap) : CopyOf h h₁ h₁ [] [] where
  heap := .refl h₁
  fresh := by
    have hnone : ∀ path, h₁.among? [] path = none := by rintro (_ | _) <;> rfl
    exact ⟨fun path u hu => absurd hu (by simp [hnone]),
      fun path _ u hu => absurd hu (by simp [hnone])⟩
  unfolds := .nil

/-- Values are copied one after the other. -/
theorem cons (hv : CopyOf h h₁ h₂ [v] [v']) (hvalues : CopyOf h h₂ h₃ values values') :
    CopyOf h h₁ h₃ (v :: values) (v' :: values') where
  heap := hv.heap.trans hvalues.heap
  fresh := hv.fresh.cons hvalues.fresh hv.heap hvalues.heap
  unfolds := by
    refine .cons (fun levels => ?_) hvalues.unfolds
    have hsame := ((hv.fresh.whole List.mem_cons_self).agrees hvalues.heap).tree? levels
    rw [hsame, (List.forall₂_cons.mp hv.unfolds).1 levels]

/-- A value that holds nothing is its own copy. -/
theorem leaf (h h₁ : Heap) (hv : ¬ v.Compound) : CopyOf h h₁ h₁ [v] [v] where
  heap := .refl h₁
  fresh := .leaf h₁ hv
  unfolds := by
    refine .cons (fun levels => ?_) .nil
    rw [tree?_leaf (h₁.leaf_of_not_compound hv).2.1, tree?_leaf (h.leaf_of_not_compound hv).2.1]

/-- A value is copied once what it holds is. -/
theorem node (hitems : CopyOf h h₁ h₂ (h.contents v) values') (he : Extends h₂ h₃)
    (hv' : Made h₂ h₃ v') (hcontents : h₃.contents v' = values')
    (hshape : h₃.shape? v' = h.shape? v) (hv : v.Compound) : CopyOf h h₁ h₃ [v] [v'] where
  heap := hitems.heap.trans he
  fresh := hitems.fresh.node hitems.heap he hv' hcontents
  unfolds := by
    refine .cons (fun levels => tree?_congr hshape ?_ fun hnone => ?_) .nil
    · rw [hcontents]
      have hsame : ∀ u ∈ values', ∀ m, h₃.tree? m u = h₂.tree? m u := fun u hu =>
        ((hitems.fresh.whole hu).agrees he).tree?
      refine ((List.forall₂_and_left _ _).mpr ⟨hsame, hitems.unfolds⟩).imp
        fun u w ⟨hsame, hw⟩ m _ => ?_
      rw [hsame, hw]
    · cases hv <;> cases hnone

end CopyOf

/-- What is copied belongs to a heap that only grows meanwhile, so it is read as it was when copying
began. -/
theorem Copied.copyOf (hc : Copied h₁ values values' h₂)
    (hstored : ∀ u w, w ∈ h.contents u → h.Valid w) (he : Extends h h₁)
    (hvalid : ∀ v ∈ values, h.Valid v) : CopyOf h h₁ h₂ values values' := by
  induction hc with
  | nil h₁ => exact .nil h h₁
  | leaf hv _ ih => exact (CopyOf.leaf h _ hv).cons (ih he (List.forall_mem_cons.mp hvalid).2)
  | @list h₁ h' h₂ id elements _ _ _ _ ih ihrest =>
    obtain ⟨hid, hvalues⟩ := List.forall_mem_cons.mp hvalid
    rw [he.elements hid] at ih
    have hitems : CopyOf h h₁ h' (h.contents (.list id)) elements := ih he (hstored (.list id))
    have hlist : CopyOf h h₁ (h'.newList elements.toArray).2 [.list id] [.list h'.lists.size] :=
      hitems.node (Extends.newList (.refl h') _) (made_newList h' _) (contents_newList h' elements)
        rfl (.list id)
    exact hlist.cons (ihrest (he.trans hlist.heap) hvalues)
  | @object h₁ h' h₂ id elements _ _ hfields _ ih ihrest =>
    obtain ⟨hid, hvalues⟩ := List.forall_mem_cons.mp hvalid
    have hlength : (h₁.fields id).names.length = elements.length := by
      simpa [Entries.names] using hfields.length.symm
    rw [he.fields hid] at ih
    have hitems : CopyOf h h₁ h' (h.contents (.object id)) elements := ih he (hstored (.object id))
    have hobject :
        CopyOf h h₁ (h'.newInstance (h₁.classOf? id) ((h₁.fields id).names.zip elements)).2
          [.object id] [.object h'.instances.size] := by
      refine hitems.node (Extends.newInstance (.refl h') _ _) (made_newInstance h' _ _) ?_ ?_
        (.object id)
      · exact (contents_newInstance h' _ _).trans (List.map_snd_zip hlength.ge)
      · refine (shape?_newInstance h' _ _).trans ?_
        rw [Entries.names, List.map_fst_zip hlength.le, he.fields hid, shape?, classOf?, classOf?,
          he.instance? hid]
    exact hobject.cons (ihrest (he.trans hobject.heap) hvalues)

/-! ## Changes -/

/-- A change of a list or of an instance, or one that makes a list or an instance. -/
inductive Change
  | push (list : ListId) (value : Value)
  | extend (list : ListId) (other : Value)
  | setElement (list : ListId) (index value : Value)
  | setField (object : InstanceId) (name : Text) (value : Value)
  | unset (object : InstanceId) (name : Value)
  | newList (elements : Array Value)
  | newInstance (ofClass : Option ClassId) (fields : Entries Value)

/-- The list or instance that is changed. -/
def Change.target? : Change → Option Value
  | push id _ | extend id _ | setElement id _ _ => some (.list id)
  | setField id _ _ | unset id _ => some (.object id)
  | newList _ | newInstance _ _ => none

/-- The heap after a change. One that a program may not ask for leaves the heap as it is. -/
def change (h : Heap) : Change → Heap
  | .push id v => (Builtin.pushValue h (.list id) v).2
  | .extend id other => (Builtin.extendList h (.list id) other).2
  | .setElement id index v =>
    match positionOf index (h.elements id).size with
    | .ok i => h.setElement id i v
    | .error _ => h
  | .setField id name v => h.setField id name v
  | .unset id name => (Builtin.unsetField h (.object id) name).2
  | .newList elements => (h.newList elements).2
  | .newInstance ofClass fields => (h.newInstance ofClass fields).2

/-- What a change can be: one of the elements of a list, one of the properties of an instance, or an
extension. -/
theorem change_cases (h : Heap) (c : Change) :
    (∃ id f, c.target? = some (.list id) ∧ h.change c = { h with lists := h.lists.modify id f }) ∨
    (∃ id, ∃ f : Entries Value → Entries Value, c.target? = some (.object id) ∧
      h.change c =
        { h with instances := h.instances.modify id fun o => { o with fields := f o.fields } }) ∨
    Extends h (h.change c) := by
  cases c with
  | push id v => exact .inl ⟨id, _, rfl, rfl⟩
  | extend id other =>
    cases other with
    | list other => exact .inl ⟨id, _, rfl, rfl⟩
    | _ => exact .inr (.inr (.refl h))
  | setElement id index v =>
    simp only [change]
    split
    · exact .inl ⟨id, _, rfl, rfl⟩
    · exact .inr (.inr (.refl h))
  | setField id name v => exact .inr (.inl ⟨id, _, rfl, rfl⟩)
  | unset id name =>
    cases name with
    | string name =>
      simp only [change, Builtin.unsetField]
      split
      · exact .inr (.inl ⟨id, _, rfl, rfl⟩)
      · exact .inr (.inr (.refl h))
    | _ => exact .inr (.inr (.refl h))
  | newList elements => exact .inr (.inr (Extends.newList (.refl h) elements))
  | newInstance ofClass fields => exact .inr (.inr (Extends.newInstance (.refl h) ofClass fields))

/-- A change leaves what it does not change. -/
theorem change_elsewhere {c : Change} (hu : h.Valid u) (hne : c.target? ≠ some u) :
    (h.change c).Valid u ∧ (h.change c).shape? u = h.shape? u ∧ (h.change c).contents u =
      h.contents u := by
  rcases h.change_cases c with ⟨id, f, htarget, heq⟩ | ⟨id, f, htarget, heq⟩ | he
  · rw [heq]
    cases u with
    | list id' =>
      have hid : id' ≠ id := fun hid => hne (hid ▸ htarget)
      exact ⟨by simpa [Valid] using hu, rfl,
        by rw [contents, elements_modify, if_neg (hid ·.1), contents]⟩
    | _ => exact ⟨hu, rfl, rfl⟩
  · rw [heq]
    cases u with
    | object id' =>
      have hid : id' ≠ id := fun hid => hne (hid ▸ htarget)
      refine ⟨by simpa [Valid] using hu, ?_, ?_⟩
      · rw [shape?, classOf?_modify, fields_modify, if_neg (hid ·.1), shape?]
      · rw [contents, fields_modify, if_neg (hid ·.1), contents]
    | _ => exact ⟨hu, rfl, rfl⟩
  · exact ⟨he.valid hu, he.same hu⟩

/-- Changes that hit nothing in a value leave what is in it. -/
theorem agrees_changes {changes : List Change} (hv : h.Whole v)
    (hchanges : ∀ c ∈ changes, ∀ u ∈ c.target?, ¬ ReflTransGen h.Holds v u) :
    h.Agrees (changes.foldl change h) v := by
  induction changes generalizing h with
  | nil => exact fun u _ => ⟨rfl, rfl⟩
  | cons c rest ih =>
    obtain ⟨hfirst, hrest⟩ := List.forall_mem_cons.mp hchanges
    -- nothing that the change hits is in the value, and so the value holds afterwards what it held
    -- before
    have hstep : ∀ u, ReflTransGen h.Holds v u → _ := fun u hu =>
      change_elsewhere (c := c) (hv u hu) fun htarget => hfirst u htarget hu
    have hagrees : h.Agrees (h.change c) v := fun u hu => (hstep u hu).2
    refine hagrees.trans (ih (fun u hu => (hstep u (hagrees.reach hu)).1)
      fun c' hc' u hu hreach => ?_)
    exact hrest c' hc' u hu (hagrees.reach hreach)

/-- What assigning to an element does to the heap, whether the index is one of the list or not. -/
theorem heap_stepValue_setElement (limit : Nat) (v : Value) (id : ListId) (index : Value)
    (blame : Span) (next : ValueCont) (scope : ScopeId) (depth : Nat) (h : Heap)
    (console : Console) :
    (stepValue limit v (.setElement id index blame next) scope depth h console).heap =
      h.change (.setElement id index v) := by
  simp only [stepValue, change]
  cases positionOf index (h.elements id).size <;> rfl

/-! ## Separation -/

/-- A value of a heap and another value of a later heap, which is its copy, have no list and no
instance in common. -/
structure Separates (h : Heap) (v : Value) (h' : Heap) (v' : Value) : Prop where
  /-- The lists and instances of the heap are left as they are. -/
  heap : Extends h h'
  /-- The value unfolds to a tree. -/
  finite : ∃ levels tree, h.tree? levels v = some tree
  /-- The copy unfolds to the same one. -/
  same : ∀ levels, h'.tree? levels v' = h.tree? levels v
  /-- The lists and instances in the copy are all new, and one path leads to each. -/
  fresh : ∀ u, ReflTransGen h'.Holds v' u → u.Compound → Made h h' u ∧
    ∃! path, h'.follow? v' path = some u
  /-- Changing what the copy has made, or what is made later, leaves the value as it is. -/
  original : ∀ changes : List Change, (∀ c ∈ changes, ∀ u ∈ c.target?, ¬ h.Container u) →
    ∀ levels, (changes.foldl change h').tree? levels v = h.tree? levels v
  /-- Changing what was there before, or what is made later, leaves the copy as it is. -/
  copy : ∀ changes : List Change, (∀ c ∈ changes, ∀ u ∈ c.target?, ¬ Made h h' u) →
    ∀ levels, (changes.foldl change h').tree? levels v' = h'.tree? levels v'

/-- Only lists and instances are changed. -/
theorem Change.compound_of_target {c : Change} (hu : u ∈ c.target?) : u.Compound := by
  cases c with
  | push | extend | setElement =>
    cases hu
    exact .list _
  | setField | unset =>
    cases hu
    exact .object _
  | newList | newInstance => cases hu

/-- A copy of a whole value with a tree is separate from it. -/
theorem CopyOf.separates (hv : h.Whole v) (hfinite : ∃ levels tree, h.tree? levels v = some tree)
    (hcopy : CopyOf h h h₁ [v] [v']) : Separates h v h₁ v' where
  heap := hcopy.heap
  finite := hfinite
  same := (List.forall₂_cons.mp hcopy.unfolds).1
  fresh := by
    intro u hu hcompound
    obtain ⟨path, hpath⟩ := exists_follow? hu
    refine ⟨hcopy.fresh.made (0 :: path) u hpath hcompound, path, hpath, fun path' hpath' => ?_⟩
    exact (List.cons.inj (hcopy.fresh.once (0 :: path') (0 :: path) u hpath' hpath hcompound)).2
  original := by
    intro changes hchanges levels
    have hagrees : h.Agrees h₁ v := hv.agrees hcopy.heap
    have hwhole : h₁.Whole v := fun u hu => hcopy.heap.valid (hv u (hagrees.reach hu))
    have hlater : h₁.Agrees (changes.foldl change h₁) v :=
      agrees_changes hwhole fun c hc u hu hreach =>
      hchanges c hc u hu (.of_valid (hv u (hagrees.reach hreach)) (Change.compound_of_target hu))
    exact (hagrees.trans hlater).tree? levels
  copy := by
    intro changes hchanges levels
    have hwhole : h₁.Whole v' := hcopy.fresh.whole List.mem_cons_self
    refine (agrees_changes hwhole fun c hc u hu hreach => hchanges c hc u hu ?_).tree? levels
    obtain ⟨path, hpath⟩ := exists_follow? hreach
    exact hcopy.fresh.made (0 :: path) u hpath (Change.compound_of_target hu)

/-- A heap in which everything is held by something greater has no cycle. -/
theorem Acyclic.of_rank (rank : Value → Nat) (hrank : ∀ u w, w ∈ h.contents u → rank w < rank u)
    (v : Value) : h.Acyclic v := by
  intro u _ hcycle
  have hless : TransGen (· > ·) (rank u) (rank u) := hcycle.lift rank hrank
  rw [transGen_eq_self] at hless
  exact lt_irrefl _ hless

/-- The deep copy of an acyclic value, in a heap whose lists and instances hold only what is in the
heap. -/
theorem deepCopy_separates (hstored : ∀ u w, w ∈ h.contents u → h.Valid w) (hvalid : h.Valid v)
    (hv : h.Acyclic v) : ∃ v' h', h.deepCopy v = some (v', h') ∧ Separates h v h' v' := by
  obtain ⟨v', h', heq⟩ := deepCopy_of_acyclic hstored hvalid hv
  refine ⟨v', h', heq, ?_⟩
  have hcopy : CopyOf h h h' [v] [v'] :=
    (copied_copyWithin _ h v v' h' heq).copyOf hstored (.refl h)
      (List.forall_mem_singleton.mpr hvalid)
  exact hcopy.separates (whole_of_stored hstored hvalid)
    ⟨_, tree?_of_within (hv.within hstored hvalid)⟩

/-- An object that holds a list by itself and in another list. -/
def sharing : Heap :=
  ⟨#[], #[#[], #[.list 0]], #[⟨none, [(utf8 "a", .list 1), (utf8 "b", .list 0)]⟩], #[], 0⟩

theorem contents_sharing {u w : Value} (hw : w ∈ sharing.contents u) :
    (u = .list 1 ∧ w = .list 0) ∨ (u = .object 0 ∧ (w = .list 1 ∨ w = .list 0)) := by
  cases u with
  | list id =>
    rcases id with _ | _ | id
    · simp [contents, elements, sharing] at hw
    · simpa [contents, elements, sharing] using hw
    · simp [contents, elements, sharing] at hw
  | object id =>
    cases id with
    | zero => simpa [contents, fields, sharing] using hw
    | succ id => simp [contents, fields, sharing] at hw
  | _ => cases hw

/-- An object that reaches one list in two ways gets two lists. -/
theorem deepCopy_separates_sharing :
    sharing.Acyclic (.object 0) ∧
    ∃ v' h', sharing.deepCopy (.object 0) = some (v', h') ∧
      Separates sharing (.object 0) h' v' := by
  have hacyclic : sharing.Acyclic (.object 0) := by
    refine .of_rank sharing.place (fun u w hw => ?_) _
    rcases contents_sharing hw with ⟨rfl, rfl⟩ | ⟨rfl, rfl | rfl⟩ <;> simp [place, sharing]
  refine ⟨hacyclic, deepCopy_separates (fun u w hw => ?_) (by simp [Valid, sharing]) hacyclic⟩
  rcases contents_sharing hw with ⟨-, rfl⟩ | ⟨-, rfl | rfl⟩ <;> simp [Valid, sharing]

end Lox.Heap
