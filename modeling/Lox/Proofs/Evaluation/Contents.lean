import Lox.Proofs.Evaluation.Effects

/-!
# What lists and instances hold

A property of values that holds of all data, that is of everything but functions of a program and
classes, is kept by the functions of the root scope: what they put into lists and instances and what
they give is data, or was there before, or was an argument. They make no class.
-/

namespace Lox

/-- A value is no function of a program and no class. -/
def Value.IsData : Value → Prop
  | .closure _ | .classRef _ => False
  | _ => True

/-- A property of values that holds of all data. -/
def OfData (p : Value → Prop) : Prop := ∀ v : Value, v.IsData → p v

/-- What holds of data holds of plain values. -/
theorem OfData.plain {p : Value → Prop} (hp : OfData p) {v : Value} (hv : v.IsPlain) : p v := by
  refine hp v ?_
  cases v with
  | closure | classRef => exact hv
  | _ => trivial

/-- All elements of lists and all properties of instances have a property. -/
structure Heap.Stores (p : Value → Prop) (h : Heap) : Prop where
  elements : ∀ id, ∀ v ∈ h.elements id, p v
  fields : ∀ id name v, (name, v) ∈ h.fields id → p v

variable {p : Value → Prop} {h : Heap}

namespace Heap

/-- What is stored may be known less well. -/
theorem Stores.mono {q : Value → Prop} (hs : h.Stores p) (hpq : ∀ v, p v → q v) : h.Stores q :=
  ⟨fun id v hv => hpq v (hs.elements id v hv), fun id name v hv => hpq v (hs.fields id name v hv)⟩

/-- Scopes and classes store nothing. -/
theorem Stores.of_eq {h' : Heap} (hs : h.Stores p) (hlists : h'.lists = h.lists)
    (hinstances : h'.instances = h.instances) : h'.Stores p := by
  refine ⟨fun id v hv => hs.elements id v ?_, fun id name v hv => hs.fields id name v ?_⟩
  · rwa [Heap.elements, ← hlists]
  · rwa [Heap.fields, ← hinstances]

/-- A list is made of values that may be stored. -/
theorem Stores.newList (hs : h.Stores p) {elements : Array Value}
    (helements : ∀ v ∈ elements, p v) : (h.newList elements).2.Stores p := by
  refine ⟨fun id v hv => ?_, hs.fields⟩
  rw [elements_newList] at hv
  split at hv
  · exact helements v hv
  · exact hs.elements id v hv

theorem Stores.modifyList (hs : h.Stores p) (id : ListId) {change : Array Value → Array Value}
    (hchange : ∀ v ∈ change (h.elements id), v ∈ h.elements id ∨ p v) :
    Heap.Stores p { h with lists := h.lists.modify id change } := by
  refine ⟨fun at' v hv => ?_, hs.fields⟩
  rw [elements_modify] at hv
  split at hv
  · next hat =>
    obtain ⟨rfl, -⟩ := hat
    exact (hchange v hv).elim (hs.elements _ v) id
  · exact hs.elements at' v hv

theorem Stores.newInstance (hs : h.Stores p) (ofClass : Option ClassId) {fields : Entries Value}
    (hfields : ∀ name v, (name, v) ∈ fields → p v) : (h.newInstance ofClass fields).2.Stores p := by
  refine ⟨hs.elements, fun id name v hv => ?_⟩
  rw [fields_newInstance] at hv
  split at hv
  · exact hfields name v hv
  · exact hs.fields id name v hv

theorem Stores.modifyInstance (hs : h.Stores p) (id : InstanceId)
    {change : Entries Value → Entries Value}
    (hchange : ∀ name v, (name, v) ∈ change (h.fields id) → (name, v) ∈ h.fields id ∨ p v) :
    Heap.Stores p { h with
      instances := h.instances.modify id fun o => { o with fields := change o.fields } } := by
  refine ⟨hs.elements, fun at' name v hv => ?_⟩
  rw [fields_modify] at hv
  split at hv
  · next hat =>
    obtain ⟨rfl, -⟩ := hat
    exact (hchange name v hv).elim (hs.fields _ name v) id
  · exact hs.fields at' name v hv

/-- A property is set to one. -/
theorem Stores.setField (hs : h.Stores p) (id : InstanceId) (name : Text) {v : Value} (hv : p v) :
    (h.setField id name v).Stores p := by
  refine hs.modifyInstance id fun other u hu => ?_
  rcases Entries.mem_put hu with heq | hu
  · obtain ⟨rfl, rfl⟩ := Prod.mk.inj heq
    exact .inr hv
  · exact .inl hu

/-- An element is set to one. -/
theorem Stores.setElement (hs : h.Stores p) (id : ListId) (i : Nat) {v : Value} (hv : p v) :
    (h.setElement id i v).Stores p := by
  refine hs.modifyList id fun u hu => ?_
  rcases Array.mem_or_eq_of_mem_setIfInBounds hu with hu | rfl
  · exact .inl hu
  · exact .inr hv

theorem Stores.field? (hs : h.Stores p) {id : InstanceId} {name : Text} {v : Value}
    (hv : h.field? id name = some v) : p v := by
  have hget : (h.fields id).get? name = some v := by
    simp only [Heap.field?] at hv
    split at hv
    · cases hv
    · exact hv
  exact hs.fields id name v (Entries.mem_of_get? hget)

/-- What a subscript gives is plain, or an element. -/
theorem Stores.item (hp : OfData p) (hs : h.Stores p) {owner position v : Value}
    (heq : h.item owner position = .ok v) : p v := by
  rcases isPlain_or_mem_of_item heq with hplain | ⟨id, hmem⟩
  · exact hp.plain hplain
  · exact hs.elements id v hmem

/-! ## Deep copies -/

/-- Copies store what was stored. -/
theorem Copied.stores {h' : Heap} {values values' : List Value} (hc : Copied h values values' h')
    (hp : OfData p) (hs : h.Stores p) (hvalues : ∀ v ∈ values, p v) :
    h'.Stores p ∧ ∀ v ∈ values', p v := by
  induction hc with
  | nil => exact ⟨hs, hvalues⟩
  | leaf _ _ ih =>
    obtain ⟨hv, hvalues⟩ := List.forall_mem_cons.mp hvalues
    obtain ⟨hs', hvalues'⟩ := ih hs hvalues
    exact ⟨hs', List.forall_mem_cons.mpr ⟨hv, hvalues'⟩⟩
  | @list h h₁ h' id elements _ _ _ _ ih ihrest =>
    obtain ⟨hs₁, helements⟩ := ih hs fun u hu => hs.elements id u (Array.mem_toList_iff.mp hu)
    obtain ⟨hs', hvalues'⟩ :=
      ihrest (hs₁.newList fun u hu => helements u (List.mem_toArray.mp hu))
        (List.forall_mem_cons.mp hvalues).2
    exact ⟨hs', List.forall_mem_cons.mpr ⟨hp _ trivial, hvalues'⟩⟩
  | @object h h₁ h' id elements _ _ _ _ ih ihrest =>
    obtain ⟨hs₁, helements⟩ := ih hs fun u hu => by
      obtain ⟨⟨name, v⟩, hfield, rfl⟩ := List.mem_map.mp hu
      exact hs.fields id name v hfield
    obtain ⟨hs', hvalues'⟩ :=
      ihrest (hs₁.newInstance _ fun name u hu => helements u (List.of_mem_zip hu).2)
        (List.forall_mem_cons.mp hvalues).2
    exact ⟨hs', List.forall_mem_cons.mpr ⟨hp _ trivial, hvalues'⟩⟩

end Heap

/-! ## Natives -/

namespace Builtin

/-- What a native leaves: no new class, and nothing without the property. -/
structure Answer.Keeps (p : Value → Prop) (h : Heap) (answer : Answer) : Prop where
  classes : answer.heap.classes = h.classes
  stores : answer.heap.Stores p
  result : ∀ v, answer.result = .ok v → p v

variable {blame : Span} {console : Console}

/-- So do natives. -/
theorem Effect.keeps {b : Builtin} {first second : Value} {answer : Answer}
    (he : Effect h blame b first second answer) (hp : OfData p) (hs : h.Stores p) (hfirst : p first)
    (hsecond : p second) : answer.Keeps p h := by
  have hclasses := he.classes
  cases he with
  | plain hv =>
    refine ⟨hclasses, hs, fun v heq => ?_⟩
    obtain rfl := Except.ok.inj heq
    exact hp.plain hv
  | blamed | endless => exact ⟨hclasses, hs, nofun⟩
  | listed helements =>
    refine ⟨hclasses, hs.newList fun u hu => hp.plain (helements u (List.mem_toArray.mp hu)),
      fun v heq => ?_⟩
    obtain rfl := Except.ok.inj heq
    exact hp _ trivial
  | @pushed b id =>
    refine ⟨hclasses, hs.modifyList id fun u hu => ?_, fun v heq => Except.ok.inj heq ▸ hfirst⟩
    rcases Array.mem_push.mp hu with hu | rfl
    · exact .inl hu
    · exact .inr hsecond
  | @extended b id other =>
    refine ⟨hclasses, hs.modifyList id fun u hu => ?_, fun v heq => Except.ok.inj heq ▸ hfirst⟩
    exact (Array.mem_append.mp hu).imp_right (hs.elements other u)
  | @taken b id name old console hold =>
    refine ⟨hclasses, hs.modifyInstance id fun other u hu => .inl (Entries.mem_of_mem_remove hu),
      fun v heq => ?_⟩
    obtain rfl := Except.ok.inj heq
    exact hs.field? hold
  | copied hcopy =>
    have hcopied := Heap.copied_copyWithin _ _ _ _ _ hcopy
    obtain ⟨hs', hcopies⟩ := hcopied.stores hp hs (List.forall_mem_singleton.mpr hfirst)
    refine ⟨hclasses, hs', fun v heq => ?_⟩
    obtain rfl := Except.ok.inj heq
    exact hcopies _ List.mem_cons_self

/-- A call of a native with arguments that have a property leaves only what has it. -/
theorem keeps_stores_call (hp : OfData p) (hs : h.Stores p) (b : Builtin) {arguments : List Value}
    (harguments : ∀ v ∈ arguments, p v) : (b.call arguments blame h console).Keeps p h := by
  have hargument := forall_getD (hp .nil trivial) harguments
  exact (b.effect_call arguments blame h console).keeps hp hs (hargument 0) (hargument 1)

end Builtin

end Lox
