import Lox.Proofs.Evaluation.Effects
import Lox.Proofs.Evaluation.Mirror

/-!
# What the functions of the root scope keep

A native that is called with values that fit gives a value that fits and leaves a heap that fits. It
never ends with a fault, unless it is asked for the deep copy of a value that contains itself.
-/

namespace Lox

namespace Chronicle

variable {w : Chronicle} {h : Heap}

/-! ## Deep copies -/

/-- Copies fit where the values did. -/
theorem fits_copied {h' : Heap} {values values' : List Value} (hc : h.Copied values values' h')
    (hh : w.FitsHeap h) (hvalues : ∀ v ∈ values, w.FitsValue h v) :
    w.FitsHeap h' ∧ ∀ v ∈ values', w.FitsValue h' v := by
  induction hc with
  | nil => exact ⟨hh, hvalues⟩
  | leaf _ hrest ih =>
    obtain ⟨hv, hvalues⟩ := List.forall_mem_cons.mp hvalues
    obtain ⟨hh', hvalues'⟩ := ih hh hvalues
    exact ⟨hh', List.forall_mem_cons.mpr ⟨hv.mono hrest.heap.grows, hvalues'⟩⟩
  | @list h h₁ h' id elements values _ helements hrest ih ihrest =>
    obtain ⟨hh₁, hfits⟩ := ih hh fun u hu => hh.elements id u (Array.mem_toList_iff.mp hu)
    have hmade : w.FitsValue (h₁.newList elements.toArray).2 (.list h₁.lists.size) := by
      simp [FitsValue, Heap.newList]
    obtain ⟨hh', hvalues'⟩ :=
      ihrest (hh₁.newList fun u hu => hfits u (List.mem_toArray.mp hu)) fun u hu =>
      ((List.forall_mem_cons.mp hvalues).2 u hu).mono (helements.heap.newList _).grows
    exact ⟨hh', List.forall_mem_cons.mpr ⟨hmade.mono hrest.heap.grows, hvalues'⟩⟩
  | @object h h₁ h' id elements values _ helements hrest ih ihrest =>
    obtain ⟨hh₁, hfits⟩ := ih hh fun u hu => by
      obtain ⟨⟨name, v⟩, hfield, rfl⟩ := List.mem_map.mp hu
      exact hh.fields id name v hfield
    have hmade : w.FitsValue (h₁.newInstance (h.classOf? id) ((h.fields id).names.zip elements)).2
        (.object h₁.instances.size) := by simp [FitsValue, Heap.newInstance]
    obtain ⟨hh', hvalues'⟩ :=
      ihrest (hh₁.newInstance _ fun name u hu => hfits u (List.of_mem_zip hu).2) fun u hu =>
      ((List.forall_mem_cons.mp hvalues).2 u hu).mono (helements.heap.newInstance _ _).grows
    exact ⟨hh', List.forall_mem_cons.mpr ⟨hmade.mono hrest.heap.grows, hvalues'⟩⟩

theorem FitsValue.valid {v : Value} (hv : w.FitsValue h v) : h.Valid v := by
  cases v with
  | list | object => exact hv
  | _ => trivial

theorem FitsHeap.valid_contents (hh : w.FitsHeap h) (u v : Value) (hv : v ∈ h.contents u) :
    h.Valid v := by
  cases u with
  | list id => exact (hh.elements id v (Array.mem_toList_iff.mp hv)).valid
  | object id =>
    obtain ⟨⟨name, v⟩, hmem, rfl⟩ := List.mem_map.mp hv
    exact (hh.fields id name v hmem).valid
  | _ => cases hv

/-! ## Answers -/

/-- An answer leaves a heap that fits and gives a value that fits, or a problem. -/
structure FitsAnswer (w : Chronicle) (h : Heap) (answer : Builtin.Answer) : Prop where
  grows : h.Grows answer.heap
  heap : w.FitsHeap answer.heap
  result : ∀ v, answer.result = .ok v → w.FitsValue answer.heap v
  noFault : ∀ fault, answer.result ≠ .error (.fault fault)

theorem FitsValue.of_isPlain {v : Value} (hv : v.IsPlain) : w.FitsValue h v := by
  cases v with
  | nil | bool | number | string | char => trivial
  | _ => exact hv.elim

/-- What a native does fits. -/
theorem fits_of_effect {blame : Span} {b : Builtin} {first second : Value} {answer : Builtin.Answer}
    (he : Builtin.Effect h blame b first second answer) (hh : w.FitsHeap h)
    (hfirst : w.FitsValue h first) (hsecond : w.FitsValue h second)
    (hacyclic : b = .deepCopy → h.Acyclic first) : w.FitsAnswer h answer := by
  have hg := he.grows
  cases he with
  | plain hv =>
    refine ⟨hg, hh, fun v heq => ?_, by simp⟩
    obtain rfl := Except.ok.inj heq
    exact .of_isPlain hv
  | blamed => exact ⟨hg, hh, by simp, by simp⟩
  | listed helements =>
    refine ⟨hg, hh.newList fun u hu => .of_isPlain (helements u (List.mem_toArray.mp hu)),
      fun v heq => ?_, by simp⟩
    obtain rfl := Except.ok.inj heq
    simp [FitsValue, Heap.newList]
  | @pushed b id =>
    refine ⟨hg, hh.modifyList id fun u hu => ?_,
      fun v heq => Except.ok.inj heq ▸ hfirst.mono hg, by simp⟩
    rcases Array.mem_push.mp hu with hu | rfl
    · exact .inl hu
    · exact .inr hsecond
  | @extended b id other =>
    refine ⟨hg, hh.modifyList id fun u hu => ?_,
      fun v heq => Except.ok.inj heq ▸ hfirst.mono hg, by simp⟩
    exact (Array.mem_append.mp hu).imp_right (hh.elements other u)
  | @taken b id name old console hold =>
    refine ⟨hg, hh.modifyInstance id fun other u hu => .inl (Entries.mem_of_mem_remove hu),
      fun v heq => ?_, by simp⟩
    obtain rfl := Except.ok.inj heq
    exact (hh.field? hold).mono hg
  | copied hcopy =>
    have hcopied := Heap.copied_copyWithin _ _ _ _ _ hcopy
    obtain ⟨hh', hcopies⟩ := fits_copied hcopied hh (List.forall_mem_singleton.mpr hfirst)
    refine ⟨hg, hh', fun v heq => ?_, by simp⟩
    obtain rfl := Except.ok.inj heq
    exact hcopies _ List.mem_cons_self
  | endless hendless =>
    -- The copy of an acyclic value ends.
    obtain ⟨v', h', hcopy⟩ := Heap.deepCopy_of_acyclic hh.valid_contents hfirst.valid (hacyclic rfl)
    cases hendless.symm.trans hcopy

/-- A call of a function of the root scope with arguments that fit. -/
theorem FitsHeap.call (hh : w.FitsHeap h) (b : Builtin) {arguments : List Value}
    (harguments : ∀ v ∈ arguments, w.FitsValue h v) (blame : Span) (console : Console)
    (hacyclic : b = .deepCopy → h.Acyclic (arguments.getD 0 .nil)) :
    w.FitsAnswer h (b.call arguments blame h console) := by
  have hargument := Builtin.forall_getD (p := w.FitsValue h) trivial harguments
  exact fits_of_effect (b.effect_call arguments blame h console) hh (hargument 0)
    (hargument 1) hacyclic

end Chronicle

end Lox
