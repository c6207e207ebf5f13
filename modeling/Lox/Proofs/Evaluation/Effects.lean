import Lox.Builtin
import Lox.Proofs.Evaluation.Causes
import Lox.Proofs.Heap.Copying

/-!
# What the functions of the root scope do

A call of a native has one of a few **effects** on the heap: it gives something plain or is blamed,
and leaves the heap as it is; it makes a list of plain values; it puts elements at the end of a
list; it takes a property from an instance; or it makes a deep copy (`Builtin.effect_call`). All
that is to be known of every native is read off its effect.
-/

namespace Lox

namespace Builtin

/-- What a native does with its arguments: what it gives or stops with, and the heap that it
leaves. -/
inductive Effect (h : Heap) (blame : Span) : Builtin → Value → Value → Answer → Prop
  | plain {b : Builtin} {first second v : Value} {console : Console} : v.IsPlain →
      Effect h blame b first second ⟨.ok v, h, console⟩
  | blamed {b : Builtin} {first second : Value} {problem : RuntimeProblem} {console : Console} :
      problem.cause = .native →
      Effect h blame b first second ⟨.error (.blame problem blame), h, console⟩
  | listed {b : Builtin} {first second : Value} {elements : List Value} {console : Console} :
      (∀ v ∈ elements, v.IsPlain) →
      Effect h blame b first second
      ⟨.ok (.list h.lists.size), (h.newList elements.toArray).2, console⟩
  | pushed {b : Builtin} {id : ListId} {second : Value} {console : Console} :
      Effect h blame b (.list id) second ⟨.ok (.list id), h.pushElement id second, console⟩
  | extended {b : Builtin} {id other : ListId} {console : Console} :
      Effect h blame b (.list id) (.list other)
        ⟨.ok (.list id), h.appendElements id (h.elements other), console⟩
  | taken {b : Builtin} {id : InstanceId} {name : Text} {old : Value} {console : Console} :
      h.field? id name = some old →
      Effect h blame b (.object id) (.string name) ⟨.ok old, h.removeField id name, console⟩
  | copied {b : Builtin} {first second copy : Value} {h' : Heap} {console : Console} :
      h.deepCopy first = some (copy, h') → Effect h blame b first second ⟨.ok copy, h', console⟩
  | endless {first second : Value} {console : Console} : h.deepCopy first = none →
      Effect h blame .deepCopy first second ⟨.error (.fault .endlessCopy), h, console⟩

variable {h : Heap} {blame : Span} {console : Console} {problem : RuntimeProblem} {v : Value}

/-! ## Natives that leave the heap alone -/

/-- Conversion gives a number or blames its argument. -/
theorem yields_toNumber (v : Value) : Yields .native (toNumber v) := by
  cases v <;> trivial

theorem cause_charsOf {values : List Value} (heq : charsOf values = .error problem) :
    problem.cause = .native := by
  induction values with
  | nil => cases heq
  | cons v rest ih =>
    cases v with
    | char c => exact ih (eq_error_of_map heq)
    | _ =>
      obtain rfl := Except.error.inj heq
      rfl

theorem yields_stringOfChars (h : Heap) (v : Value) : Yields .native (stringOfChars h v) := by
  cases v with
  | list id =>
    simp only [stringOfChars]
    cases hchars : charsOf (h.elements id).toList with
    | ok cs => trivial
    | error problem => exact cause_charsOf hchars
  | _ => rfl

/-- A length is a number. -/
theorem yields_lengthOf (h : Heap) (v : Value) : Yields .native (lengthOf h v) := by
  cases v <;> trivial

/-- Whether a part is there is a truth value. -/
theorem yields_hasPart (h : Heap) (v part : Value) : Yields .native (hasPart h v part) := by
  cases v with
  | string => cases part <;> trivial
  | _ => trivial

theorem yields_onNumber (b : Builtin) {f : Float → Value} (hf : ∀ x, (f x).IsPlain) (v : Value) :
    Yields .native (onNumber b f v) := by
  cases v with
  | number x => exact hf x
  | _ => rfl

/-! ## Effects -/

variable {b : Builtin} {first second : Value}

/-- A native that only computes changes nothing. -/
theorem effect_answer {result : Except RuntimeProblem Value} (hy : Yields .native result) :
    Effect h blame b first second (call.answer blame console (result, h)) := by
  cases result with
  | ok v => exact .plain hy
  | error problem => exact .blamed hy

/-- Expansion makes one list. -/
theorem effect_expandValue :
    Effect h blame b first second (call.answer blame console (expandValue h first)) := by
  cases first with
  | string t =>
    refine .listed fun u hu => ?_
    obtain ⟨c, -, rfl⟩ := List.mem_map.mp hu
    trivial
  | object id =>
    refine .listed fun u hu => ?_
    obtain ⟨name, -, rfl⟩ := List.mem_map.mp hu
    trivial
  | _ => exact .blamed rfl

/-- Pushing changes one list. -/
theorem effect_pushValue :
    Effect h blame b first second (call.answer blame console (pushValue h first second)) := by
  cases first with
  | list id => exact .pushed
  | _ => exact .blamed rfl

theorem effect_extendList :
    Effect h blame b first second (call.answer blame console (extendList h first second)) := by
  cases first with
  | list id =>
    cases second with
    | list other => exact .extended
    | _ => exact .blamed rfl
  | _ => exact .blamed rfl

/-- Unsetting takes one property. -/
theorem effect_unsetField :
    Effect h blame b first second (call.answer blame console (unsetField h first second)) := by
  cases first with
  | object id =>
    cases second with
    | string name =>
      simp only [unsetField]
      split
      · next old hold => exact .taken hold
      · exact .plain trivial
    | _ => exact .blamed rfl
  | _ => exact .blamed rfl

theorem effect_readLine : Effect h blame b first second (readLine first blame h console) := by
  have hread : ∀ console, Effect h blame b first second (readLine.read blame h console) := by
    intro console
    unfold readLine.read
    split
    · exact .plain trivial
    · exact .blamed rfl
  unfold readLine
  split
  · exact hread console
  · dsimp only
    split
    · exact .blamed rfl
    · exact hread _

/-- Every call of a native has an effect. -/
theorem effect_call (b : Builtin) (arguments : List Value) (blame : Span) (h : Heap)
    (console : Console) :
    Effect h blame b (arguments.getD 0 .nil) (arguments.getD 1 .nil)
      (b.call arguments blame h console) := by
  simp only [call]
  generalize arguments.getD 0 .nil = first
  generalize arguments.getD 1 .nil = second
  cases b with
  | str | typeOf => exact .plain trivial
  | number => exact effect_answer (yields_toNumber first)
  | fromChars => exact effect_answer (yields_stringOfChars h first)
  | len => exact effect_answer (yields_lengthOf h first)
  | expand => exact effect_expandValue
  | push => exact effect_pushValue
  | extend => exact effect_extendList
  | deepCopy =>
    dsimp only
    split
    · next hcopy => exact .copied hcopy
    · next hcopy => exact .endless hcopy
  | has => exact effect_answer (yields_hasPart h first second)
  | unset => exact effect_unsetField
  | isNaN | floor | ceil =>
    refine effect_answer (yields_onNumber _ (fun x => ?_) first)
    trivial
  | read => exact effect_readLine

/-- What holds of all arguments and of `nil` holds of each that a native looks at. -/
theorem forall_getD {p : Value → Prop} (hnil : p .nil) {arguments : List Value}
    (harguments : ∀ v ∈ arguments, p v) (i : Nat) : p (arguments.getD i .nil) := by
  rcases hget : arguments[i]? with _ | v
  · simpa [List.getD, hget] using hnil
  · simpa [List.getD, hget] using harguments v (List.mem_of_getElem? hget)

/-! ## Heaps -/

section Heaps

variable {answer : Answer} (he : Effect h blame b first second answer)

include he

/-- No native makes a scope or a binding. -/
theorem Effect.scopes : answer.heap.scopes = h.scopes := by
  cases he with
  | copied hcopy => exact (Heap.copied_copyWithin _ _ _ _ _ hcopy).heap.scopes
  | _ => rfl

/-- No native makes a class. -/
theorem Effect.classes : answer.heap.classes = h.classes := by
  cases he with
  | copied hcopy => exact (Heap.copied_copyWithin _ _ _ _ _ hcopy).heap.classes
  | _ => rfl

/-- No native takes anything but properties. -/
theorem Effect.grows : h.Grows answer.heap := by
  cases he with
  | plain | blamed | endless => exact .refl h
  | listed => exact Heap.grows_newList _
  | pushed | extended => exact Heap.grows_modifyList _ _
  | taken => exact Heap.grows_modifyInstance _ _
  | copied hcopy => exact (Heap.copied_copyWithin _ _ _ _ _ hcopy).heap.grows

end Heaps

/-! ## Stops -/

/-- A stop of a native blames the call for a problem of its own, or a value was to be copied that
contains itself. -/
def Answer.Blames (blame : Span) (answer : Answer) : Prop :=
  ∀ stop, answer.result = .error stop →
    (∃ problem, stop = .blame problem blame ∧ problem.cause = .native) ∨ stop = .fault .endlessCopy

theorem Effect.blames {answer : Answer} (he : Effect h blame b first second answer) :
    answer.Blames blame := by
  intro stop hstop
  cases he with
  | blamed hcause => exact .inl ⟨_, (Except.error.inj hstop).symm, hcause⟩
  | endless => exact .inr (Except.error.inj hstop).symm
  | _ => cases hstop

/-- A native blames its own call for a cause of natives, or meets a fault. -/
theorem blames_call (b : Builtin) (arguments : List Value) :
    (b.call arguments blame h console).Blames blame :=
  (b.effect_call arguments blame h console).blames

end Builtin

end Lox
