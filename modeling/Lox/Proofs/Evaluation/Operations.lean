import Lox.Proofs.Heap.Relabelling

/-!
# Operations on values in a disguise

What operators, indices and the functions of the root scope give for values in a disguise is what
they give for the values, in the disguise. Only the comparison of functions looks at marks, and it
asks no more than whether two literals are one.
-/

namespace Lox

/-! ## Operators and indices -/

section Operators

variable (g : Guise)

/-- Operators do not look at names or marks. -/
theorem UnaryOp.apply_dress (op : UnaryOp) (v : Value) :
    op.apply (v.dress g) = (op.apply v).map (Value.dress g) := by
  cases op <;> cases v <;> rfl

theorem BinaryOp.compute_dress (op : BinaryOp) (v w : Value) :
    op.compute (v.dress g) (w.dress g) = (op.compute v w).map (Value.dress g) := by
  cases v with
  | number x =>
    cases w with
    | number y => cases op <;> rfl
    | _ => rfl
  | string s =>
    cases w with
    | string t =>
      simp only [Value.dress_string, BinaryOp.compute]
      split <;> rfl
    | _ => rfl
  | _ => cases w <;> rfl

/-- Equality of closures needs a disguise, the other operators need nothing. -/
theorem BinaryOp.apply_dress (d : Disguise) (op : BinaryOp) (v w : Value) :
    op.apply (v.dress d) (w.dress d) = (op.apply v w).map (Value.dress d) := by
  cases op with
  | equal | notEqual =>
    simp only [BinaryOp.apply, Value.equals_dress]
    rfl
  | _ => exact BinaryOp.compute_dress d _ v w

/-- A logical operator is settled by the same values. -/
theorem LogicalOp.settledBy_dress (op : LogicalOp) (v : Value) :
    op.settledBy (v.dress g) = op.settledBy v := by
  cases op <;> simp [LogicalOp.settledBy]

/-- A position is one in every guise. -/
theorem positionOf_dress (v : Value) (length : Nat) :
    positionOf (v.dress g) length = positionOf v length := by
  cases v <;> rfl

/-- A subscript gives the same item. -/
theorem Heap.item_dress (h : Heap) (owner index : Value) :
    (h.dress g).item (owner.dress g) (index.dress g) =
      (h.item owner index).map (Value.dress g) := by
  cases owner with
  | list id =>
    simp only [Heap.item, Value.dress_list, positionOf_dress, elements_dress, Array.size_map]
    cases positionOf index (h.elements id).size with
    | error problem => rfl
    | ok i =>
      simp only [Except.map, Array.getD_eq_getD_getElem?, Array.getElem?_map]
      cases (h.elements id)[i]? <;> rfl
  | string t =>
    simp only [Heap.item, Value.dress_string, positionOf_dress]
    cases positionOf index t.count with
    | error problem => rfl
    | ok i =>
      simp only [Except.map]
      cases t.nth? i <;> rfl
  | _ => rfl

theorem Heap.assignableList_dress (v : Value) : assignableList (v.dress g) = assignableList v := by
  cases v <;> rfl

end Operators

/-! ## Functions of the root scope -/

namespace Builtin

section Functions

variable (g : Guise) (h : Heap)

/-- Conversion reads data only. -/
theorem toNumber_dress (v : Value) : toNumber (v.dress g) = (toNumber v).map (Value.dress g) := by
  cases v <;> rfl

theorem charsOf_dress (vs : List Value) : charsOf (vs.map (Value.dress g)) = charsOf vs := by
  induction vs with
  | nil => rfl
  | cons v vs ih =>
    cases v with
    | char c => simp only [List.map_cons, Value.dress_char, charsOf, ih]
    | _ => rfl

/-- So does joining characters. -/
theorem stringOfChars_dress (v : Value) :
    stringOfChars (h.dress g) (v.dress g) = (stringOfChars h v).map (Value.dress g) := by
  cases v with
  | list id =>
    simp only [stringOfChars, Value.dress_list, Heap.elements_dress, Array.toList_map,
      charsOf_dress]
    cases charsOf (h.elements id).toList <;> rfl
  | _ => rfl

/-- So does a length. -/
theorem lengthOf_dress (v : Value) :
    lengthOf (h.dress g) (v.dress g) = (lengthOf h v).map (Value.dress g) := by
  cases v with
  | list id =>
    simp only [lengthOf, Value.dress_list, Heap.elements_dress, Array.size_map]
    rfl
  | _ => rfl

/-- A string has the same parts. -/
theorem parts_dress (v : Value) : parts (h.dress g) (v.dress g) = parts h v := by
  cases v with
  | object id => simp only [parts, Value.dress_object, Heap.fields_dress, Entries.names_mapValues]
  | _ => rfl

/-- Characters and strings have no marks. -/
theorem map_mark_of_parts {v : Value} {elements : List Value} (hparts : parts h v = .ok elements) :
    elements.map (Value.dress g) = elements := by
  cases v <;> cases hparts <;> simp

/-- A value is expanded to a new list in its guise. -/
theorem expandValue_dress (v : Value) :
    expandValue (h.dress g) (v.dress g) =
      ((expandValue h v).1.map (Value.dress g), (expandValue h v).2.dress g) := by
  simp only [expandValue, parts_dress]
  cases hparts : parts h v with
  | error problem => rfl
  | ok elements =>
    have hlist := Heap.newList_dress g h elements.toArray
    rw [List.map_toArray, map_mark_of_parts g h hparts] at hlist
    simp only [hlist]
    rfl

/-- A value is pushed in its guise. -/
theorem pushValue_dress (target v : Value) :
    pushValue (h.dress g) (target.dress g) (v.dress g) =
      ((pushValue h target v).1.map (Value.dress g), (pushValue h target v).2.dress g) := by
  cases target with
  | list id =>
    simp only [pushValue, Value.dress_list, ← Heap.pushElement_dress]
    rfl
  | _ => rfl

theorem extendList_dress (target v : Value) :
    extendList (h.dress g) (target.dress g) (v.dress g) =
      ((extendList h target v).1.map (Value.dress g), (extendList h target v).2.dress g) := by
  cases target with
  | list id =>
    cases v with
    | list other =>
      simp only [extendList, Value.dress_list, Heap.elements_dress, Heap.appendElements_dress]
      rfl
    | _ => rfl
  | _ => cases v <;> rfl

/-- A value has the parts that are equal to one. -/
theorem hasPart_dress (d : Disguise) (whole part : Value) :
    hasPart (h.dress d) (whole.dress d) (part.dress d) =
      (hasPart h whole part).map (Value.dress d) := by
  cases whole with
  | object id =>
    have hfield : ((h.dress (d : Guise)).field? id ((part.dress d).printed (h.dress d))).isSome =
        (h.field? id (part.printed h)).isSome := by
      rw [Value.printed_dress, Heap.field?_dress, Option.isSome_map]
    simp only [hasPart, hfield, Value.dress_object]
    rfl
  | list id =>
    have hany :
        (((h.dress (d : Guise)).elements id).toList.any fun element =>
          element.equals (part.dress d)) = (h.elements id).toList.any fun element =>
        element.equals part := by
      rw [Heap.elements_dress, Array.toList_map, List.any_map]
      congr 1
      funext element
      exact Value.equals_dress d element part
    simp only [hasPart, hany, Value.dress_list]
    rfl
  | string t => cases part <;> rfl
  | _ => cases part <;> rfl

/-- A property is unset under its own name. -/
theorem unsetField_dress (whole part : Value) :
    unsetField (h.dress g) (whole.dress g) (part.dress g) =
      ((unsetField h whole part).1.map (Value.dress g), (unsetField h whole part).2.dress g) := by
  cases whole with
  | object id =>
    cases part with
    | string name =>
      simp only [unsetField, Value.dress_object, Value.dress_string, Heap.field?_dress]
      cases h.field? id name with
      | none => rfl
      | some old =>
        simp only [Option.map_some, Heap.removeField_dress]
        rfl
    | _ => rfl
  | _ => cases part <;> rfl

theorem onNumber_dress (b : Builtin) (f : Float → Value) (hf : ∀ x, (f x).dress g = f x)
    (v : Value) : onNumber b f (v.dress g) = (onNumber b f v).map (Value.dress g) := by
  cases v with
  | number x => simp only [onNumber, Value.dress_number, Except.map, hf]
  | _ => rfl

end Functions

/-- What a call leaves behind, in a guise. A native blames nothing but the call. -/
def Answer.dress (g : Guise) (a : Answer) : Answer :=
  ⟨(a.result.map (Value.dress g)).mapError (Stop.mark g.toMarks), a.heap.dress g, a.console⟩

section Calls

variable (d : Disguise) (h : Heap) (blame : Span) (console : Console)

theorem readLine_dress (prompt : Value) :
    readLine (prompt.dress d) (d.span blame) (h.dress d) console =
      (readLine prompt blame h console).dress d := by
  have hread : ∀ console : Console, readLine.read (d.span blame) (h.dress d) console =
      (readLine.read blame h console).dress d := by
    intro console
    simp only [readLine.read]
    rcases console.readLine with ⟨line | problem, console'⟩ <;> rfl
  have hprinted := Value.printed_dress d h prompt
  cases prompt with
  | nil => exact hread console
  | _ =>
    simp only [Value.dress] at hprinted ⊢
    simp only [readLine, hprinted]
    generalize console.print _ = prompted
    cases prompted.printProblem with
    | some problem => rfl
    | none => exact hread prompted

theorem answer_dress (result : Except RuntimeProblem Value) :
    call.answer (d.span blame) console (result.map (Value.dress d), h.dress d) =
      (call.answer blame console (result, h)).dress d := by
  cases result <;> rfl

/-- A call of a function of the root scope. -/
theorem call_dress (b : Builtin) (arguments : List Value) :
    b.call (arguments.map (Value.dress d)) (d.span blame) (h.dress d) console =
      (b.call arguments blame h console).dress d := by
  have hargument : ∀ i, (arguments.map (Value.dress d)).getD i .nil =
      (arguments.getD i .nil).dress d := fun i => by
    simp only [List.getD_eq_getElem?_getD, List.getElem?_map]
    cases arguments[i]? <;> rfl
  simp only [call, hargument]
  generalize arguments.getD 0 .nil = first
  generalize arguments.getD 1 .nil = second
  cases b with
  | str =>
    rw [Value.printed_dress]
    exact answer_dress d h blame console (.ok (.string (first.printed h)))
  | typeOf =>
    rw [Value.kind_dress]
    exact answer_dress d h blame console (.ok (.string (utf8 first.kind.name)))
  | number =>
    rw [toNumber_dress]
    exact answer_dress d h blame console (toNumber first)
  | fromChars =>
    rw [stringOfChars_dress]
    exact answer_dress d h blame console (stringOfChars h first)
  | len =>
    rw [lengthOf_dress]
    exact answer_dress d h blame console (lengthOf h first)
  | expand =>
    rw [expandValue_dress]
    exact answer_dress d (expandValue h first).2 blame console (expandValue h first).1
  | push =>
    rw [pushValue_dress]
    exact answer_dress d (pushValue h first second).2 blame console (pushValue h first second).1
  | extend =>
    rw [extendList_dress]
    exact answer_dress d (extendList h first second).2 blame console (extendList h first second).1
  | deepCopy =>
    simp only [Heap.deepCopy_dress]
    rcases h.deepCopy first with _ | ⟨copy, h'⟩ <;> rfl
  | has =>
    rw [hasPart_dress]
    exact answer_dress d h blame console (hasPart h first second)
  | unset =>
    rw [unsetField_dress]
    exact answer_dress d (unsetField h first second).2 blame console (unsetField h first second).1
  | isNaN =>
    rw [onNumber_dress d isNaN (fun x => .bool x.isNaN) fun _ => rfl]
    exact answer_dress d h blame console (onNumber isNaN (fun x => .bool x.isNaN) first)
  | floor =>
    rw [onNumber_dress d floor (fun x => .number x.floor) fun _ => rfl]
    exact answer_dress d h blame console (onNumber floor (fun x => .number x.floor) first)
  | ceil =>
    rw [onNumber_dress d ceil (fun x => .number x.ceil) fun _ => rfl]
    exact answer_dress d h blame console (onNumber ceil (fun x => .number x.ceil) first)
  | read => exact readLine_dress d h blame console first

end Calls

end Builtin

end Lox
