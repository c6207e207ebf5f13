import Lox.Heap

/-!
# Indices

The elements of a list and the characters of a string are counted from zero. An index is a number
that is whole, not negative, and less than the length; which of these fails first decides the
problem.
-/

namespace Lox

/-- The position that a value says, in something of a length. -/
def positionOf (index : Value) (length : Nat) : Except RuntimeProblem Nat :=
  match index with
  | .number x =>
    match (Binary.ofFloat? x).bind Binary.toInt? with
    | none => .error (.indexFraction x)
    | some (.negSucc _) => .error (.indexNegative x)
    | some (.ofNat i) => if i < length then .ok i else .error (.indexRange x length)
  | v => .error (.indexKind v.kind)

namespace Heap

/-- The element of a list or the character of a string at an index. -/
def item (h : Heap) (object index : Value) : Except RuntimeProblem Value :=
  match object with
  | .list id =>
    let elements := h.elements id
    (positionOf index elements.size).map fun i => elements.getD i .nil
  | .string t => (positionOf index t.count).map fun i => ((t.nth? i).map Value.char).getD .nil
  | v => .error (.notIndexable v.kind)

/-- The list that an indexed place can be assigned in. -/
def assignableList : Value → Except RuntimeProblem ListId
  | .list id => .ok id
  | .string _ => .error .stringAssignment
  | v => .error (.notIndexable v.kind)

end Heap

end Lox
