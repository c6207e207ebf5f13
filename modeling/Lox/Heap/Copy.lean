import Lox.Heap

/-!
# Deep copies

A deep copy of a value has new lists and instances wherever the value has them, however deep, and
shares everything else. A path through lists and instances that meets none twice is no longer than
their number, so copying a value that does not contain itself ends within that many levels.
-/

namespace Lox.Heap

/-- Copies elements, in order. -/
def copyElements (copy : Heap → Value → Option (Value × Heap)) :
    Heap → List Value → Option (List Value × Heap)
  | h, [] => some ([], h)
  | h, v :: rest => do
    let (v, h) ← copy h v
    let (rest, h) ← copyElements copy h rest
    return (v :: rest, h)

/-- Copies properties, in order. -/
def copyFields (copy : Heap → Value → Option (Value × Heap)) :
    Heap → Entries Value → Option (Entries Value × Heap)
  | h, [] => some ([], h)
  | h, (name, v) :: rest => do
    let (v, h) ← copy h v
    let (rest, h) ← copyFields copy h rest
    return ((name, v) :: rest, h)

/-- Copies a value whose lists and instances lie within a number of levels, and gives nothing for a
deeper one. -/
def copyWithin : Nat → Heap → Value → Option (Value × Heap)
  | 0, _, .list _ => none
  | 0, _, .object _ => none
  | levels + 1, h, .list id => do
    let (elements, h) ← copyElements (copyWithin levels) h (h.elements id).toList
    let (id, h) := h.newList elements.toArray
    return (.list id, h)
  | levels + 1, h, .object id => do
    let ofClass := h.classOf? id
    let (fields, h) ← copyFields (copyWithin levels) h (h.fields id)
    let (id, h) := h.newInstance ofClass fields
    return (.object id, h)
  | _, h, v => some (v, h)

/-- Copies a value that does not contain itself, and gives nothing for one that does. -/
def deepCopy (h : Heap) (v : Value) : Option (Value × Heap) :=
  copyWithin (h.lists.size + h.instances.size) h v

end Lox.Heap
