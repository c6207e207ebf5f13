import Lox.Heap

/-!
# Printed values

How a value is printed. A list or an object shows its items, at most a hundred of them; a list or an
object inside it shows only how many it has. So printing looks two levels deep and ends whatever the
heap holds, a list that contains itself included.
-/

namespace Lox

/-- The most items of a list or object that are printed. -/
def maxPrintedItems : Nat := 100

/-- The items of a list or object between its brackets, with how many of the total are not shown. -/
def bracketed (opening closing : String) (items : List Text) (total : Nat) : Text :=
  let shown := if total == items.length then items else items ++ [hidden (total - items.length)]
  if total == 0 then utf8 opening ++ utf8 " " ++ utf8 closing
  else utf8 opening ++ utf8 " " ++ Text.join (utf8 ", ") shown ++ utf8 " " ++ utf8 closing
where
  hidden (n : Nat) : Text := utf8 "..." ++ Text.ofNat n ++ utf8 " hidden"

namespace Value

/-- A value that is not a list or an object without a class, as it is printed. -/
def printedPlain (h : Heap) : Value → Text
  | nil => utf8 "nil"
  | bool b => utf8 (if b then "true" else "false")
  | number x => Numeral.write x
  | string t => t
  | char c => Text.encode c
  | closure _ | native _ => utf8 "function"
  | classRef id => className id
  | object id => utf8 "instance of " ++ ((h.classOf? id).map className).getD []
  | list _ => []
where
  className (id : ClassId) : Text := utf8 "class " ++ ((h.classes[id]?).map ClassDef.name).getD []

/-- A list or an object, given how many of its items to show and how to print one; another value as
it is. -/
def printedWith (h : Heap) (limit : Nat) (item : Value → Text) : Value → Text
  | list id =>
    let elements := h.elements id
    bracketed "[" "]" ((elements.toList.take limit).map item) elements.size
  | object id =>
    match h.classOf? id with
    | some _ => printedPlain h (object id)
    | none =>
      let fields := h.fields id
      bracketed "\x7b" "\x7d" ((fields.take limit).map fun f => f.1 ++ utf8 ": " ++ item f.2)
        fields.length
  | v => printedPlain h v

/-- A value as it is printed inside a list or an object. -/
def printedInside (h : Heap) : Value → Text := printedWith h 0 (printedPlain h)

/-- A value as it is printed. -/
def printed (h : Heap) : Value → Text := printedWith h maxPrintedItems (printedInside h)

end Value

end Lox
