import Lox.Text

/-!
# Named entries

The bindings of a scope, the properties of an object and the methods of a class are **entries**:
values under names, in the order in which the names first came. Putting a value under a name that is
there already keeps its place.
-/

namespace Lox

/-- Values under names, in the order in which the names first came. -/
abbrev Entries (α : Type) := List (Text × α)

namespace Entries

variable {α : Type}

/-- The value under a name. -/
def get? (entries : Entries α) (name : Text) : Option α := entries.lookup name

/-- The entries with a value under a name, at the place of the name if it has one and at the end if
not. -/
def put (name : Text) (value : α) : Entries α → Entries α
  | [] => [(name, value)]
  | (other, old) :: rest =>
    if name == other then (name, value) :: rest else (other, old) :: put name value rest

/-- The entries without the one under a name. -/
def remove (name : Text) : Entries α → Entries α
  | [] => []
  | (other, old) :: rest => if name == other then rest else (other, old) :: remove name rest

/-- The names, in order. -/
def names (entries : Entries α) : List Text := entries.map Prod.fst

end Entries

end Lox
