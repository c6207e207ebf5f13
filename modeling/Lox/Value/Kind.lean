/-!
# Kinds of values

What a program can ask about a value with `typeof`, and what messages call it.
-/

namespace Lox

/-- The kinds of values. -/
inductive ValueKind
  | nil
  | boolean
  | number
  | string
  | char
  | list
  | classInstance
  | function
  | classValue
  deriving DecidableEq, Repr

/-- The name of a kind of values. -/
def ValueKind.name : ValueKind → String
  | nil => "nil"
  | boolean => "boolean"
  | number => "number"
  | string => "string"
  | char => "char"
  | list => "list"
  | classInstance => "class instance"
  | function => "function"
  | classValue => "class"

end Lox
