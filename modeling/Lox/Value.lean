import Lox.Syntax
import Lox.Value.Kind

/-!
# Values

What expressions evaluate to. Numbers, strings, characters, booleans and `nil` are themselves.
Lists, instances, classes and scopes live in a heap, and a value names one of them by its place
there.

A function is a literal with the scope that it was evaluated in. Two functions are **equal** when
they come from one literal, whatever their scopes: a method read twice is equal to itself.
-/

namespace Lox

/-- The place of a scope in a heap. -/
abbrev ScopeId := Nat

/-- The place of a list in a heap. -/
abbrev ListId := Nat

/-- The place of an instance in a heap. -/
abbrev InstanceId := Nat

/-- The place of a class in a heap. -/
abbrev ClassId := Nat

/-- A function that every program finds in its root scope. -/
inductive Builtin
  | str
  | typeOf
  | number
  | fromChars
  | len
  | expand
  | push
  | extend
  | deepCopy
  | has
  | unset
  | isNaN
  | floor
  | ceil
  | read
  deriving DecidableEq, Repr

namespace Builtin

/-- All of them, in the order in which they are bound. -/
def all : List Builtin :=
  [str, typeOf, number, fromChars, len, expand, push, extend, deepCopy, has, unset, isNaN,
    floor, ceil, read]

/-- The name that a function is bound under. -/
def name : Builtin → String
  | str => "str"
  | typeOf => "typeof"
  | number => "number"
  | fromChars => "from_chars"
  | len => "len"
  | expand => "expand"
  | push => "push"
  | extend => "extend"
  | deepCopy => "deep_copy"
  | has => "has"
  | unset => "unset"
  | isNaN => "is_nan"
  | floor => "floor"
  | ceil => "ceil"
  | read => "read"

/-- The number of arguments that a function takes. -/
def arity : Builtin → Nat
  | push | extend | has | unset => 2
  | _ => 1

end Builtin

/-- A function that no literal wrote: one of the root scope, or the constructor of a superclass that
declares none. Of the latter each has a number of its own. -/
inductive Native
  | builtin (b : Builtin)
  | idle (serial : Nat)
  deriving DecidableEq, Repr

/-- The name that a native has by itself. -/
def Native.name : Native → Text
  | builtin b => utf8 b.name
  | idle _ => constructorName

/-- The number of arguments that a native takes. -/
def Native.arity : Native → Nat
  | builtin b => b.arity
  | idle _ => 0

/-- A function literal and the scope it was evaluated in. -/
structure Closure where
  function : Function
  scope : ScopeId

/-- The number of arguments that a function takes. -/
def Closure.arity (c : Closure) : Nat := c.function.params.length

/-- A value. -/
inductive Value
  | nil
  | bool (b : Bool)
  | number (x : Float)
  | string (t : Text)
  | char (c : Char)
  | list (id : ListId)
  | object (id : InstanceId)
  | closure (c : Closure)
  | native (n : Native)
  | classRef (id : ClassId)

namespace Value

/-- The value that a literal writes out. -/
def ofLiteral : Literal → Value
  | .nil => nil
  | .bool b => bool b
  | .number x => number x
  | .string t => string t
  | .char c => char c

/-- The kind of a value. -/
def kind : Value → ValueKind
  | nil => .nil
  | bool _ => .boolean
  | number _ => .number
  | string _ => .string
  | char _ => .char
  | list _ => .list
  | object _ => .classInstance
  | closure _ => .function
  | native _ => .function
  | classRef _ => .classValue

/-- Whether a condition with this value holds. Nothing but `true` counts as true. -/
def isTrue : Value → Bool
  | bool b => b
  | _ => false

/-- What `==` says of two values. -/
def equals : Value → Value → Bool
  | nil, nil => true
  | bool a, bool b => a == b
  | number a, number b => a == b
  | string a, string b => a == b
  | char a, char b => a == b
  | list a, list b => a == b
  | object a, object b => a == b
  | closure a, closure b => a.function.sameLiteral b.function
  | native a, native b => a == b
  | classRef a, classRef b => a == b
  | _, _ => false

end Value

end Lox
