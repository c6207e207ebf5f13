import Lox.Syntax.Operator

/-!
# Syntax trees

Expressions, function literals and statements. A tree keeps what evaluation can be blamed on: the
span of each name, operator and keyword that a diagnostic may point at.

Uses of names carry a **depth slot**: the number of scopes between the use and the declaration that
it means. A tree as it is parsed has empty slots; resolution fills them. A function literal carries
the number of the run that it was written in, so that literals of different sources are told apart;
a tree as it is parsed has zeros there.

A block of statements is never empty, and an optional statement is absent where a source has an
empty block.
-/

namespace Lox

/-- A name in a source. -/
structure Ident where
  name : Text
  span : Span
  deriving DecidableEq

/-- A use of a declared name. -/
structure NameUse where
  ident : Ident
  depth : Option Nat
  deriving DecidableEq

/-- A value that is written out. -/
inductive Literal
  | nil
  | bool (b : Bool)
  | number (x : Float)
  | string (t : Text)
  | char (c : Char)

mutual

/-- An expression. -/
inductive Expr
  | literal (value : Literal)
  | grouping (inner : Expr)
  | unary (op : UnaryOp) (blame : Span) (operand : Expr)
  | binary (op : BinaryOp) (blame : Span) (left right : Expr)
  | logical (op : LogicalOp) (left right : Expr)
  | var (use : NameUse)
  | assign (use : NameUse) (value : Expr)
  | call (callee : Expr) (arguments : List Expr) (paren : Span)
  | lambda (name : Option Ident) (function : Function)
  | get (object : Expr) (name : Ident)
  | getKey (object : Expr) (paren : Span) (key : Expr)
  /-- The blame is from the opening bracket to the closing one. -/
  | index (object : Expr) (index : Expr) (blame : Span)
  | set (object : Expr) (name : Ident) (value : Expr)
  | setKey (object : Expr) (paren : Span) (key : Expr) (value : Expr)
  | setIndex (object : Expr) (index : Expr) (blame : Span) (value : Expr)
  | thisRef (keyword : Span) (depth : Option Nat)
  | superRef (keyword : Span) (method : Ident) (depth : Option Nat)
  | object (fields : List Field)
  | list (elements : List Expr)

/-- A property of an object literal. -/
inductive Field
  | mk (key : Text) (value : Expr)

/-- Parameters and body of a function. The keyword is `fun`, or the name of a method. -/
inductive Function
  | mk (keyword : Span) (run : Nat) (params : List Ident) (body : List Stmt)

/-- A method of a class. -/
inductive Method
  | mk (name : Ident) (function : Function)

/-- A statement. -/
inductive Stmt
  | evaluate (e : Expr)
  | print (e : Expr)
  | declare (mutable : Bool) (name : Ident) (init : Option Expr)
  | block (body : List Stmt)
  | branch (condition : Expr) (thenBranch elseBranch : Option Stmt)
  | loop (condition : Option Expr) (body : Stmt) (closer : Option Expr)
  | ret (keyword : Span) (value : Option Expr)
  | brk (keyword : Span)
  | cont (keyword : Span)
  | classDecl (name : Ident) (superclass : Option NameUse) (methods : List Method)

end

/-- The name of the method that makes new instances ready. -/
def constructorName : Text := utf8 "constructor"

/-- The word that stands for the receiver of a method, as a name in a scope. -/
def thisName : Text := utf8 "this"

/-- The word that stands for the superclass, as a name in a scope. -/
def superName : Text := utf8 "super"

namespace Function

/-- The span that tells function literals of one source apart. -/
def keyword : Function → Span
  | mk keyword _ _ _ => keyword

/-- The number of the run that the function was written in. -/
def run : Function → Nat
  | mk _ run _ _ => run

/-- The parameters, in order. -/
def params : Function → List Ident
  | mk _ _ params _ => params

/-- The statements of the body. -/
def body : Function → List Stmt
  | mk _ _ _ body => body

/-- Whether two functions come from one literal. -/
def sameLiteral (f g : Function) : Bool := f.run == g.run && f.keyword.offset == g.keyword.offset

end Function

/-- What a message calls an expression that cannot be assigned to. -/
def Expr.describe : Expr → String
  | assign .. => "an assignment"
  | binary .. | logical .. => "a binary expression"
  | grouping .. => "a grouping"
  | literal .. => "a literal"
  | unary .. => "a unary expression"
  | var .. => "an identifier"
  | call .. => "a function/method call"
  | lambda .. => "a function/method declaration"
  | get .. | getKey .. | index .. => "property getter"
  | set .. | setKey .. | setIndex .. => "property setter"
  | thisRef .. => "a this expression"
  | superRef .. => "a super expression"
  | object .. => "an object definition"
  | list .. => "a list"

end Lox
