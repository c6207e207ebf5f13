import Lox.Console
import Lox.Heap

/-!
# The machine

Evaluation is a machine whose **state** says what is being looked at and what remains to be done
afterwards. What remains is a **continuation**: of an expression, which is waiting for a value, or
of a statement, which is waiting for a **signal** that says how the statement ended. Each
constructor of a continuation is one place in a program at which evaluation goes on; what was
evaluated before it is stored there.

The machine needs no stack but this one, so calls may nest as deep as the limit on active calls
allows. A call that is active leaves an `activation` in the continuation.
-/

namespace Lox

/-- How a statement ended. Other than the normal way, it names the keyword that ended it. -/
inductive Signal
  | normal
  | returned (keyword : Span) (value : Value)
  | broke (keyword : Span)
  | continued (keyword : Span)

/-- The parts of a loop. -/
structure Loop where
  condition : Option Expr
  body : Stmt
  closer : Option Expr

mutual

/-- What remains to be done with the value of an expression. -/
inductive ValueCont
  | unary (op : UnaryOp) (blame : Span) (next : ValueCont)
  | binaryLeft (op : BinaryOp) (blame : Span) (right : Expr) (next : ValueCont)
  | binaryRight (op : BinaryOp) (blame : Span) (left : Value) (next : ValueCont)
  | logical (op : LogicalOp) (right : Expr) (next : ValueCont)
  | assign (use : NameUse) (next : ValueCont)
  | callee (arguments : List Expr) (paren : Span) (next : ValueCont)
  /-- An argument of a call. The arguments before it are stored last to first. -/
  | argument (callee : Value) (before : List Value) (rest : List Expr) (paren : Span)
      (next : ValueCont)
  /-- The end of a call. -/
  | activation (next : ValueCont)
  /-- The end of a constructor's body. The value is dropped for the new instance. -/
  | construct (id : InstanceId) (next : ValueCont)
  | get (name : Ident) (next : ValueCont)
  | getKeyObject (paren : Span) (key : Expr) (next : ValueCont)
  | getKey (object : Value) (paren : Span) (next : ValueCont)
  | indexObject (index : Expr) (blame : Span) (next : ValueCont)
  | index (object : Value) (blame : Span) (next : ValueCont)
  | setObject (name : Ident) (value : Expr) (next : ValueCont)
  | setKeyObject (paren : Span) (key value : Expr) (next : ValueCont)
  | setKey (object : Value) (paren : Span) (value : Expr) (next : ValueCont)
  | setField (id : InstanceId) (name : Text) (next : ValueCont)
  | setIndexObject (index : Expr) (blame : Span) (value : Expr) (next : ValueCont)
  | setIndex (object : Value) (blame : Span) (value : Expr) (next : ValueCont)
  | setElement (id : ListId) (index : Value) (blame : Span) (next : ValueCont)
  /-- A property of an object that is written out. The properties before it are stored in order. -/
  | field (before : Entries Value) (key : Text) (rest : List Field) (next : ValueCont)
  /-- An element of a list that is written out. The elements before it are stored last to first. -/
  | element (before : List Value) (rest : List Expr) (next : ValueCont)
  | discard (next : StmtCont)
  | print (next : StmtCont)
  | declare (mutable : Bool) (name : Text) (next : StmtCont)
  | branch (thenBranch elseBranch : Option Stmt) (next : StmtCont)
  | loopTest (loop : Loop) (next : StmtCont)
  | loopCloser (loop : Loop) (next : StmtCont)
  | ret (keyword : Span) (next : StmtCont)

/-- What remains to be done after a statement. -/
inductive StmtCont
  | done
  | statements (rest : List Stmt) (next : StmtCont)
  /-- The end of a block, with the scope around it. -/
  | leave (scope : ScopeId) (next : StmtCont)
  | loopBody (loop : Loop) (next : StmtCont)
  /-- The end of a function's body, with the scope of the caller. -/
  | functionBody (caller : ScopeId) (next : ValueCont)

end

/-- What the machine is looking at. -/
inductive Control
  | eval (e : Expr) (next : ValueCont)
  | exec (s : Stmt) (next : StmtCont)
  | give (v : Value) (next : ValueCont)
  | finish (signal : Signal) (next : StmtCont)

/-- A state of the machine: what it looks at, the innermost scope, the number of active calls, the
heap and the console. -/
structure State where
  control : Control
  scope : ScopeId
  depth : Nat
  heap : Heap
  console : Console

/-- What a step leads to. -/
inductive Next
  | running (s : State)
  | finished (signal : Signal) (heap : Heap) (console : Console)
  | stopped (stop : Stop) (heap : Heap) (console : Console)

end Lox
