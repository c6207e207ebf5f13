import Lox.Diagnostic
import Lox.Syntax

/-!
# Resolution

Resolution goes over a tree with a stack of **static scopes**, one for each scope that evaluation
opens: a block, a call of a function with its parameters, the receiver of a method, the superclass
of a class. It writes into each use of a name how many scopes lie between the use and the innermost
scope that declares the name at that moment, and reports uses that have no such scope or that the
language forbids. It goes on after a report, and leaves the slot of a use it has reported empty.

Names are declared in the order in which the tree is gone over. That is the order of evaluation but
for assignments to a property or to an element: there the value comes before the object.
-/

namespace Lox

/-- The names declared in a scope, the latest first, each with whether it may be assigned to. -/
abbrev StaticScope := List (Text × Bool)

/-- The scopes around a place in a tree, the innermost first. -/
abbrev StaticScopes := List StaticScope

/-- How many scopes lie before the innermost one that declares a name, and whether the name may be
assigned to. -/
def StaticScopes.find? : StaticScopes → Text → Option (Nat × Bool)
  | [], _ => none
  | scope :: rest, name =>
    match scope.lookup name with
    | some mutable => some (0, mutable)
    | none => (find? rest name).map fun (depth, mutable) => (depth + 1, mutable)

/-- What part of a tree gives: the part with its slots filled, the scopes after it, and reports. -/
structure Resolved (α : Type) where
  value : α
  scopes : StaticScopes
  diagnostics : List Diagnostic

/-- Going over part of a tree. -/
def Resolve (α : Type) : Type := StaticScopes → Resolved α

namespace Resolve

/-- Goes over nothing. -/
def result {α : Type} (a : α) : Resolve α := fun scopes => ⟨a, scopes, []⟩

/-- Goes over one part and then another. -/
def andThen {α β : Type} (p : Resolve α) (f : α → Resolve β) : Resolve β := fun scopes =>
  let first := p scopes
  let second := f first.value first.scopes
  ⟨second.value, second.scopes, first.diagnostics ++ second.diagnostics⟩

instance : Monad Resolve where
  pure := result
  bind := andThen

/-- Reports a problem with the bytes of a span. -/
def report (problem : ResolveProblem) (site : Span) : Resolve Unit := fun scopes =>
  ⟨(), scopes, [⟨.resolve problem, site.blamed⟩]⟩

/-- Declares a name in the innermost scope. -/
def declare (name : Text) (mutable : Bool) : Resolve Unit := fun scopes =>
  match scopes with
  | [] => ⟨(), [[(name, mutable)]], []⟩
  | scope :: rest => ⟨(), ((name, mutable) :: scope) :: rest, []⟩

/-- Looks a name up. -/
def find? (name : Text) : Resolve (Option (Nat × Bool)) :=
  fun scopes => ⟨scopes.find? name, scopes, []⟩

/-- Goes over a part inside a scope of its own. -/
def within {α : Type} (scope : StaticScope) (p : Resolve α) : Resolve α := fun scopes =>
  let inner := p (scope :: scopes)
  ⟨inner.value, inner.scopes.tail, inner.diagnostics⟩

end Resolve

open Resolve

/-- Whether a place lies in a class, and whether the innermost one has a superclass. -/
inductive ClassContext
  | none
  | plain
  | subclass
  deriving DecidableEq, Repr

/-- Fills the slot of a name that is read. -/
def NameUse.resolve (use : NameUse) : Resolve NameUse := do
  match ← Resolve.find? use.ident.name with
  | some (depth, _) => return { use with depth := some depth }
  | none =>
    report (.undeclared use.ident.name) use.ident.span
    return use

/-- Fills the slot of a name that is assigned to. -/
def NameUse.resolveTarget (use : NameUse) : Resolve NameUse := do
  match ← Resolve.find? use.ident.name with
  | some (depth, true) => return { use with depth := some depth }
  | some (_, false) =>
    report (.constant use.ident.name) use.ident.span
    return use
  | none =>
    report (.undeclared use.ident.name) use.ident.span
    return use

/-- The depth slot of the receiver. -/
def resolveThis (context : ClassContext) (keyword : Span) : Resolve (Option Nat) :=
  match context with
  | .none => do
    report .thisOutsideMethod keyword
    return none
  | .plain | .subclass => do return (← Resolve.find? thisName).map Prod.fst

/-- The depth slot of the superclass. -/
def resolveSuper (context : ClassContext) (keyword : Span) : Resolve (Option Nat) :=
  match context with
  | .none => do
    report .superOutsideMethod keyword
    return none
  | .plain => do
    report .superWithoutSuperclass keyword
    return none
  | .subclass => do return (← Resolve.find? superName).map Prod.fst

/-- Reports a class that extends its own name. -/
def checkSuperclass (name : Ident) (superclass : NameUse) : Resolve Unit :=
  if superclass.ident.name == name.name then report .selfInheritance superclass.ident.span
    else return ()

/-- The scope that parameters are declared in. -/
def parameterScope (params : List Ident) : StaticScope :=
  (params.map fun p => (p.name, true)).reverse

mutual

/-- Fills the slots of an expression. -/
def Expr.resolve (run : Nat) (context : ClassContext) : Expr → Resolve Expr
  | .literal value => return .literal value
  | .grouping inner => do return .grouping (← inner.resolve run context)
  | .unary op blame operand => do return .unary op blame (← operand.resolve run context)
  | .binary op blame left right => do
    let left ← left.resolve run context
    let right ← right.resolve run context
    return .binary op blame left right
  | .logical op left right => do
    let left ← left.resolve run context
    let right ← right.resolve run context
    return .logical op left right
  | .var use => do return .var (← use.resolve)
  | .assign use value => do
    let value ← value.resolve run context
    let use ← use.resolveTarget
    return .assign use value
  | .call callee arguments paren => do
    let callee ← callee.resolve run context
    let arguments ← resolveExprs run context arguments
    return .call callee arguments paren
  | .lambda none function => do return .lambda none (← function.resolve run context)
  | .lambda (some name) function => do
    declare name.name false
    return .lambda (some name) (← function.resolve run context)
  | .get object name => do return .get (← object.resolve run context) name
  | .getKey object paren key => do
    let object ← object.resolve run context
    let key ← key.resolve run context
    return .getKey object paren key
  | .index object index blame => do
    let object ← object.resolve run context
    let index ← index.resolve run context
    return .index object index blame
  | .set object name value => do
    let value ← value.resolve run context
    let object ← object.resolve run context
    return .set object name value
  | .setKey object paren key value => do
    let value ← value.resolve run context
    let object ← object.resolve run context
    let key ← key.resolve run context
    return .setKey object paren key value
  | .setIndex object index blame value => do
    let value ← value.resolve run context
    let object ← object.resolve run context
    let index ← index.resolve run context
    return .setIndex object index blame value
  | .thisRef keyword _ => do return .thisRef keyword (← resolveThis context keyword)
  | .superRef keyword method _ =>
    do return .superRef keyword method (← resolveSuper context keyword)
  | .object fields => do return .object (← resolveFields run context fields)
  | .list elements => do return .list (← resolveExprs run context elements)

/-- Fills the slots of an expression that may be absent. -/
def resolveExpr? (run : Nat) (context : ClassContext) : Option Expr → Resolve (Option Expr)
  | none => return none
  | some e => do return some (← e.resolve run context)

/-- Fills the slots of expressions, in order. -/
def resolveExprs (run : Nat) (context : ClassContext) : List Expr → Resolve (List Expr)
  | [] => return []
  | e :: rest => do
    let e ← e.resolve run context
    let rest ← resolveExprs run context rest
    return e :: rest

/-- Fills the slots of the properties of an object, in order. -/
def resolveFields (run : Nat) (context : ClassContext) : List Field → Resolve (List Field)
  | [] => return []
  | .mk key value :: rest => do
    let value ← value.resolve run context
    let rest ← resolveFields run context rest
    return .mk key value :: rest

/-- Fills the slots of a function and writes the run into it. -/
def Function.resolve (run : Nat) (context : ClassContext) : Function → Resolve Function
  | .mk keyword _ params body =>
    within (parameterScope params) do
      let body ← resolveStmts run context body
      return .mk keyword run params body

/-- Fills the slots of methods, in order. -/
def resolveMethods (run : Nat) (context : ClassContext) : List Method → Resolve (List Method)
  | [] => return []
  | .mk name function :: rest => do
    let function ← function.resolve run context
    let rest ← resolveMethods run context rest
    return .mk name function :: rest

/-- Fills the slots of a statement. -/
def Stmt.resolve (run : Nat) (context : ClassContext) : Stmt → Resolve Stmt
  | .evaluate e => do return .evaluate (← e.resolve run context)
  | .print e => do return .print (← e.resolve run context)
  | .declare mutable name init => do
    let init ← resolveExpr? run context init
    declare name.name mutable
    return .declare mutable name init
  | .block body => do return .block (← within [] (resolveStmts run context body))
  | .branch condition thenBranch elseBranch => do
    let condition ← condition.resolve run context
    let thenBranch ← resolveStmt? run context thenBranch
    let elseBranch ← resolveStmt? run context elseBranch
    return .branch condition thenBranch elseBranch
  | .loop condition body closer => do
    let condition ← resolveExpr? run context condition
    let body ← body.resolve run context
    let closer ← resolveExpr? run context closer
    return .loop condition body closer
  | .ret keyword value => do return .ret keyword (← resolveExpr? run context value)
  | .brk keyword => return .brk keyword
  | .cont keyword => return .cont keyword
  | .classDecl name none methods => do
    declare name.name false
    let methods ← within [(thisName, false)] (resolveMethods run .plain methods)
    return .classDecl name none methods
  | .classDecl name (some superclass) methods => do
    declare name.name false
    checkSuperclass name superclass
    let superclass ← superclass.resolve
    let methods ← within [(superName, false)]
      (within [(thisName, false)] (resolveMethods run .subclass methods))
    return .classDecl name (some superclass) methods

/-- Fills the slots of a statement that may be absent. -/
def resolveStmt? (run : Nat) (context : ClassContext) : Option Stmt → Resolve (Option Stmt)
  | none => return none
  | some s => do return some (← s.resolve run context)

/-- Fills the slots of statements, in order. -/
def resolveStmts (run : Nat) (context : ClassContext) : List Stmt → Resolve (List Stmt)
  | [] => return []
  | s :: rest => do
    let s ← s.resolve run context
    let rest ← resolveStmts run context rest
    return s :: rest

end

/-- Resolves the program of a run against the names of the root scope. -/
def resolveProgram (run : Nat) (root : StaticScope) (program : List Stmt) : Resolved (List Stmt) :=
  resolveStmts run .none program [root]

end Lox
