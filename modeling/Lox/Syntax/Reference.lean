import Lox.Syntax

/-!
# References

The uses of names in a tree: variables, assignments, the receiver and the superclass. They are
listed by offset, each with its depth slot. A superclass that a class extends and a property that is
a name alone are variables.
-/

namespace Lox

/-- What kind of use a reference is. -/
inductive ReferenceKind
  | read
  | assign
  | thisWord
  | superWord
  deriving DecidableEq, Repr

/-- The name of a kind of use. -/
def ReferenceKind.name : ReferenceKind → String
  | .read => "variable"
  | .assign => "assign"
  | .thisWord => "this"
  | .superWord => "super"

/-- A use of a name in a tree. -/
structure Reference where
  kind : ReferenceKind
  name : Text
  offset : Nat
  depth : Option Nat

/-- The reference of a declared name. -/
def NameUse.reference (use : NameUse) (kind : ReferenceKind) : Reference :=
  ⟨kind, use.ident.name, use.ident.span.offset, use.depth⟩

mutual

/-- The references of an expression. -/
def Expr.references : Expr → List Reference
  | .literal _ => []
  | .grouping inner => inner.references
  | .unary _ _ operand => operand.references
  | .binary _ _ left right => left.references ++ right.references
  | .logical _ left right => left.references ++ right.references
  | .var use => [use.reference .read]
  | .assign use value => use.reference .assign :: value.references
  | .call callee arguments _ => callee.references ++ exprReferences arguments
  | .lambda _ function => function.references
  | .get object _ => object.references
  | .getKey object _ key => object.references ++ key.references
  | .index object index _ => object.references ++ index.references
  | .set object _ value => object.references ++ value.references
  | .setKey object _ key value => object.references ++ key.references ++ value.references
  | .setIndex object index _ value => object.references ++ index.references ++ value.references
  | .thisRef keyword depth => [⟨.thisWord, utf8 "this", keyword.offset, depth⟩]
  | .superRef keyword _ depth => [⟨.superWord, utf8 "super", keyword.offset, depth⟩]
  | .object fields => fieldReferences fields
  | .list elements => exprReferences elements

/-- The references of expressions. -/
def exprReferences : List Expr → List Reference
  | [] => []
  | e :: rest => e.references ++ exprReferences rest

/-- The references of the properties of an object. -/
def fieldReferences : List Field → List Reference
  | [] => []
  | .mk _ value :: rest => value.references ++ fieldReferences rest

/-- The references of a function. -/
def Function.references : Function → List Reference
  | .mk _ _ _ body => stmtReferences body

/-- The references of methods. -/
def methodReferences : List Method → List Reference
  | [] => []
  | .mk _ function :: rest => function.references ++ methodReferences rest

/-- The references of a statement. -/
def Stmt.references : Stmt → List Reference
  | .evaluate e => e.references
  | .print e => e.references
  | .declare _ _ init => match init with | some e => e.references | none => []
  | .block body => stmtReferences body
  | .branch condition thenBranch elseBranch =>
    condition.references ++ (match thenBranch with | some s => s.references | none => []) ++
      (match elseBranch with | some s => s.references | none => [])
  | .loop condition body closer =>
    (match condition with | some e => e.references | none => []) ++ body.references ++
      (match closer with | some e => e.references | none => [])
  | .ret _ value => match value with | some e => e.references | none => []
  | .brk _ => []
  | .cont _ => []
  | .classDecl _ superclass methods =>
    (match superclass with | some use => [use.reference .read] | none => []) ++
      methodReferences methods

/-- The references of statements. -/
def stmtReferences : List Stmt → List Reference
  | [] => []
  | s :: rest => s.references ++ stmtReferences rest

end

/-- The references of a program by offset. -/
def references (program : List Stmt) : List Reference :=
  (stmtReferences program).mergeSort fun a b => a.offset ≤ b.offset

end Lox
