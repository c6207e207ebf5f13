import Mathlib
import Lox.Resolution

/-!
# Parts of a program

Lists of statements, statements, expressions and functions are the parts that a program is gone over
by. `Code.Child` says which parts stand directly in which, and `Code.Every` that something holds of
a part and of all parts in it. An induction on `Code.Every` is an induction on the tree.

What a part **declares** are the names that it adds to the scope it stands in. Two things are asked
of a program with them. `Code.Shaped` holds of every parsed program: what stands in a conditional or
a loop without braces declares nothing, and the words `this` and `super` are no names.
`Code.LiteralsPlaced` is asked of the function literals that have a name: each is a whole statement,
or the whole value that a declaration starts with.
-/

namespace Lox

/-! ## What stands directly in a part -/

/-- The value of a property of an object literal. -/
def Field.value : Field → Expr
  | mk _ value => value

/-- The expressions that stand directly in an expression, in the order in which they are written. -/
def Expr.parts : Expr → List Expr
  | .literal _ | .var _ | .lambda _ _ | .thisRef _ _ | .superRef _ _ _ => []
  | .grouping e | .unary _ _ e | .assign _ e | .get e _ => [e]
  | .binary _ _ left right | .logical _ left right => [left, right]
  | .call callee arguments _ => callee :: arguments
  | .getKey owner _ key => [owner, key]
  | .index owner position _ => [owner, position]
  | .set owner _ value => [owner, value]
  | .setKey owner _ key value => [owner, key, value]
  | .setIndex owner position _ value => [owner, position, value]
  | .object fields => fields.map Field.value
  | .list elements => elements

/-- The expressions that stand directly in a statement. -/
def Stmt.exprs : Stmt → List Expr
  | evaluate e | print e => [e]
  | declare _ _ init => init.toList
  | branch condition _ _ => [condition]
  | loop condition _ closer => condition.toList ++ closer.toList
  | ret _ value => value.toList
  | block _ | brk _ | cont _ | classDecl _ _ _ => []

/-- The statements that stand directly in a statement, without a list around them. -/
def Stmt.inner : Stmt → List Stmt
  | branch _ thenBranch elseBranch => thenBranch.toList ++ elseBranch.toList
  | loop _ body _ => [body]
  | _ => []

/-- A part of a program that is gone over by itself. -/
inductive Code
  | stmts (body : List Stmt)
  | stmt (s : Stmt)
  | expr (e : Expr)
  | function (f : Function)

namespace Code

/-- One part stands directly in another. -/
inductive Child : Code → Code → Prop
  | member {s : Stmt} {body : List Stmt} : s ∈ body → Child (.stmt s) (.stmts body)
  | block {body : List Stmt} : Child (.stmts body) (.stmt (.block body))
  | inner {s s' : Stmt} : s' ∈ s.inner → Child (.stmt s') (.stmt s)
  | method {name m : Ident} {superclass : Option NameUse} {methods : List Method} {f : Function} :
      .mk m f ∈ methods → Child (.function f) (.stmt (.classDecl name superclass methods))
  | expr {s : Stmt} {e : Expr} : e ∈ s.exprs → Child (.expr e) (.stmt s)
  | part {e e' : Expr} : e' ∈ e.parts → Child (.expr e') (.expr e)
  | literal {name : Option Ident} {f : Function} : Child (.function f) (.expr (.lambda name f))
  | body {f : Function} : Child (.stmts f.body) (.function f)

/-- Something holds of a part and of everything in it. -/
inductive Every (p : Code → Prop) : Code → Prop
  | intro {c : Code} : p c → (∀ d, Child d c → Every p d) → Every p c

/-- What holds of every part holds of the whole. -/
theorem Every.here {p : Code → Prop} {c : Code} (h : Every p c) : p c := by
  cases h with
  | intro h _ => exact h

/-- It holds of every part of a part. -/
theorem Every.child {p : Code → Prop} {c d : Code} (h : Every p c) (hd : Child d c) :
    Every p d := by
  cases h with
  | intro _ h => exact h d hd

theorem Every.tail {p : Code → Prop} {s : Stmt} {rest : List Stmt}
    (h : Every p (.stmts (s :: rest))) (hrest : p (.stmts rest)) : Every p (.stmts rest) := by
  refine .intro hrest fun d hd => ?_
  cases hd with
  | member hs => exact h.child (.member (List.mem_cons_of_mem _ hs))

end Code

/-! ## What a part declares -/

/-- The names that an expression declares: a function literal declares its own, if it has one. -/
def Expr.declared : Expr → StaticScope
  | lambda (some name) _ => [(name.name, false)]
  | _ => []

/-- The names that a statement declares, the latest first. -/
def Stmt.declared : Stmt → StaticScope
  | evaluate e => e.declared
  | declare mutable name init => (name.name, mutable) :: (init.map Expr.declared).getD []
  | classDecl name _ _ => [(name.name, false)]
  | _ => []

/-- The use of a name that an expression reads or assigns to. -/
def Expr.use? : Expr → Option NameUse
  | var use | assign use _ => some use
  | _ => none

/-- The words that are bound in scopes and are no names. -/
def reservedNames : List Text := [thisName, superName]

/-- An expression is a function literal that has a name. -/
def Expr.IsNamed (e : Expr) : Prop := ∃ name f, e = .lambda (some name) f

/-- Only a function literal with a name declares one. -/
theorem Expr.declared_of_not_isNamed {e : Expr} (h : ¬ e.IsNamed) : e.declared = [] := by
  cases e with
  | lambda name f =>
    cases name with
    | none => rfl
    | some name => exact absurd ⟨name, f, rfl⟩ h
  | _ => rfl

/-- A function literal that has a name is a statement, or the value that a declaration starts
with. -/
def Code.LiteralsPlaced : Code → Prop
  | .expr e => ∀ part ∈ e.parts, ¬ part.IsNamed
  | .stmt s =>
    ∀ e ∈ s.exprs, e.IsNamed → s = .evaluate e ∨ ∃ mutable name, s = .declare mutable name (some e)
  | .stmts _ | .function _ => True

/-- What stands without braces declares nothing, and no reserved word is declared or used as a
name. -/
def Code.Shaped : Code → Prop
  | .expr e =>
    (∀ d ∈ e.declared, d.1 ∉ reservedNames) ∧ ∀ use ∈ e.use?, use.ident.name ∉ reservedNames
  | .stmt s => (∀ d ∈ s.declared, d.1 ∉ reservedNames) ∧ ∀ s' ∈ s.inner, s'.declared = []
  | .function f => ∀ p ∈ f.params, p.name ∉ reservedNames
  | .stmts _ => True

end Lox
