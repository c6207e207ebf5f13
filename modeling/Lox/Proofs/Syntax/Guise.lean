import Lox.Proofs.Syntax.Marks

/-!
# A tree in another guise

A **guise** gives a tree other marks and other names. It renames what a program declares and uses:
variables, parameters, functions and classes; and it leaves the names of properties and methods as
they are. The spans of subscripts, which are the only ones of more than a token, may go elsewhere
than the spans of tokens.

Marks are the guise that keeps all names (`markStmts_eq_dressStmts`).
-/

namespace Lox

/-- Marks, the spans that subscripts are blamed with, and the names that a program declares and
uses. -/
structure Guise extends Marks where
  subscript : Span → Span
  name : Text → Text

namespace Guise

/-- The guise of marks. -/
def ofMarks (m : Marks) : Guise := ⟨m, m.span, id⟩

/-- Other names, and everything else as it is. -/
def renamed (name : Text → Text) : Guise := ⟨⟨id, Prod.mk⟩, id, name⟩

/-- A guise with other function literals. -/
def withLiterals (g : Guise) (literal : Nat → Span → Nat × Span) : Guise :=
  { g with literal := literal }

end Guise

/-- A guise that tells names apart, and keeps the two words that are bound in scopes as names
are. -/
structure Guise.Lawful (g : Guise) : Prop where
  injective : Function.Injective g.name
  receiver : g.name thisName = thisName
  superclass : g.name superName = superName

/-- Marks change no name. -/
theorem Guise.lawful_ofMarks (m : Marks) : (Guise.ofMarks m).Lawful := ⟨fun _ _ h => h, rfl, rfl⟩

/-- A lawful guise keeps names apart. -/
theorem Guise.Lawful.beq_name {g : Guise} (hg : g.Lawful) (name other : Text) :
    (g.name name == g.name other) = (name == other) := by
  rw [Bool.eq_iff_iff, beq_iff_eq, beq_iff_eq]
  exact hg.injective.eq_iff

/-- What stands under a name stands under its other name, among other names. -/
theorem Guise.Lawful.lookup_map {g : Guise} (hg : g.Lawful) {α β : Type} (f : α → β)
    (entries : List (Text × α)) (name : Text) :
    (entries.map fun entry => (g.name entry.1, f entry.2)).lookup (g.name name) =
      (entries.lookup name).map f := by
  induction entries with
  | nil => rfl
  | cons entry entries ih =>
    obtain ⟨other, a⟩ := entry
    simp only [List.map_cons, List.lookup_cons, hg.beq_name, ih]
    cases name == other <;> rfl

/-- A name that a program declares or uses, in a guise. -/
def Ident.dress (g : Guise) (name : Ident) : Ident := ⟨g.name name.name, g.span name.span⟩

/-- The use of a name in a guise. -/
def NameUse.dress (g : Guise) (use : NameUse) : NameUse := { use with ident := use.ident.dress g }

mutual

/-- An expression in a guise. -/
def Expr.dress (g : Guise) : Expr → Expr
  | .literal value => .literal value
  | .grouping inner => .grouping (inner.dress g)
  | .unary op blame operand => .unary op (g.span blame) (operand.dress g)
  | .binary op blame left right => .binary op (g.span blame) (left.dress g) (right.dress g)
  | .logical op left right => .logical op (left.dress g) (right.dress g)
  | .var use => .var (use.dress g)
  | .assign use value => .assign (use.dress g) (value.dress g)
  | .call callee arguments paren => .call (callee.dress g) (dressExprs g arguments) (g.span paren)
  | .lambda name function => .lambda (name.map (Ident.dress g)) (function.dress g)
  | .get object name => .get (object.dress g) (name.mark g.toMarks)
  | .getKey object paren key => .getKey (object.dress g) (g.span paren) (key.dress g)
  | .index object index blame => .index (object.dress g) (index.dress g) (g.subscript blame)
  | .set object name value => .set (object.dress g) (name.mark g.toMarks) (value.dress g)
  | .setKey object paren key value =>
    .setKey (object.dress g) (g.span paren) (key.dress g) (value.dress g)
  | .setIndex object index blame value =>
    .setIndex (object.dress g) (index.dress g) (g.subscript blame) (value.dress g)
  | .thisRef keyword depth => .thisRef (g.span keyword) depth
  | .superRef keyword method depth => .superRef (g.span keyword) (method.mark g.toMarks) depth
  | .object fields => .object (dressFields g fields)
  | .list elements => .list (dressExprs g elements)

/-- Expressions in a guise. -/
def dressExprs (g : Guise) : List Expr → List Expr
  | [] => []
  | e :: rest => e.dress g :: dressExprs g rest

/-- An expression that may be absent, in a guise. -/
def dressExpr? (g : Guise) : Option Expr → Option Expr
  | none => none
  | some e => some (e.dress g)

/-- The properties of an object literal in a guise. -/
def dressFields (g : Guise) : List Field → List Field
  | [] => []
  | .mk key value :: rest => .mk key (value.dress g) :: dressFields g rest

/-- A function in a guise. -/
def Function.dress (g : Guise) : Function → Function
  | .mk keyword run params body =>
    .mk (g.literal run keyword).2 (g.literal run keyword).1 (params.map (Ident.dress g))
      (dressStmts g body)

/-- Methods in a guise. -/
def dressMethods (g : Guise) : List Method → List Method
  | [] => []
  | .mk name function :: rest => .mk (name.mark g.toMarks) (function.dress g) :: dressMethods g rest

/-- A statement in a guise. -/
def Stmt.dress (g : Guise) : Stmt → Stmt
  | .evaluate e => .evaluate (e.dress g)
  | .print e => .print (e.dress g)
  | .declare mutable name init => .declare mutable (name.dress g) (dressExpr? g init)
  | .block body => .block (dressStmts g body)
  | .branch condition thenBranch elseBranch =>
    .branch (condition.dress g) (dressStmt? g thenBranch) (dressStmt? g elseBranch)
  | .loop condition body closer =>
    .loop (dressExpr? g condition) (body.dress g) (dressExpr? g closer)
  | .ret keyword value => .ret (g.span keyword) (dressExpr? g value)
  | .brk keyword => .brk (g.span keyword)
  | .cont keyword => .cont (g.span keyword)
  | .classDecl name superclass methods =>
    .classDecl (name.dress g) (superclass.map (NameUse.dress g)) (dressMethods g methods)

/-- A statement that may be absent, in a guise. -/
def dressStmt? (g : Guise) : Option Stmt → Option Stmt
  | none => none
  | some s => some (s.dress g)

/-- Statements in a guise. -/
def dressStmts (g : Guise) : List Stmt → List Stmt
  | [] => []
  | s :: rest => s.dress g :: dressStmts g rest

end

/-! ## Problems and diagnostics -/

/-- A problem with a name, in a guise. -/
def ResolveProblem.dress (g : Guise) : ResolveProblem → ResolveProblem
  | .undeclared name => .undeclared (g.name name)
  | .constant name => .constant (g.name name)
  | problem => problem

/-- What resolution reports about a site, and what it reports about the site in a guise. -/
def Diagnostic.Dressed (g : Guise) (d d' : Diagnostic) : Prop :=
  ∃ problem : ResolveProblem, ∃ site : Span,
    d = ⟨.resolve problem, site.blamed⟩ ∧ d' = ⟨.resolve (problem.dress g), (g.span site).blamed⟩

/-- Marks are in no report. -/
theorem ResolveProblem.dress_ofMarks (m : Marks) (problem : ResolveProblem) :
    problem.dress (.ofMarks m) = problem := by
  cases problem <;> rfl

theorem Diagnostic.Dressed.moved {m : Marks} {d d' : Diagnostic} (h : d.Dressed (.ofMarks m) d') :
    d.Moved .resolve m.span d' := by
  obtain ⟨problem, site, rfl, rfl⟩ := h
  rw [problem.dress_ofMarks]
  exact Diagnostic.moved_blamed m.span (.resolve problem) site

/-! ## Marks are a guise -/

section Marks

variable (m : Marks)

theorem Guise.toMarks_ofMarks : (Guise.ofMarks m).toMarks = m := rfl

theorem Guise.subscript_ofMarks : (Guise.ofMarks m).subscript = m.span := rfl

theorem Ident.dress_ofMarks : Ident.dress (.ofMarks m) = Ident.mark m := rfl

theorem NameUse.dress_ofMarks : NameUse.dress (.ofMarks m) = NameUse.mark m := rfl

mutual

/-- To mark an expression is to dress it with marks only. -/
theorem Expr.mark_eq_dress : (e : Expr) → e.mark m = e.dress (.ofMarks m)
  | .literal _ | .var _ | .thisRef _ _ | .superRef _ _ _ => rfl
  | .grouping e | .unary _ _ e | .assign _ e | .get e _ => by
    simp only [Expr.mark, Expr.dress, e.mark_eq_dress, Guise.toMarks_ofMarks, NameUse.dress_ofMarks]
  | .binary _ _ a b | .logical _ a b | .getKey a _ b | .index a b _ | .set a _ b => by
    simp only [Expr.mark, Expr.dress, a.mark_eq_dress, b.mark_eq_dress, Guise.toMarks_ofMarks,
      Guise.subscript_ofMarks]
  | .setKey a _ b c | .setIndex a b _ c => by
    simp only [Expr.mark, Expr.dress, a.mark_eq_dress, b.mark_eq_dress, c.mark_eq_dress,
      Guise.toMarks_ofMarks, Guise.subscript_ofMarks]
  | .call callee arguments _ => by
    simp only [Expr.mark, Expr.dress, callee.mark_eq_dress, markExprs_eq_dressExprs arguments,
      Guise.toMarks_ofMarks]
  | .lambda name f => by simp only [Expr.mark, Expr.dress, f.mark_eq_dress, Ident.dress_ofMarks]
  | .object fields => by simp only [Expr.mark, Expr.dress, markFields_eq_dressFields fields]
  | .list elements => by simp only [Expr.mark, Expr.dress, markExprs_eq_dressExprs elements]

theorem markExprs_eq_dressExprs : (es : List Expr) → markExprs m es = dressExprs (.ofMarks m) es
  | [] => rfl
  | e :: rest => by simp only [markExprs, dressExprs, e.mark_eq_dress, markExprs_eq_dressExprs rest]

theorem markExpr?_eq_dressExpr? : (e : Option Expr) → markExpr? m e = dressExpr? (.ofMarks m) e
  | none => rfl
  | some e => by simp only [markExpr?, dressExpr?, e.mark_eq_dress]

theorem markFields_eq_dressFields :
    (fs : List Field) → markFields m fs = dressFields (.ofMarks m) fs
  | [] => rfl
  | .mk _ value :: rest => by
    simp only [markFields, dressFields, value.mark_eq_dress, markFields_eq_dressFields rest]

/-- So it is for a function. -/
theorem Function.mark_eq_dress : (f : Function) → f.mark m = f.dress (.ofMarks m)
  | .mk _ _ _ body => by
    simp only [Function.mark, Function.dress, markStmts_eq_dressStmts body, Guise.toMarks_ofMarks,
      Ident.dress_ofMarks]

theorem markMethods_eq_dressMethods :
    (ms : List Method) → markMethods m ms = dressMethods (.ofMarks m) ms
  | [] => rfl
  | .mk _ f :: rest => by
    simp only [markMethods, dressMethods, f.mark_eq_dress, markMethods_eq_dressMethods rest,
      Guise.toMarks_ofMarks]

/-- So it is for a statement. -/
theorem Stmt.mark_eq_dress : (s : Stmt) → s.mark m = s.dress (.ofMarks m)
  | .evaluate e | .print e => by simp only [Stmt.mark, Stmt.dress, e.mark_eq_dress]
  | .declare _ _ init => by
    simp only [Stmt.mark, Stmt.dress, markExpr?_eq_dressExpr? init, Ident.dress_ofMarks]
  | .block body => by simp only [Stmt.mark, Stmt.dress, markStmts_eq_dressStmts body]
  | .branch condition thenBranch elseBranch => by
    simp only [Stmt.mark, Stmt.dress, condition.mark_eq_dress, markStmt?_eq_dressStmt? thenBranch,
      markStmt?_eq_dressStmt? elseBranch]
  | .loop condition body closer => by
    simp only [Stmt.mark, Stmt.dress, markExpr?_eq_dressExpr? condition, body.mark_eq_dress,
      markExpr?_eq_dressExpr? closer]
  | .ret _ value => by
    simp only [Stmt.mark, Stmt.dress, markExpr?_eq_dressExpr? value, Guise.toMarks_ofMarks]
  | .brk _ | .cont _ => rfl
  | .classDecl _ superclass methods => by
    simp only [Stmt.mark, Stmt.dress, markMethods_eq_dressMethods methods, Ident.dress_ofMarks,
      NameUse.dress_ofMarks]

theorem markStmt?_eq_dressStmt? : (s : Option Stmt) → markStmt? m s = dressStmt? (.ofMarks m) s
  | none => rfl
  | some s => by simp only [markStmt?, dressStmt?, s.mark_eq_dress]

/-- So it is for a program. -/
theorem markStmts_eq_dressStmts : (ss : List Stmt) → markStmts m ss = dressStmts (.ofMarks m) ss
  | [] => rfl
  | s :: rest => by simp only [markStmts, dressStmts, s.mark_eq_dress, markStmts_eq_dressStmts rest]

end

end Marks

end Lox
