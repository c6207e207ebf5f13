import Lox.Diagnostic
import Lox.Proofs.Syntax.Tree

/-!
# Other marks on a tree

A tree keeps where its names, operators and keywords stand, and which literal each of its functions
comes from. **Marks** give it other spans and other literals, and leave the rest as it is. A source
that is moved, or one of several sources that are run as one, has the same tree with other marks.

What is reported about such a tree is the same at other places. A diagnostic keeps where its site is
blamed and not the site itself, so that one diagnostic is another one moved is a relation, and no
function.
-/

namespace Lox

/-- Where the spans of a tree go, and the run and the keyword that a function literal gets for those
it has. -/
structure Marks where
  span : Span → Span
  literal : Nat → Span → Nat × Span

namespace Marks

/-- Other places, in the same run. -/
def moving (place : Span → Span) : Marks := ⟨place, fun run keyword => (run, place keyword)⟩

/-- Other marks after some marks. -/
def comp (later earlier : Marks) : Marks :=
  ⟨later.span ∘ earlier.span, fun run keyword =>
    later.literal (earlier.literal run keyword).1 (earlier.literal run keyword).2⟩

end Marks

/-- A name at another place. -/
def Ident.mark (m : Marks) (name : Ident) : Ident := { name with span := m.span name.span }

/-- The use of a name at another place. -/
def NameUse.mark (m : Marks) (use : NameUse) : NameUse := { use with ident := use.ident.mark m }

mutual

/-- An expression with other marks. -/
def Expr.mark (m : Marks) : Expr → Expr
  | .literal value => .literal value
  | .grouping inner => .grouping (inner.mark m)
  | .unary op blame operand => .unary op (m.span blame) (operand.mark m)
  | .binary op blame left right => .binary op (m.span blame) (left.mark m) (right.mark m)
  | .logical op left right => .logical op (left.mark m) (right.mark m)
  | .var use => .var (use.mark m)
  | .assign use value => .assign (use.mark m) (value.mark m)
  | .call callee arguments paren => .call (callee.mark m) (markExprs m arguments) (m.span paren)
  | .lambda name function => .lambda (name.map (Ident.mark m)) (function.mark m)
  | .get object name => .get (object.mark m) (name.mark m)
  | .getKey object paren key => .getKey (object.mark m) (m.span paren) (key.mark m)
  | .index object index blame => .index (object.mark m) (index.mark m) (m.span blame)
  | .set object name value => .set (object.mark m) (name.mark m) (value.mark m)
  | .setKey object paren key value =>
    .setKey (object.mark m) (m.span paren) (key.mark m) (value.mark m)
  | .setIndex object index blame value =>
    .setIndex (object.mark m) (index.mark m) (m.span blame) (value.mark m)
  | .thisRef keyword depth => .thisRef (m.span keyword) depth
  | .superRef keyword method depth => .superRef (m.span keyword) (method.mark m) depth
  | .object fields => .object (markFields m fields)
  | .list elements => .list (markExprs m elements)

/-- Expressions with other marks. -/
def markExprs (m : Marks) : List Expr → List Expr
  | [] => []
  | e :: rest => e.mark m :: markExprs m rest

/-- An expression that may be absent, with other marks. -/
def markExpr? (m : Marks) : Option Expr → Option Expr
  | none => none
  | some e => some (e.mark m)

/-- The properties of an object literal with other marks. -/
def markFields (m : Marks) : List Field → List Field
  | [] => []
  | .mk key value :: rest => .mk key (value.mark m) :: markFields m rest

/-- A function with other marks. -/
def Function.mark (m : Marks) : Function → Function
  | .mk keyword run params body =>
    .mk (m.literal run keyword).2 (m.literal run keyword).1 (params.map (Ident.mark m))
      (markStmts m body)

/-- Methods with other marks. -/
def markMethods (m : Marks) : List Method → List Method
  | [] => []
  | .mk name function :: rest => .mk (name.mark m) (function.mark m) :: markMethods m rest

/-- A statement with other marks. -/
def Stmt.mark (m : Marks) : Stmt → Stmt
  | .evaluate e => .evaluate (e.mark m)
  | .print e => .print (e.mark m)
  | .declare mutable name init => .declare mutable (name.mark m) (markExpr? m init)
  | .block body => .block (markStmts m body)
  | .branch condition thenBranch elseBranch =>
    .branch (condition.mark m) (markStmt? m thenBranch) (markStmt? m elseBranch)
  | .loop condition body closer => .loop (markExpr? m condition) (body.mark m) (markExpr? m closer)
  | .ret keyword value => .ret (m.span keyword) (markExpr? m value)
  | .brk keyword => .brk (m.span keyword)
  | .cont keyword => .cont (m.span keyword)
  | .classDecl name superclass methods =>
    .classDecl (name.mark m) (superclass.map (NameUse.mark m)) (markMethods m methods)

/-- A statement that may be absent, with other marks. -/
def markStmt? (m : Marks) : Option Stmt → Option Stmt
  | none => none
  | some s => some (s.mark m)

/-- Statements with other marks. -/
def markStmts (m : Marks) : List Stmt → List Stmt
  | [] => []
  | s :: rest => s.mark m :: markStmts m rest

end

/-! ## Reports at other places -/

/-- Two diagnostics of the same problem, at places that belong together. -/
def Diagnostic.Agrees (same : Span → Span → Prop) (d d' : Diagnostic) : Prop :=
  d.problem = d'.problem ∧ same d.span d'.span

/-- A diagnostic that a stage reports about a site, and the one that it reports where the site has
another place. -/
structure Diagnostic.Moved (stage : Stage) (place : Span → Span) (d d' : Diagnostic) : Prop where
  stage : d.stage = stage
  problem : d.problem = d'.problem
  span : ∃ site : Span, d.span = site.blamed ∧ d'.span = (place site).blamed

/-- A report is moved with the place it blames. -/
theorem Diagnostic.moved_blamed (place : Span → Span) (problem : Problem) (site : Span) :
    Diagnostic.Moved problem.stage place ⟨problem, site.blamed⟩ ⟨problem, (place site).blamed⟩ :=
  ⟨rfl, rfl, site, rfl, rfl⟩

/-! ## Marks after marks -/

section Comp

variable (n m : Marks)

theorem Marks.comp_span (s : Span) : (n.comp m).span s = n.span (m.span s) := rfl

theorem Ident.mark_mark (name : Ident) : (name.mark m).mark n = name.mark (n.comp m) := rfl

theorem NameUse.mark_mark (use : NameUse) : (use.mark m).mark n = use.mark (n.comp m) := rfl

mutual

/-- Marks one after another on an expression. -/
theorem Expr.mark_mark : (e : Expr) → (e.mark m).mark n = e.mark (n.comp m)
  | .literal _ | .var _ | .thisRef _ _ | .superRef _ _ _ => rfl
  | .grouping e | .unary _ _ e | .assign _ e | .get e _ => by
    simp only [Expr.mark, e.mark_mark, Marks.comp_span, Ident.mark_mark, NameUse.mark_mark]
  | .binary _ _ a b | .logical _ a b | .getKey a _ b | .index a b _ | .set a _ b => by
    simp only [Expr.mark, a.mark_mark, b.mark_mark, Marks.comp_span, Ident.mark_mark]
  | .setKey a _ b c | .setIndex a b _ c => by
    simp only [Expr.mark, a.mark_mark, b.mark_mark, c.mark_mark, Marks.comp_span]
  | .call callee arguments _ => by
    simp only [Expr.mark, callee.mark_mark, markExprs_markExprs arguments, Marks.comp_span]
  | .lambda name f => by
    simp only [Expr.mark, f.mark_mark, Option.map_map, Function.comp_def, Ident.mark_mark]
  | .object fields => by simp only [Expr.mark, markFields_markFields fields]
  | .list elements => by simp only [Expr.mark, markExprs_markExprs elements]

theorem markExprs_markExprs :
    (es : List Expr) → markExprs n (markExprs m es) = markExprs (n.comp m) es
  | [] => rfl
  | e :: rest => by simp only [markExprs, e.mark_mark, markExprs_markExprs rest]

theorem markExpr?_markExpr? :
    (e : Option Expr) → markExpr? n (markExpr? m e) = markExpr? (n.comp m) e
  | none => rfl
  | some e => by simp only [markExpr?, e.mark_mark]

theorem markFields_markFields :
    (fs : List Field) → markFields n (markFields m fs) = markFields (n.comp m) fs
  | [] => rfl
  | .mk _ value :: rest => by simp only [markFields, value.mark_mark, markFields_markFields rest]

/-- On a function. -/
theorem Function.mark_mark : (f : Function) → (f.mark m).mark n = f.mark (n.comp m)
  | .mk _ _ _ body => by
    simp only [Function.mark, markStmts_markStmts body, List.map_map]
    rfl

/-- On methods. -/
theorem markMethods_markMethods : (ms : List Method) →
    markMethods n (markMethods m ms) = markMethods (n.comp m) ms
  | [] => rfl
  | .mk _ f :: rest => by
    simp only [markMethods, f.mark_mark, markMethods_markMethods rest, Ident.mark_mark]

/-- On a statement. -/
theorem Stmt.mark_mark : (s : Stmt) → (s.mark m).mark n = s.mark (n.comp m)
  | .evaluate e | .print e => by simp only [Stmt.mark, e.mark_mark]
  | .declare _ _ init => by simp only [Stmt.mark, markExpr?_markExpr? init, Ident.mark_mark]
  | .block body => by simp only [Stmt.mark, markStmts_markStmts body]
  | .branch condition thenBranch elseBranch => by
    simp only [Stmt.mark, condition.mark_mark, markStmt?_markStmt? thenBranch,
      markStmt?_markStmt? elseBranch]
  | .loop condition body closer => by
    simp only [Stmt.mark, markExpr?_markExpr? condition, body.mark_mark, markExpr?_markExpr? closer]
  | .ret _ value => by simp only [Stmt.mark, markExpr?_markExpr? value, Marks.comp_span]
  | .brk _ | .cont _ => rfl
  | .classDecl _ superclass methods => by
    simp only [Stmt.mark, markMethods_markMethods methods, Option.map_map, Function.comp_def,
      Ident.mark_mark, NameUse.mark_mark]

theorem markStmt?_markStmt? :
    (s : Option Stmt) → markStmt? n (markStmt? m s) = markStmt? (n.comp m) s
  | none => rfl
  | some s => by simp only [markStmt?, s.mark_mark]

/-- On a program. -/
theorem markStmts_markStmts :
    (ss : List Stmt) → markStmts n (markStmts m ss) = markStmts (n.comp m) ss
  | [] => rfl
  | s :: rest => by simp only [markStmts, s.mark_mark, markStmts_markStmts rest]

end

end Comp

end Lox
