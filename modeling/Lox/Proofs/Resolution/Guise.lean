import Lox.Proofs.Resolution.Scopes
import Lox.Proofs.Syntax.Guise

/-!
# Resolution of a tree in another guise

Resolution asks a scope only whether it declares a name and how, and tells names apart by nothing
else. So a program in another guise, resolved for another run against scopes that say of its names
what the scopes say of the names that they replace, gets the same slots: what comes out is the
resolved program in that guise, and the same reports about other names at other places
(`dresses_resolveStmts`).
-/

namespace Lox

/-- A scope says of names in a guise what another says of the names. -/
def StaticScope.AlikeIn (g : Guise) (scope scope' : StaticScope) : Prop :=
  ∀ name, scope'.lookup (g.name name) = scope.lookup name

/-- Scopes that say of names in a guise what others say of the names, one by one. -/
def StaticScopes.AlikeIn (g : Guise) : StaticScopes → StaticScopes → Prop :=
  List.Forall₂ (StaticScope.AlikeIn g)

/-- The names that a scope declares, in a guise. -/
def StaticScope.dress (g : Guise) (scope : StaticScope) : StaticScope :=
  scope.map fun d => (g.name d.1, d.2)

variable {g : Guise}

/-- A scope says of the other names what it says of the names. -/
theorem StaticScope.alikeIn_dress (hg : g.Lawful) (scope : StaticScope) :
    scope.AlikeIn g (scope.dress g) :=
  fun name => (hg.lookup_map id scope name).trans (Option.map_id_apply)

/-- The latest declaration counts, so scopes stay alike when both declare the same. -/
theorem StaticScope.AlikeIn.append (hg : g.Lawful) {scope scope' : StaticScope}
    (h : scope.AlikeIn g scope') (names : StaticScope) :
    StaticScope.AlikeIn g (names ++ scope) (names.dress g ++ scope') := by
  intro name
  rw [List.lookup_append, List.lookup_append, h name, names.alikeIn_dress hg name]

theorem StaticScopes.AlikeIn.tail {S S' : StaticScopes} (h : S.AlikeIn g S') :
    StaticScopes.AlikeIn g S.tail S'.tail := by
  cases h with
  | nil => exact .nil
  | cons _ hrest => exact hrest

/-- A name is found in the same scope, declared in the same way. -/
theorem StaticScopes.AlikeIn.find? {S S' : StaticScopes} (h : S.AlikeIn g S') (name : Text) :
    S'.find? (g.name name) = S.find? name := by
  induction h with
  | nil => rfl
  | cons hscope _ ih => rw [StaticScopes.find?, StaticScopes.find?, hscope name, ih]

namespace Resolve

variable {α β γ δ : Type}

/-- What comes of one way over a part, in scopes alike, is what comes of another, turned by a
function. The reports are the same in a guise. -/
def Dresses (g : Guise) (turn : α → β) (p : Resolve α) (q : Resolve β) : Prop :=
  ∀ S S' : StaticScopes, S.AlikeIn g S' → (q S').value = turn (p S).value ∧
    (p S).scopes.AlikeIn g (q S').scopes ∧
    List.Forall₂ (Diagnostic.Dressed g) (p S).diagnostics (q S').diagnostics

/-- What is given without looking at scopes is turned. -/
theorem dresses_pure {turn : α → β} (a : α) : Dresses g turn (pure a) (pure (turn a)) :=
  fun _ _ h => ⟨rfl, h, .nil⟩

/-- Resolvers that dress one after another dress together. -/
theorem Dresses.bind {turn : α → β} {turn' : γ → δ} {p : Resolve α} {q : Resolve β}
    {f : α → Resolve γ} {f' : β → Resolve δ} (h : Dresses g turn p q)
    (h' : ∀ a, Dresses g turn' (f a) (f' (turn a))) : Dresses g turn' (p >>= f) (q >>= f') := by
  intro S S' hS
  obtain ⟨hvalue, hscopes, hdiagnostics⟩ := h S S' hS
  obtain ⟨hvalue', hscopes', hdiagnostics'⟩ := h' (p S).value _ _ hscopes
  simp only [bind_value, bind_scopes, bind_diagnostics, hvalue]
  exact ⟨hvalue', hscopes', List.rel_append hdiagnostics hdiagnostics'⟩

/-- A name is declared as the other one. -/
theorem dresses_declare (hg : g.Lawful) (name : Text) (mutable : Bool) :
    Dresses g id (declare name mutable) (declare (g.name name) mutable) := by
  intro S S' hS
  cases hS with
  | nil => exact ⟨rfl, .cons (StaticScope.alikeIn_dress hg _) .nil, .nil⟩
  | cons hscope hrest => exact ⟨rfl, .cons (hscope.append hg [(name, mutable)]) hrest, .nil⟩

theorem dresses_find? (name : Text) :
    Dresses g id (Resolve.find? name) (Resolve.find? (g.name name)) :=
  fun _ _ hS => ⟨hS.find? name, hS, .nil⟩

/-- A report is about the other name at the other place. -/
theorem dresses_report (problem : ResolveProblem) (site : Span) :
    Dresses g id (report problem site) (report (problem.dress g) (g.span site)) :=
  fun _ _ hS => ⟨rfl, hS, .cons ⟨problem, site, rfl, rfl⟩ .nil⟩

section Within

variable {turn : α → β} {p : Resolve α} {q : Resolve β}

/-- A scope of other names is opened around. -/
theorem Dresses.within (hg : g.Lawful) (h : Dresses g turn p q) (scope : StaticScope) :
    Dresses g turn (within scope p) (within (scope.dress g) q) := by
  intro S S' hS
  obtain ⟨hvalue, hscopes, hdiagnostics⟩ :=
    h (scope :: S) (scope.dress g :: S') (.cons (scope.alikeIn_dress hg) hS)
  exact ⟨hvalue, hscopes.tail, hdiagnostics⟩

/-- The word for the receiver is its own other name. -/
theorem Dresses.receiver (hg : g.Lawful) (h : Dresses g turn p q) :
    Dresses g turn (Resolve.within [(thisName, false)] p)
      (Resolve.within [(thisName, false)] q) := by
  have hwithin := h.within hg [(thisName, false)]
  rwa [StaticScope.dress, List.map_singleton, hg.receiver] at hwithin

/-- So is the word for the superclass. -/
theorem Dresses.superclass (hg : g.Lawful) (h : Dresses g turn p q) :
    Dresses g turn (Resolve.within [(superName, false)] p)
      (Resolve.within [(superName, false)] q) := by
  have hwithin := h.within hg [(superName, false)]
  rwa [StaticScope.dress, List.map_singleton, hg.superclass] at hwithin

end Within

end Resolve

open Resolve

/-- Parameters are declared under their other names. -/
theorem parameterScope_dress (g : Guise) (params : List Ident) :
    parameterScope (params.map (Ident.dress g)) = (parameterScope params).dress g := by
  simp only [parameterScope, StaticScope.dress, List.map_map, List.map_reverse]
  rfl

section Guise

variable (hg : g.Lawful) {literal : Nat → Span → Nat × Span} {run run' : Nat}

/-! ## Uses of names -/

section Uses

/-- A use of a name gets the same slot. -/
theorem NameUse.dresses_resolve (use : NameUse) :
    Dresses g (NameUse.dress (g.withLiterals literal)) use.resolve (use.dress g).resolve := by
  refine (dresses_find? use.ident.name).bind fun found => ?_
  rcases found with _ | ⟨depth, mutable⟩
  · exact (dresses_report _ _).bind fun _ => dresses_pure use
  · exact dresses_pure { use with depth := some depth }

/-- So does a use that is assigned to. -/
theorem NameUse.dresses_resolveTarget (use : NameUse) :
    Dresses g (NameUse.dress (g.withLiterals literal)) use.resolveTarget
      (use.dress g).resolveTarget := by
  refine (dresses_find? use.ident.name).bind fun found => ?_
  rcases found with _ | ⟨depth, _ | _⟩
  · exact (dresses_report _ _).bind fun _ => dresses_pure use
  · exact (dresses_report _ _).bind fun _ => dresses_pure use
  · exact dresses_pure { use with depth := some depth }

include hg

/-- So does the receiver. -/
theorem dresses_resolveThis (context : ClassContext) (keyword : Span) :
    Dresses g id (resolveThis context keyword) (resolveThis context (g.span keyword)) := by
  have hfind : Dresses g id (Resolve.find? thisName) (Resolve.find? thisName) := by
    have := dresses_find? (g := g) thisName
    rwa [hg.receiver] at this
  cases context with
  | none => exact (dresses_report _ _).bind fun _ => dresses_pure none
  | plain | subclass => exact hfind.bind fun found => dresses_pure (found.map Prod.fst)

/-- So does the superclass. -/
theorem dresses_resolveSuper (context : ClassContext) (keyword : Span) :
    Dresses g id (resolveSuper context keyword) (resolveSuper context (g.span keyword)) := by
  have hfind : Dresses g id (Resolve.find? superName) (Resolve.find? superName) := by
    have := dresses_find? (g := g) superName
    rwa [hg.superclass] at this
  cases context with
  | none | plain => exact (dresses_report _ _).bind fun _ => dresses_pure none
  | subclass => exact hfind.bind fun found => dresses_pure (found.map Prod.fst)

/-- A class extends itself under one name if it does under the other. -/
theorem dresses_checkSuperclass (name : Ident) (use : NameUse) :
    Dresses g id (checkSuperclass name use) (checkSuperclass (name.dress g) (use.dress g)) := by
  have hsame : ((use.dress g).ident.name == (name.dress g).name) = (use.ident.name == name.name) :=
    hg.beq_name use.ident.name name.name
  simp only [checkSuperclass, hsame]
  split
  · exact dresses_report _ _
  · exact dresses_pure ()

end Uses

/-! ## Parts of a program -/

variable (hliteral : ∀ r keyword, literal run keyword = (run', (g.literal r keyword).2))

include hg hliteral

set_option linter.unusedSectionVars false in
mutual

/-- Expressions, with the literals of the other run. -/
theorem Expr.dresses_resolve (context : ClassContext) :
    (e : Expr) →
    Dresses g (Expr.dress (g.withLiterals literal)) (e.resolve run context)
      ((e.dress g).resolve run' context)
  | .literal _ => by
    simp only [Expr.dress, Expr.resolve]
    exact dresses_pure _
  | .grouping e => by
    simp only [Expr.dress, Expr.resolve]
    exact (e.dresses_resolve context).bind fun _ => dresses_pure _
  | .unary _ _ e => by
    simp only [Expr.dress, Expr.resolve]
    exact (e.dresses_resolve context).bind fun _ => dresses_pure _
  | .binary _ _ a b => by
    simp only [Expr.dress, Expr.resolve]
    exact (a.dresses_resolve context).bind fun _ =>
      (b.dresses_resolve context).bind fun _ => dresses_pure _
  | .logical _ a b => by
    simp only [Expr.dress, Expr.resolve]
    exact (a.dresses_resolve context).bind fun _ =>
      (b.dresses_resolve context).bind fun _ => dresses_pure _
  | .var use => by
    simp only [Expr.dress, Expr.resolve]
    exact use.dresses_resolve.bind fun _ => dresses_pure _
  | .assign use e => by
    simp only [Expr.dress, Expr.resolve]
    exact (e.dresses_resolve context).bind fun _ =>
      use.dresses_resolveTarget.bind fun _ => dresses_pure _
  | .call e es _ => by
    simp only [Expr.dress, Expr.resolve]
    exact (e.dresses_resolve context).bind fun _ =>
      (dresses_resolveExprs context es).bind fun _ => dresses_pure _
  | .lambda none f => by
    simp only [Expr.dress, Option.map_none, Expr.resolve]
    exact (f.dresses_resolve context).bind fun _ => dresses_pure _
  | .lambda (some name) f => by
    simp only [Expr.dress, Option.map_some, Expr.resolve]
    exact (dresses_declare hg name.name false).bind fun _ =>
      (f.dresses_resolve context).bind fun _ => dresses_pure _
  | .get e _ => by
    simp only [Expr.dress, Expr.resolve]
    exact (e.dresses_resolve context).bind fun _ => dresses_pure _
  | .getKey a _ b => by
    simp only [Expr.dress, Expr.resolve]
    exact (a.dresses_resolve context).bind fun _ =>
      (b.dresses_resolve context).bind fun _ => dresses_pure _
  | .index a b _ => by
    simp only [Expr.dress, Expr.resolve]
    exact (a.dresses_resolve context).bind fun _ =>
      (b.dresses_resolve context).bind fun _ => dresses_pure _
  | .set a _ b => by
    simp only [Expr.dress, Expr.resolve]
    exact (b.dresses_resolve context).bind fun _ =>
      (a.dresses_resolve context).bind fun _ => dresses_pure _
  | .setKey a _ b c => by
    simp only [Expr.dress, Expr.resolve]
    exact (c.dresses_resolve context).bind fun _ => (a.dresses_resolve context).bind fun _ =>
      (b.dresses_resolve context).bind fun _ => dresses_pure _
  | .setIndex a b _ c => by
    simp only [Expr.dress, Expr.resolve]
    exact (c.dresses_resolve context).bind fun _ => (a.dresses_resolve context).bind fun _ =>
      (b.dresses_resolve context).bind fun _ => dresses_pure _
  | .thisRef keyword _ => by
    simp only [Expr.dress, Expr.resolve]
    exact (dresses_resolveThis hg context keyword).bind fun _ => dresses_pure _
  | .superRef keyword _ _ => by
    simp only [Expr.dress, Expr.resolve]
    exact (dresses_resolveSuper hg context keyword).bind fun _ => dresses_pure _
  | .object fs => by
    simp only [Expr.dress, Expr.resolve]
    exact (dresses_resolveFields context fs).bind fun _ => dresses_pure _
  | .list es => by
    simp only [Expr.dress, Expr.resolve]
    exact (dresses_resolveExprs context es).bind fun _ => dresses_pure _

theorem dresses_resolveExpr? (context : ClassContext) : (e : Option Expr) →
    Dresses g (dressExpr? (g.withLiterals literal)) (resolveExpr? run context e)
      (resolveExpr? run' context (dressExpr? g e))
  | none => by
    simp only [dressExpr?, resolveExpr?]
    exact dresses_pure _
  | some e => by
    simp only [dressExpr?, resolveExpr?]
    exact (e.dresses_resolve context).bind fun _ => dresses_pure _

theorem dresses_resolveExprs (context : ClassContext) : (es : List Expr) →
    Dresses g (dressExprs (g.withLiterals literal)) (resolveExprs run context es)
      (resolveExprs run' context (dressExprs g es))
  | [] => by
    simp only [dressExprs, resolveExprs]
    exact dresses_pure _
  | e :: rest => by
    simp only [dressExprs, resolveExprs]
    exact (e.dresses_resolve context).bind fun _ =>
      (dresses_resolveExprs context rest).bind fun _ => dresses_pure _

theorem dresses_resolveFields (context : ClassContext) : (fs : List Field) →
    Dresses g (dressFields (g.withLiterals literal)) (resolveFields run context fs)
      (resolveFields run' context (dressFields g fs))
  | [] => by
    simp only [dressFields, resolveFields]
    exact dresses_pure _
  | .mk _ e :: rest => by
    simp only [dressFields, resolveFields]
    exact (e.dresses_resolve context).bind fun _ =>
      (dresses_resolveFields context rest).bind fun _ => dresses_pure _

/-- A function, in a scope with its parameters. -/
theorem Function.dresses_resolve (context : ClassContext) : (f : Function) →
    Dresses g (Function.dress (g.withLiterals literal)) (f.resolve run context)
      ((f.dress g).resolve run' context)
  | .mk keyword r params body => by
    simp only [Function.dress, Function.resolve, parameterScope_dress]
    refine .within hg ?_ (parameterScope params)
    refine (dresses_resolveStmts context body).bind fun body' => ?_
    have hturn : Function.mk (g.literal r keyword).2 run' (params.map (Ident.dress g))
          (dressStmts (g.withLiterals literal) body') =
        Function.dress (g.withLiterals literal) (.mk keyword run params body') := by
      rw [Function.dress, show (g.withLiterals literal).literal = literal from rfl, hliteral r]
      rfl
    rw [hturn]
    exact dresses_pure _

theorem dresses_resolveMethods (context : ClassContext) : (ms : List Method) →
    Dresses g (dressMethods (g.withLiterals literal)) (resolveMethods run context ms)
      (resolveMethods run' context (dressMethods g ms))
  | [] => by
    simp only [dressMethods, resolveMethods]
    exact dresses_pure _
  | .mk _ f :: rest => by
    simp only [dressMethods, resolveMethods]
    exact (f.dresses_resolve context).bind fun _ =>
      (dresses_resolveMethods context rest).bind fun _ => dresses_pure _

/-- Statements, with a scope for a block and scopes for a class. -/
theorem Stmt.dresses_resolve (context : ClassContext) :
    (s : Stmt) →
    Dresses g (Stmt.dress (g.withLiterals literal)) (s.resolve run context)
      ((s.dress g).resolve run' context)
  | .evaluate e => by
    simp only [Stmt.dress, Stmt.resolve]
    exact (e.dresses_resolve context).bind fun _ => dresses_pure _
  | .print e => by
    simp only [Stmt.dress, Stmt.resolve]
    exact (e.dresses_resolve context).bind fun _ => dresses_pure _
  | .declare mutable name init => by
    simp only [Stmt.dress, Stmt.resolve]
    exact (dresses_resolveExpr? context init).bind fun _ =>
      (dresses_declare hg name.name mutable).bind fun _ =>
      dresses_pure _
  | .block body => by
    simp only [Stmt.dress, Stmt.resolve]
    exact ((dresses_resolveStmts context body).within hg []).bind fun _ => dresses_pure _
  | .branch e s s' => by
    simp only [Stmt.dress, Stmt.resolve]
    exact (e.dresses_resolve context).bind fun _ => (dresses_resolveStmt? context s).bind fun _ =>
      (dresses_resolveStmt? context s').bind fun _ => dresses_pure _
  | .loop e s e' => by
    simp only [Stmt.dress, Stmt.resolve]
    exact (dresses_resolveExpr? context e).bind fun _ => (s.dresses_resolve context).bind fun _ =>
      (dresses_resolveExpr? context e').bind fun _ => dresses_pure _
  | .ret _ e => by
    simp only [Stmt.dress, Stmt.resolve]
    exact (dresses_resolveExpr? context e).bind fun _ => dresses_pure _
  | .brk _ => by
    simp only [Stmt.dress, Stmt.resolve]
    exact dresses_pure _
  | .cont _ => by
    simp only [Stmt.dress, Stmt.resolve]
    exact dresses_pure _
  | .classDecl name none methods => by
    simp only [Stmt.dress, Option.map_none, Stmt.resolve]
    have hmethods := (dresses_resolveMethods .plain methods).receiver hg
    exact (dresses_declare hg name.name false).bind fun _ => hmethods.bind fun _ => dresses_pure _
  | .classDecl name (some use) methods => by
    simp only [Stmt.dress, Option.map_some, Stmt.resolve]
    have hmethods := ((dresses_resolveMethods .subclass methods).receiver hg).superclass hg
    refine (dresses_declare hg name.name false).bind fun _ =>
      (dresses_checkSuperclass hg name use).bind fun _ => ?_
    exact use.dresses_resolve.bind fun _ => hmethods.bind fun _ => dresses_pure _

theorem dresses_resolveStmt? (context : ClassContext) : (s : Option Stmt) →
    Dresses g (dressStmt? (g.withLiterals literal)) (resolveStmt? run context s)
      (resolveStmt? run' context (dressStmt? g s))
  | none => by
    simp only [dressStmt?, resolveStmt?]
    exact dresses_pure _
  | some s => by
    simp only [dressStmt?, resolveStmt?]
    exact (s.dresses_resolve context).bind fun _ => dresses_pure _

/-- A program in a guise is resolved to the resolved program in that guise. -/
theorem dresses_resolveStmts (context : ClassContext) : (ss : List Stmt) →
    Dresses g (dressStmts (g.withLiterals literal)) (resolveStmts run context ss)
      (resolveStmts run' context (dressStmts g ss))
  | [] => by
    simp only [dressStmts, resolveStmts]
    exact dresses_pure _
  | s :: rest => by
    simp only [dressStmts, resolveStmts]
    exact (s.dresses_resolve context).bind fun _ =>
      (dresses_resolveStmts context rest).bind fun _ => dresses_pure _

end

end Guise

end Lox
