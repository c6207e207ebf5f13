import Lox.Proofs.Syntax.Tree

/-!
# What resolution does to scopes

Going over a part of a program leaves the scopes around it as they were, but for the names that the
part declares in the innermost one: `Steady` says so, and `steady` shows it for every part of a
program whose function literals stand where they should. So the parts of an expression are all gone
over with the same scopes, whatever their order.
-/

namespace Lox

open Code

/-! ## Going over one part after another -/

namespace Resolve

variable {α β : Type} (p : Resolve α) (f : α → Resolve β) (a : α) (S : StaticScopes)

/-- One part after another gives what the second makes of the first. -/
@[simp] theorem bind_value : ((p >>= f) S).value = (f (p S).value (p S).scopes).value := rfl

/-- The second part is gone over with the scopes that the first leaves. -/
@[simp] theorem bind_scopes : ((p >>= f) S).scopes = (f (p S).value (p S).scopes).scopes := rfl

/-- The reports of the first part come before those of the second. -/
@[simp] theorem bind_diagnostics :
    ((p >>= f) S).diagnostics = (p S).diagnostics ++ (f (p S).value (p S).scopes).diagnostics := rfl

@[simp] theorem pure_value : ((pure a : Resolve α) S).value = a := rfl

@[simp] theorem pure_scopes : ((pure a : Resolve α) S).scopes = S := rfl

@[simp] theorem pure_diagnostics : ((pure a : Resolve α) S).diagnostics = [] := rfl

/-- What stands in a scope is gone over with that scope innermost. -/
@[simp] theorem within_value (scope : StaticScope) :
    (within scope p S).value = (p (scope :: S)).value :=
  rfl

/-- The scope is closed afterwards. -/
@[simp] theorem within_scopes (scope : StaticScope) :
    (within scope p S).scopes = (p (scope :: S)).scopes.tail :=
  rfl

@[simp] theorem within_diagnostics (scope : StaticScope) :
    (within scope p S).diagnostics = (p (scope :: S)).diagnostics := rfl

/-- A name is declared in the innermost scope. -/
@[simp] theorem declare_scopes (name : Text) (mutable : Bool) (top : StaticScope) :
    (declare name mutable (top :: S)).scopes = ((name, mutable) :: top) :: S := rfl

@[simp] theorem declare_diagnostics (name : Text) (mutable : Bool) (top : StaticScope) :
    (declare name mutable (top :: S)).diagnostics = [] := rfl

/-- A name is searched from the innermost scope outwards. -/
@[simp] theorem find?_value (name : Text) : (find? name S).value = S.find? name := rfl

@[simp] theorem find?_scopes (name : Text) : (find? name S).scopes = S := rfl

@[simp] theorem find?_diagnostics (name : Text) : (find? name S).diagnostics = [] := rfl

@[simp] theorem report_scopes (problem : ResolveProblem) (site : Span) :
    (report problem site S).scopes = S :=
  rfl

/-- A report is made at the place that is blamed. -/
@[simp] theorem report_diagnostics (problem : ResolveProblem) (site : Span) :
    (report problem site S).diagnostics = [⟨.resolve problem, site.blamed⟩] := rfl

end Resolve

open Resolve

/-! ## Uses of names -/

section Uses

variable (S : StaticScopes)

/-- The use of a name declares nothing. -/
@[simp] theorem NameUse.resolve_scopes (use : NameUse) : (use.resolve S).scopes = S := by
  simp only [NameUse.resolve, bind_scopes, find?_value, find?_scopes]
  rcases S.find? use.ident.name with _ | ⟨depth, mutable⟩ <;> rfl

@[simp] theorem NameUse.resolveTarget_scopes (use : NameUse) :
    (use.resolveTarget S).scopes = S := by
  simp only [NameUse.resolveTarget, bind_scopes, find?_value, find?_scopes]
  rcases S.find? use.ident.name with _ | ⟨depth, _ | _⟩ <;> rfl

/-- The use of a name keeps the name. -/
@[simp] theorem NameUse.resolve_ident (use : NameUse) :
    (use.resolve S).value.ident = use.ident := by
  simp only [NameUse.resolve, bind_value, find?_value, find?_scopes]
  rcases S.find? use.ident.name with _ | ⟨depth, mutable⟩ <;> rfl

@[simp] theorem NameUse.resolveTarget_ident (use : NameUse) :
    (use.resolveTarget S).value.ident = use.ident := by
  simp only [NameUse.resolveTarget, bind_value, find?_value, find?_scopes]
  rcases S.find? use.ident.name with _ | ⟨depth, _ | _⟩ <;> rfl

/-- The use of the receiver declares nothing. -/
@[simp] theorem resolveThis_scopes (context : ClassContext) (keyword : Span) :
    (resolveThis context keyword S).scopes = S := by
  cases context <;> rfl

/-- The use of the superclass declares nothing. -/
@[simp] theorem resolveSuper_scopes (context : ClassContext) (keyword : Span) :
    (resolveSuper context keyword S).scopes = S := by
  cases context <;> rfl

/-- The check of what a class extends declares nothing. -/
@[simp] theorem checkSuperclass_scopes (name : Ident) (use : NameUse) :
    (checkSuperclass name use S).scopes = S := by
  unfold checkSuperclass
  split <;> rfl

end Uses

/-! ## Parts of a program -/

variable {run : Nat} {context : ClassContext} {S : StaticScopes} {top : StaticScope}

/-- Going over a part declares what the part declares, and nothing else. A list of statements may
declare any names. -/
def Steady : Code → Prop
  | .expr e =>
    ∀ run context top S, (e.resolve run context (top :: S)).scopes = (e.declared ++ top) :: S
  | .stmt s =>
    ∀ run context top S, (s.resolve run context (top :: S)).scopes = (s.declared ++ top) :: S
  | .stmts body =>
    ∀ run context top S, ∃ names, (resolveStmts run context body (top :: S)).scopes = names :: S
  | .function f => ∀ run context S, (f.resolve run context S).scopes = S

/-- An expression that leaves the scopes as they are. -/
def SteadyExpr (e : Expr) : Prop := Steady (.expr e) ∧ e.declared = []

/-- A steady expression leaves the scopes as they are. -/
theorem SteadyExpr.scopes {e : Expr} (h : SteadyExpr e) :
    (e.resolve run context (top :: S)).scopes = top :: S := by
  rw [h.1, h.2]
  rfl

/-- Steady expressions leave the scopes as they are. -/
theorem steady_resolveExprs {es : List Expr} (h : ∀ e ∈ es, SteadyExpr e) :
    (resolveExprs run context es (top :: S)).scopes = top :: S := by
  induction es with
  | nil => rfl
  | cons e es ih =>
    simp only [resolveExprs, bind_scopes, pure_scopes, (h e List.mem_cons_self).scopes]
    exact ih fun e' he' => h e' (List.mem_cons_of_mem _ he')

/-- So do the values of fields. -/
theorem steady_resolveFields {fields : List Field} (h : ∀ f ∈ fields, SteadyExpr f.value) :
    (resolveFields run context fields (top :: S)).scopes = top :: S := by
  induction fields with
  | nil => rfl
  | cons f fields ih =>
    obtain ⟨key, value⟩ := f
    have hvalue : SteadyExpr value := h _ List.mem_cons_self
    simp only [resolveFields, bind_scopes, pure_scopes, hvalue.scopes]
    exact ih fun f hf => h f (List.mem_cons_of_mem _ hf)

theorem steady_resolveExpr? {e : Option Expr} (h : ∀ e' ∈ e, SteadyExpr e') :
    (resolveExpr? run context e (top :: S)).scopes = top :: S := by
  cases e with
  | none => rfl
  | some e => exact (h e rfl).scopes

/-- So does a branch that declares nothing outside of itself. -/
theorem steady_resolveStmt? {s : Option Stmt} (h : ∀ s' ∈ s, Steady (.stmt s') ∧ s'.declared = []) :
    (resolveStmt? run context s (top :: S)).scopes = top :: S := by
  cases s with
  | none => rfl
  | some s =>
    obtain ⟨hs, hdeclared⟩ := h s rfl
    simp only [resolveStmt?, bind_scopes, pure_scopes]
    rw [hs, hdeclared]
    rfl

/-- So do methods, each in scopes of its own. -/
theorem steady_resolveMethods {methods : List Method}
    (h : ∀ m f, .mk m f ∈ methods → Steady (.function f)) :
    (resolveMethods run context methods S).scopes = S := by
  induction methods with
  | nil => rfl
  | cons method methods ih =>
    obtain ⟨m, f⟩ := method
    have hf := h m f List.mem_cons_self
    simp only [resolveMethods, bind_scopes, pure_scopes]
    rw [hf run context S]
    exact ih fun m f hm => h m f (List.mem_cons_of_mem _ hm)

/-- Statements leave what each of them declares. -/
theorem steady_resolveStmts {body : List Stmt} (h : ∀ s ∈ body, Steady (.stmt s)) :
    Steady (.stmts body) := by
  intro run context top S
  induction body generalizing top with
  | nil => exact ⟨top, rfl⟩
  | cons s body ih =>
    simp only [resolveStmts, bind_scopes, pure_scopes]
    rw [h s List.mem_cons_self]
    exact ih (fun s hs => h s (List.mem_cons_of_mem _ hs)) _

/-- A part of a program of the right shape, with its function literals where they should be. -/
def Code.Tidy (c : Code) : Prop := c.Shaped ∧ c.LiteralsPlaced

/-- Shaped parts with literals where they should be are tidy. -/
theorem every_tidy {c : Code} (hshaped : Every Shaped c) (hplaced : Every LiteralsPlaced c) :
    Every Tidy c := by
  induction hshaped with
  | intro h _ ih => exact .intro ⟨h, hplaced.here⟩ fun d hd => ih d hd (hplaced.child hd)

/-- The parts of an expression declare nothing. -/
theorem declared_of_placed {e part : Expr} (h : (Code.expr e).LiteralsPlaced)
    (hpart : part ∈ e.parts) : part.declared = [] := Expr.declared_of_not_isNamed (h part hpart)

/-- Only an expression statement or a declaration has a function literal with a name. -/
theorem declared_of_exprs {s : Stmt} {e : Expr} (h : (Code.stmt s).LiteralsPlaced)
    (he : e ∈ s.exprs) (hevaluate : s ≠ .evaluate e)
    (hdeclare : ∀ mutable name, s ≠ .declare mutable name (some e)) : e.declared = [] := by
  refine Expr.declared_of_not_isNamed fun hnamed => ?_
  rcases h e he hnamed with hs | ⟨mutable, name, hs⟩
  · exact hevaluate hs
  · exact hdeclare mutable name hs

/-- An expression is steady if its parts are, and its body if it is a literal. -/
theorem steady_expr {e : Expr} (hparts : ∀ part ∈ e.parts, SteadyExpr part)
    (hlambda : ∀ name f, e = .lambda name f → Steady (.function f)) : Steady (.expr e) := by
  intro run context top S
  cases e with
  | literal | var | thisRef | superRef => simp [Expr.resolve, Expr.declared]
  | lambda name f =>
    have hf := hlambda name f rfl
    cases name with
    | none => exact hf run context _
    | some name => exact hf run context _
  | grouping e | unary _ _ e | get e _ | assign _ e =>
    have he : SteadyExpr e := hparts e (by simp [Expr.parts])
    simp [Expr.resolve, Expr.declared, he.scopes]
  | binary _ _ left right | logical _ left right =>
    have hleft : SteadyExpr left := hparts left (by simp [Expr.parts])
    have hright : SteadyExpr right := hparts right (by simp [Expr.parts])
    simp [Expr.resolve, Expr.declared, hleft.scopes, hright.scopes]
  | getKey left _ right | index left right _ | set left _ right =>
    have hleft : SteadyExpr left := hparts left (by simp [Expr.parts])
    have hright : SteadyExpr right := hparts right (by simp [Expr.parts])
    simp [Expr.resolve, Expr.declared, hleft.scopes, hright.scopes]
  | setKey owner _ key value | setIndex owner key _ value =>
    have howner : SteadyExpr owner := hparts owner (by simp [Expr.parts])
    have hkey : SteadyExpr key := hparts key (by simp [Expr.parts])
    have hvalue : SteadyExpr value := hparts value (by simp [Expr.parts])
    simp [Expr.resolve, Expr.declared, howner.scopes, hkey.scopes, hvalue.scopes]
  | call callee arguments _ =>
    have hcallee : SteadyExpr callee := hparts callee (by simp [Expr.parts])
    have harguments := @steady_resolveExprs run context S top arguments
      fun e he => hparts e (List.mem_cons_of_mem _ he)
    simp [Expr.resolve, Expr.declared, hcallee.scopes, harguments]
  | object fields =>
    have hfields := @steady_resolveFields run context S top fields
      fun f hf => hparts f.value (List.mem_map_of_mem hf)
    simp [Expr.resolve, Expr.declared, hfields]
  | list elements =>
    have helements := @steady_resolveExprs run context S top elements hparts
    simp [Expr.resolve, Expr.declared, helements]

/-- A statement is steady if what stands in it is. -/
theorem steady_stmt {s : Stmt} (htidy : (Code.stmt s).Tidy)
    (hexprs : ∀ e ∈ s.exprs, Steady (.expr e)) (hinner : ∀ s' ∈ s.inner, Steady (.stmt s'))
    (hblock : ∀ body, s = .block body → Steady (.stmts body))
    (hmethods : ∀ name superclass methods, s = .classDecl name superclass methods →
      ∀ m f, .mk m f ∈ methods → Steady (.function f)) : Steady (.stmt s) := by
  obtain ⟨⟨_, hplain⟩, hplaced⟩ := htidy
  intro run context top S
  cases s with
  | evaluate e => exact hexprs e (List.mem_singleton.mpr rfl) run context top S
  | print e =>
    have he : SteadyExpr e := ⟨hexprs e (List.mem_singleton.mpr rfl),
      declared_of_exprs hplaced (List.mem_singleton.mpr rfl) nofun nofun⟩
    simp [Stmt.resolve, Stmt.declared, he.scopes]
  | declare mutable name init =>
    cases init with
    | none => rfl
    | some e =>
      have he := hexprs e (List.mem_singleton.mpr rfl) run context top S
      simp [Stmt.resolve, resolveExpr?, Stmt.declared, he]
  | block body =>
    obtain ⟨names, hnames⟩ := hblock body rfl run context [] (top :: S)
    simp [Stmt.resolve, Stmt.declared, hnames]
  | branch condition thenBranch elseBranch =>
    have hcondition : SteadyExpr condition := ⟨hexprs condition (List.mem_singleton.mpr rfl),
      declared_of_exprs hplaced (List.mem_singleton.mpr rfl) nofun nofun⟩
    have hthen := @steady_resolveStmt? run context S top thenBranch fun s hs => by
      have hmem : s ∈ (Stmt.branch condition thenBranch elseBranch).inner :=
        List.mem_append_left _ (Option.mem_toList.mpr hs)
      exact ⟨hinner s hmem, hplain s hmem⟩
    have helse := @steady_resolveStmt? run context S top elseBranch fun s hs => by
      have hmem : s ∈ (Stmt.branch condition thenBranch elseBranch).inner :=
        List.mem_append_right _ (Option.mem_toList.mpr hs)
      exact ⟨hinner s hmem, hplain s hmem⟩
    simp [Stmt.resolve, Stmt.declared, hcondition.scopes, hthen, helse]
  | loop condition body closer =>
    have hsteady : ∀ e ∈ (Stmt.loop condition body closer).exprs, SteadyExpr e :=
      fun e he => ⟨hexprs e he, declared_of_exprs hplaced he nofun nofun⟩
    have hcondition := @steady_resolveExpr? run context S top condition fun e he =>
      hsteady e (List.mem_append_left _ (Option.mem_toList.mpr he))
    have hcloser := @steady_resolveExpr? run context S top closer fun e he =>
      hsteady e (List.mem_append_right _ (Option.mem_toList.mpr he))
    have hbody := hinner body (List.mem_singleton.mpr rfl) run context top S
    rw [hplain body (List.mem_singleton.mpr rfl), List.nil_append] at hbody
    simp [Stmt.resolve, Stmt.declared, hcondition, hbody, hcloser]
  | ret keyword value =>
    have hvalue := @steady_resolveExpr? run context S top value fun e he => by
      have hmem : e ∈ (Stmt.ret keyword value).exprs := Option.mem_toList.mpr he
      exact ⟨hexprs e hmem, declared_of_exprs hplaced hmem nofun nofun⟩
    simp [Stmt.resolve, Stmt.declared, hvalue]
  | brk | cont => rfl
  | classDecl name superclass methods =>
    have hsteady : ∀ run context S, (resolveMethods run context methods S).scopes = S :=
      fun run context S => steady_resolveMethods (hmethods name superclass methods rfl)
    cases superclass with
    | none => simp [Stmt.resolve, Stmt.declared, hsteady]
    | some use => simp [Stmt.resolve, Stmt.declared, hsteady]

/-- A function is steady if its body is. -/
theorem steady_function {f : Function} (h : Steady (.stmts f.body)) : Steady (.function f) := by
  intro run context S
  obtain ⟨keyword, _, params, body⟩ := f
  obtain ⟨names, hnames⟩ := h run context (parameterScope params) S
  have hnames : (resolveStmts run context body (parameterScope params :: S)).scopes =
      names :: S := hnames
  simp [Function.resolve, hnames]

/-- Every part of a tidy program is gone over as it should be. -/
theorem steady {c : Code} (h : Every Tidy c) : Steady c := by
  induction h with
  | @intro c htidy hchild ih =>
    cases c with
    | stmts body => exact steady_resolveStmts fun s hs => ih _ (.member hs)
    | stmt s =>
      refine steady_stmt htidy (fun e he => ih _ (.expr he)) (fun s hs => ih _ (.inner hs)) ?_ ?_
      · rintro body rfl
        exact ih _ .block
      · rintro name superclass methods rfl m f hm
        exact ih _ (.method hm)
    | expr e =>
      refine steady_expr (fun part hpart => ⟨ih _ (.part hpart), declared_of_placed htidy.2 hpart⟩)
        ?_
      rintro name f rfl
      exact ih _ .literal
    | function f => exact steady_function (ih _ .body)

end Lox
