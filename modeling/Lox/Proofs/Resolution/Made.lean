import Lox.Proofs.Resolution.Scopes

/-!
# What resolution makes of a part

Where a part of a program is gone over without a report, so are the parts that stand in it, each
with the scopes that resolution has there: `Made` says that a part is the outcome, and its lemmas
take it to what stands in the part. A use of a name has been given the distance of the innermost
scope that declares the name; what resolution makes of a tidy part is tidy again.
-/

namespace Lox

open Code Resolve

/-- A part is what resolution makes of a tidy one with some scopes around it, without a report. -/
def Made (context : ClassContext) (S : StaticScopes) : Code → Prop
  | .expr e => ∃ run source, Every Tidy (.expr source) ∧
      (source.resolve run context S).value = e ∧ (source.resolve run context S).diagnostics = []
  | .stmt s => ∃ run source, Every Tidy (.stmt source) ∧
      (source.resolve run context S).value = s ∧ (source.resolve run context S).diagnostics = []
  | .stmts body =>
    ∃ run source, Every Tidy (.stmts source) ∧ (resolveStmts run context source S).value = body ∧
      (resolveStmts run context source S).diagnostics = []
  | .function f => ∃ run source, Every Tidy (.function source) ∧
      (source.resolve run context S).value = f ∧ (source.resolve run context S).diagnostics = []

section Made

variable {run : Nat} {context : ClassContext} {S : StaticScopes} {top : StaticScope}

/-- An expression declares what it declared. -/
@[simp] theorem Expr.declared_resolve (e : Expr) :
    (e.resolve run context S).value.declared = e.declared := by
  cases e with
  | lambda name f => cases name <;> rfl
  | _ => rfl

/-- A statement declares what it declared. -/
@[simp] theorem Stmt.declared_resolve (s : Stmt) :
    (s.resolve run context S).value.declared = s.declared := by
  cases s with
  | evaluate e => exact e.declared_resolve
  | declare mutable name init =>
    cases init with
    | none => rfl
    | some e => exact congrArg (_ :: ·) e.declared_resolve
  | classDecl name superclass methods => cases superclass <;> rfl
  | _ => rfl

/-- The first statement has the scopes of all. -/
theorem Made.first {s : Stmt} {rest : List Stmt} (h : Made context S (.stmts (s :: rest))) :
    Made context S (.stmt s) := by
  obtain ⟨run, source, htidy, hvalue, hclean⟩ := h
  cases source with
  | nil => cases hvalue
  | cons s₀ rest₀ =>
    simp only [resolveStmts, bind_value, pure_value, List.cons.injEq] at hvalue
    simp only [resolveStmts, bind_diagnostics, List.append_eq_nil_iff] at hclean
    exact ⟨run, s₀, htidy.child (.member List.mem_cons_self), hvalue.1, hclean.1⟩

theorem every_tail {s : Stmt} {rest : List Stmt} (h : Every Tidy (.stmts (s :: rest))) :
    Every Tidy (.stmts rest) :=
  h.tail ⟨trivial, trivial⟩

/-- The others have the names that it declares besides. -/
theorem Made.next {s : Stmt} {rest : List Stmt} (h : Made context (top :: S) (.stmts (s :: rest))) :
    Made context ((s.declared ++ top) :: S) (.stmts rest) := by
  obtain ⟨run, source, htidy, hvalue, hclean⟩ := h
  cases source with
  | nil => cases hvalue
  | cons s₀ rest₀ =>
    have hscopes : (s₀.resolve run context (top :: S)).scopes = (s₀.declared ++ top) :: S :=
      steady (htidy.child (.member List.mem_cons_self)) run context top S
    simp only [resolveStmts, bind_value, pure_value, List.cons.injEq, hscopes] at hvalue
    simp only [resolveStmts, bind_diagnostics, List.append_eq_nil_iff, hscopes] at hclean
    obtain ⟨rfl, hrest⟩ := hvalue
    rw [Stmt.declared_resolve]
    exact ⟨run, rest₀, every_tail htidy, hrest, hclean.2.1⟩

/-- A block has a scope of its own. -/
theorem Made.block {body : List Stmt} (h : Made context S (.stmt (.block body))) :
    Made context ([] :: S) (.stmts body) := by
  obtain ⟨run, source, htidy, hvalue, hclean⟩ := h
  cases source with
  | block body₀ =>
    simp only [Stmt.resolve, bind_value, pure_value, within_value, Stmt.block.injEq] at hvalue
    simp only [Stmt.resolve, bind_diagnostics, within_diagnostics, List.append_eq_nil_iff] at hclean
    exact ⟨run, body₀, htidy.child .block, hvalue, hclean.1⟩
  | classDecl name superclass methods => cases superclass <;> cases hvalue
  | _ => cases hvalue

/-- The body of a function has a scope with its parameters. -/
theorem Made.body {f : Function} (h : Made context S (.function f)) :
    Made context (parameterScope f.params :: S) (.stmts f.body) := by
  obtain ⟨run, ⟨keyword, _, params, body⟩, htidy, rfl, hclean⟩ := h
  simp only [Function.resolve, within_diagnostics, bind_diagnostics,
    List.append_eq_nil_iff] at hclean
  exact ⟨run, body, htidy.child (Child.body (f := .mk keyword _ params body)), rfl, hclean.1⟩

/-- A function literal has the name that it declares. -/
theorem Made.literal {name : Option Ident} {f : Function}
    (h : Made context (top :: S) (.expr (.lambda name f))) :
    Made context (((Expr.lambda name f).declared ++ top) :: S) (.function f) := by
  obtain ⟨run, source, htidy, hvalue, hclean⟩ := h
  cases source with
  | lambda name₀ f₀ =>
    cases name₀ with
    | none =>
      simp only [Expr.resolve, bind_value, pure_value, Expr.lambda.injEq] at hvalue
      simp only [Expr.resolve, bind_diagnostics, List.append_eq_nil_iff] at hclean
      obtain ⟨rfl, rfl⟩ := hvalue
      exact ⟨run, f₀, htidy.child .literal, rfl, hclean.1⟩
    | some name₀ =>
      simp only [Expr.resolve, bind_value, pure_value, Expr.lambda.injEq, declare_scopes] at hvalue
      simp only [Expr.resolve, bind_diagnostics, List.append_eq_nil_iff, declare_scopes] at hclean
      obtain ⟨rfl, rfl⟩ := hvalue
      exact ⟨run, f₀, htidy.child .literal, rfl, hclean.2.1⟩
  | _ => cases hvalue

/-! ## Expressions and statements in a part -/

/-- Expressions are gone over each with the same scopes. -/
theorem values_resolveExprs {es : List Expr} (h : ∀ e ∈ es, SteadyExpr e) :
    (resolveExprs run context es (top :: S)).value =
      es.map fun e => (e.resolve run context (top :: S)).value := by
  induction es with
  | nil => rfl
  | cons e es ih =>
    simp only [resolveExprs, bind_value, pure_value, (h e List.mem_cons_self).scopes, List.map_cons]
    rw [ih fun e' he' => h e' (List.mem_cons_of_mem _ he')]

/-- Expressions that are gone over without a report are each gone over without one. -/
theorem clean_resolveExprs {es : List Expr} (h : ∀ e ∈ es, SteadyExpr e)
    (hclean : (resolveExprs run context es (top :: S)).diagnostics = []) :
    ∀ e ∈ es, (e.resolve run context (top :: S)).diagnostics = [] := by
  induction es with
  | nil => nofun
  | cons e es ih =>
    simp only [resolveExprs, bind_diagnostics, (h e List.mem_cons_self).scopes,
      List.append_eq_nil_iff] at hclean
    intro e' he'
    rcases List.mem_cons.mp he' with rfl | he'
    · exact hclean.1
    · exact ih (fun e' he' => h e' (List.mem_cons_of_mem _ he')) hclean.2.1 e' he'

theorem values_resolveFields {fields : List Field} (h : ∀ f ∈ fields, SteadyExpr f.value) :
    (resolveFields run context fields (top :: S)).value.map Field.value =
      fields.map fun f => (f.value.resolve run context (top :: S)).value := by
  induction fields with
  | nil => rfl
  | cons f fields ih =>
    obtain ⟨key, value⟩ := f
    have hvalue : SteadyExpr value := h _ List.mem_cons_self
    simp only [resolveFields, bind_value, pure_value, hvalue.scopes, List.map_cons]
    rw [ih fun f hf => h f (List.mem_cons_of_mem _ hf)]
    rfl

theorem clean_resolveFields {fields : List Field} (h : ∀ f ∈ fields, SteadyExpr f.value)
    (hclean : (resolveFields run context fields (top :: S)).diagnostics = []) :
    ∀ f ∈ fields, (f.value.resolve run context (top :: S)).diagnostics = [] := by
  induction fields with
  | nil => nofun
  | cons f fields ih =>
    obtain ⟨key, value⟩ := f
    have hvalue : SteadyExpr value := h _ List.mem_cons_self
    simp only [resolveFields, bind_diagnostics, hvalue.scopes, List.append_eq_nil_iff] at hclean
    intro f hf
    rcases List.mem_cons.mp hf with rfl | hf
    · exact hclean.1
    · exact ih (fun f hf => h f (List.mem_cons_of_mem _ hf)) hclean.2.1 f hf

/-- The parts of an expression are resolved with the scopes that the expression is resolved with. -/
theorem Expr.parts_resolve {e : Expr} (h : ∀ part ∈ e.parts, SteadyExpr part) :
    (e.resolve run context (top :: S)).value.parts =
      e.parts.map fun part => (part.resolve run context (top :: S)).value := by
  cases e with
  | lambda name f => cases name <;> rfl
  | call callee arguments paren =>
    have hcallee := h callee List.mem_cons_self
    have hvalues :=
      @values_resolveExprs run context S top arguments fun e he => h e (List.mem_cons_of_mem _ he)
    simp [Expr.resolve, Expr.parts, hcallee.scopes, hvalues]
  | object fields =>
    have hvalues :=
      @values_resolveFields run context S top fields fun f hf => h f.value (List.mem_map_of_mem hf)
    simp [Expr.resolve, Expr.parts, hvalues]
  | list elements =>
    have hvalues := @values_resolveExprs run context S top elements h
    simp [Expr.resolve, Expr.parts, hvalues]
  | _ => simp_all [Expr.parts, Expr.resolve, SteadyExpr.scopes]

/-- Where an expression does not report, neither do its parts. -/
theorem Expr.clean_parts {e : Expr} (h : ∀ part ∈ e.parts, SteadyExpr part)
    (hclean : (e.resolve run context (top :: S)).diagnostics = []) :
    ∀ part ∈ e.parts, (part.resolve run context (top :: S)).diagnostics = [] := by
  cases e with
  | lambda name f => nofun
  | call callee arguments paren =>
    have hcallee := h callee List.mem_cons_self
    simp only [Expr.resolve, bind_diagnostics, hcallee.scopes, List.append_eq_nil_iff] at hclean
    intro part hpart
    rcases List.mem_cons.mp hpart with rfl | hpart
    · exact hclean.1
    · exact clean_resolveExprs (fun e he => h e (List.mem_cons_of_mem _ he)) hclean.2.1 part hpart
  | object fields =>
    simp only [Expr.resolve, bind_diagnostics, List.append_eq_nil_iff] at hclean
    intro part hpart
    obtain ⟨f, hf, rfl⟩ := List.mem_map.mp hpart
    exact clean_resolveFields (fun f hf => h f.value (List.mem_map_of_mem hf)) hclean.1 f hf
  | list elements =>
    simp only [Expr.resolve, bind_diagnostics, List.append_eq_nil_iff] at hclean
    exact clean_resolveExprs h hclean.1
  | _ => simp_all [Expr.parts, Expr.resolve, SteadyExpr.scopes]

/-- The parts of an expression have its scopes. -/
theorem Made.part {e e' : Expr} (h : Made context (top :: S) (.expr e)) (he' : e' ∈ e.parts) :
    Made context (top :: S) (.expr e') := by
  obtain ⟨run, source, htidy, rfl, hclean⟩ := h
  have hsteady : ∀ part ∈ source.parts, SteadyExpr part := fun part hpart =>
    ⟨steady (htidy.child (.part hpart)), declared_of_placed htidy.here.2 hpart⟩
  rw [Expr.parts_resolve hsteady] at he'
  obtain ⟨part, hpart, rfl⟩ := List.mem_map.mp he'
  exact ⟨run, part, htidy.child (.part hpart), rfl, Expr.clean_parts hsteady hclean part hpart⟩

/-- What going over a statement needs of its parts, so that all of them are gone over with the same
scopes. -/
theorem Stmt.steady_parts {s : Stmt} (h : Every Tidy (.stmt s)) :
    (∀ condition thenBranch elseBranch, s = .branch condition thenBranch elseBranch →
      SteadyExpr condition) ∧
    (∀ condition body closer, s = .loop condition body closer → ∀ e ∈ s.exprs, SteadyExpr e) ∧
    ∀ s' ∈ s.inner, Steady (.stmt s') ∧ s'.declared = [] := by
  refine ⟨?_, ?_, fun s' hs' => ⟨steady (h.child (.inner hs')), h.here.1.2 s' hs'⟩⟩
  · rintro condition thenBranch elseBranch rfl
    have hmem : condition ∈ (Stmt.branch condition thenBranch elseBranch).exprs :=
      List.mem_singleton.mpr rfl
    exact ⟨steady (h.child (.expr hmem)), declared_of_exprs h.here.2 hmem nofun nofun⟩
  · rintro condition body closer rfl e he
    exact ⟨steady (h.child (.expr he)), declared_of_exprs h.here.2 he nofun nofun⟩

/-- The expressions of a statement are resolved with the scopes that the statement is resolved
with. -/
theorem Stmt.exprs_resolve {s : Stmt} (h : Every Tidy (.stmt s)) :
    (s.resolve run context (top :: S)).value.exprs =
      s.exprs.map fun e => (e.resolve run context (top :: S)).value := by
  obtain ⟨_, hloop, hinner⟩ := Stmt.steady_parts h
  cases s with
  | declare mutable name init => cases init <;> rfl
  | ret keyword value => cases value <;> rfl
  | classDecl name superclass methods => cases superclass <;> rfl
  | loop condition body closer =>
    have hloop := hloop condition body closer rfl
    have hcondition := @steady_resolveExpr? run context S top condition fun e he =>
      hloop e (List.mem_append_left _ (Option.mem_toList.mpr he))
    have hbody : (body.resolve run context (top :: S)).scopes = top :: S := by
      obtain ⟨hbody, hdeclared⟩ := hinner body (List.mem_singleton.mpr rfl)
      rw [hbody, hdeclared]
      rfl
    simp only [Stmt.resolve, bind_value, pure_value, Stmt.exprs, hcondition, hbody, List.map_append]
    cases condition <;> cases closer <;> rfl
  | _ => rfl

theorem Stmt.clean_exprs {s : Stmt} (h : Every Tidy (.stmt s))
    (hclean : (s.resolve run context (top :: S)).diagnostics = []) :
    ∀ e ∈ s.exprs, (e.resolve run context (top :: S)).diagnostics = [] := by
  obtain ⟨_, hloop, hinner⟩ := Stmt.steady_parts h
  cases s with
  | evaluate e | print e | branch e _ _ =>
    simp only [Stmt.resolve, bind_diagnostics, List.append_eq_nil_iff] at hclean
    simpa [Stmt.exprs] using hclean.1
  | declare mutable name init =>
    simp only [Stmt.resolve, bind_diagnostics, List.append_eq_nil_iff] at hclean
    cases init with
    | none => simp [Stmt.exprs]
    | some e => simpa [Stmt.exprs, resolveExpr?] using hclean.1
  | ret keyword value =>
    simp only [Stmt.resolve, bind_diagnostics, List.append_eq_nil_iff] at hclean
    cases value with
    | none => simp [Stmt.exprs]
    | some e => simpa [Stmt.exprs, resolveExpr?] using hclean.1
  | loop condition body closer =>
    have hloop := hloop condition body closer rfl
    have hcondition := @steady_resolveExpr? run context S top condition fun e he =>
      hloop e (List.mem_append_left _ (Option.mem_toList.mpr he))
    have hbody : (body.resolve run context (top :: S)).scopes = top :: S := by
      obtain ⟨hbody, hdeclared⟩ := hinner body (List.mem_singleton.mpr rfl)
      rw [hbody, hdeclared]
      rfl
    simp only [Stmt.resolve, bind_diagnostics, hcondition, hbody, List.append_eq_nil_iff] at hclean
    intro e he
    rcases List.mem_append.mp he with he | he
    · obtain rfl := Option.mem_toList.mp he
      simpa [resolveExpr?] using hclean.1
    · obtain rfl := Option.mem_toList.mp he
      simpa [resolveExpr?] using hclean.2.2.1
  | block | brk | cont | classDecl => simp [Stmt.exprs]

/-- The expressions of a statement have its scopes. -/
theorem Made.expr {s : Stmt} {e : Expr} (h : Made context (top :: S) (.stmt s)) (he : e ∈ s.exprs) :
    Made context (top :: S) (.expr e) := by
  obtain ⟨run, source, htidy, rfl, hclean⟩ := h
  rw [Stmt.exprs_resolve htidy] at he
  obtain ⟨e₀, he₀, rfl⟩ := List.mem_map.mp he
  exact ⟨run, e₀, htidy.child (.expr he₀), rfl, Stmt.clean_exprs htidy hclean e₀ he₀⟩

/-- The statements without braces in a statement are resolved with the scopes that the statement is
resolved with. -/
theorem Stmt.inner_resolve {s : Stmt} (h : Every Tidy (.stmt s)) :
    (s.resolve run context (top :: S)).value.inner =
      s.inner.map fun s' => (s'.resolve run context (top :: S)).value := by
  obtain ⟨hbranch, hloop, hinner⟩ := Stmt.steady_parts h
  cases s with
  | classDecl name superclass methods => cases superclass <;> rfl
  | branch condition thenBranch elseBranch =>
    have hcondition := hbranch condition thenBranch elseBranch rfl
    have hthen := @steady_resolveStmt? run context S top thenBranch fun s hs =>
      hinner s (List.mem_append_left _ (Option.mem_toList.mpr hs))
    simp only [Stmt.resolve, bind_value, pure_value, Stmt.inner, hcondition.scopes, hthen,
      List.map_append]
    cases thenBranch <;> cases elseBranch <;> rfl
  | loop condition body closer =>
    have hloop := hloop condition body closer rfl
    have hcondition := @steady_resolveExpr? run context S top condition fun e he =>
      hloop e (List.mem_append_left _ (Option.mem_toList.mpr he))
    simp only [Stmt.resolve, bind_value, pure_value, Stmt.inner, hcondition, List.map_cons,
      List.map_nil]
  | _ => rfl

theorem Stmt.clean_inner {s : Stmt} (h : Every Tidy (.stmt s))
    (hclean : (s.resolve run context (top :: S)).diagnostics = []) :
    ∀ s' ∈ s.inner, (s'.resolve run context (top :: S)).diagnostics = [] := by
  obtain ⟨hbranch, hloop, hinner⟩ := Stmt.steady_parts h
  cases s with
  | branch condition thenBranch elseBranch =>
    have hcondition := hbranch condition thenBranch elseBranch rfl
    have hthen := @steady_resolveStmt? run context S top thenBranch fun s hs =>
      hinner s (List.mem_append_left _ (Option.mem_toList.mpr hs))
    simp only [Stmt.resolve, bind_diagnostics, hcondition.scopes, hthen,
      List.append_eq_nil_iff] at hclean
    intro s' hs'
    rcases List.mem_append.mp hs' with hs' | hs'
    · obtain rfl := Option.mem_toList.mp hs'
      simpa [resolveStmt?] using hclean.2.1
    · obtain rfl := Option.mem_toList.mp hs'
      simpa [resolveStmt?] using hclean.2.2.1
  | loop condition body closer =>
    have hloop := hloop condition body closer rfl
    have hcondition := @steady_resolveExpr? run context S top condition fun e he =>
      hloop e (List.mem_append_left _ (Option.mem_toList.mpr he))
    simp only [Stmt.resolve, bind_diagnostics, hcondition, List.append_eq_nil_iff] at hclean
    simpa [Stmt.inner] using hclean.2.1
  | _ => simp [Stmt.inner]

/-- So do its inner statements. -/
theorem Made.inner {s s' : Stmt} (h : Made context (top :: S) (.stmt s)) (hs' : s' ∈ s.inner) :
    Made context (top :: S) (.stmt s') := by
  obtain ⟨run, source, htidy, rfl, hclean⟩ := h
  rw [Stmt.inner_resolve htidy] at hs'
  obtain ⟨s₀, hs₀, rfl⟩ := List.mem_map.mp hs'
  exact ⟨run, s₀, htidy.child (.inner hs₀), rfl, Stmt.clean_inner htidy hclean s₀ hs₀⟩

/-! ## Classes -/

/-- Methods are made of methods in the same scopes. -/
theorem Made.of_mem_methods {methods : List Method}
    (htidy : ∀ m f, .mk m f ∈ methods → Every Tidy (.function f))
    (hclean : (resolveMethods run context methods S).diagnostics = []) {m : Ident} {f : Function}
    (hm : .mk m f ∈ (resolveMethods run context methods S).value) :
    Made context S (.function f) := by
  induction methods with
  | nil => cases hm
  | cons method methods ih =>
    obtain ⟨m₀, f₀⟩ := method
    have hf₀ := htidy m₀ f₀ List.mem_cons_self
    have hscopes : (f₀.resolve run context S).scopes = S := steady hf₀ run context S
    simp only [resolveMethods, bind_diagnostics, hscopes, List.append_eq_nil_iff] at hclean
    simp only [resolveMethods, bind_value, pure_value, hscopes, List.mem_cons,
      Method.mk.injEq] at hm
    rcases hm with ⟨rfl, rfl⟩ | hm
    · exact ⟨run, f₀, hf₀, rfl, hclean.1⟩
    · exact ih (fun m f hm => htidy m f (List.mem_cons_of_mem _ hm)) hclean.2.1 hm

/-- A method of a class that extends none has the receiver in scope. -/
theorem Made.method {name m : Ident} {methods : List Method} {f : Function}
    (h : Made context (top :: S) (.stmt (.classDecl name none methods))) (hm : .mk m f ∈ methods) :
    Made .plain ([(thisName, false)] :: ((name.name, false) :: top) :: S) (.function f) := by
  obtain ⟨run, source, htidy, hvalue, hclean⟩ := h
  cases source with
  | classDecl name₀ superclass methods₀ =>
    cases superclass with
    | none =>
      simp only [Stmt.resolve, bind_diagnostics, declare_scopes, within_diagnostics,
        List.append_eq_nil_iff] at hclean
      simp only [Stmt.resolve, bind_value, declare_scopes, within_value, pure_value,
        Stmt.classDecl.injEq] at hvalue
      obtain ⟨rfl, -, rfl⟩ := hvalue
      exact Made.of_mem_methods (fun m f hm => htidy.child (.method hm)) hclean.2.1 hm
    | some use => cases hvalue
  | _ => cases hvalue

/-- One of a class that extends another has the superclass outside of it. -/
theorem Made.submethod {name m : Ident} {use : NameUse} {methods : List Method} {f : Function}
    (h : Made context (top :: S) (.stmt (.classDecl name (some use) methods)))
    (hm : .mk m f ∈ methods) :
    Made .subclass ([(thisName, false)] :: [(superName, false)] :: ((name.name, false) :: top) :: S)
      (.function f) := by
  obtain ⟨run, source, htidy, hvalue, hclean⟩ := h
  cases source with
  | classDecl name₀ superclass methods₀ =>
    cases superclass with
    | none => cases hvalue
    | some use₀ =>
      simp only [Stmt.resolve, bind_diagnostics, declare_scopes, within_diagnostics,
        checkSuperclass_scopes, NameUse.resolve_scopes, List.append_eq_nil_iff] at hclean
      simp only [Stmt.resolve, bind_value, declare_scopes, within_value, pure_value,
        checkSuperclass_scopes, NameUse.resolve_scopes, Stmt.classDecl.injEq] at hvalue
      obtain ⟨rfl, -, rfl⟩ := hvalue
      exact Made.of_mem_methods (fun m f hm => htidy.child (.method hm)) hclean.2.2.2.1 hm
  | _ => cases hvalue

/-! ## Uses of names -/

/-- A use has been given the distance of the innermost scope that declares its name. -/
def NameUse.PointsAt (use : NameUse) (S : StaticScopes) : Prop :=
  ∃ depth mutable, S.find? use.ident.name = some (depth, mutable) ∧ use.depth = some depth

/-- A use without a report points at the innermost scope with its name. -/
theorem NameUse.resolve_pointsAt {use : NameUse} (hclean : (use.resolve S).diagnostics = []) :
    (use.resolve S).value.PointsAt S := by
  simp only [NameUse.resolve, bind_diagnostics, bind_value, find?_value, find?_scopes] at hclean ⊢
  rcases hfind : S.find? use.ident.name with _ | ⟨depth, mutable⟩
  · simp [hfind] at hclean
  · exact ⟨depth, mutable, hfind, rfl⟩

theorem NameUse.resolveTarget_pointsAt {use : NameUse}
    (hclean : (use.resolveTarget S).diagnostics = []) : (use.resolveTarget S).value.PointsAt S := by
  simp only [NameUse.resolveTarget, bind_diagnostics, bind_value, find?_value,
    find?_scopes] at hclean ⊢
  rcases hfind : S.find? use.ident.name with _ | ⟨depth, _ | _⟩
  · simp [hfind] at hclean
  · simp [hfind] at hclean
  · exact ⟨depth, true, hfind, rfl⟩

/-- So does every use of a name that is made. -/
theorem Made.use_pointsAt {e : Expr} {use : NameUse} (h : Made context (top :: S) (.expr e))
    (huse : use ∈ e.use?) : use.PointsAt (top :: S) := by
  obtain ⟨run, source, htidy, rfl, hclean⟩ := h
  cases source with
  | var use₀ =>
    simp only [Expr.resolve, bind_diagnostics, List.append_eq_nil_iff] at hclean
    obtain rfl : (use₀.resolve (top :: S)).value = use := Option.some.inj huse
    exact NameUse.resolve_pointsAt hclean.1
  | assign use₀ value =>
    have hmem : value ∈ (Expr.assign use₀ value).parts := List.mem_singleton.mpr rfl
    have hvalue : SteadyExpr value :=
      ⟨steady (htidy.child (.part hmem)), declared_of_placed htidy.here.2 hmem⟩
    simp only [Expr.resolve, bind_diagnostics, hvalue.scopes, List.append_eq_nil_iff] at hclean
    simp only [Expr.resolve, bind_value, pure_value, hvalue.scopes] at huse
    obtain rfl : (use₀.resolveTarget (top :: S)).value = use := Option.some.inj huse
    exact NameUse.resolveTarget_pointsAt hclean.2.1
  | lambda name f => cases name <;> cases huse
  | _ => cases huse

/-- The receiver is used inside of a class, and found as a name is. -/
theorem Made.this_slot {keyword : Span} {slot : Option Nat}
    (h : Made context S (.expr (.thisRef keyword slot))) :
    context ≠ .none ∧ slot = (S.find? thisName).map Prod.fst := by
  obtain ⟨run, source, htidy, hvalue, hclean⟩ := h
  cases source with
  | thisRef keyword₀ slot₀ =>
    simp only [Expr.resolve, bind_diagnostics, List.append_eq_nil_iff] at hclean
    simp only [Expr.resolve, bind_value, pure_value, Expr.thisRef.injEq] at hvalue
    obtain ⟨rfl, rfl⟩ := hvalue
    cases context with
    | none => cases hclean.1
    | plain | subclass => exact ⟨by simp, rfl⟩
  | lambda name f => cases name <;> cases hvalue
  | _ => cases hvalue

/-- The superclass is used inside of a subclass, and found as a name is. -/
theorem Made.super_slot {keyword : Span} {method : Ident} {slot : Option Nat}
    (h : Made context S (.expr (.superRef keyword method slot))) :
    context = .subclass ∧ slot = (S.find? superName).map Prod.fst := by
  obtain ⟨run, source, htidy, hvalue, hclean⟩ := h
  cases source with
  | superRef keyword₀ method₀ slot₀ =>
    simp only [Expr.resolve, bind_diagnostics, List.append_eq_nil_iff] at hclean
    simp only [Expr.resolve, bind_value, pure_value, Expr.superRef.injEq] at hvalue
    obtain ⟨rfl, rfl, rfl⟩ := hvalue
    cases context with
    | none | plain => cases hclean.1
    | subclass => exact ⟨rfl, rfl⟩
  | lambda name f => cases name <;> cases hvalue
  | _ => cases hvalue

/-- The class that a class extends is found around the declaration: a class does not extend its own
name. -/
theorem Made.superclass_pointsAt {name : Ident} {use : NameUse} {methods : List Method}
    (h : Made context (top :: S) (.stmt (.classDecl name (some use) methods))) :
    use.PointsAt (top :: S) := by
  obtain ⟨run, source, htidy, hvalue, hclean⟩ := h
  cases source with
  | classDecl name₀ superclass methods₀ =>
    cases superclass with
    | none => cases hvalue
    | some use₀ =>
      simp only [Stmt.resolve, bind_diagnostics, declare_scopes, checkSuperclass_scopes,
        List.append_eq_nil_iff] at hclean
      obtain ⟨-, hcheck, huse, -⟩ := hclean
      have hne : (use₀.ident.name == name₀.name) = false := by
        cases hname : use₀.ident.name == name₀.name with
        | false => rfl
        | true => simp [checkSuperclass, hname] at hcheck
      have hsame : ∀ use' : NameUse, use'.ident = use₀.ident →
          StaticScopes.find? (((name₀.name, false) :: top) :: S) use'.ident.name =
            StaticScopes.find? (top :: S) use'.ident.name := by
        intro use' huse'
        simp only [StaticScopes.find?, List.lookup, huse', hne]
      obtain ⟨depth, mutable, hfind, hdepth⟩ := NameUse.resolve_pointsAt huse
      simp only [Stmt.resolve, bind_value, declare_scopes, pure_value, checkSuperclass_scopes,
        Stmt.classDecl.injEq, Option.some.injEq] at hvalue
      obtain ⟨rfl, rfl, rfl⟩ := hvalue
      refine ⟨depth, mutable, ?_, hdepth⟩
      rw [← hsame _ (NameUse.resolve_ident _ use₀)]
      exact hfind
  | _ => cases hvalue

/-! ## Shape -/

theorem Expr.isNamed_of_resolve {e : Expr} (h : (e.resolve run context S).value.IsNamed) :
    e.IsNamed := by
  obtain ⟨name, f, hvalue⟩ := h
  cases e with
  | lambda name₀ f₀ =>
    cases name₀ with
    | none => cases hvalue
    | some name₀ => exact ⟨name₀, f₀, rfl⟩
  | _ => cases hvalue

/-- What is made of a shaped expression is shaped. -/
theorem Expr.shaped_resolve {e : Expr} (h : (Code.expr e).Shaped) :
    (Code.expr (e.resolve run context S).value).Shaped := by
  obtain ⟨hdeclared, huse⟩ := h
  refine ⟨?_, ?_⟩
  · rwa [Expr.declared_resolve]
  · intro use hmem
    cases e with
    | var use₀ =>
      obtain rfl : (use₀.resolve S).value = use := Option.some.inj hmem
      rw [NameUse.resolve_ident]
      exact huse use₀ rfl
    | assign use₀ value =>
      obtain rfl := Option.some.inj hmem
      rw [NameUse.resolveTarget_ident]
      exact huse use₀ rfl
    | lambda name f => cases name <;> cases hmem
    | _ => cases hmem

/-- What resolution makes of a tidy part is tidy. -/
theorem Made.tidy {c : Code} (h : Made context (top :: S) c) : c.Tidy := by
  cases c with
  | stmts body => exact ⟨trivial, trivial⟩
  | function f =>
    obtain ⟨run, ⟨keyword, _, params, body⟩, htidy, rfl, -⟩ := h
    exact ⟨htidy.here.1, trivial⟩
  | expr e =>
    obtain ⟨run, source, htidy, rfl, -⟩ := h
    refine ⟨Expr.shaped_resolve htidy.here.1, fun part hpart hnamed => ?_⟩
    have hsteady : ∀ part ∈ source.parts, SteadyExpr part := fun part hpart =>
      ⟨steady (htidy.child (.part hpart)), declared_of_placed htidy.here.2 hpart⟩
    rw [Expr.parts_resolve hsteady] at hpart
    obtain ⟨part₀, hpart₀, rfl⟩ := List.mem_map.mp hpart
    exact htidy.here.2 part₀ hpart₀ (Expr.isNamed_of_resolve hnamed)
  | stmt s =>
    obtain ⟨run, source, htidy, rfl, -⟩ := h
    refine ⟨⟨?_, ?_⟩, ?_⟩
    · rw [Stmt.declared_resolve]
      exact htidy.here.1.1
    · intro s' hs'
      rw [Stmt.inner_resolve htidy] at hs'
      obtain ⟨s₀, hs₀, rfl⟩ := List.mem_map.mp hs'
      rw [Stmt.declared_resolve]
      exact htidy.here.1.2 s₀ hs₀
    · intro e he hnamed
      have he' := he
      rw [Stmt.exprs_resolve htidy] at he'
      obtain ⟨e₀, he₀, rfl⟩ := List.mem_map.mp he'
      rcases htidy.here.2 e₀ he₀ (Expr.isNamed_of_resolve hnamed) with rfl | ⟨mutable, name, rfl⟩
      · exact .inl rfl
      · exact .inr ⟨mutable, name, rfl⟩

end Made

end Lox
