import Lox.Proofs.Resolution.Scopes

/-!
# What stands in a resolved part

Resolution fills slots and moves nothing: what stands in a part that resolution has gone over is
what resolution makes of something that stands in the part. So whatever holds of every part of a
program, and does not look at slots, holds of every part of the resolved program (`every_resolved`).
-/

namespace Lox

open Code Resolve

variable {run : Nat} {context : ClassContext} {S : StaticScopes}

/-- What resolution makes of a part. -/
def Code.resolved (run : Nat) (context : ClassContext) (S : StaticScopes) : Code → Code
  | .stmts body => .stmts (resolveStmts run context body S).value
  | .stmt s => .stmt (s.resolve run context S).value
  | .expr e => .expr (e.resolve run context S).value
  | .function f => .function (f.resolve run context S).value

/-- An expression is what resolution makes of one of some expressions. -/
def ResolvedFrom (run : Nat) (context : ClassContext) (e : Expr) (es : List Expr) : Prop :=
  ∃ source ∈ es, ∃ S, e = (source.resolve run context S).value

theorem ResolvedFrom.mono {e : Expr} {es es' : List Expr} (h : ResolvedFrom run context e es)
    (hsub : es ⊆ es') : ResolvedFrom run context e es' := by
  obtain ⟨source, hsource, S, rfl⟩ := h
  exact ⟨source, hsub hsource, S, rfl⟩

theorem resolvedFrom_resolve {source : Expr} {es : List Expr} (h : source ∈ es) :
    ResolvedFrom run context (source.resolve run context S).value es := ⟨source, h, S, rfl⟩

/-- Resolved expressions come from expressions. -/
theorem resolvedFrom_exprs {es : List Expr} {e : Expr}
    (h : e ∈ (resolveExprs run context es S).value) : ResolvedFrom run context e es := by
  induction es generalizing S with
  | nil => cases h
  | cons first rest ih =>
    rcases List.mem_cons.mp h with rfl | h
    · exact resolvedFrom_resolve List.mem_cons_self
    · exact (ih h).mono (List.subset_cons_self first rest)

theorem resolvedFrom_fields {fields : List Field} {f : Field}
    (h : f ∈ (resolveFields run context fields S).value) :
    ResolvedFrom run context f.value (fields.map Field.value) := by
  induction fields generalizing S with
  | nil => cases h
  | cons first rest ih =>
    obtain ⟨key, value⟩ := first
    rcases List.mem_cons.mp h with rfl | h
    · exact resolvedFrom_resolve List.mem_cons_self
    · exact (ih h).mono (List.subset_cons_self value _)

theorem resolvedFrom_expr? {e : Option Expr} {e' : Expr}
    (h : e' ∈ (resolveExpr? run context e S).value.toList) :
    ResolvedFrom run context e' e.toList := by
  cases e with
  | none => cases h
  | some e =>
    obtain rfl := List.mem_singleton.mp h
    exact resolvedFrom_resolve List.mem_cons_self

/-- Resolved parts come from parts. -/
theorem resolvedFrom_parts {e part : Expr} (h : part ∈ (e.resolve run context S).value.parts) :
    ResolvedFrom run context part e.parts := by
  cases e with
  | literal | var | thisRef | superRef => cases h
  | lambda name f => cases name <;> cases h
  | call callee arguments paren =>
    rcases List.mem_cons.mp h with rfl | h
    · exact resolvedFrom_resolve List.mem_cons_self
    · exact (resolvedFrom_exprs h).mono (List.subset_cons_self callee arguments)
  | object fields =>
    obtain ⟨f, hf, rfl⟩ := List.mem_map.mp h
    exact resolvedFrom_fields hf
  | list elements => exact resolvedFrom_exprs h
  | _ =>
    simp only [Expr.resolve, bind_value, pure_value, Expr.parts, List.mem_cons, List.not_mem_nil,
      or_false] at h
    rcases h with rfl | rfl | rfl <;> exact resolvedFrom_resolve (by simp [Expr.parts])

/-- Resolved expressions of a statement come from its expressions. -/
theorem resolvedFrom_stmt {s : Stmt} {e : Expr} (h : e ∈ (s.resolve run context S).value.exprs) :
    ResolvedFrom run context e s.exprs := by
  cases s with
  | block | brk | cont => cases h
  | classDecl name superclass methods => cases superclass <;> cases h
  | evaluate | print | branch =>
    obtain rfl := List.mem_singleton.mp h
    exact resolvedFrom_resolve List.mem_cons_self
  | declare | ret => exact resolvedFrom_expr? h
  | loop condition body closer =>
    rcases List.mem_append.mp h with h | h
    · exact (resolvedFrom_expr? h).mono (List.subset_append_left _ _)
    · exact (resolvedFrom_expr? h).mono (List.subset_append_right _ _)

/-- Resolved statements come from statements. -/
theorem exists_of_mem_stmts {body : List Stmt} {s : Stmt}
    (h : s ∈ (resolveStmts run context body S).value) :
    ∃ source ∈ body, ∃ S, s = (source.resolve run context S).value := by
  induction body generalizing S with
  | nil => cases h
  | cons first rest ih =>
    rcases List.mem_cons.mp h with rfl | h
    · exact ⟨first, List.mem_cons_self, S, rfl⟩
    · obtain ⟨source, hsource, S', rfl⟩ := ih h
      exact ⟨source, List.mem_cons_of_mem _ hsource, S', rfl⟩

theorem exists_of_mem_stmt? {s : Option Stmt} {s' : Stmt}
    (h : s' ∈ (resolveStmt? run context s S).value.toList) :
    ∃ source ∈ s.toList, ∃ S, s' = (source.resolve run context S).value := by
  cases s with
  | none => cases h
  | some s =>
    obtain rfl := List.mem_singleton.mp h
    exact ⟨s, List.mem_cons_self, S, rfl⟩

/-- Resolved inner statements come from inner ones. -/
theorem exists_of_mem_inner {s s' : Stmt} (h : s' ∈ (s.resolve run context S).value.inner) :
    ∃ source ∈ s.inner, ∃ S, s' = (source.resolve run context S).value := by
  cases s with
  | branch condition thenBranch elseBranch =>
    rcases List.mem_append.mp h with h | h
    · obtain ⟨source, hsource, S', rfl⟩ := exists_of_mem_stmt? h
      exact ⟨source, List.mem_append_left _ hsource, S', rfl⟩
    · obtain ⟨source, hsource, S', rfl⟩ := exists_of_mem_stmt? h
      exact ⟨source, List.mem_append_right _ hsource, S', rfl⟩
  | loop condition body closer =>
    obtain rfl := List.mem_singleton.mp h
    exact ⟨body, List.mem_cons_self, _, rfl⟩
  | classDecl name superclass methods => cases superclass <;> cases h
  | _ => cases h

/-- Resolved methods come from methods. -/
theorem exists_of_mem_methods {methods : List Method} {m : Ident} {f : Function}
    (h : .mk m f ∈ (resolveMethods run context methods S).value) :
    ∃ source, .mk m source ∈ methods ∧ ∃ S, f = (source.resolve run context S).value := by
  induction methods generalizing S with
  | nil => cases h
  | cons first rest ih =>
    obtain ⟨name, g⟩ := first
    rcases List.mem_cons.mp h with heq | h
    · obtain ⟨rfl, rfl⟩ := Method.mk.inj heq
      exact ⟨g, List.mem_cons_self, S, rfl⟩
    · obtain ⟨source, hsource, S', rfl⟩ := ih h
      exact ⟨source, List.mem_cons_of_mem _ hsource, S', rfl⟩

/-- What stands in a resolved part comes from something that stands in the part. -/
theorem child_resolved {c d : Code} (h : Child d (c.resolved run context S)) :
    ∃ source context' S', Child source c ∧ d = source.resolved run context' S' := by
  cases c with
  | stmts body =>
    cases h with
    | member hs =>
      obtain ⟨source, hsource, S', rfl⟩ := exists_of_mem_stmts hs
      exact ⟨.stmt source, context, S', .member hsource, rfl⟩
  | function f =>
    obtain ⟨keyword, origin, params, body⟩ := f
    cases h with
    | body =>
      exact ⟨.stmts body, context, parameterScope params :: S,
        @Child.body (.mk keyword origin params body), rfl⟩
  | expr e =>
    generalize hresolved : Code.resolved run context S (.expr e) = c at h
    cases h with
    | part hpart =>
      obtain rfl := Code.expr.inj hresolved
      obtain ⟨source, hsource, S', rfl⟩ := resolvedFrom_parts hpart
      exact ⟨.expr source, context, S', .part hsource, rfl⟩
    | literal =>
      have hlambda := Code.expr.inj hresolved
      cases e with
      | lambda name f =>
        cases name <;> obtain ⟨-, rfl⟩ :=
          Expr.lambda.inj hlambda <;> exact ⟨.function f, context, _, .literal, rfl⟩
      | _ => cases hlambda
    | _ => cases hresolved
  | stmt s =>
    generalize hresolved : Code.resolved run context S (.stmt s) = c at h
    cases h with
    | inner hs =>
      obtain rfl := Code.stmt.inj hresolved
      obtain ⟨source, hsource, S', rfl⟩ := exists_of_mem_inner hs
      exact ⟨.stmt source, context, S', .inner hsource, rfl⟩
    | expr he =>
      obtain rfl := Code.stmt.inj hresolved
      obtain ⟨source, hsource, S', rfl⟩ := resolvedFrom_stmt he
      exact ⟨.expr source, context, S', .expr hsource, rfl⟩
    | block =>
      have hblock := Code.stmt.inj hresolved
      cases s with
      | block body =>
        obtain rfl := Stmt.block.inj hblock
        exact ⟨.stmts body, context, [] :: S, .block, rfl⟩
      | classDecl name superclass methods => cases superclass <;> cases hblock
      | _ => cases hblock
    | method hm =>
      have hclass := Code.stmt.inj hresolved
      cases s with
      | classDecl name superclass methods =>
        cases superclass <;> obtain ⟨-, -, rfl⟩ := Stmt.classDecl.inj hclass <;>
          obtain ⟨source, hsource, S', rfl⟩ := exists_of_mem_methods hm
        · exact ⟨.function source, .plain, S', .method hsource, rfl⟩
        · exact ⟨.function source, .subclass, S', .method hsource, rfl⟩
      | _ => cases hclass
    | _ => cases hresolved

/-- What holds of every part of a program, whatever its slots, holds of every part of the resolved
program. -/
theorem every_resolved {p : Code → Prop}
    (hp : ∀ run context S c, p c → p (c.resolved run context S)) {c : Code} (h : Every p c) :
    Every p (c.resolved run context S) := by
  induction h generalizing context S with
  | intro hhere _ ih =>
    refine .intro (hp _ _ _ _ hhere) fun d hd => ?_
    obtain ⟨source, context', S', hsource, rfl⟩ := child_resolved hd
    exact ih source hsource

end Lox
