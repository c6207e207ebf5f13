import Lox.Proofs.Resolution.Guise

/-!
# Resolution of a tree with other marks

Resolution asks a scope only whether it declares a name and how. So a program that is moved to
another place, and is resolved for another run against scopes that say the same of every name, gets
the same slots: what comes out is the resolved program with other marks, and the same reports at
other places (`matches_resolveStmts`).
-/

namespace Lox

/-- Scopes that say the same of every name. -/
def StaticScope.Alike (scope scope' : StaticScope) : Prop :=
  ∀ name, scope.lookup name = scope'.lookup name

/-- Scopes that say the same of every name, one by one. -/
def StaticScopes.Alike : StaticScopes → StaticScopes → Prop := List.Forall₂ StaticScope.Alike

theorem StaticScope.Alike.refl (scope : StaticScope) : scope.Alike scope := fun _ => rfl

/-- The latest declaration counts, so scopes stay alike when both declare the same. -/
theorem StaticScope.Alike.append {scope scope' : StaticScope} (h : scope.Alike scope')
    (names : StaticScope) : StaticScope.Alike (names ++ scope) (names ++ scope') := by
  intro name
  rw [List.lookup_append, List.lookup_append, h name]

/-- Marks of a place, for a run. -/
def Marks.into (run : Nat) (place : Span → Span) : Marks :=
  ⟨place, fun _ keyword => (run, place keyword)⟩

/-- What comes of one way over a part, in scopes alike, is what comes of another, turned by a
function. The reports are the same at other places. -/
def Resolve.Matches {α β : Type} (place : Span → Span) (turn : α → β) (p : Resolve α)
    (q : Resolve β) : Prop :=
  ∀ S S' : StaticScopes, S.Alike S' → (q S').value = turn (p S).value ∧
    (p S).scopes.Alike (q S').scopes ∧
    List.Forall₂ (Diagnostic.Moved .resolve place) (p S).diagnostics (q S').diagnostics

theorem matches_resolveStmts (place : Span → Span) (run run' : Nat) (context : ClassContext)
    (ss : List Stmt) :
    Resolve.Matches place (markStmts (.into run' place)) (resolveStmts run context ss)
      (resolveStmts run' context (markStmts (.moving place) ss)) := by
  intro S S' hS
  have hscopes : S.AlikeIn (.ofMarks (.moving place)) S' := hS.imp fun _ _ h name => (h name).symm
  obtain ⟨hvalue, hscopes', hdiagnostics⟩ :=
    dresses_resolveStmts (Guise.lawful_ofMarks (.moving place))
      (fun _ _ => rfl : ∀ r keyword, (Marks.into run' place).literal run keyword = _) context ss
      S S' hscopes
  rw [markStmts_eq_dressStmts, markStmts_eq_dressStmts]
  exact ⟨hvalue, hscopes'.imp fun _ _ h name => (h name).symm,
    hdiagnostics.imp fun _ _ h => h.moved⟩

end Lox
