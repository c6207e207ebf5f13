import Lox.Proofs.Resolution.Acts

/-!
# Resolution is exact

What a look must come to is said by `Settled`, from the scopes at its moment alone: the slot of the
node gets the number of scopes above the innermost one that declares its name, or stays empty while
the node is reported once, at its own span. `resolve_exact` says that resolution of any program
against any root scope is just this, act by act, that it meets every node, and that it leaves the
root scope alone on the stack.
-/

namespace Lox

open Code Resolve

/-! ## What an act comes to -/

/-- The innermost scope that declares a name lies below so many others, and the latest declaration
in it says whether the name may be assigned to. -/
def StaticScopes.Declares (S : StaticScopes) (name : Text) (depth : Nat) (mutable : Bool) : Prop :=
  ∃ scope, S[depth]? = some scope ∧ scope.lookup name = some mutable ∧
    ∀ above ∈ S.take depth, above.lookup name = none

namespace Look

/-- The name that is looked up. -/
def name : Look → Text
  | read use | target use => use.ident.name
  | receiver _ _ _ => thisName
  | superclass _ _ _ => superName

/-- Where the node stands. -/
def site : Look → Span
  | read use | target use => use.ident.span
  | receiver _ keyword _ | superclass _ keyword _ => keyword

/-- The node with its slot filled. -/
def fill (depth : Nat) : Look → Look
  | read use => read { use with depth := some depth }
  | target use => target { use with depth := some depth }
  | receiver context keyword _ => receiver context keyword (some depth)
  | superclass context keyword _ => superclass context keyword (some depth)

/-- The node as a report leaves it: a name as it was, a keyword with an empty slot. -/
def leave : Look → Look
  | read use => read use
  | target use => target use
  | receiver context keyword _ => receiver context keyword none
  | superclass context keyword _ => superclass context keyword none

/-- What the place of a node asks besides a declaration. -/
def Permits : Look → Bool → Prop
  | read _, _ => True
  | target _, mutable => mutable = true
  | receiver context _ _, _ => context ≠ .none
  | superclass context _ _, _ => context = .subclass

/-- What is wrong with a node that cannot be resolved. -/
inductive Blames (S : StaticScopes) : Look → ResolveProblem → Prop
  | read {use : NameUse} : Blames S (.read use) (.undeclared use.ident.name)
  | target {use : NameUse} : (∀ depth mutable, ¬ S.Declares use.ident.name depth mutable) →
      Blames S (.target use) (.undeclared use.ident.name)
  | constant {use : NameUse} {depth : Nat} :
      S.Declares use.ident.name depth false → Blames S (.target use) (.constant use.ident.name)
  | receiver {keyword : Span} {slot : Option Nat} :
      Blames S (.receiver .none keyword slot) .thisOutsideMethod
  | superclass {keyword : Span} {slot : Option Nat} :
      Blames S (.superclass .none keyword slot) .superOutsideMethod
  | plain {keyword : Span} {slot : Option Nat} :
      Blames S (.superclass .plain keyword slot) .superWithoutSuperclass

end Look

/-- What a look comes to: the node afterwards, and the reports about it. -/
inductive Settled (S : StaticScopes) (look : Look) : Look → List Diagnostic → Prop
  | found {depth : Nat} {mutable : Bool} : S.Declares look.name depth mutable →
      look.Permits mutable → Settled S look (look.fill depth) []
  | refused {problem : ResolveProblem} :
      (∀ depth mutable, S.Declares look.name depth mutable → ¬ look.Permits mutable) →
      look.Blames S problem → Settled S look look.leave [⟨.resolve problem, look.site.blamed⟩]

/-- What an act comes to at its moment: the act in the tree that is left, and the reports about
it. -/
inductive Act.Settles : Act × StaticScopes → Act × List Diagnostic → Prop
  | opens {scope : StaticScope} {S : StaticScopes} : Settles (.opens scope, S) (.opens scope, [])
  | closes {S : StaticScopes} : Settles (.closes, S) (.closes, [])
  | declares {name : Text} {mutable : Bool} {S : StaticScopes} :
      Settles (.declares name mutable, S) (.declares name mutable, [])
  | looks {S : StaticScopes} {look look' : Look} {reports : List Diagnostic} :
      Settled S look look' reports → Settles (.looks look, S) (.looks look', reports)
  | itself {name superclass : Ident} {S : StaticScopes} : superclass.name = name.name →
      Settles (.inherits name superclass, S)
        (.inherits name superclass, [⟨.resolve .selfInheritance, superclass.span.blamed⟩])
  | another {name superclass : Ident} {S : StaticScopes} : superclass.name ≠ name.name →
      Settles (.inherits name superclass, S) (.inherits name superclass, [])

/-! ## Looking names up -/

theorem StaticScopes.declares_cons {scope : StaticScope} {S : StaticScopes} {name : Text}
    {depth : Nat} {mutable : Bool} (h : scope.lookup name = none) :
    StaticScopes.Declares (scope :: S) name (depth + 1) mutable ↔
      S.Declares name depth mutable := by
  unfold StaticScopes.Declares
  simp only [List.getElem?_cons_succ, List.take_succ_cons, List.forall_mem_cons, h, true_and]

/-- Search finds the innermost declaration. -/
theorem StaticScopes.find?_eq_some_iff {S : StaticScopes} {name : Text} {depth : Nat}
    {mutable : Bool} : S.find? name = some (depth, mutable) ↔ S.Declares name depth mutable := by
  induction S generalizing depth with
  | nil => simp [StaticScopes.find?, StaticScopes.Declares]
  | cons scope rest ih =>
    rw [StaticScopes.find?]
    cases hscope : scope.lookup name with
    | some mutable' =>
      cases depth with
      | zero => simp [StaticScopes.Declares, hscope]
      | succ depth =>
        refine ⟨nofun, fun ⟨_, _, _, habove⟩ => ?_⟩
        rw [habove scope (by simp)] at hscope
        cases hscope
    | none =>
      cases depth with
      | zero => simp [StaticScopes.Declares, hscope]
      | succ depth =>
        rw [declares_cons hscope, ← ih]
        simp [Prod.ext_iff]

/-- It finds none where there is none. -/
theorem StaticScopes.find?_eq_none_iff {S : StaticScopes} {name : Text} :
    S.find? name = none ↔ ∀ scope ∈ S, scope.lookup name = none := by
  induction S with
  | nil => simp [StaticScopes.find?]
  | cons scope rest ih =>
    rw [StaticScopes.find?, List.forall_mem_cons]
    cases hscope : scope.lookup name with
    | some mutable => simp
    | none => simp only [Option.map_eq_none_iff, ih, true_and]

theorem StaticScopes.not_declares_of_find? {S : StaticScopes} {name : Text}
    (h : S.find? name = none) (depth : Nat) (mutable : Bool) : ¬ S.Declares name depth mutable := by
  rw [← find?_eq_some_iff, h]
  exact nofun

theorem StaticScopes.Knows.exists_find? {S : StaticScopes} {name : Text} (h : S.Knows name) :
    ∃ depth mutable, S.find? name = some (depth, mutable) := by
  obtain ⟨scope, hscope, hsome⟩ := h
  cases hfind : S.find? name with
  | some found => exact ⟨found.1, found.2, rfl⟩
  | none =>
    rw [StaticScopes.find?_eq_none_iff.mp hfind scope hscope] at hsome
    cases hsome

/-! ## What is performed is settled -/

/-- A name is read where it is declared, or reported. -/
theorem settled_read (use : NameUse) (S : StaticScopes) :
    Settled S (.read use) (Look.perform (.read use) S).value
      (Look.perform (.read use) S).diagnostics := by
  simp only [Look.perform, NameUse.resolve, bind_value, bind_diagnostics, find?_value, find?_scopes,
    find?_diagnostics]
  rcases hfind : S.find? use.ident.name with _ | ⟨depth, mutable⟩
  · have hnone := StaticScopes.not_declares_of_find? hfind
    exact .refused (fun depth mutable h => absurd h (hnone depth mutable)) .read
  · exact .found (StaticScopes.find?_eq_some_iff.mp hfind) trivial

/-- A name is assigned to where it may be, or reported. -/
theorem settled_target (use : NameUse) (S : StaticScopes) :
    Settled S (.target use) (Look.perform (.target use) S).value
      (Look.perform (.target use) S).diagnostics := by
  simp only [Look.perform, NameUse.resolveTarget, bind_value, bind_diagnostics, find?_value,
    find?_scopes, find?_diagnostics]
  rcases hfind : S.find? use.ident.name with _ | ⟨depth, _ | _⟩
  · have hnone := StaticScopes.not_declares_of_find? hfind
    exact .refused (fun depth mutable h => absurd h (hnone depth mutable)) (.target hnone)
  · refine .refused (fun depth' mutable h hpermits => ?_)
      (.constant (StaticScopes.find?_eq_some_iff.mp hfind))
    have hagain := StaticScopes.find?_eq_some_iff.mpr h
    have hmutable : mutable = true := hpermits
    simp [Look.name, hfind, hmutable] at hagain
  · exact .found (StaticScopes.find?_eq_some_iff.mp hfind) rfl

/-- The receiver is used inside of a class, or reported. -/
theorem settled_receiver {context : ClassContext} {keyword : Span} {slot : Option Nat}
    {S : StaticScopes} (h : ∀ word ∈ context.bound, S.Knows word) :
    Settled S (.receiver context keyword slot)
      (Look.perform (.receiver context keyword slot) S).value
      (Look.perform (.receiver context keyword slot) S).diagnostics := by
  cases context with
  | none => exact .refused (fun _ _ _ hpermits => hpermits rfl) .receiver
  | plain | subclass =>
    obtain ⟨depth, mutable, hfind⟩ := (h thisName List.mem_cons_self).exists_find?
    simp only [Look.perform, resolveThis, bind_value, bind_diagnostics, find?_value, find?_scopes,
      find?_diagnostics, hfind]
    exact .found (StaticScopes.find?_eq_some_iff.mp hfind) fun hnone => by cases hnone

theorem settled_superclass {context : ClassContext} {keyword : Span} {slot : Option Nat}
    {S : StaticScopes} (h : ∀ word ∈ context.bound, S.Knows word) :
    Settled S (.superclass context keyword slot)
      (Look.perform (.superclass context keyword slot) S).value
      (Look.perform (.superclass context keyword slot) S).diagnostics := by
  cases context with
  | none => exact .refused (fun _ _ _ hpermits => nomatch hpermits) .superclass
  | plain => exact .refused (fun _ _ _ hpermits => nomatch hpermits) .plain
  | subclass =>
    obtain ⟨depth, mutable, hfind⟩ :=
      (h superName (List.mem_cons_of_mem _ List.mem_cons_self)).exists_find?
    simp only [Look.perform, resolveSuper, bind_value, bind_diagnostics, find?_value, find?_scopes,
      find?_diagnostics, hfind]
    exact .found (StaticScopes.find?_eq_some_iff.mp hfind) rfl

/-- Every act that fits is settled. -/
theorem settles_perform {act : Act} {S : StaticScopes} (h : Act.Fitting (act, S)) :
    Act.Settles (act, S) ((act.perform S).value, (act.perform S).diagnostics) := by
  have hlook : ∀ look : Look, ((Act.looks look).perform S).diagnostics =
      (look.perform S).diagnostics :=
    fun look => List.append_nil _
  cases act with
  | opens scope => exact .opens
  | closes => exact .closes
  | declares name mutable => cases S <;> exact .declares
  | looks look =>
    rw [hlook]
    cases look with
    | read use => exact .looks (settled_read use S)
    | target use => exact .looks (settled_target use S)
    | receiver context keyword slot => exact .looks (settled_receiver h)
    | superclass context keyword slot => exact .looks (settled_superclass h)
  | inherits name superclass =>
    by_cases hself : superclass.name = name.name
    · simpa [Act.perform, checkSuperclass, hself] using .itself hself
    · simpa [Act.perform, checkSuperclass, hself] using .another hself

/-- Acts that are performed one after another are settled one by one. -/
theorem settles_mapM {acts : List Act} {S : StaticScopes}
    (h : ∀ moment ∈ moments acts S, Act.Fitting moment) :
    ∃ answers : List (Act × List Diagnostic), List.Forall₂ Act.Settles (moments acts S) answers ∧
      (acts.mapM Act.perform S).value = answers.map Prod.fst ∧
      (acts.mapM Act.perform S).diagnostics = answers.flatMap Prod.snd := by
  induction acts generalizing S with
  | nil => exact ⟨[], .nil, rfl, rfl⟩
  | cons act rest ih =>
    obtain ⟨hact, hrest⟩ := List.forall_mem_cons.mp h
    obtain ⟨answers, hsettles, hvalue, hdiagnostics⟩ := ih hrest
    refine ⟨_, .cons (settles_perform hact) hsettles, ?_, ?_⟩
    · rw [List.mapM_cons, bind_value, bind_value, pure_value, scopes_perform, hvalue]
      rfl
    · rw [List.mapM_cons, bind_diagnostics, bind_diagnostics, pure_diagnostics, scopes_perform,
        hdiagnostics]
      simp

/-! ## The theorem -/

/-- Resolution of any program against any root scope ends with the root scope alone, meets every
node, and each thing it does comes to what it should at its moment: the acts of the tree that is
left and the reports are those that settle the acts of the program, in order. -/
theorem resolve_exact (run : Nat) (root : StaticScope) (program : List Stmt) :
    (resolveProgram run root program).scopes = [(declaresOf program).reverse ++ root] ∧
      Every (SeenIn (actsOf .none program)) (.stmts program) ∧
      ∃ answers : List (Act × List Diagnostic),
        List.Forall₂ Act.Settles (moments (actsOf .none program) [root]) answers ∧
        actsOf .none (resolveProgram run root program).value = answers.map Prod.fst ∧
        (resolveProgram run root program).diagnostics = answers.flatMap Prod.snd := by
  have hmodest : ∀ d ∈ deedsOf program, d.Modest :=
    fun d hd => modest_of_mem_deeds (c := .stmts program) hd
  refine ⟨scopes_resolveStmts_of_modest hmodest, every_seenIn fun _ hact => hact, ?_⟩
  have hfitting := ((sound_actsOf .none program) root [] nofun).2
  obtain ⟨answers, hsettles, hvalue, hdiagnostics⟩ := settles_mapM hfitting
  have hacts : actsOf .none <$> resolveStmts run .none program = _ :=
    acts_resolveStmts .none program
  rw [← hacts, map_value] at hvalue
  rw [← hacts, map_diagnostics] at hdiagnostics
  exact ⟨answers, hsettles, hvalue, hdiagnostics⟩

end Lox
