import Lox.Proofs.Resolution.Deeds

/-!
# The acts of resolution

Going over a program is a sequence of **acts**: scopes are opened and closed, names are declared,
and nodes are looked at. `actsOf` reads the acts of a program off its tree, and `moments` gives each
of them the scopes that are open when its turn comes. Neither fills a slot nor reports anything.

Resolution performs the acts of a program one after another (`acts_resolveStmts`), and each of them
leaves the scopes that the next moment has (`scopes_perform`). Acts that open a scope close it
again, and a look at a keyword is made where the words of its class are bound (`sound_actsOf`).
Every node of a program is looked at (`every_seenIn`).
-/

namespace Lox

open Code Resolve

/-! ## Acts -/

/-- A node whose slot is to be filled. A keyword is looked at with the class that it stands in. -/
inductive Look
  | read (use : NameUse)
  | target (use : NameUse)
  | receiver (context : ClassContext) (keyword : Span) (slot : Option Nat)
  | superclass (context : ClassContext) (keyword : Span) (slot : Option Nat)

/-- One thing that is done on the way over a program. -/
inductive Act
  | opens (scope : StaticScope)
  | closes
  | declares (name : Text) (mutable : Bool)
  | looks (look : Look)
  /-- A class statement names the class that it extends. -/
  | inherits (name superclass : Ident)

/-- The acts of a part that has a scope of its own. -/
def actsWithin (scope : StaticScope) (acts : List Act) : List Act :=
  .opens scope :: (acts ++ [.closes])

mutual

/-- The acts of an expression. The value of an assignment comes before its target. -/
def Expr.acts (context : ClassContext) : Expr → List Act
  | .literal _ => []
  | .grouping inner => inner.acts context
  | .unary _ _ operand => operand.acts context
  | .binary _ _ left right => left.acts context ++ right.acts context
  | .logical _ left right => left.acts context ++ right.acts context
  | .var use => [.looks (.read use)]
  | .assign use value => value.acts context ++ [.looks (.target use)]
  | .call callee arguments _ => callee.acts context ++ actsOfExprs context arguments
  | .lambda none f => f.acts context
  | .lambda (some name) f => .declares name.name false :: f.acts context
  | .get object _ => object.acts context
  | .getKey object _ key => object.acts context ++ key.acts context
  | .index object index _ => object.acts context ++ index.acts context
  | .set object _ value => value.acts context ++ object.acts context
  | .setKey object _ key value => value.acts context ++ (object.acts context ++ key.acts context)
  | .setIndex object index _ value =>
    value.acts context ++ (object.acts context ++ index.acts context)
  | .thisRef keyword slot => [.looks (.receiver context keyword slot)]
  | .superRef keyword _ slot => [.looks (.superclass context keyword slot)]
  | .object fields => actsOfFields context fields
  | .list elements => actsOfExprs context elements

/-- The acts of an expression that may be absent. -/
def actsOfExpr? (context : ClassContext) : Option Expr → List Act
  | none => []
  | some e => e.acts context

/-- The acts of expressions, in order. -/
def actsOfExprs (context : ClassContext) : List Expr → List Act
  | [] => []
  | e :: rest => e.acts context ++ actsOfExprs context rest

/-- The acts of the properties of an object, in order. -/
def actsOfFields (context : ClassContext) : List Field → List Act
  | [] => []
  | .mk _ value :: rest => value.acts context ++ actsOfFields context rest

/-- The acts of a function. -/
def Function.acts (context : ClassContext) : Function → List Act
  | .mk _ _ params body => actsWithin (parameterScope params) (actsOf context body)

/-- The acts of methods, in order. -/
def actsOfMethods (context : ClassContext) : List Method → List Act
  | [] => []
  | .mk _ f :: rest => f.acts context ++ actsOfMethods context rest

/-- The acts of a statement. -/
def Stmt.acts (context : ClassContext) : Stmt → List Act
  | .evaluate e => e.acts context
  | .print e => e.acts context
  | .declare mutable name init => actsOfExpr? context init ++ [.declares name.name mutable]
  | .block body => actsWithin [] (actsOf context body)
  | .branch condition thenBranch elseBranch =>
    condition.acts context ++ (actsOfStmt? context thenBranch ++ actsOfStmt? context elseBranch)
  | .loop condition body closer =>
    actsOfExpr? context condition ++ (body.acts context ++ actsOfExpr? context closer)
  | .ret _ value => actsOfExpr? context value
  | .brk _ => []
  | .cont _ => []
  | .classDecl name none methods =>
    .declares name.name false :: actsWithin [(thisName, false)] (actsOfMethods .plain methods)
  | .classDecl name (some superclass) methods =>
    .declares name.name false :: .inherits name superclass.ident :: .looks (.read superclass) ::
      actsWithin [(superName, false)]
      (actsWithin [(thisName, false)] (actsOfMethods .subclass methods))

/-- The acts of a statement that may be absent. -/
def actsOfStmt? (context : ClassContext) : Option Stmt → List Act
  | none => []
  | some s => s.acts context

/-- The acts of statements, in order. -/
def actsOf (context : ClassContext) : List Stmt → List Act
  | [] => []
  | s :: rest => s.acts context ++ actsOf context rest

end

/-- The scopes after an act. -/
def Act.next : Act → StaticScopes → StaticScopes
  | .opens scope, S => scope :: S
  | .closes, S => S.tail
  | .declares name mutable, S => ((name, mutable) :: S.headD []) :: S.tail
  | .looks _, S | .inherits _ _, S => S

/-- Each act with the scopes that are open when its turn comes. -/
def moments : List Act → StaticScopes → List (Act × StaticScopes)
  | [], _ => []
  | act :: rest, S => (act, S) :: moments rest (act.next S)

/-! ## What stands in a class finds what the class binds -/

/-- A scope of the stack declares a name. -/
def StaticScopes.Knows (S : StaticScopes) (name : Text) : Prop :=
  ∃ scope ∈ S, (scope.lookup name).isSome

/-- A word stays known where every scope has at least the names it had. -/
theorem StaticScopes.Knows.mono {S S' : StaticScopes} {name : Text} (h : S.Knows name)
    (hmono : ∀ scope ∈ S, ∃ names, names ++ scope ∈ S') : S'.Knows name := by
  obtain ⟨scope, hscope, hsome⟩ := h
  obtain ⟨names, hnames⟩ := hmono scope hscope
  refine ⟨_, hnames, ?_⟩
  rw [List.lookup_append]
  cases names.lookup name with
  | none => exact hsome
  | some _ => rfl

/-- A scope more hides no word. -/
theorem StaticScopes.Knows.under {S : StaticScopes} {name : Text} (h : S.Knows name)
    (scope : StaticScope) : StaticScopes.Knows (scope :: S) name :=
  h.mono fun _ hscope => ⟨[], List.mem_cons_of_mem _ hscope⟩

/-- More names hide no word. -/
theorem StaticScopes.Knows.names {top : StaticScope} {S : StaticScopes} {name : Text}
    (h : StaticScopes.Knows (top :: S) name) (names : StaticScope) :
    StaticScopes.Knows ((names ++ top) :: S) name :=
  h.mono fun scope hscope => by
    rcases List.mem_cons.mp hscope with rfl | hscope
    · exact ⟨names, List.mem_cons_self⟩
    · exact ⟨[], List.mem_cons_of_mem _ hscope⟩

/-- The words that the scopes around the methods of a class bind. -/
def ClassContext.bound : ClassContext → List Text
  | .none => []
  | .plain => [thisName]
  | .subclass => [thisName, superName]

/-- A look at a keyword is made where the words of its class are bound. -/
def Act.Fitting : Act × StaticScopes → Prop
  | (.looks (.receiver context _ _), S) | (.looks (.superclass context _ _), S) =>
    ∀ word ∈ context.bound, S.Knows word
  | _ => True

/-- The scopes after acts. -/
def afterActs (acts : List Act) (S : StaticScopes) : StaticScopes :=
  acts.foldl (fun S act => act.next S) S

/-- The moments of acts one after another. -/
theorem moments_append (acts acts' : List Act) (S : StaticScopes) :
    moments (acts ++ acts') S = moments acts S ++ moments acts' (afterActs acts S) := by
  induction acts generalizing S with
  | nil => rfl
  | cons act rest ih =>
    rw [List.cons_append, moments, ih, moments, List.cons_append]
    rfl

/-- From scopes that bind some words, acts lead back to these scopes with more names in the
innermost one, and each look on the way is made where it fits. -/
def Sound (words : List Text) (acts : List Act) : Prop :=
  ∀ top S, (∀ word ∈ words, StaticScopes.Knows (top :: S) word) →
    (∃ names, afterActs acts (top :: S) = (names ++ top) :: S) ∧
    ∀ moment ∈ moments acts (top :: S), Act.Fitting moment

section Soundness

variable {words : List Text} {acts acts' : List Act}

theorem sound_nil : Sound words [] := fun _ _ _ => ⟨⟨[], rfl⟩, nofun⟩

/-- Sound acts one after another are sound. -/
theorem Sound.append (h : Sound words acts) (h' : Sound words acts') :
    Sound words (acts ++ acts') := by
  intro top S hbound
  obtain ⟨⟨names, hnames⟩, hmoments⟩ := h top S hbound
  obtain ⟨⟨names', hnames'⟩, hmoments'⟩ :=
    h' (names ++ top) S fun word hword => (hbound word hword).names names
  constructor
  · refine ⟨names' ++ names, ?_⟩
    rw [List.append_assoc, ← hnames', ← hnames, afterActs, List.foldl_append]
    rfl
  · intro moment hmoment
    rw [moments_append, hnames] at hmoment
    rcases List.mem_append.mp hmoment with hmoment | hmoment
    · exact hmoments moment hmoment
    · exact hmoments' moment hmoment

/-- A declaration only adds a name. -/
theorem sound_declares (name : Text) (mutable : Bool) : Sound words [.declares name mutable] :=
  fun _ _ _ => ⟨⟨[(name, mutable)], rfl⟩, fun _ hmoment => List.mem_singleton.mp hmoment ▸ trivial⟩

/-- What a class extends leaves the scopes alone. -/
theorem sound_inherits (name superclass : Ident) : Sound words [.inherits name superclass] :=
  fun _ _ _ => ⟨⟨[], rfl⟩, fun _ hmoment => List.mem_singleton.mp hmoment ▸ trivial⟩

/-- A look is sound if it fits wherever the words are known. -/
theorem sound_looks {look : Look}
    (h : ∀ S, (∀ word ∈ words, S.Knows word) → Act.Fitting (.looks look, S)) :
    Sound words [.looks look] :=
  fun _ _ hbound => ⟨⟨[], rfl⟩, fun _ hmoment => List.mem_singleton.mp hmoment ▸ h _ hbound⟩

/-- A scope of its own may bind what the acts in it need. -/
theorem Sound.within {words' : List Text} {scope : StaticScope} (h : Sound words' acts)
    (hwords : ∀ word ∈ words', word ∈ words ∨ (scope.lookup word).isSome) :
    Sound words (actsWithin scope acts) := by
  intro top S hbound
  have hinner : ∀ word ∈ words', StaticScopes.Knows (scope :: top :: S) word := by
    intro word hword
    rcases hwords word hword with hword | hsome
    · exact (hbound word hword).under scope
    · exact ⟨scope, List.mem_cons_self, hsome⟩
  obtain ⟨⟨names, hnames⟩, hmoments⟩ := h scope (top :: S) hinner
  constructor
  · refine ⟨[], ?_⟩
    rw [actsWithin, afterActs, List.foldl_cons, List.foldl_append]
    show (afterActs acts (scope :: top :: S)).tail = _
    rw [hnames]
    rfl
  · intro moment hmoment
    rcases List.mem_cons.mp hmoment with rfl | hmoment
    · trivial
    · rw [moments_append] at hmoment
      rcases List.mem_append.mp hmoment with hmoment | hmoment
      · exact hmoments moment hmoment
      · exact List.mem_singleton.mp hmoment ▸ trivial

end Soundness

mutual

/-- The acts of an expression are sound, by recursion on it. -/
theorem Expr.sound_acts (context : ClassContext) : (e : Expr) → Sound context.bound (e.acts context)
  | .literal _ => sound_nil
  | .grouping e | .unary _ _ e | .get e _ => e.sound_acts context
  | .binary _ _ a b | .logical _ a b | .getKey a _ b | .index a b _ =>
    (a.sound_acts context).append (b.sound_acts context)
  | .set a _ b => (b.sound_acts context).append (a.sound_acts context)
  | .setKey a _ b c | .setIndex a b _ c =>
    (c.sound_acts context).append ((a.sound_acts context).append (b.sound_acts context))
  | .var _ => sound_looks fun _ _ => trivial
  | .assign _ e => (e.sound_acts context).append (sound_looks fun _ _ => trivial)
  | .call e es _ => (e.sound_acts context).append (sound_actsOfExprs context es)
  | .lambda none f => f.sound_acts context
  | .lambda (some name) f => (sound_declares name.name false).append (f.sound_acts context)
  | .thisRef _ _ | .superRef _ _ _ => sound_looks fun _ hbound => hbound
  | .object fields => sound_actsOfFields context fields
  | .list es => sound_actsOfExprs context es

theorem sound_actsOfExpr? (context : ClassContext) :
    (e : Option Expr) → Sound context.bound (actsOfExpr? context e)
  | none => sound_nil
  | some e => e.sound_acts context

theorem sound_actsOfExprs (context : ClassContext) :
    (es : List Expr) → Sound context.bound (actsOfExprs context es)
  | [] => sound_nil
  | e :: rest => (e.sound_acts context).append (sound_actsOfExprs context rest)

theorem sound_actsOfFields (context : ClassContext) :
    (fs : List Field) → Sound context.bound (actsOfFields context fs)
  | [] => sound_nil
  | .mk _ e :: rest => (e.sound_acts context).append (sound_actsOfFields context rest)

/-- A function opens a scope for its parameters and its body. -/
theorem Function.sound_acts (context : ClassContext) :
    (f : Function) → Sound context.bound (f.acts context)
  | .mk _ _ _ body => (sound_actsOf context body).within fun _ hword => .inl hword

/-- Methods are functions of the class that they stand in. -/
theorem sound_actsOfMethods (context : ClassContext) :
    (ms : List Method) → Sound context.bound (actsOfMethods context ms)
  | [] => sound_nil
  | .mk _ f :: rest => (f.sound_acts context).append (sound_actsOfMethods context rest)

/-- The acts of a statement are sound. A class opens scopes that bind its words. -/
theorem Stmt.sound_acts (context : ClassContext) : (s : Stmt) → Sound context.bound (s.acts context)
  | .evaluate e | .print e => e.sound_acts context
  | .declare mutable name init =>
    (sound_actsOfExpr? context init).append (sound_declares name.name mutable)
  | .block body => (sound_actsOf context body).within fun _ hword => .inl hword
  | .branch e s s' =>
    (e.sound_acts context).append
      ((sound_actsOfStmt? context s).append (sound_actsOfStmt? context s'))
  | .loop e s e' =>
    (sound_actsOfExpr? context e).append
      ((s.sound_acts context).append (sound_actsOfExpr? context e'))
  | .ret _ e => sound_actsOfExpr? context e
  | .brk _ | .cont _ => sound_nil
  | .classDecl name none methods =>
    (sound_declares name.name false).append
      ((sound_actsOfMethods .plain methods).within (by simp [ClassContext.bound]))
  | .classDecl name (some use) methods => by
    have hmethods :
        Sound [superName] (actsWithin [(thisName, false)] (actsOfMethods .subclass methods)) :=
      (sound_actsOfMethods .subclass methods).within (by simp [ClassContext.bound])
    have hread : Sound context.bound [.looks (.read use)] := sound_looks fun _ _ => trivial
    exact (sound_declares name.name false).append ((sound_inherits name use.ident).append
      (hread.append (hmethods.within (by simp))))

theorem sound_actsOfStmt? (context : ClassContext) :
    (s : Option Stmt) → Sound context.bound (actsOfStmt? context s)
  | none => sound_nil
  | some s => s.sound_acts context

/-- The acts of a program are sound. -/
theorem sound_actsOf (context : ClassContext) :
    (body : List Stmt) → Sound context.bound (actsOf context body)
  | [] => sound_nil
  | s :: rest => (s.sound_acts context).append (sound_actsOf context rest)

end

/-! ## Resolution performs the acts -/

/-- What resolution does for a look. -/
def Look.perform : Look → Resolve Look
  | .read use => do return .read (← use.resolve)
  | .target use => do return .target (← use.resolveTarget)
  | .receiver context keyword _ =>
    do return .receiver context keyword (← resolveThis context keyword)
  | .superclass context keyword _ =>
    do return .superclass context keyword (← resolveSuper context keyword)

/-- What resolution does for an act. -/
def Act.perform : Act → Resolve Act
  | .opens scope => fun S => ⟨.opens scope, scope :: S, []⟩
  | .closes => fun S => ⟨.closes, S.tail, []⟩
  | .declares name mutable => do
    declare name mutable
    return .declares name mutable
  | .looks look => do return .looks (← look.perform)
  | .inherits name superclass => do
    checkSuperclass name ⟨superclass, none⟩
    return .inherits name superclass

section Performing

variable {α β : Type} {run : Nat}

/-- Resolvers are equal if they give, leave and report the same. -/
theorem Resolve.ext {p q : Resolve α} (hvalue : ∀ S, (p S).value = (q S).value)
    (hscopes : ∀ S, (p S).scopes = (q S).scopes)
    (hdiagnostics : ∀ S, (p S).diagnostics = (q S).diagnostics) : p = q := by
  funext S
  have hvalue := hvalue S
  have hscopes := hscopes S
  have hdiagnostics := hdiagnostics S
  generalize p S = r at *
  generalize q S = r' at *
  cases r
  cases r'
  simp_all

/-- What is made of a value inside of a scope can be made of it outside. -/
theorem map_within (g : α → β) (scope : StaticScope) (p : Resolve α) :
    g <$> within scope p = within scope (g <$> p) :=
  Resolve.ext (fun _ => rfl) (fun _ => rfl) fun _ => by
    rw [map_diagnostics, within_diagnostics, within_diagnostics, map_diagnostics]

/-- A part that is gone over in a scope of its own. -/
theorem within_acts {p : Resolve (List Act)} {acts : List Act} (scope : StaticScope)
    (h : p = acts.mapM Act.perform) :
    within scope (actsWithin scope <$> p) = (actsWithin scope acts).mapM Act.perform := by
  subst h
  rw [actsWithin, List.mapM_cons, List.mapM_append]
  refine Resolve.ext (fun _ => rfl) (fun _ => rfl) fun S => ?_
  show (acts.mapM Act.perform (scope :: S)).diagnostics ++ [] =
    (acts.mapM Act.perform (scope :: S)).diagnostics ++ [] ++ []
  rw [List.append_nil, List.append_nil]

/-- The use of a superclass keeps its name when it is filled. -/
theorem bind_resolve_ident (use : NameUse) (k : NameUse → Ident → Resolve α) :
    (use.resolve >>= fun use' => k use' use'.ident) = use.resolve >>= fun use' =>
      k use' use.ident :=
  Resolve.ext (fun S => by rw [bind_value, bind_value, NameUse.resolve_ident])
    (fun S => by rw [bind_scopes, bind_scopes, NameUse.resolve_ident])
    fun S => by rw [bind_diagnostics, bind_diagnostics, NameUse.resolve_ident]

mutual

/-- Resolution performs the acts of an expression. -/
theorem Expr.acts_resolve (context : ClassContext) : (e : Expr) →
    Expr.acts context <$> e.resolve run context = (e.acts context).mapM Act.perform
  | .literal _ => rfl
  | .var _ | .thisRef _ _ | .superRef _ _ _ => by
    simp [Expr.acts, Expr.resolve, Act.perform, Look.perform]
  | .grouping e | .unary _ _ e | .get e _ => by
    rw [Expr.acts, ← e.acts_resolve context]
    simp [Expr.resolve, Expr.acts]
  | .assign _ e => by
    rw [Expr.acts, List.mapM_append, ← e.acts_resolve context]
    simp [Expr.resolve, Expr.acts, Act.perform, Look.perform]
  | .binary _ _ a b | .logical _ a b | .getKey a _ b | .index a b _ => by
    rw [Expr.acts, List.mapM_append, ← a.acts_resolve context, ← b.acts_resolve context]
    simp [Expr.resolve, Expr.acts]
  | .set a _ b => by
    rw [Expr.acts, List.mapM_append, ← a.acts_resolve context, ← b.acts_resolve context]
    simp [Expr.resolve, Expr.acts]
  | .setKey a _ b c | .setIndex a b _ c => by
    rw [Expr.acts, List.mapM_append, List.mapM_append, ← a.acts_resolve context,
      ← b.acts_resolve context, ← c.acts_resolve context]
    simp [Expr.resolve, Expr.acts]
  | .call e es _ => by
    rw [Expr.acts, List.mapM_append, ← e.acts_resolve context, ← acts_resolveExprs context es]
    simp [Expr.resolve, Expr.acts]
  | .lambda none f => by
    rw [Expr.acts, ← f.acts_resolve context]
    simp [Expr.resolve, Expr.acts]
  | .lambda (some name) f => by
    rw [Expr.acts, List.mapM_cons, ← f.acts_resolve context]
    simp [Expr.resolve, Expr.acts, Act.perform]
  | .object fields => by
    rw [Expr.acts, ← acts_resolveFields context fields]
    simp [Expr.resolve, Expr.acts]
  | .list es => by
    rw [Expr.acts, ← acts_resolveExprs context es]
    simp [Expr.resolve, Expr.acts]

theorem acts_resolveExpr? (context : ClassContext) : (e : Option Expr) →
    actsOfExpr? context <$> resolveExpr? run context e = (actsOfExpr? context e).mapM Act.perform
  | none => rfl
  | some e => by
    rw [actsOfExpr?, ← e.acts_resolve context]
    simp [resolveExpr?, actsOfExpr?]

theorem acts_resolveExprs (context : ClassContext) : (es : List Expr) →
    actsOfExprs context <$> resolveExprs run context es = (actsOfExprs context es).mapM Act.perform
  | [] => rfl
  | e :: rest => by
    rw [actsOfExprs, List.mapM_append, ← e.acts_resolve context, ← acts_resolveExprs context rest]
    simp [resolveExprs, actsOfExprs]

theorem acts_resolveFields (context : ClassContext) :
    (fs : List Field) →
    actsOfFields context <$> resolveFields run context fs =
      (actsOfFields context fs).mapM Act.perform
  | [] => rfl
  | .mk _ e :: rest => by
    rw [actsOfFields, List.mapM_append, ← e.acts_resolve context, ← acts_resolveFields context rest]
    simp [resolveFields, actsOfFields]

/-- Resolution performs the acts of a function inside of its scope. -/
theorem Function.acts_resolve (context : ClassContext) : (f : Function) →
    Function.acts context <$> f.resolve run context = (f.acts context).mapM Act.perform
  | .mk _ _ params body => by
    rw [Function.acts, ← within_acts (parameterScope params) (acts_resolveStmts context body),
      Function.resolve, map_within]
    simp [Function.acts]

/-- Resolution performs the acts of methods one after another. -/
theorem acts_resolveMethods (context : ClassContext) :
    (ms : List Method) →
    actsOfMethods context <$> resolveMethods run context ms =
      (actsOfMethods context ms).mapM Act.perform
  | [] => rfl
  | .mk _ f :: rest => by
    rw [actsOfMethods, List.mapM_append, ← f.acts_resolve context,
      ← acts_resolveMethods context rest]
    simp [resolveMethods, actsOfMethods]

/-- Resolution performs the acts of a statement. -/
theorem Stmt.acts_resolve (context : ClassContext) : (s : Stmt) →
    Stmt.acts context <$> s.resolve run context = (s.acts context).mapM Act.perform
  | .evaluate e | .print e => by
    rw [Stmt.acts, ← e.acts_resolve context]
    simp [Stmt.resolve, Stmt.acts]
  | .declare _ _ init => by
    rw [Stmt.acts, List.mapM_append, ← acts_resolveExpr? context init]
    simp [Stmt.resolve, Stmt.acts, Act.perform]
  | .block body => by
    rw [Stmt.acts, ← within_acts [] (acts_resolveStmts context body), Stmt.resolve, bind_pure_comp,
      Functor.map_map, map_within, Functor.map_map]
    simp [Stmt.acts]
  | .branch e s s' => by
    rw [Stmt.acts, List.mapM_append, List.mapM_append, ← e.acts_resolve context,
      ← acts_resolveStmt? context s, ← acts_resolveStmt? context s']
    simp [Stmt.resolve, Stmt.acts]
  | .loop e s e' => by
    rw [Stmt.acts, List.mapM_append, List.mapM_append, ← acts_resolveExpr? context e,
      ← s.acts_resolve context, ← acts_resolveExpr? context e']
    simp [Stmt.resolve, Stmt.acts]
  | .ret _ e => by
    rw [Stmt.acts, ← acts_resolveExpr? context e]
    simp [Stmt.resolve, Stmt.acts]
  | .brk _ | .cont _ => rfl
  | .classDecl name none methods => by
    have hmethods := within_acts [(thisName, false)] (acts_resolveMethods .plain methods)
    rw [Stmt.acts, List.mapM_cons, ← hmethods, Functor.map_map, ← map_within]
    simp [Stmt.resolve, Stmt.acts, Act.perform]
  | .classDecl name (some use) methods => by
    have hmethods := within_acts [(superName, false)]
      (within_acts [(thisName, false)] (acts_resolveMethods .subclass methods))
    have hident := bind_resolve_ident use fun use' ident =>
      (fun ms => Act.declares name.name false :: .inherits name ident :: .looks (.read use') ::
        actsWithin [(superName, false)]
        (actsWithin [(thisName, false)] (actsOfMethods .subclass ms))) <$>
      within [(superName, false)]
        (within [(thisName, false)] (resolveMethods run .subclass methods))
    have hcheck : checkSuperclass name ⟨use.ident, none⟩ = checkSuperclass name use := rfl
    rw [Stmt.acts, List.mapM_cons, List.mapM_cons, List.mapM_cons, ← hmethods]
    simp [Stmt.resolve, Stmt.acts, Act.perform, Look.perform, hident, hcheck, ← map_within]

theorem acts_resolveStmt? (context : ClassContext) : (s : Option Stmt) →
    actsOfStmt? context <$> resolveStmt? run context s = (actsOfStmt? context s).mapM Act.perform
  | none => rfl
  | some s => by
    rw [actsOfStmt?, ← s.acts_resolve context]
    simp [resolveStmt?, actsOfStmt?]

/-- Resolution performs the acts of a program one after another. -/
theorem acts_resolveStmts (context : ClassContext) : (body : List Stmt) →
    actsOf context <$> resolveStmts run context body = (actsOf context body).mapM Act.perform
  | [] => rfl
  | s :: rest => by
    rw [actsOf, List.mapM_append, ← s.acts_resolve context, ← acts_resolveStmts context rest]
    simp [resolveStmts, actsOf]

end

end Performing

/-- An act leaves the scopes that the next moment has. -/
theorem scopes_perform (act : Act) (S : StaticScopes) : (act.perform S).scopes = act.next S := by
  cases act with
  | opens scope | closes => rfl
  | declares name mutable => cases S <;> rfl
  | inherits name superclass => exact checkSuperclass_scopes S name _
  | looks look => cases look <;> simp [Act.perform, Look.perform, Act.next]

/-! ## Every node is looked at -/

/-- The node of a part is among the looks, and the superclass of a class statement is. -/
def Code.SeenIn (acts : List Act) : Code → Prop
  | .expr (.var use) => .looks (.read use) ∈ acts
  | .expr (.assign use _) => .looks (.target use) ∈ acts
  | .expr (.thisRef keyword slot) => ∃ context, .looks (.receiver context keyword slot) ∈ acts
  | .expr (.superRef keyword _ slot) => ∃ context, .looks (.superclass context keyword slot) ∈ acts
  | .stmt (.classDecl name (some use) _) =>
    .inherits name use.ident ∈ acts ∧ .looks (.read use) ∈ acts
  | _ => True

/-- The acts of a part. -/
def Code.acts (context : ClassContext) : Code → List Act
  | .stmts body => actsOf context body
  | .stmt s => s.acts context
  | .expr e => e.acts context
  | .function f => f.acts context

section Seen

variable {context : ClassContext} {act : Act}

/-- What is done inside of a scope is done. -/
theorem mem_actsWithin {scope : StaticScope} {acts : List Act} (h : act ∈ acts) :
    act ∈ actsWithin scope acts :=
  List.mem_cons_of_mem _ (List.mem_append_left _ h)

/-- The acts of expressions are those of each. -/
theorem mem_actsOfExprs {es : List Expr} :
    act ∈ actsOfExprs context es ↔ ∃ e ∈ es, act ∈ e.acts context := by
  induction es with
  | nil => simp [actsOfExprs]
  | cons e rest ih => simp [actsOfExprs, ih]

theorem mem_actsOfFields {fields : List Field} :
    act ∈ actsOfFields context fields ↔ ∃ f ∈ fields, act ∈ f.value.acts context := by
  induction fields with
  | nil => simp [actsOfFields]
  | cons f rest ih =>
    obtain ⟨key, value⟩ := f
    simp [actsOfFields, ih, Field.value]

/-- The acts of methods include those of each. -/
theorem mem_actsOfMethods {methods : List Method} {m : Ident} {f : Function}
    (hm : .mk m f ∈ methods) (h : act ∈ f.acts context) : act ∈ actsOfMethods context methods := by
  induction methods with
  | nil => cases hm
  | cons method rest ih =>
    obtain ⟨m', f'⟩ := method
    rcases List.mem_cons.mp hm with heq | hm
    · cases heq
      exact List.mem_append_left _ h
    · exact List.mem_append_right _ (ih hm)

/-- The acts of statements are those of each. -/
theorem mem_actsOf {body : List Stmt} :
    act ∈ actsOf context body ↔ ∃ s ∈ body, act ∈ s.acts context := by
  induction body with
  | nil => simp [actsOf]
  | cons s rest ih => simp [actsOf, ih]

/-- The acts of a part are acts of the expression. -/
theorem mem_acts_of_parts {e part : Expr} (hpart : part ∈ e.parts) (h : act ∈ part.acts context) :
    act ∈ e.acts context := by
  cases e with
  | literal | var | lambda | thisRef | superRef => cases hpart
  | call callee arguments _ =>
    rcases List.mem_cons.mp hpart with rfl | hpart
    · exact List.mem_append_left _ h
    · exact List.mem_append_right _ (mem_actsOfExprs.mpr ⟨part, hpart, h⟩)
  | object fields =>
    obtain ⟨f, hf, rfl⟩ := List.mem_map.mp hpart
    exact mem_actsOfFields.mpr ⟨f, hf, h⟩
  | list elements => exact mem_actsOfExprs.mpr ⟨part, hpart, h⟩
  | _ =>
    simp only [Expr.parts, List.mem_cons, List.not_mem_nil, or_false] at hpart
    simp only [Expr.acts, List.mem_append]
    grind

/-- The acts of an expression are acts of the statement that it stands in. -/
theorem mem_acts_of_exprs {s : Stmt} {e : Expr} (he : e ∈ s.exprs) (h : act ∈ e.acts context) :
    act ∈ s.acts context := by
  cases s with
  | block | brk | cont | classDecl => cases he
  | evaluate e' | print e' =>
    obtain rfl := List.mem_singleton.mp he
    exact h
  | declare mutable name init =>
    obtain rfl := Option.mem_toList.mp he
    exact List.mem_append_left _ h
  | branch condition thenBranch elseBranch =>
    obtain rfl := List.mem_singleton.mp he
    exact List.mem_append_left _ h
  | loop condition body closer =>
    rcases List.mem_append.mp he with he | he
    · obtain rfl := Option.mem_toList.mp he
      exact List.mem_append_left _ h
    · obtain rfl := Option.mem_toList.mp he
      exact List.mem_append_right _ (List.mem_append_right _ h)
  | ret keyword value =>
    obtain rfl := Option.mem_toList.mp he
    exact h

/-- The acts of a statement are acts of the one around it. -/
theorem mem_acts_of_inner {s s' : Stmt} (hs : s' ∈ s.inner) (h : act ∈ s'.acts context) :
    act ∈ s.acts context := by
  cases s with
  | branch condition thenBranch elseBranch =>
    rcases List.mem_append.mp hs with hs | hs
    · obtain rfl := Option.mem_toList.mp hs
      exact List.mem_append_right _ (List.mem_append_left _ h)
    · obtain rfl := Option.mem_toList.mp hs
      exact List.mem_append_right _ (List.mem_append_right _ h)
  | loop condition body closer =>
    obtain rfl := List.mem_singleton.mp hs
    exact List.mem_append_right _ (List.mem_append_left _ h)
  | _ => cases hs

/-- What is done in a part is done in what the part stands in. -/
theorem exists_subset_acts {c d : Code} (h : Child d c) (context : ClassContext) :
    ∃ context', d.acts context' ⊆ c.acts context := by
  cases h with
  | member hs => exact ⟨context, fun act hact => mem_actsOf.mpr ⟨_, hs, hact⟩⟩
  | block => exact ⟨context, fun act hact => mem_actsWithin hact⟩
  | inner hs => exact ⟨context, fun act hact => mem_acts_of_inner hs hact⟩
  | @method name m superclass methods f hm =>
    cases superclass with
    | none =>
      exact ⟨.plain, fun act hact =>
        List.mem_cons_of_mem _ (mem_actsWithin (mem_actsOfMethods hm hact))⟩
    | some use =>
      refine ⟨.subclass, fun act hact => ?_⟩
      refine List.mem_cons_of_mem _ (List.mem_cons_of_mem _ (List.mem_cons_of_mem _ ?_))
      exact mem_actsWithin (mem_actsWithin (mem_actsOfMethods hm hact))
  | expr he => exact ⟨context, fun act hact => mem_acts_of_exprs he hact⟩
  | part he => exact ⟨context, fun act hact => mem_acts_of_parts he hact⟩
  | @literal name f =>
    cases name with
    | none => exact ⟨context, fun act hact => hact⟩
    | some name => exact ⟨context, fun act hact => List.mem_cons_of_mem _ hact⟩
  | @body f =>
    obtain ⟨keyword, run, params, body⟩ := f
    exact ⟨context, fun act hact => mem_actsWithin hact⟩

/-- A node is looked at by its own acts. -/
theorem seenIn_acts {all : List Act} {c : Code} (h : c.acts context ⊆ all) : c.SeenIn all := by
  cases c with
  | stmts | function => trivial
  | expr e =>
    cases e with
    | var use => exact h List.mem_cons_self
    | assign use value => exact h (List.mem_append_right _ List.mem_cons_self)
    | thisRef keyword slot => exact ⟨context, h List.mem_cons_self⟩
    | superRef keyword method slot => exact ⟨context, h List.mem_cons_self⟩
    | _ => trivial
  | stmt s =>
    cases s with
    | classDecl name superclass methods =>
      cases superclass with
      | none => trivial
      | some use =>
        exact ⟨h (List.mem_cons_of_mem _ List.mem_cons_self),
          h (List.mem_cons_of_mem _ (List.mem_cons_of_mem _ List.mem_cons_self))⟩
    | _ => trivial

/-- Every node of a part is met on the way over it. -/
theorem every_seenIn {all : List Act} {c : Code} (h : c.acts context ⊆ all) :
    Every (SeenIn all) c := by
  induction c using Code.byChildren generalizing context with
  | intro c ih =>
    refine .intro (seenIn_acts h) fun d hd => ?_
    obtain ⟨context', hsubset⟩ := exists_subset_acts hd context
    exact ih d hd fun act hact => h (hsubset hact)

end Seen

end Lox
