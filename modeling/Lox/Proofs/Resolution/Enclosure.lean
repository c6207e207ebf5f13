import Lox.Proofs.Resolution.Deeds
import Lox.Proofs.Resolution.Walk

/-!
# What encloses a part of a program

The scopes around a part are opened by something in the program, and what opens a scope says which
names can be declared in it: those of the deeds that stand directly in a block or a body, the
parameters, the words `this` and `super`. The scopes that the resolver sees stay **under** these
names, whatever has been declared when it gets to a part (`Visit.arises`). So its answers are
answers about the program: a name that it lets be assigned to is declared mutable in the scope it
points at, and a use of the superclass points at the class that the method around it stands in.

Nothing is asked here of where function literals stand.
-/

namespace Lox

open Code Resolve

/-! ## Openers -/

/-- What opens the scopes around a part, the innermost first. -/
def openersOf (frames : List Frame) : List Opener := frames.map Frame.opener

@[simp] theorem openersOf_cons (frame : Frame) (frames : List Frame) :
    openersOf (frame :: frames) = frame.opener :: openersOf frames := rfl

@[simp] theorem openersOf_declareIn (names : StaticScope) (frames : List Frame) :
    openersOf (declareIn names frames) = openersOf frames := by
  cases frames <;> rfl

/-- A name can be declared in a scope. What the root scope can have is given. -/
def Opener.Holds (root : Text × Bool → Prop) (d : Text × Bool) : Opener → Prop
  | .root => root d
  | .block body => d ∈ declaresOf body
  | .call f => d ∈ parameterScope f.params ++ declaresOf f.body
  | .receiver _ => d = (thisName, false)
  | .superclass _ _ _ => d = (superName, false)

/-- Names that a scope may have while it is gone over. -/
def Opener.Admits (root : Text × Bool → Prop) (opener : Opener) (names : StaticScope) : Prop :=
  match opener with
  | .root => ∀ d ∈ names, opener.Holds root d
  | .block _ | .call _ => Plain names ∧ ∀ d ∈ names, opener.Holds root d
  | .receiver _ => names = [(thisName, false)]
  | .superclass _ _ _ => names = [(superName, false)]

/-- A scope that statements are gone over in. -/
def Opener.IsOpen : Opener → Prop
  | .root | .block _ | .call _ => True
  | .receiver _ | .superclass _ _ _ => False

/-- A scope inside a method: a block, or a call of a function. -/
def Opener.IsInner : Opener → Prop
  | .block _ | .call _ => True
  | .root | .receiver _ | .superclass _ _ _ => False

/-- The scopes around a part have no names but those that their openers admit. -/
def Under (root : Text × Bool → Prop) : List Opener → StaticScopes → Prop :=
  List.Forall₂ (Opener.Admits root)

section Under

variable {root : Text × Bool → Prop} {opener : Opener} {openers : List Opener}
    {names top : StaticScope} {S : StaticScopes}

theorem Opener.Admits.holds (h : opener.Admits root names) {d : Text × Bool} (hd : d ∈ names) :
    opener.Holds root d := by
  cases opener with
  | root => exact h d hd
  | block | call => exact h.2 d hd
  | receiver | superclass =>
    obtain rfl := h
    exact List.mem_singleton.mp hd

theorem Opener.Admits.of_append (h : opener.Admits root (names ++ top)) (hopen : opener.IsOpen) :
    opener.Admits root top := by
  cases opener with
  | root => exact fun d hd => h d (List.mem_append_right _ hd)
  | block | call =>
    exact ⟨fun d hd => h.1 d (List.mem_append_right _ hd),
      fun d hd => h.2 d (List.mem_append_right _ hd)⟩
  | receiver | superclass => exact hopen.elim

theorem Under.of_append (h : Under root (opener :: openers) ((names ++ top) :: S))
    (hopen : opener.IsOpen) : Under root (opener :: openers) (top :: S) := by
  obtain ⟨hnames, hS⟩ := List.forall₂_cons.mp h
  exact List.forall₂_cons.mpr ⟨hnames.of_append hopen, hS⟩

theorem Under.ne_nil (h : Under root (opener :: openers) S) : ∃ top S', S = top :: S' := by
  cases h with
  | cons => exact ⟨_, _, rfl⟩

/-- Where a name is found, it can be declared. -/
theorem Under.holds (h : Under root openers S) {name : Text} {distance : Nat} {mutable : Bool}
    (hfind : S.find? name = some (distance, mutable)) :
    ∃ opener, openers[distance]? = some opener ∧ opener.Holds root (name, mutable) := by
  induction h generalizing distance with
  | nil => cases hfind
  | @cons opener names openers S hnames _ ih =>
    simp only [StaticScopes.find?] at hfind
    split at hfind
    · next found hfound =>
      obtain ⟨rfl, rfl⟩ := Prod.mk.inj (Option.some.inj hfind)
      obtain ⟨before, after, rfl, -⟩ := List.lookup_eq_some_iff.mp hfound
      exact ⟨opener, rfl, hnames.holds (List.mem_append_right _ List.mem_cons_self)⟩
    · obtain ⟨⟨distance', mutable'⟩, hrest, heq⟩ := Option.map_eq_some_iff.mp hfind
      obtain ⟨rfl, rfl⟩ := Prod.mk.inj heq
      exact ih hrest

/-- Blocks and calls inside a method have none of the words that a class binds. -/
theorem Under.find?_inner {inner : List Opener} (hinner : ∀ o ∈ inner, o.IsInner)
    (h : Under root (inner ++ openers) S) {word : Text} (hword : word ∈ reservedNames) :
    ∃ S', Under root openers S' ∧ ∀ distance mutable, S'.find? word = some (distance, mutable) →
      S.find? word = some (distance + inner.length, mutable) := by
  induction inner generalizing S with
  | nil => exact ⟨S, h, fun _ _ => id⟩
  | cons o inner ih =>
    obtain ⟨ho, hinner⟩ := List.forall_mem_cons.mp hinner
    obtain ⟨names, S₁, hnames, hrest, rfl⟩ := List.forall₂_cons_left_iff.mp h
    obtain ⟨S', hS', hfind⟩ := ih hinner hrest
    have hplain : Plain names := by
      cases o with
      | block | call => exact hnames.1
      | root | receiver | superclass => exact ho.elim
    exact ⟨S', hS', fun distance mutable hfound =>
      find?_plain_cons hplain hword (hfind distance mutable hfound)⟩

end Under

/-! ## Deeds that have been performed -/

/-- A deed declares no reserved word, and what it goes into is shaped. -/
def Deed.Shaped : Deed → Prop
  | .event (.declare name) | .declare name _ => name.name ∉ reservedNames
  | .event (.body f) => Every Code.Shaped (.function f)
  | .whole s => Every Code.Shaped (.stmt s)
  | .event _ => True

theorem Deed.Shaped.declared {d : Deed} (h : d.Shaped) {x : Text × Bool}
    (hx : d.declared? = some x) : x.1 ∉ reservedNames := by
  cases d with
  | event event =>
    cases event with
    | declare name =>
      obtain rfl := Option.some.inj hx
      exact h
    | _ => cases hx
  | declare name mutable =>
    obtain rfl := Option.some.inj hx
    exact h
  | whole s =>
    cases s with
    | classDecl name superclass methods =>
      obtain rfl := Option.some.inj hx
      exact h.here.1 _ List.mem_cons_self
    | _ => cases hx

/-- The deeds of a shaped part are shaped. -/
theorem shaped_of_mem_deeds {c : Code} (h : Every Code.Shaped c) {d : Deed} (hd : d ∈ c.deeds) :
    d.Shaped := by
  induction h with
  | @intro c hshaped hchildren ih =>
    have hevery : Every Code.Shaped c := .intro hshaped hchildren
    rcases mem_deeds.mp hd with hd | ⟨c', hc', hd⟩
    · cases c with
      | stmts body => cases hd
      | function f =>
        obtain rfl := List.mem_singleton.mp hd
        exact hevery
      | stmt s =>
        cases s with
        | declare mutable name init =>
          obtain rfl := List.mem_singleton.mp hd
          exact hshaped.1 _ List.mem_cons_self
        | block | classDecl =>
          obtain rfl := List.mem_singleton.mp hd
          exact hevery
        | _ => cases hd
      | expr e =>
        obtain ⟨event, hevent, rfl⟩ := List.mem_map.mp hd
        cases e with
        | var | assign | thisRef | superRef =>
          obtain rfl := List.mem_singleton.mp hevent
          trivial
        | lambda name f =>
          have hf : Every Code.Shaped (.function f) := hevery.child .literal
          cases name with
          | none =>
            obtain rfl := List.mem_singleton.mp hevent
            exact hf
          | some name =>
            rcases List.mem_cons.mp hevent with rfl | hevent
            · exact hshaped.1 _ List.mem_cons_self
            · obtain rfl := List.mem_singleton.mp hevent
              exact hf
        | _ => cases hevent
    · exact ih c' (child_of_mem_near hc') hd

theorem plain_declaresOf {body : List Stmt} (h : Every Code.Shaped (.stmts body)) :
    Plain (declaresOf body) := by
  intro x hx
  obtain ⟨d, hd, hdeclared⟩ := List.mem_filterMap.mp hx
  exact (shaped_of_mem_deeds h hd).declared hdeclared

section Arising

variable (root : Text × Bool → Prop) (context : ClassContext) (openers : List Opener)

/-- A deed is what resolution makes of one, without a report, among scopes that openers admit. -/
def Deed.Performed (d : Deed) : Prop :=
  ∃ run source S, Deed.Shaped source ∧ Under root openers S ∧
    Under root openers (source.perform run context S).scopes ∧
    (source.perform run context S).value = d ∧ (source.perform run context S).diagnostics = []

/-- All that a part does in its scope has been performed. -/
def Code.Arises (c : Code) : Prop := ∀ d ∈ c.deeds, d.Performed root context openers

end Arising

section Performed

variable {root : Text × Bool → Prop} {context : ClassContext} {opener : Opener}
    {openers : List Opener} {run : Nat} {top : StaticScope} {S : StaticScopes}

/-- Deeds that are performed one after another are performed each, among the scopes that there are
at that moment. -/
theorem performed_of_mapM (hopen : opener.IsOpen) {ds : List Deed} (hmodest : ∀ d ∈ ds, d.Modest)
    (hshaped : ∀ d ∈ ds, d.Shaped)
    (hunder : Under root (opener :: openers) (ds.mapM (Deed.perform run context) (top :: S)).scopes)
    (hclean : (ds.mapM (Deed.perform run context) (top :: S)).diagnostics = []) :
    ∀ d ∈ (ds.mapM (Deed.perform run context) (top :: S)).value,
      d.Performed root context (opener :: openers) := by
  induction ds generalizing top with
  | nil => exact fun d hd => absurd hd List.not_mem_nil
  | cons source rest ih =>
    obtain ⟨hsource, hrest⟩ := List.forall_mem_cons.mp hmodest
    obtain ⟨hfirst, hshaped⟩ := List.forall_mem_cons.mp hshaped
    rw [List.mapM_cons, bind_scopes, bind_scopes, pure_scopes, hsource] at hunder
    rw [List.mapM_cons, bind_diagnostics, bind_diagnostics, hsource, List.append_eq_nil_iff,
      List.append_eq_nil_iff] at hclean
    rw [List.mapM_cons, bind_value, bind_value, pure_value, hsource]
    -- What the rest declares comes on top of what the first deed has declared.
    have hafter : Under root (opener :: openers) ((source.declared?.toList ++ top) :: S) := by
      rw [scopes_mapM hrest] at hunder
      exact hunder.of_append hopen
    refine List.forall_mem_cons.mpr ⟨?_, ih hrest hshaped hunder hclean.2.1⟩
    exact ⟨run, source, top :: S, hfirst, hafter.of_append hopen, by rwa [hsource], rfl, hclean.1⟩

/-- Statements that are gone over in a scope that admits all their names. -/
theorem arises_resolveStmts (hopen : opener.IsOpen) {body : List Stmt}
    (hshaped : Every Code.Shaped (.stmts body))
    (hunder : Under root (opener :: openers) (((declaresOf body).reverse ++ top) :: S))
    (hclean : (resolveStmts run context body (top :: S)).diagnostics = []) :
    (Code.stmts (resolveStmts run context body (top :: S)).value).Arises root context
      (opener :: openers) := by
  have hmodest : ∀ d ∈ deedsOf body, d.Modest :=
    fun d hd => modest_of_mem_deeds (c := .stmts body) hd
  intro d hd
  change d ∈ deedsOf (resolveStmts run context body (top :: S)).value at hd
  rw [← map_value deedsOf, deeds_resolveStmts] at hd
  refine performed_of_mapM hopen hmodest (fun d => shaped_of_mem_deeds hshaped) ?_ ?_ d hd
  · rwa [scopes_mapM hmodest]
  · rwa [← deeds_resolveStmts, map_diagnostics]

/-! ## From a part to the parts in it -/

theorem Code.Arises.near {c c' : Code} (h : c.Arises root context openers) (hc' : c' ∈ c.near) :
    c'.Arises root context openers :=
  fun d hd => h d (mem_deeds.mpr (.inr ⟨c', hc', hd⟩))

theorem Code.Arises.next {s : Stmt} {rest : List Stmt}
    (h : (Code.stmts (s :: rest)).Arises root context openers) :
    (Code.stmts rest).Arises root context openers :=
  fun d hd => h d (List.mem_append_right _ hd)

theorem Code.Arises.literal {name : Option Ident} {f : Function}
    (h : (Code.expr (.lambda name f)).Arises root context openers) :
    (Code.function f).Arises root context openers := by
  intro d hd
  obtain rfl := List.mem_singleton.mp hd
  refine h _ (mem_deeds.mpr (.inl ?_))
  cases name <;> simp [Code.own, Expr.ownEvents]

theorem Code.Arises.block {body : List Stmt}
    (h : (Code.stmt (.block body)).Arises root context openers) :
    (Code.stmts body).Arises root context (.block body :: openers) := by
  obtain ⟨run, source, S, hshaped, hunder, -, hvalue, hclean⟩ := h _ List.mem_cons_self
  cases source with
  | event | declare => cases hvalue
  | whole s =>
    cases s with
    | block body₀ =>
      simp only [Deed.perform, Stmt.resolve, bind_diagnostics, within_diagnostics, pure_diagnostics,
        List.append_nil] at hclean
      simp only [Deed.perform, Stmt.resolve, bind_value, pure_value, within_value, Deed.whole.injEq,
        Stmt.block.injEq] at hvalue
      subst hvalue
      have hbody : Every Code.Shaped (.stmts body₀) := hshaped.child .block
      refine arises_resolveStmts (by trivial) hbody
        (List.forall₂_cons.mpr ⟨⟨fun d hd => ?_, fun d hd => ?_⟩, hunder⟩) hclean
      · exact plain_declaresOf hbody d (by simpa using hd)
      · simpa [Opener.Holds] using hd
    | classDecl name superclass methods => cases superclass <;> cases hvalue
    | _ => cases hvalue

theorem Code.Arises.body {f : Function} (h : (Code.function f).Arises root context openers) :
    (Code.stmts f.body).Arises root context (.call f :: openers) := by
  obtain ⟨run, source, S, hshaped, hunder, -, hvalue, hclean⟩ := h _ List.mem_cons_self
  cases source with
  | whole | declare => cases hvalue
  | event event =>
    cases event with
    | body f₀ =>
      obtain ⟨keyword, origin, params, body₀⟩ := f₀
      simp only [Deed.perform, Event.perform, Function.resolve, bind_diagnostics,
        within_diagnostics, pure_diagnostics, List.append_nil] at hclean
      simp only [Deed.perform, Event.perform, Function.resolve, bind_value, pure_value,
        within_value, Deed.event.injEq, Event.body.injEq] at hvalue
      subst hvalue
      have hbody : Every Code.Shaped (.stmts body₀) :=
        hshaped.child (.body (f := .mk keyword origin params body₀))
      have hparams : Plain (parameterScope params) := plain_parameterScope hshaped.here
      refine arises_resolveStmts (by trivial) hbody
        (List.forall₂_cons.mpr ⟨⟨fun d hd => ?_, fun d hd => ?_⟩, hunder⟩) hclean
      · rcases List.mem_append.mp hd with hd | hd
        · exact plain_declaresOf hbody d (List.mem_reverse.mp hd)
        · exact hparams d hd
      · simpa [Opener.Holds, Function.params, Function.body, or_comm] using hd
    | _ => cases hvalue

/-- Each method of a class has been gone over with the same scopes. -/
theorem exists_method {methods : List Method}
    (hmethods : ∀ m f, .mk m f ∈ methods → Every Code.Shaped (.function f))
    (hclean : (resolveMethods run context methods (top :: S)).diagnostics = []) {m : Ident}
    {f : Function} (hm : .mk m f ∈ (resolveMethods run context methods (top :: S)).value) :
    ∃ f₀, Every Code.Shaped (.function f₀) ∧ (f₀.resolve run context (top :: S)).value = f ∧
      (f₀.resolve run context (top :: S)).diagnostics = [] := by
  induction methods with
  | nil => cases hm
  | cons method rest ih =>
    obtain ⟨m₀, f₀⟩ := method
    have hscopes : (f₀.resolve run context (top :: S)).scopes = top :: S :=
      modest_of_mem_deeds (c := .function f₀) List.mem_cons_self run context top S
    simp only [resolveMethods, bind_diagnostics, hscopes, pure_diagnostics, List.append_nil,
      List.append_eq_nil_iff] at hclean
    simp only [resolveMethods, bind_value, pure_value, hscopes, List.mem_cons,
      Method.mk.injEq] at hm
    rcases hm with ⟨rfl, rfl⟩ | hm
    · exact ⟨f₀, hmethods _ f₀ List.mem_cons_self, rfl, hclean.1⟩
    · exact ih (fun m f hm => hmethods m f (List.mem_cons_of_mem _ hm)) hclean.2 hm

/-- A method arises among the scopes that its class opens. -/
theorem arises_method {methods : List Method}
    (hmethods : ∀ m f, .mk m f ∈ methods → Every Code.Shaped (.function f))
    (hclean : (resolveMethods run context methods (top :: S)).diagnostics = []) {m : Ident}
    {f : Function} (hm : .mk m f ∈ (resolveMethods run context methods (top :: S)).value)
    (hunder : Under root openers (top :: S)) : (Code.function f).Arises root context openers := by
  obtain ⟨f₀, hshaped, rfl, hclean⟩ := exists_method hmethods hclean hm
  intro d hd
  obtain rfl := List.mem_singleton.mp hd
  have hmodest : (Deed.event (.body f₀)).Modest :=
    modest_of_mem_deeds (c := .function f₀) List.mem_cons_self
  refine ⟨run, .event (.body f₀), top :: S, hshaped, hunder, by rwa [hmodest], rfl, ?_⟩
  simpa [Deed.perform, Event.perform] using hclean

/-- What is known of a class that has been gone over: the scopes after it have its name. -/
theorem Code.Arises.classDecl {name : Ident} {superclass : Option NameUse} {methods : List Method}
    (h : (Code.stmt (.classDecl name superclass methods)).Arises root context (opener :: openers)) :
    ∃ run superclass₀ methods₀ top S,
      (∀ m f, .mk m f ∈ methods₀ → Every Code.Shaped (.function f)) ∧
      Under root (opener :: openers) (((name.name, false) :: top) :: S) ∧
      ((Stmt.classDecl name superclass₀ methods₀).resolve run context (top :: S)).value =
        .classDecl name superclass methods ∧
      ((Stmt.classDecl name superclass₀ methods₀).resolve run context (top :: S)).diagnostics =
        [] := by
  obtain ⟨run, source, S, hshaped, hunder, hafter, hvalue, hclean⟩ := h _ List.mem_cons_self
  obtain ⟨top, S, rfl⟩ := hunder.ne_nil
  cases source with
  | event | declare => cases hvalue
  | whole s =>
    cases s with
    | classDecl name₀ superclass₀ methods₀ =>
      have hmodest : (Deed.whole (.classDecl name₀ superclass₀ methods₀)).Modest :=
        modest_of_mem_deeds (c := .stmt (.classDecl name₀ superclass₀ methods₀)) List.mem_cons_self
      rw [hmodest] at hafter
      simp only [Deed.perform, bind_diagnostics, pure_diagnostics, List.append_nil] at hclean
      simp only [Deed.perform, bind_value, pure_value, Deed.whole.injEq] at hvalue
      have hname : name₀ = name := by cases superclass₀ <;> cases hvalue <;> rfl
      subst hname
      exact ⟨run, superclass₀, methods₀, top, S,
        fun m f hm => hshaped.child (.method hm), hafter, hvalue, hclean⟩
    | _ => cases hvalue

theorem Code.Arises.method {name m : Ident} {methods : List Method} {f : Function}
    (h : (Code.stmt (.classDecl name none methods)).Arises root context (opener :: openers))
    (hm : .mk m f ∈ methods) :
    (Code.function f).Arises root .plain (.receiver f :: opener :: openers) := by
  obtain ⟨run, superclass₀, methods₀, top, S, hmethods, hunder, hvalue, hclean⟩ := h.classDecl
  cases superclass₀ with
  | some use => cases hvalue
  | none =>
    simp only [Stmt.resolve, bind_value, pure_value, within_value, declare_scopes,
      Stmt.classDecl.injEq, true_and] at hvalue
    simp only [Stmt.resolve, bind_diagnostics, within_diagnostics, declare_scopes,
      declare_diagnostics, pure_diagnostics, List.append_nil, List.nil_append] at hclean
    subst hvalue
    exact arises_method hmethods hclean hm (List.forall₂_cons.mpr ⟨rfl, hunder⟩)

theorem Code.Arises.submethod {name m : Ident} {use : NameUse} {methods : List Method}
    {f : Function}
    (h : (Code.stmt (.classDecl name (some use) methods)).Arises root context (opener :: openers))
    (hm : .mk m f ∈ methods) :
    (Code.function f).Arises root .subclass
      (.receiver f :: .superclass name use methods :: opener :: openers) := by
  obtain ⟨run, superclass₀, methods₀, top, S, hmethods, hunder, hvalue, hclean⟩ := h.classDecl
  cases superclass₀ with
  | none => cases hvalue
  | some use₀ =>
    simp only [Stmt.resolve, bind_value, pure_value, within_value, declare_scopes,
      checkSuperclass_scopes, NameUse.resolve_scopes, Stmt.classDecl.injEq, true_and] at hvalue
    simp only [Stmt.resolve, bind_diagnostics, within_diagnostics, declare_scopes,
      declare_diagnostics, checkSuperclass_scopes, NameUse.resolve_scopes, pure_diagnostics,
      List.append_nil, List.nil_append, List.append_eq_nil_iff] at hclean
    obtain ⟨-, rfl⟩ := hvalue
    exact arises_method hmethods hclean.2.2 hm
      (List.forall₂_cons.mpr ⟨rfl, List.forall₂_cons.mpr ⟨rfl, hunder⟩⟩)

end Performed

/-- A part that is visited has been performed, if the programs have been. -/
theorem Visit.arises {programs : StaticScope → List Stmt → Prop} {root : Text × Bool → Prop}
    (hprograms : ∀ names body, programs names body → (Code.stmts body).Arises root .none [.root])
    {context : ClassContext} {frames : List Frame} {c : Code}
    (h : Visit programs context frames c) : c.Arises root context (openersOf frames) := by
  induction h with
  | program hprogram => exact hprograms _ _ hprogram
  | first _ ih => exact ih.near (by simp [Code.near])
  | next _ ih =>
    rw [openersOf_declareIn]
    exact ih.next
  | block _ ih => exact ih.block
  | inner _ hs ih => exact ih.near (by simp [Code.near, hs])
  | method h hm ih =>
    obtain ⟨frame, rest, rfl⟩ := h.frames_ne_nil
    exact Code.Arises.method ih hm
  | submethod h hm ih =>
    obtain ⟨frame, rest, rfl⟩ := h.frames_ne_nil
    exact Code.Arises.submethod ih hm
  | expr _ he ih => exact ih.near (by simp [Code.near, he])
  | part _ he ih => exact ih.near (by simp [Code.near, he])
  | literal _ ih =>
    rw [openersOf_declareIn]
    exact ih.literal
  | body _ ih => exact ih.body

/-- A name that a part declares can be declared in the scope it stands in. -/
theorem Visit.holds {programs : StaticScope → List Stmt → Prop} {root : Text × Bool → Prop}
    (hroot : ∀ names body, programs names body → ∀ x ∈ declaresOf body, root x)
    {context : ClassContext} {frames : List Frame} {c : Code} (h : Visit programs context frames c)
    {d : Deed} (hd : d ∈ c.deeds) {x : Text × Bool} (hx : d.declared? = some x) :
    ∃ opener openers, openersOf frames = opener :: openers ∧ opener.IsOpen ∧
      opener.Holds root x := by
  have hmem : ∀ {body : List Stmt}, d ∈ deedsOf body → x ∈ declaresOf body :=
    fun hd => List.mem_filterMap.mpr ⟨d, hd, hx⟩
  induction h with
  | program hprogram => exact ⟨.root, [], rfl, trivial, hroot _ _ hprogram x (hmem hd)⟩
  | block _ _ => exact ⟨_, _, rfl, trivial, hmem hd⟩
  | body _ _ => exact ⟨_, _, rfl, trivial, List.mem_append_right _ (hmem hd)⟩
  | first _ ih => exact ih (List.mem_append_left _ hd)
  | next _ ih =>
    rw [openersOf_declareIn]
    exact ih (List.mem_append_right _ hd)
  | inner _ hs ih => exact ih (mem_deeds.mpr (.inr ⟨_, by simp [Code.near, hs], hd⟩))
  | expr _ he ih => exact ih (mem_deeds.mpr (.inr ⟨_, by simp [Code.near, he], hd⟩))
  | part _ he ih => exact ih (mem_deeds.mpr (.inr ⟨_, by simp [Code.near, he], hd⟩))
  | method | submethod | literal =>
    obtain rfl := List.mem_singleton.mp hd
    cases hx

/-! ## What resolution has written -/

/-- Only a name that may be assigned to passes as a target. -/
theorem NameUse.resolveTarget_mutable {use : NameUse} {S : StaticScopes}
    (hclean : (use.resolveTarget S).diagnostics = []) :
    ∃ distance, S.find? (use.resolveTarget S).value.ident.name = some (distance, true) ∧
      (use.resolveTarget S).value.depth = some distance := by
  simp only [NameUse.resolveTarget, bind_diagnostics, bind_value, find?_value,
    find?_scopes] at hclean ⊢
  rcases hfind : S.find? use.ident.name with _ | ⟨distance, _ | _⟩
  · simp [hfind] at hclean
  · simp [hfind] at hclean
  · exact ⟨distance, hfind, rfl⟩

section Slots

variable {root : Text × Bool → Prop} {context : ClassContext} {openers : List Opener}

/-- A name that may be assigned to is declared mutable in the scope that the use points at. -/
theorem Code.Arises.assign {use : NameUse} {value : Expr}
    (h : (Code.expr (.assign use value)).Arises root context openers) :
    ∃ distance opener, use.depth = some distance ∧ openers[distance]? = some opener ∧
      opener.Holds root (use.ident.name, true) := by
  obtain ⟨run, source, S, -, hunder, -, hvalue, hclean⟩ :=
    h (.event (.assign use)) (mem_deeds.mpr (.inl List.mem_cons_self))
  cases source with
  | whole | declare => cases hvalue
  | event event =>
    cases event with
    | assign use₀ =>
      simp only [Deed.perform, Event.perform, bind_diagnostics, pure_diagnostics,
        List.append_nil] at hclean
      simp only [Deed.perform, Event.perform, bind_value, pure_value, Deed.event.injEq,
        Event.assign.injEq] at hvalue
      subst hvalue
      obtain ⟨distance, hfind, hdepth⟩ := NameUse.resolveTarget_mutable hclean
      obtain ⟨opener, hopener, hholds⟩ := hunder.holds hfind
      exact ⟨distance, opener, hdepth, hopener, hholds⟩
    | _ => cases hvalue

/-- The receiver is looked up in the scopes around. -/
theorem Code.Arises.thisRef {keyword : Span} {slot : Option Nat}
    (h : (Code.expr (.thisRef keyword slot)).Arises root context openers) :
    ∃ S, Under root openers S ∧ slot = (S.find? thisName).map Prod.fst := by
  obtain ⟨run, source, S, -, hunder, -, hvalue, hclean⟩ := h _ List.mem_cons_self
  cases source with
  | whole | declare => cases hvalue
  | event event =>
    cases event with
    | receiver keyword₀ slot₀ =>
      simp only [Deed.perform, Event.perform, bind_diagnostics, pure_diagnostics,
        List.append_nil] at hclean
      simp only [Deed.perform, Event.perform, bind_value, pure_value, Deed.event.injEq,
        Event.receiver.injEq] at hvalue
      obtain ⟨-, rfl⟩ := hvalue
      cases context with
      | none => cases hclean
      | plain | subclass => exact ⟨S, hunder, rfl⟩
    | _ => cases hvalue

/-- The superclass is looked up in the scopes around, inside a class that has one. -/
theorem Code.Arises.superRef {keyword : Span} {method : Ident} {slot : Option Nat}
    (h : (Code.expr (.superRef keyword method slot)).Arises root context openers) :
    context = .subclass ∧ ∃ S, Under root openers S ∧ slot = (S.find? superName).map Prod.fst := by
  obtain ⟨run, source, S, -, hunder, -, hvalue, hclean⟩ := h _ List.mem_cons_self
  cases source with
  | whole | declare => cases hvalue
  | event event =>
    cases event with
    | superclass keyword₀ slot₀ =>
      simp only [Deed.perform, Event.perform, bind_diagnostics, pure_diagnostics,
        List.append_nil] at hclean
      simp only [Deed.perform, Event.perform, bind_value, pure_value, Deed.event.injEq,
        Event.superclass.injEq] at hvalue
      obtain ⟨-, rfl⟩ := hvalue
      cases context with
      | none | plain => cases hclean
      | subclass => exact ⟨rfl, S, hunder, rfl⟩
    | _ => cases hvalue

end Slots

/-! ## Places in a method -/

/-- A place in a method of a class that extends another, perhaps in blocks and functions in the
method. -/
structure MethodPlace where
  inner : List Opener
  method : Ident
  function : Function
  name : Ident
  superclass : NameUse
  methods : List Method
  outer : List Opener

namespace MethodPlace

/-- What opens the scopes around a place. -/
def openers (p : MethodPlace) : List Opener :=
  p.inner ++ .receiver p.function :: .superclass p.name p.superclass p.methods :: p.outer

/-- The declaration of the class. -/
def declaration (p : MethodPlace) : Stmt := .classDecl p.name (some p.superclass) p.methods

/-- A place is one in programs: the class is declared there, the method is one of its methods, and
no other class lies between the method and the place. -/
structure IsIn (programs : StaticScope → List Stmt → Prop) (p : MethodPlace) : Prop where
  inner : ∀ o ∈ p.inner, o.IsInner
  method : .mk p.method p.function ∈ p.methods
  declared : ∃ context frames, Visit programs context frames (.stmt p.declaration) ∧
    openersOf frames = p.outer

variable {programs : StaticScope → List Stmt → Prop} {p : MethodPlace}

/-- A place further inside. -/
theorem IsIn.cons (h : p.IsIn programs) {o : Opener} (ho : o.IsInner) :
    IsIn programs { p with inner := o :: p.inner } :=
  ⟨List.forall_mem_cons.mpr ⟨ho, h.inner⟩, h.method, h.declared⟩

variable {root : Text × Bool → Prop} {S : StaticScopes}

/-- From a place in a method, the receiver is found in the scope around the method. -/
theorem IsIn.find?_thisName (h : p.IsIn programs) (hunder : Under root p.openers S) :
    S.find? thisName = some (p.inner.length, false) := by
  obtain ⟨S', hS', hfind⟩ := hunder.find?_inner h.inner thisName_mem_reservedNames
  obtain ⟨names, S₁, rfl, -, rfl⟩ := List.forall₂_cons_left_iff.mp hS'
  simpa using hfind 0 false rfl

/-- From a place in a method, the superclass is found one scope further out. -/
theorem IsIn.find?_superName (h : p.IsIn programs) (hunder : Under root p.openers S) :
    S.find? superName = some (p.inner.length + 1, false) := by
  obtain ⟨S', hS', hfind⟩ := hunder.find?_inner h.inner superName_mem_reservedNames
  obtain ⟨names, S₁, rfl, hrest, rfl⟩ := List.forall₂_cons_left_iff.mp hS'
  obtain ⟨names', S₂, rfl, -, rfl⟩ := List.forall₂_cons_left_iff.mp hrest
  simpa [Nat.add_comm] using hfind 1 false rfl

end MethodPlace

/-- A part that is gone over as part of a class with a superclass lies in a method of such a
class. -/
theorem Visit.exists_place {programs : StaticScope → List Stmt → Prop} {frames : List Frame}
    {c : Code} (h : Visit programs .subclass frames c) :
    ∃ p : MethodPlace, p.IsIn programs ∧ openersOf frames = p.openers := by
  generalize hcontext : ClassContext.subclass = context at h
  induction h with
  | program | method => cases hcontext
  | @submethod context frames name m use methods f h hm ih =>
    refine ⟨⟨[], m, f, name, use, methods, openersOf frames⟩,
      ⟨by simp, hm, context, frames, h, rfl⟩, ?_⟩
    simp [MethodPlace.openers, receiverFrame, superclassFrame]
  | first _ ih | inner _ _ ih | expr _ _ ih | part _ _ ih => exact ih hcontext
  | next _ ih | literal _ ih =>
    rw [openersOf_declareIn]
    exact ih hcontext
  | @block context frames body _ ih =>
    obtain ⟨p, hp, hopeners⟩ := ih hcontext
    have hinner : (Opener.block body).IsInner := trivial
    exact ⟨_, hp.cons hinner, congrArg (Opener.block body :: ·) hopeners⟩
  | @body context frames f _ ih =>
    obtain ⟨p, hp, hopeners⟩ := ih hcontext
    have hinner : (Opener.call f).IsInner := trivial
    exact ⟨_, hp.cons hinner, congrArg (Opener.call f :: ·) hopeners⟩

end Lox
