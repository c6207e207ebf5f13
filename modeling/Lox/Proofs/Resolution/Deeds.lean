import Lox.Proofs.Resolution.Events

/-!
# What a part of a program does in the scope it stands in

What an expression does in the scope around it are its events. A statement does more: it declares
names, and a block or a class opens scopes of its own. Each of these is a **deed**; `Code.deeds`
lists the deeds of a part in the order of resolution, and those of a block or a function are not
among the deeds of what stands around it.

Resolution of a part performs its deeds one after another (`deeds_resolve`). A deed declares its own
name, if it has one, and leaves the scopes as they are otherwise (`modest_of_mem_deeds`). So the
names that a scope gets are those that its deeds declare, wherever the function literals of the
program stand.
-/

namespace Lox

open Code Resolve

/-! ## Deeds -/

/-- Something that a part of a program does in the scope it stands in. -/
inductive Deed
  /-- An expression does something. -/
  | event (e : Event)
  /-- A declaration declares its name. -/
  | declare (name : Ident) (mutable : Bool)
  /-- A block or a class is gone over, inside scopes of its own. -/
  | whole (s : Stmt)

/-- The deeds of an expression. -/
def Expr.deeds (e : Expr) : List Deed := (e.events .resolution).map .event

/-- The deeds of an expression that may be absent. -/
def deedsOfExpr? (e : Option Expr) : List Deed := (e.map Expr.deeds).getD []

mutual

/-- The deeds of a statement. -/
def Stmt.deeds : Stmt → List Deed
  | .evaluate e | .print e => e.deeds
  | .declare mutable name init => deedsOfExpr? init ++ [.declare name mutable]
  | .branch condition thenBranch elseBranch =>
    condition.deeds ++ (deedsOfStmt? thenBranch ++ deedsOfStmt? elseBranch)
  | .loop condition body closer => deedsOfExpr? condition ++ (body.deeds ++ deedsOfExpr? closer)
  | .ret _ value => deedsOfExpr? value
  | .brk _ | .cont _ => []
  | .block body => [.whole (.block body)]
  | .classDecl name superclass methods => [.whole (.classDecl name superclass methods)]

/-- The deeds of a statement that may be absent. -/
def deedsOfStmt? : Option Stmt → List Deed
  | none => []
  | some s => s.deeds

end

/-- The deeds of statements, in order. -/
def deedsOf : List Stmt → List Deed
  | [] => []
  | s :: rest => s.deeds ++ deedsOf rest

/-- The deeds of a part of a program. -/
def Code.deeds : Code → List Deed
  | .stmts body => deedsOf body
  | .stmt s => s.deeds
  | .expr e => e.deeds
  | .function f => [.event (.body f)]

/-- The name that a deed declares, with whether it may be assigned to. -/
def Deed.declared? : Deed → Option (Text × Bool)
  | .event (.declare name) => some (name.name, false)
  | .declare name mutable => some (name.name, mutable)
  | .whole (.classDecl name _ _) => some (name.name, false)
  | _ => none

/-- The names that statements declare in the scope they stand in, in order. -/
def declaresOf (body : List Stmt) : StaticScope := (deedsOf body).filterMap Deed.declared?

/-- What resolution does for a deed. It gives the deed with its slots filled. -/
def Deed.perform (run : Nat) (context : ClassContext) : Deed → Resolve Deed
  | .event e => do return .event (← e.perform run context)
  | .declare name mutable => do
    Resolve.declare name.name mutable
    return .declare name mutable
  | .whole s => do return .whole (← s.resolve run context)

/-! ## Resolution performs the deeds -/

section Performing

variable {run : Nat} {context : ClassContext}

theorem mapM_event (events : List Event) :
    (events.map Deed.event).mapM (Deed.perform run context) =
      List.map Deed.event <$> events.mapM (Event.perform run context) := by
  induction events with
  | nil => rfl
  | cons event rest ih => simp [ih, Deed.perform]

/-- Resolution performs the deeds of an expression. -/
theorem Expr.deeds_resolve (e : Expr) :
    Expr.deeds <$> e.resolve run context = e.deeds.mapM (Deed.perform run context) := by
  have hevents : Performs run context e := events_resolve e
  rw [Expr.deeds, mapM_event, ← hevents, Functor.map_map]
  rfl

theorem deeds_resolveExpr? (e : Option Expr) :
    deedsOfExpr? <$> resolveExpr? run context e =
      (deedsOfExpr? e).mapM (Deed.perform run context) := by
  cases e with
  | none => rfl
  | some e =>
    simp only [deedsOfExpr?, Option.map_some, Option.getD_some, ← e.deeds_resolve]
    simp [resolveExpr?, deedsOfExpr?]

mutual

/-- Going over a statement is to perform its deeds one after another. -/
theorem Stmt.deeds_resolve : (s : Stmt) →
    Stmt.deeds <$> s.resolve run context = s.deeds.mapM (Deed.perform run context)
  | .evaluate e | .print e => by
    rw [Stmt.deeds, ← e.deeds_resolve]
    simp [Stmt.resolve, Stmt.deeds]
  | .declare mutable name init => by
    rw [Stmt.deeds, List.mapM_append, ← deeds_resolveExpr? init]
    simp [Stmt.resolve, Stmt.deeds, Deed.perform]
  | .branch condition thenBranch elseBranch => by
    rw [Stmt.deeds, List.mapM_append, List.mapM_append, ← condition.deeds_resolve,
      ← deeds_resolveStmt? thenBranch, ← deeds_resolveStmt? elseBranch]
    simp [Stmt.resolve, Stmt.deeds]
  | .loop condition body closer => by
    rw [Stmt.deeds, List.mapM_append, List.mapM_append, ← deeds_resolveExpr? condition,
      ← body.deeds_resolve, ← deeds_resolveExpr? closer]
    simp [Stmt.resolve, Stmt.deeds]
  | .ret keyword value => by
    rw [Stmt.deeds, ← deeds_resolveExpr? value]
    simp [Stmt.resolve, Stmt.deeds]
  | .brk _ | .cont _ => rfl
  | .block body => by
    simp [Stmt.resolve, Stmt.deeds, Deed.perform]
  | .classDecl name superclass methods => by
    cases superclass <;> simp [Stmt.resolve, Stmt.deeds, Deed.perform]

theorem deeds_resolveStmt? : (s : Option Stmt) →
    deedsOfStmt? <$> resolveStmt? run context s = (deedsOfStmt? s).mapM (Deed.perform run context)
  | none => rfl
  | some s => by
    rw [deedsOfStmt?, ← s.deeds_resolve]
    simp [resolveStmt?, deedsOfStmt?]

end

/-- Going over statements is to perform their deeds one after another. -/
theorem deeds_resolveStmts (body : List Stmt) :
    deedsOf <$> resolveStmts run context body = (deedsOf body).mapM (Deed.perform run context) := by
  induction body with
  | nil => rfl
  | cons s rest ih =>
    rw [deedsOf, List.mapM_append, ← s.deeds_resolve, ← ih]
    simp [resolveStmts, deedsOf]

end Performing

/-! ## Induction on the parts of a program -/

/-- What stands in a part is smaller. -/
theorem Code.sizeOf_lt_of_child {c d : Code} (h : Child d c) : sizeOf d < sizeOf c := by
  have hoption : ∀ {α : Type} [SizeOf α] {a : α} {o : Option α}, a ∈ o → sizeOf a < sizeOf o := by
    rintro α _ a o rfl
    simp
  cases h with
  | member hs =>
    have hlt := List.sizeOf_lt_of_mem hs
    simp only [Code.stmt.sizeOf_spec, Code.stmts.sizeOf_spec]
    omega
  | block => simp
  | @inner s s' hs =>
    cases s with
    | branch condition thenBranch elseBranch =>
      simp only [Stmt.inner, List.mem_append, Option.mem_toList] at hs
      simp only [Code.stmt.sizeOf_spec, Stmt.branch.sizeOf_spec]
      rcases hs with hs | hs
      · have := hoption hs
        omega
      · have := hoption hs
        omega
    | loop condition body closer =>
      obtain rfl := List.mem_singleton.mp hs
      simp only [Code.stmt.sizeOf_spec, Stmt.loop.sizeOf_spec]
      omega
    | _ => cases hs
  | @method name m superclass methods f hm =>
    have hlt := List.sizeOf_lt_of_mem hm
    simp only [Code.function.sizeOf_spec, Code.stmt.sizeOf_spec, Stmt.classDecl.sizeOf_spec,
      Method.mk.sizeOf_spec] at hlt ⊢
    omega
  | @expr s e he =>
    cases s with
    | evaluate | print | branch =>
      obtain rfl := List.mem_singleton.mp he
      simp only [Code.expr.sizeOf_spec, Code.stmt.sizeOf_spec, Stmt.evaluate.sizeOf_spec,
        Stmt.print.sizeOf_spec, Stmt.branch.sizeOf_spec]
      omega
    | declare _ _ init | ret _ init =>
      have := hoption (Option.mem_toList.mp he)
      simp only [Code.expr.sizeOf_spec, Code.stmt.sizeOf_spec, Stmt.declare.sizeOf_spec,
        Stmt.ret.sizeOf_spec]
      omega
    | loop condition body closer =>
      simp only [Stmt.exprs, List.mem_append, Option.mem_toList] at he
      simp only [Code.expr.sizeOf_spec, Code.stmt.sizeOf_spec, Stmt.loop.sizeOf_spec]
      rcases he with he | he
      · have := hoption he
        omega
      · have := hoption he
        omega
    | _ => cases he
  | part he =>
    have hlt := sizeOf_lt_of_mem_parts he
    simp only [Code.expr.sizeOf_spec]
    omega
  | literal => simp
  | @body f =>
    obtain ⟨keyword, origin, params, body⟩ := f
    simp [Function.body]

/-- What holds of a part of a program if it holds of the parts in it holds of every part. -/
@[elab_as_elim]
theorem Code.byChildren {motive : Code → Prop} (intro : ∀ c, (∀ d, Child d c → motive d) → motive c)
    (c : Code) : motive c :=
  intro c fun d h =>
    have := Code.sizeOf_lt_of_child h
    byChildren intro d
termination_by sizeOf c

/-! ## Whose deed it is -/

/-- The events of an expression that are not those of its parts. -/
def Expr.ownEvents : Expr → List Event
  | .var use => [.read use]
  | .assign use _ => [.assign use]
  | .lambda none f => [.body f]
  | .lambda (some name) f => [.declare name, .body f]
  | .thisRef keyword slot => [.receiver keyword slot]
  | .superRef keyword _ slot => [.superclass keyword slot]
  | _ => []

/-- The deeds of a part that are not those of the parts that stand in the same scope. -/
def Code.own : Code → List Deed
  | .stmt (.declare mutable name _) => [.declare name mutable]
  | .stmt (.block body) => [.whole (.block body)]
  | .stmt (.classDecl name superclass methods) => [.whole (.classDecl name superclass methods)]
  | .expr e => e.ownEvents.map .event
  | .function f => [.event (.body f)]
  | .stmts _ | .stmt _ => []

/-- The parts that stand directly in a part, and in the same scope. -/
def Code.near : Code → List Code
  | .stmts body => body.map .stmt
  | .stmt s => s.exprs.map .expr ++ s.inner.map .stmt
  | .expr e => e.parts.map .expr
  | .function _ => []

theorem Code.child_of_mem_near {c d : Code} (h : d ∈ c.near) : Child d c := by
  cases c with
  | stmts body =>
    obtain ⟨s, hs, rfl⟩ := List.mem_map.mp h
    exact .member hs
  | stmt s =>
    rcases List.mem_append.mp h with h | h
    · obtain ⟨e, he, rfl⟩ := List.mem_map.mp h
      exact .expr he
    · obtain ⟨s', hs', rfl⟩ := List.mem_map.mp h
      exact .inner hs'
  | expr e =>
    obtain ⟨e', he', rfl⟩ := List.mem_map.mp h
    exact .part he'
  | function f => cases h

theorem mem_eventsOf {pass : Pass} {es : List Expr} {event : Event} :
    event ∈ eventsOf pass es ↔ ∃ e ∈ es, event ∈ e.events pass := by
  induction es with
  | nil => simp [eventsOf]
  | cons e rest ih => simp [eventsOf, ih]

/-- An assignment has the events of both of its sides. -/
theorem mem_arrange {pass : Pass} {target value : List Event} {event : Event} :
    event ∈ pass.arrange target value ↔ event ∈ target ∨ event ∈ value := by
  cases pass <;> simp [Pass.arrange, or_comm]

/-- An event of an expression is its own, or one of its parts has it. -/
theorem mem_events {pass : Pass} {e : Expr} {event : Event} :
    event ∈ e.events pass ↔ event ∈ e.ownEvents ∨ ∃ part ∈ e.parts, event ∈ part.events pass := by
  cases e with
  | lambda name f => cases name <;> simp [Expr.events, Expr.ownEvents, Expr.parts]
  | object fields => simp [Expr.events, Expr.ownEvents, Expr.parts, fieldEvents_eq, mem_eventsOf]
  | assign use value => simp [Expr.events, Expr.ownEvents, Expr.parts, or_comm]
  | _ => simp [Expr.events, Expr.ownEvents, Expr.parts, mem_eventsOf, mem_arrange, or_assoc]

/-- The deeds of a body are those of its statements. -/
theorem mem_deedsOf {body : List Stmt} {d : Deed} : d ∈ deedsOf body ↔ ∃ s ∈ body, d ∈ s.deeds := by
  induction body with
  | nil => simp [deedsOf]
  | cons s rest ih => simp [deedsOf, ih]

theorem mem_deedsOfExpr? {e : Option Expr} {d : Deed} :
    d ∈ deedsOfExpr? e ↔ ∃ e' ∈ e, d ∈ e'.deeds := by
  cases e <;> simp [deedsOfExpr?]

theorem mem_deedsOfStmt? {s : Option Stmt} {d : Deed} :
    d ∈ deedsOfStmt? s ↔ ∃ s' ∈ s, d ∈ s'.deeds := by
  cases s <;> simp [deedsOfStmt?]

/-- The deeds near a statement are those of what stands in it. -/
theorem mem_deeds_near {s : Stmt} {d : Deed} : (∃ c' ∈ (Code.stmt s).near, d ∈ c'.deeds) ↔
    (∃ e ∈ s.exprs, d ∈ e.deeds) ∨ ∃ s' ∈ s.inner, d ∈ s'.deeds := by
  simp only [Code.near, List.mem_append, List.mem_map, or_and_right, exists_or,
    exists_exists_and_eq_and, Code.deeds]

/-- A deed of a part is its own, or a part in the same scope has it. -/
theorem mem_deeds {c : Code} {d : Deed} :
    d ∈ c.deeds ↔ d ∈ c.own ∨ ∃ c' ∈ c.near, d ∈ c'.deeds := by
  cases c with
  | stmts body => simp [Code.deeds, Code.own, Code.near, mem_deedsOf]
  | function f => simp [Code.deeds, Code.own, Code.near]
  | expr e =>
    have hparts : (∃ c' ∈ (Code.expr e).near, d ∈ c'.deeds) ↔
        ∃ part ∈ e.parts, ∃ event ∈ part.events .resolution, .event event = d := by
      simp [Code.near, Code.deeds, Expr.deeds]
    rw [hparts]
    simp only [Code.deeds, Code.own, Expr.deeds, List.mem_map, mem_events (e := e)]
    grind
  | stmt s =>
    rw [mem_deeds_near]
    cases s with
    | branch condition thenBranch elseBranch =>
      simp [Code.deeds, Code.own, Stmt.deeds, Stmt.exprs, Stmt.inner, mem_deedsOfStmt?,
        or_and_right, exists_or]
    | loop condition body closer =>
      simp [Code.deeds, Code.own, Stmt.deeds, Stmt.exprs, Stmt.inner, mem_deedsOfExpr?,
        or_and_right, exists_or, or_left_comm, or_comm]
    | _ =>
      simp [Code.deeds, Code.own, Stmt.deeds, Stmt.exprs, Stmt.inner, mem_deedsOfExpr?, or_comm]

/-! ## What deeds do to scopes -/

section Scopes

variable {run : Nat} {context : ClassContext} {S : StaticScopes} {top : StaticScope}

namespace Resolve

variable {α β : Type} (g : α → β) (p : Resolve α)

@[simp] theorem map_value : ((g <$> p) S).value = g (p S).value := rfl

@[simp] theorem map_scopes : ((g <$> p) S).scopes = (p S).scopes := rfl

@[simp] theorem map_diagnostics : ((g <$> p) S).diagnostics = (p S).diagnostics := List.append_nil _

end Resolve

/-- A deed declares its own name, and leaves the scopes as they are otherwise. -/
def Deed.Modest (d : Deed) : Prop :=
  ∀ run context top S, (d.perform run context (top :: S)).scopes = (d.declared?.toList ++ top) :: S

/-- Deeds that are performed one after another declare their names. -/
theorem scopes_mapM {ds : List Deed} (h : ∀ d ∈ ds, d.Modest) :
    (ds.mapM (Deed.perform run context) (top :: S)).scopes =
      ((ds.filterMap Deed.declared?).reverse ++ top) :: S := by
  induction ds generalizing top with
  | nil => rfl
  | cons d rest ih =>
    obtain ⟨hd, hrest⟩ := List.forall_mem_cons.mp h
    rw [List.mapM_cons, bind_scopes, hd, bind_scopes, pure_scopes, ih hrest]
    cases hdeclared : d.declared? <;> simp [hdeclared]

/-- Modest deeds leave the names that they declare. -/
theorem scopes_resolveStmts_of_modest {body : List Stmt} (h : ∀ d ∈ deedsOf body, d.Modest) :
    (resolveStmts run context body (top :: S)).scopes =
      ((declaresOf body).reverse ++ top) :: S := by
  rw [← map_scopes deedsOf, deeds_resolveStmts, scopes_mapM h]
  rfl

/-- Methods leave no name. -/
theorem scopes_resolveMethods {methods : List Method}
    (h : ∀ m f, .mk m f ∈ methods → (Deed.event (.body f)).Modest) :
    (resolveMethods run context methods (top :: S)).scopes = top :: S := by
  induction methods with
  | nil => rfl
  | cons method rest ih =>
    obtain ⟨m, f⟩ := method
    have hf : (f.resolve run context (top :: S)).scopes = top :: S :=
      h m f List.mem_cons_self run context top S
    simp only [resolveMethods, bind_scopes, pure_scopes, hf]
    exact ih fun m f hm => h m f (List.mem_cons_of_mem _ hm)

/-- A function is modest if its body is. -/
theorem modest_body {f : Function} (h : ∀ d ∈ deedsOf f.body, d.Modest) :
    (Deed.event (.body f)).Modest := by
  intro run context top S
  obtain ⟨keyword, origin, params, body⟩ := f
  have h : ∀ d ∈ deedsOf body, d.Modest := h
  simp [Deed.perform, Event.perform, Function.resolve, scopes_resolveStmts_of_modest h,
    Deed.declared?]

/-- So is a block. -/
theorem modest_block {body : List Stmt} (h : ∀ d ∈ deedsOf body, d.Modest) :
    (Deed.whole (.block body)).Modest := by
  intro run context top S
  simp [Deed.perform, Stmt.resolve, scopes_resolveStmts_of_modest h, Deed.declared?]

/-- So is a class if its methods are. -/
theorem modest_classDecl {name : Ident} {superclass : Option NameUse} {methods : List Method}
    (h : ∀ m f, .mk m f ∈ methods → (Deed.event (.body f)).Modest) :
    (Deed.whole (.classDecl name superclass methods)).Modest := by
  intro run context top S
  cases superclass <;> simp [Deed.perform, Stmt.resolve, scopes_resolveMethods h, Deed.declared?]

/-- Every deed of a program is modest. -/
theorem modest_of_mem_deeds {c : Code} {d : Deed} (h : d ∈ c.deeds) : d.Modest := by
  induction c using Code.byChildren generalizing d with
  | intro c ih =>
    rcases mem_deeds.mp h with h | ⟨c', hc', h⟩
    · cases c with
      | stmts body => cases h
      | function f =>
        obtain rfl := List.mem_singleton.mp h
        exact modest_body fun d hd => ih _ .body hd
      | stmt s =>
        cases s with
        | declare mutable name init =>
          obtain rfl := List.mem_singleton.mp h
          exact fun _ _ _ _ => rfl
        | block body =>
          obtain rfl := List.mem_singleton.mp h
          exact modest_block fun d hd => ih _ .block hd
        | classDecl name superclass methods =>
          obtain rfl := List.mem_singleton.mp h
          exact modest_classDecl fun m f hm => ih _ (.method hm) List.mem_cons_self
        | _ => cases h
      | expr e =>
        obtain ⟨event, hevent, rfl⟩ := List.mem_map.mp h
        cases e with
        | var | assign | thisRef | superRef =>
          obtain rfl := List.mem_singleton.mp hevent
          intro run context top S
          simp [Deed.perform, Event.perform, Deed.declared?]
        | lambda name f =>
          have hbody : (Deed.event (.body f)).Modest := ih _ .literal List.mem_cons_self
          cases name with
          | none =>
            obtain rfl := List.mem_singleton.mp hevent
            exact hbody
          | some name =>
            rcases List.mem_cons.mp hevent with rfl | hevent
            · exact fun _ _ _ _ => rfl
            · obtain rfl := List.mem_singleton.mp hevent
              exact hbody
        | _ => cases hevent
    · exact ih c' (child_of_mem_near hc') h

/-- Resolution leaves the name that a deed declares. -/
theorem declared?_perform (d : Deed) : (d.perform run context S).value.declared? = d.declared? := by
  cases d with
  | event event => cases event <;> rfl
  | declare name mutable => rfl
  | whole s =>
    cases s with
    | classDecl name superclass methods => cases superclass <;> rfl
    | _ => rfl

theorem filterMap_mapM (ds : List Deed) :
    (ds.mapM (Deed.perform run context) S).value.filterMap Deed.declared? =
      ds.filterMap Deed.declared? := by
  induction ds generalizing S with
  | nil => rfl
  | cons d rest ih =>
    rw [List.mapM_cons, bind_value, bind_value, pure_value, List.filterMap_cons,
      List.filterMap_cons, declared?_perform, ih]

/-- Resolution leaves the names that statements declare. -/
@[simp] theorem declaresOf_resolveStmts (body : List Stmt) :
    declaresOf (resolveStmts run context body S).value = declaresOf body := by
  rw [declaresOf, ← map_value deedsOf, deeds_resolveStmts, filterMap_mapM]
  rfl

end Scopes

end Lox
