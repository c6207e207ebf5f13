import Lox.Proofs.Evaluation.Activation
import Lox.Proofs.Evaluation.Natives

/-!
# Calls keep what fits

What the bodies of loops and functions, methods with a receiver and values that are given lead to:
from a heap and a scope that fit, to what fits. The scopes that a step opens are asked for in the
chronicle (`Records`).
-/

namespace Lox

open Code

/-! ## Bindings of parameters, methods of a class -/

theorem mem_foldl_put {pairs : List (Ident × Value)} {bindings : Entries Binding}
    {entry : Text × Binding}
    (h : entry ∈ pairs.foldl (fun bindings p => bindings.put p.1.name ⟨true, p.2⟩) bindings) :
    entry ∈ bindings ∨ ∃ p ∈ pairs, entry = (p.1.name, ⟨true, p.2⟩) := by
  induction pairs generalizing bindings with
  | nil => exact .inl h
  | cons pair pairs ih =>
    rcases ih h with hmem | ⟨p, hp, rfl⟩
    · exact (Entries.mem_put hmem).elim (fun heq => .inr ⟨pair, List.mem_cons_self, heq⟩) .inl
    · exact .inr ⟨p, List.mem_cons_of_mem _ hp, rfl⟩

/-- Parameters are bound to arguments, and may be assigned to. -/
theorem mem_argumentBindings {params : List Ident} {arguments : List Value} {name : Text}
    {binding : Binding} (h : (name, binding) ∈ argumentBindings params arguments) :
    (∃ p ∈ params, p.name = name) ∧ binding.value ∈ arguments := by
  rcases mem_foldl_put h with hmem | ⟨⟨p, v⟩, hp, heq⟩
  · cases hmem
  · obtain ⟨rfl, rfl⟩ := Prod.mk.inj heq
    exact ⟨⟨p, (List.of_mem_zip hp).1, rfl⟩, (List.of_mem_zip hp).2⟩

theorem get?_foldl_put {pairs : List (Ident × Value)} {bindings : Entries Binding} {name : Text}
    (h : (∃ b, bindings.get? name = some b) ∨ ∃ p ∈ pairs, p.1.name = name) :
    ∃ b, (pairs.foldl (fun bindings p => bindings.put p.1.name ⟨true, p.2⟩) bindings).get? name =
      some b := by
  induction pairs generalizing bindings with
  | nil => exact h.elim (fun hb => hb) nofun
  | cons pair pairs ih =>
    refine ih ?_
    rw [Entries.get?_put]
    split
    · exact .inl ⟨_, rfl⟩
    · next hne =>
      rcases h with hb | ⟨p, hp, rfl⟩
      · exact .inl hb
      · rcases List.mem_cons.mp hp with rfl | hp
        · exact absurd rfl hne
        · exact .inr ⟨p, hp, rfl⟩

/-- Every parameter is bound if there are as many arguments. -/
theorem get?_argumentBindings {params : List Ident} {arguments : List Value}
    (hlength : arguments.length = params.length) {p : Ident} (hp : p ∈ params) :
    ∃ b, (argumentBindings params arguments).get? p.name = some b := by
  refine get?_foldl_put (.inr ?_)
  obtain ⟨i, hi, rfl⟩ := List.mem_iff_getElem.mp hp
  exact ⟨(params[i], arguments[i]),
    List.mem_iff_getElem.mpr ⟨i, by simp [hi, hlength], by simp⟩, rfl⟩

/-- The entries of a class are its methods. -/
theorem mem_methodEntries {scope : ScopeId} {methods : List Method} {name : Text} {c : Closure}
    (h : (name, c) ∈ methodEntries scope methods) : ∃ m f, .mk m f ∈ methods ∧ c = ⟨f, scope⟩ := by
  have hall : ∀ entry ∈ methodEntries scope methods,
      ∃ m f, .mk m f ∈ methods ∧ entry.2 = ⟨f, scope⟩ := by
    refine List.foldlRecOn (motive :=
      fun entries : Entries Closure =>
      ∀ entry ∈ entries, ∃ m f, .mk m f ∈ methods ∧ entry.2 = ⟨f, scope⟩) methods _ ?_ ?_
    · nofun
    · rintro entries hentries ⟨m, f⟩ hmethod entry hentry
      dsimp only at hentry
      split at hentry
      · exact hentries entry hentry
      · rcases Entries.mem_put hentry with rfl | hentry
        · exact ⟨m, f, hmethod, rfl⟩
        · exact hentries entry hentry
  exact hall (name, c) h

/-- The constructor of a class is one of its methods. -/
theorem constructorOf_eq_some {scope : ScopeId} {methods : List Method} {c : Closure}
    (h : constructorOf scope methods = some c) : ∃ m f, .mk m f ∈ methods ∧ c = ⟨f, scope⟩ := by
  have hall : ∀ c ∈ constructorOf scope methods, ∃ m f, .mk m f ∈ methods ∧ c = ⟨f, scope⟩ := by
    refine List.foldlRecOn (motive :=
      fun found : Option Closure => ∀ c ∈ found, ∃ m f, .mk m f ∈ methods ∧ c = ⟨f, scope⟩)
      methods _ ?_ ?_
    · nofun
    · rintro found hfound ⟨m, f⟩ hmethod c hc
      dsimp only at hc
      split at hc
      · obtain rfl := Option.some.inj hc
        exact ⟨m, f, hmethod, rfl⟩
      · exact hfound c hc
  exact hall c h

namespace Chronicle

/-- The chronicle tells what has opened the scopes that a step makes. -/
def Records (w : Chronicle) (h : Heap) (openers : List Opener) (next : Next) : Prop :=
  ∀ i opener state, next = .running state → h.scopes.size + i < state.heap.scopes.size →
    openers[i]? = some opener → w.opened (h.scopes.size + i) opener

variable {w : Chronicle} {final : List Frame} {h : Heap} {id : ScopeId} {frames : List Frame}
    {depth : Nat} {console : Console}

/-! ## Parts of what is visited -/

/-- The parts of an expression are visited as operands. -/
theorem Visited.operand {e e' : Expr} (he : w.Visited frames (.expr e)) (he' : e' ∈ e.parts) :
    w.Operand frames e' := by
  have hdeclared := declared_of_placed he.tidy.2 he'
  obtain ⟨context, he⟩ := he
  exact ⟨⟨context, he.part he'⟩, hdeclared⟩

theorem Visited.expr {s : Stmt} {e : Expr} (hs : w.Visited frames (.stmt s)) (he : e ∈ s.exprs) :
    w.Visited frames (.expr e) := by
  obtain ⟨context, hs⟩ := hs
  exact ⟨context, hs.expr he⟩

/-- An expression of a statement that is no expression statement and no declaration. -/
theorem Visited.operand_of_stmt {s : Stmt} {e : Expr} (hs : w.Visited frames (.stmt s))
    (he : e ∈ s.exprs) (hevaluate : s ≠ .evaluate e)
    (hdeclare : ∀ mutable name, s ≠ .declare mutable name (some e)) : w.Operand frames e :=
  ⟨hs.expr he, declared_of_exprs hs.tidy.2 he hevaluate hdeclare⟩

/-- Inner statements are visited as branches. -/
theorem Visited.branch {s s' : Stmt} (hs : w.Visited frames (.stmt s)) (hs' : s' ∈ s.inner) :
    w.Branch frames s' := by
  have hdeclared := hs.tidy.1.2 s' hs'
  obtain ⟨context, hs⟩ := hs
  exact ⟨⟨context, hs.inner hs'⟩, hdeclared⟩

/-- What is bound under a name of the program is any value that fits. -/
theorem FitsBinding.of_name {name : Text} (hname : name ∉ reservedNames) {v : Value}
    (hv : w.FitsValue h v) : w.FitsBinding h name v :=
  ⟨hv, fun heq => absurd (heq ▸ thisName_mem_reservedNames) hname,
    fun heq => absurd (heq ▸ superName_mem_reservedNames) hname⟩

/-! ## Going on -/

/-- What fits after more growth fits. -/
theorem FitsNext.of_grows {h' : Heap} (hg : h.Grows h') {next : Next}
    (hn : w.FitsNext final h' next) : w.FitsNext final h next := by
  cases next with
  | running | finished | stopped => exact ⟨hg.trans hn.1, hn.2⟩

/-- A value is given in a heap that has grown. -/
theorem FitsNext.give {h' : Heap} (hg : h.Grows h') (hh' : w.FitsHeap h')
    (hm : w.Mirrors h id frames) {v : Value} (hv : w.FitsValue h' v) {next : ValueCont}
    (hn : w.FitsValueCont final h id frames next) :
    w.FitsNext final h (.running ⟨.give v next, id, depth, h', console⟩) :=
  ⟨hg, hh', frames, hm.mono hg, hv, hn.mono hg⟩

/-! ## Statements that follow -/

section Control

variable (hm : w.Mirrors h id frames)

include hm

/-- A body is entered in a scope of its own. -/
theorem fits_runBody {body : List Stmt} (hbody : w.Visited frames (.stmts body)) {next : StmtCont}
    (hn : ∀ frames', w.FitsStmtCont final h id frames' next) :
    w.FitsControl final h id (runBody body next) := by
  cases body with
  | nil => exact ⟨frames, hm, trivial, hn frames⟩
  | cons s rest =>
    obtain ⟨context, hbody⟩ := hbody
    exact ⟨frames, hm, ⟨context, hbody.first⟩, ⟨context, hbody.next⟩, hn⟩

theorem fits_exec_branch {s : Stmt} (hs : w.Branch frames s) {next : StmtCont}
    (hn : w.FitsStmtCont final h id frames next) : w.FitsControl final h id (.exec s next) :=
  ⟨frames, hm, hs.1, by rwa [hs.2, declareIn_nil]⟩

theorem fits_eval_operand {e : Expr} (he : w.Operand frames e) {next : ValueCont}
    (hn : w.FitsValueCont final h id frames next) : w.FitsControl final h id (.eval e next) :=
  ⟨frames, hm, he.1, by rwa [he.2, declareIn_nil]⟩

theorem fits_runBranch {branch : Option Stmt} (hbranch : ∀ s ∈ branch, w.Branch frames s)
    {next : StmtCont} (hn : w.FitsStmtCont final h id frames next) :
    w.FitsControl final h id (runBranch branch next) := by
  cases branch with
  | none => exact ⟨frames, hm, trivial, hn⟩
  | some s => exact fits_exec_branch hm (hbranch s rfl) hn

theorem fits_loopBody {loop : Loop} (hloop : w.Looping frames loop) {next : StmtCont}
    (hn : w.FitsStmtCont final h id frames next) :
    w.FitsControl final h id (.exec loop.body (.loopBody loop next)) :=
  fits_exec_branch hm (hloop.branch List.mem_cons_self) ⟨hloop, hn⟩

/-- A loop is begun in the frames around it. -/
theorem fits_runLoop {loop : Loop} (hloop : w.Looping frames loop) {next : StmtCont}
    (hn : w.FitsStmtCont final h id frames next) :
    w.FitsControl final h id (runLoop loop next) := by
  obtain ⟨condition, body, closer⟩ := loop
  cases condition with
  | none => exact fits_loopBody hm hloop hn
  | some e =>
    have hoperand : w.Operand frames e := hloop.operand_of_stmt List.mem_cons_self nofun nofun
    exact fits_eval_operand hm hoperand ⟨hloop, hn⟩

theorem fits_closeLoop {loop : Loop} (hloop : w.Looping frames loop) {next : StmtCont}
    (hn : w.FitsStmtCont final h id frames next) :
    w.FitsControl final h id (closeLoop loop next) := by
  obtain ⟨condition, body, closer⟩ := loop
  cases closer with
  | none => exact fits_runLoop hm hloop hn
  | some e =>
    have hoperand : w.Operand frames e :=
      hloop.operand_of_stmt (List.mem_append_right _ List.mem_cons_self) nofun nofun
    exact fits_eval_operand hm hoperand ⟨hloop, hn⟩

end Control

/-! ## Calls -/

/-- A method with a receiver bound is ready to be called. -/
theorem fits_bindMethod (hh : w.FitsHeap h) {receiver : InstanceId}
    (hreceiver : w.FitsValue h (.object receiver)) {c : Closure} (hc : w.FitsMethod h c)
    (hopened : w.opened h.scopes.size (.receiver c.function)) :
    h.Grows (h.bindMethod receiver c).2 ∧ w.FitsHeap (h.bindMethod receiver c).2 ∧
      w.FitsClosure (h.bindMethod receiver c).2 (h.bindMethod receiver c).1 := by
  have hg : h.Grows (h.bindMethod receiver c).2 := Heap.grows_fork ..
  obtain ⟨frames, hvisited, hm⟩ := hc
  refine ⟨hg, hh.fork _ fun name binding hmem => ?_, receiverFrame c.function :: frames,
    hvisited, ?_⟩
  · obtain ⟨rfl, rfl⟩ := Prod.mk.inj (List.mem_singleton.mp hmem)
    exact ⟨hreceiver, fun _ => ⟨receiver, rfl⟩, fun h => absurd h (by decide)⟩
  · refine hm.fork hopened fun d hd => ?_
    obtain rfl := List.mem_singleton.mp hd
    exact ⟨_, rfl⟩

/-- The body of a function starts in a scope that binds its parameters. -/
theorem fits_enter (hh : w.FitsHeap h) (hm : w.Mirrors h id frames) {next : ValueCont}
    (hn : w.FitsValueCont final h id frames next) {c : Closure} (hc : w.FitsClosure h c)
    {arguments : List Value} (harguments : ∀ v ∈ arguments, w.FitsValue h v)
    (hlength : arguments.length = c.arity) (hopened : w.opened h.scopes.size (.call c.function)) :
    w.FitsNext final h (enter c arguments next id depth h console) := by
  obtain ⟨outer, ⟨context, hvisited⟩, houter⟩ := hc
  have hg : h.Grows (h.fork c.scope (argumentBindings c.function.params arguments)).2 :=
    Heap.grows_fork ..
  have hshaped : (Code.function c.function).Shaped := (hvisited.tidy w.made).1
  have hheap : w.FitsHeap (h.fork c.scope (argumentBindings c.function.params arguments)).2 := by
    refine hh.fork _ fun name binding hmem => ?_
    obtain ⟨⟨p, hp, rfl⟩, hvalue⟩ := mem_argumentBindings hmem
    exact .of_name (hshaped p hp) (harguments _ hvalue)
  have hinner :
      w.Mirrors (h.fork c.scope (argumentBindings c.function.params arguments)).2 h.scopes.size
        (⟨.call c.function, parameterScope c.function.params⟩ :: outer) := by
    refine houter.fork hopened fun d hd => ?_
    obtain ⟨p, hp, rfl⟩ := List.mem_map.mp (List.mem_reverse.mp hd)
    exact get?_argumentBindings hlength hp
  exact ⟨hg, hheap, fits_runBody hinner ⟨context, hvisited.body⟩
    fun _ => ⟨frames, hm.mono hg, hn.mono hg⟩⟩

end Chronicle

end Lox
