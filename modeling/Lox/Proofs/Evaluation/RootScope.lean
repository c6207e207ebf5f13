import Lox.Machine.Run
import Lox.Proofs.Evaluation.Runs
import Lox.Proofs.Heap.Relabelling
import Lox.Proofs.Resolution.Marks

/-!
# What a program leaves in the root scope

A name of the root scope comes from a declaration that is evaluated there, and nothing that a block,
a body or a call does adds one or changes whether a name may be assigned to. So a statement of a
program that completes leaves the names of the root scope with its own declarations added, which is
what resolution takes it to leave. One that fails leaves them as they were, because a declaration
comes last: once a name is bound in the root scope, nothing remains to be done that could fail.

While a statement runs, what remains of it **owes** declarations to the root scope: those of the
part that the machine looks at, if it is in the root scope, and one for each value that a
declaration there is waiting for. From step to step all declarations of the statement are owed, and
the names stay as they were, until the first is made. Then the statement is **closing**
(`settles_step`).
-/

namespace Lox

open Code Resolve

/-! ## The names of the root scope -/

namespace Heap

/-- The names of the root scope, with whether they may be assigned to. -/
def rootNames (h : Heap) : StaticScope := (h.bindings root).mapValues Binding.mutable

/-- The root scope declares what it binds. -/
theorem lookup_rootNames (h : Heap) (name : Text) :
    h.rootNames.lookup name = ((h.bindings root).get? name).map Binding.mutable :=
  Entries.get?_mapValues Binding.mutable (h.bindings root) name

/-- A heap has the names of the root scope that another has, and no fewer scopes. -/
structure KeepsRoot (h h' : Heap) : Prop where
  scopes : h.scopes.size ≤ h'.scopes.size
  names : StaticScope.Alike h.rootNames h'.rootNames

variable {h h' : Heap}

/-- A change outside of the scopes keeps the root scope. -/
theorem keepsRoot_of_scopes_eq (hscopes : h'.scopes = h.scopes) : KeepsRoot h h' := by
  refine ⟨hscopes ▸ le_rfl, fun name => ?_⟩
  rw [rootNames, rootNames, bindings, bindings, hscopes]

/-- So does a scope more. -/
theorem keepsRoot_fork (hroot : root < h.scopes.size) (id : ScopeId) (bindings : Entries Binding) :
    KeepsRoot h (h.fork id bindings).2 := by
  refine ⟨by simp [fork], fun name => ?_⟩
  rw [rootNames, rootNames, bindings_fork, if_neg hroot.ne]

/-- A binding in another scope, or in place of one with the same right to assign. -/
theorem keepsRoot_define (id : ScopeId) (name : Text) (mutable : Bool) (v : Value)
    (hkept : id = root → h.rootNames.lookup name = some mutable) :
    KeepsRoot h (h.define id name mutable v) := by
  refine ⟨by simp [define], fun other => ?_⟩
  rw [lookup_rootNames, lookup_rootNames, bindings_define]
  split
  · next hid =>
    obtain ⟨rfl, -⟩ := hid
    rw [Entries.get?_put]
    split
    · next heq =>
      subst heq
      rw [← lookup_rootNames, hkept rfl]
      rfl
    · rfl
  · rfl

/-- A binding in the root scope adds a name. -/
theorem lookup_define_root (hroot : root < h.scopes.size) (name : Text) (mutable : Bool)
    (v : Value) :
    StaticScope.Alike ((name, mutable) :: h.rootNames)
      (h.define root name mutable v).rootNames := by
  intro other
  have hcons := Entries.get?_cons name mutable h.rootNames other
  rw [lookup_rootNames, bindings_define, if_pos ⟨rfl, hroot⟩, Entries.get?_put]
  refine hcons.trans ?_
  split
  · rfl
  · exact lookup_rootNames h other

end Heap

/-! ## Parts that are evaluated in the root scope -/

/-- The names that a part declares, if it is one that a step looks at. -/
def Code.declared : Code → StaticScope
  | .expr e => e.declared
  | .stmt s => s.declared
  | .stmts _ | .function _ => []

/-- A part that resolution made without a report. -/
def Checked (c : Code) : Prop := ∃ context top S, Made context (top :: S) c

/-- The parts of an expression are checked and declare nothing. -/
theorem Checked.part {e part : Expr} (h : Checked (.expr e)) (hpart : part ∈ e.parts) :
    Checked (.expr part) ∧ part.declared = [] := by
  obtain ⟨context, top, S, hmade⟩ := h
  exact ⟨⟨context, top, S, hmade.part hpart⟩, declared_of_placed hmade.tidy.2 hpart⟩

/-- The expressions of a statement are checked. -/
theorem Checked.expr {s : Stmt} {e : Expr} (h : Checked (.stmt s)) (he : e ∈ s.exprs) :
    Checked (.expr e) := by
  obtain ⟨context, top, S, hmade⟩ := h
  exact ⟨context, top, S, hmade.expr he⟩

/-- They declare nothing, unless the statement is the expression itself or declares its value. -/
theorem Checked.operand {s : Stmt} {e : Expr} (h : Checked (.stmt s)) (he : e ∈ s.exprs)
    (hevaluate : s ≠ .evaluate e) (hdeclare : ∀ mutable name, s ≠ .declare mutable name (some e)) :
    Checked (.expr e) ∧ e.declared = [] := by
  refine ⟨h.expr he, ?_⟩
  obtain ⟨context, top, S, hmade⟩ := h
  exact declared_of_exprs hmade.tidy.2 he hevaluate hdeclare

/-- Inner statements are checked and declare nothing. -/
theorem Checked.inner {s s' : Stmt} (h : Checked (.stmt s)) (hs' : s' ∈ s.inner) :
    Checked (.stmt s') ∧ s'.declared = [] := by
  obtain ⟨context, top, S, hmade⟩ := h
  exact ⟨⟨context, top, S, hmade.inner hs'⟩, hmade.tidy.1.2 s' hs'⟩

/-- Names that are declared in a scope, as far as it is the root scope. -/
def rootOnly (id : ScopeId) (names : StaticScope) : StaticScope :=
  if id = Heap.root then names else []

@[simp] theorem rootOnly_nil (id : ScopeId) : rootOnly id [] = [] := by
  simp [rootOnly]

theorem rootOnly_append (id : ScopeId) (names names' : StaticScope) :
    rootOnly id (names ++ names') = rootOnly id names ++ rootOnly id names' := by
  unfold rootOnly
  split <;> rfl

/-- A part that is evaluated in a scope has been checked, if the scope is the root scope. -/
def CheckedAt (id : ScopeId) (c : Code) : Prop := id = Heap.root → Checked c

/-- A part that is evaluated in a scope adds no name to the root scope itself. -/
def Quiet (id : ScopeId) (c : Code) : Prop := id = Heap.root → Checked c ∧ c.declared = []

/-- What declares nothing in the root scope is checked there. -/
theorem Quiet.checkedAt {id : ScopeId} {c : Code} (h : Quiet id c) : CheckedAt id c :=
  fun hid => (h hid).1

theorem Quiet.rootOnly_declared {id : ScopeId} {c : Code} (h : Quiet id c) :
    rootOnly id c.declared = [] := by
  unfold rootOnly
  split
  · next hid => exact (h hid).2
  · rfl

theorem CheckedAt.part {id : ScopeId} {e part : Expr} (h : CheckedAt id (.expr e))
    (hpart : part ∈ e.parts) : Quiet id (.expr part) := fun hid => (h hid).part hpart

theorem CheckedAt.operand {id : ScopeId} {s : Stmt} {e : Expr} (h : CheckedAt id (.stmt s))
    (he : e ∈ s.exprs) (hevaluate : s ≠ .evaluate e)
    (hdeclare : ∀ mutable name, s ≠ .declare mutable name (some e)) : Quiet id (.expr e) :=
  fun hid => (h hid).operand he hevaluate hdeclare

theorem CheckedAt.inner {id : ScopeId} {s s' : Stmt} (h : CheckedAt id (.stmt s))
    (hs' : s' ∈ s.inner) : Quiet id (.stmt s') := fun hid => (h hid).inner hs'

/-- A loop that is evaluated in a scope. -/
def Loop.CheckedAt (loop : Loop) (id : ScopeId) : Prop :=
  Lox.CheckedAt id (.stmt (.loop loop.condition loop.body loop.closer))

/-! ## What a continuation owes -/

mutual

/-- What waits in a continuation adds no name to the root scope, but for a value that is bound there
at the very end. A list of statements waits in another scope. -/
def ValueCont.Calm : ValueCont → ScopeId → Prop
  | .unary _ _ next, id | .binaryRight _ _ _ next, id | .assign _ next, id | .activation next, id
  | .construct _ next, id | .get _ next, id | .getKey _ _ next, id | .index _ _ next, id
  | .setField _ _ next, id | .setElement _ _ _ next, id => next.Calm id
  | .binaryLeft _ _ waiting next, id | .logical _ waiting next, id
  | .getKeyObject _ waiting next, id | .indexObject waiting _ next, id
  | .setObject _ waiting next, id | .setKey _ _ waiting next, id | .setIndex _ _ waiting next, id =>
    Quiet id (.expr waiting) ∧ next.Calm id
  | .setKeyObject _ first second next, id | .setIndexObject first _ second next, id =>
    Quiet id (.expr first) ∧ Quiet id (.expr second) ∧ next.Calm id
  | .callee rest _ next, id | .argument _ _ rest _ next, id | .element _ rest next, id =>
    (∀ e ∈ rest, Quiet id (.expr e)) ∧ next.Calm id
  | .field _ _ rest next, id => (∀ f ∈ rest, Quiet id (.expr f.value)) ∧ next.Calm id
  | .discard next, id | .print next, id | .ret _ next, id => next.Calm id
  | .declare _ _ next, id => (id = Heap.root → next = .done) ∧ next.Calm id
  | .branch thenBranch elseBranch next, id =>
    (∀ s ∈ thenBranch, Quiet id (.stmt s)) ∧ (∀ s ∈ elseBranch, Quiet id (.stmt s)) ∧ next.Calm id
  | .loopTest loop next, id | .loopCloser loop next, id => loop.CheckedAt id ∧ next.Calm id

@[inherit_doc ValueCont.Calm]
def StmtCont.Calm : StmtCont → ScopeId → Prop
  | .done, _ => True
  | .statements _ next, id => id ≠ Heap.root ∧ next.Calm id
  | .leave outer next, _ => next.Calm outer
  | .loopBody loop next, id => loop.CheckedAt id ∧ next.Calm id
  | .functionBody caller next, _ => next.Calm caller

end

mutual

/-- The names that a continuation will add to the root scope, the latest first. -/
def ValueCont.owed : ValueCont → ScopeId → StaticScope
  | .unary _ _ next, id | .binaryRight _ _ _ next, id | .assign _ next, id | .activation next, id
  | .construct _ next, id | .get _ next, id | .getKey _ _ next, id | .index _ _ next, id
  | .setField _ _ next, id | .setElement _ _ _ next, id | .binaryLeft _ _ _ next, id
  | .logical _ _ next, id | .getKeyObject _ _ next, id | .indexObject _ _ next, id
  | .setObject _ _ next, id | .setKey _ _ _ next, id | .setIndex _ _ _ next, id
  | .setKeyObject _ _ _ next, id | .setIndexObject _ _ _ next, id | .callee _ _ next, id
  | .argument _ _ _ _ next, id | .element _ _ next, id | .field _ _ _ next, id => next.owed id
  | .discard next, id | .print next, id | .ret _ next, id | .branch _ _ next, id
  | .loopTest _ next, id | .loopCloser _ next, id => next.owed id
  | .declare mutable name next, id => next.owed id ++ rootOnly id [(name, mutable)]

@[inherit_doc ValueCont.owed]
def StmtCont.owed : StmtCont → ScopeId → StaticScope
  | .done, _ => []
  | .statements _ next, id | .loopBody _ next, id => next.owed id
  | .leave outer next, _ => next.owed outer
  | .functionBody caller next, _ => next.owed caller

end

/-- A value ends a statement: it is dropped or bound, and nothing else remains. -/
def ValueCont.IsLast : ValueCont → Prop
  | .discard .done | .declare _ _ .done => True
  | _ => False

/-- Nothing remains to be done that could fail. -/
def Control.Closes : Control → Prop
  | .give _ next => next.IsLast
  | .finish .normal .done => True
  | _ => False

/-- What the machine looks at has been checked where it matters, and so has what waits. What
declares a name in the root scope is the last thing to be done. -/
def Control.Calm (id : ScopeId) : Control → Prop
  | .eval e next =>
    CheckedAt id (.expr e) ∧ next.Calm id ∧ (id = Heap.root → e.declared ≠ [] → next.IsLast)
  | .exec s next =>
    CheckedAt id (.stmt s) ∧ next.Calm id ∧ (id = Heap.root → s.declared ≠ [] → next = .done)
  | .give _ next => next.Calm id
  | .finish _ next => next.Calm id

/-- The names that what the machine looks at and what waits will add to the root scope, the latest
first. -/
def Control.owed (id : ScopeId) : Control → StaticScope
  | .eval e next => next.owed id ++ rootOnly id e.declared
  | .exec s next => next.owed id ++ rootOnly id s.declared
  | .give _ next => next.owed id
  | .finish _ next => next.owed id

/-- A statement still owes all names that it declares, and the root scope has those that it had at
first. -/
structure Pending (all first : StaticScope) (h : Heap) (calm : Prop) (owed : StaticScope) :
    Prop where
  root : Heap.root < h.scopes.size
  calm : calm
  owed : owed = all
  names : StaticScope.Alike first h.rootNames

/-- A statement has made some of its declarations in the root scope, and cannot fail any more. -/
structure Closing (all first : StaticScope) (s : State) : Prop where
  root : Heap.root < s.heap.scopes.size
  scope : s.scope = Heap.root
  closes : s.control.Closes
  names : ∃ made, s.control.owed s.scope ++ made = all ∧
    StaticScope.Alike (made ++ first) s.heap.rootNames

/-- A statement that finishes has made all its declarations, and finishes in the normal way if it
had any. -/
structure Fulfilled (all first : StaticScope) (signal : Signal) (h : Heap) : Prop where
  root : Heap.root < h.scopes.size
  names : StaticScope.Alike (all ++ first) h.rootNames
  normal : signal = .normal ∨ all = []

/-- A step leaves all declarations to be made or leads towards the end. A statement that stops has
made none. -/
def Next.Settles (all first : StaticScope) : Next → Prop
  | .running s =>
    Pending all first s.heap (s.control.Calm s.scope) (s.control.owed s.scope) ∨ Closing all first s
  | .finished signal heap _ => Fulfilled all first signal heap
  | .stopped _ heap _ => StaticScope.Alike first heap.rootNames

/-! ## Steps -/

section Steps

variable {all first : StaticScope} {h h' : Heap} {calm : Prop} {owed : StaticScope} {id : ScopeId}

/-- Declarations stay pending while the root scope stays as it is. -/
theorem Pending.keeps (hp : Pending all first h calm owed) (hkeeps : Heap.KeepsRoot h h') :
    Pending all first h' calm owed :=
  ⟨hp.root.trans_le hkeeps.scopes, hp.calm, hp.owed,
    fun name => (hp.names name).trans (hkeeps.names name)⟩

/-- A declaration in the root scope closes the statement, and one in another scope changes
nothing. -/
theorem Pending.define {c : Control} {name : Text} {mutable : Bool} (v : Value) (depth : Nat)
    (console : Console)
    (hp : Pending all first h (c.Calm id) (c.owed id ++ rootOnly id [(name, mutable)]))
    (hcloses : id = Heap.root → c.Closes) :
    (Next.running ⟨c, id, depth, h.define id name mutable v, console⟩).Settles all first := by
  by_cases hid : id = Heap.root
  · subst hid
    refine .inr ⟨by simpa [Heap.define] using hp.root, rfl, hcloses rfl, [(name, mutable)], hp.owed,
      fun other => ?_⟩
    exact (hp.names.append [(name, mutable)] other).trans
      (Heap.lookup_define_root hp.root name mutable v other)
  · rw [rootOnly, if_neg hid, List.append_nil] at hp
    exact .inl (hp.keeps (Heap.keepsRoot_define id name mutable v fun hroot => absurd hroot hid))

/-- What comes last is a statement of its own or a declaration. -/
theorem ValueCont.IsLast.cases {k : ValueCont} (h : k.IsLast) :
    k = .discard .done ∨ ∃ mutable name, k = .declare mutable name .done := by
  unfold ValueCont.IsLast at h
  split at h
  · exact .inl rfl
  · next mutable name => exact .inr ⟨mutable, name, rfl⟩
  · exact h.elim

/-- A statement closes with its last value, or when it is finished. -/
theorem Control.Closes.cases {c : Control} (h : c.Closes) :
    (∃ v k, c = .give v k ∧ k.IsLast) ∨ c = .finish .normal .done := by
  unfold Control.Closes at h
  split at h
  · next v k => exact .inl ⟨v, k, rfl, h⟩
  · exact .inr rfl
  · exact h.elim

/-- What closes a statement makes the declarations that are left. -/
theorem Closing.step {s : State} (hc : Closing all first s) (limit : Nat) :
    (step limit s).Settles all first := by
  obtain ⟨control, id, depth, h, console⟩ := s
  obtain ⟨hroot, hid, hcloses, made, hmade, hnames⟩ := hc
  dsimp only at hroot hid hcloses hmade hnames
  subst hid
  obtain ⟨v, k, rfl, hlast⟩ | rfl := hcloses.cases
  · obtain rfl | ⟨mutable, name, rfl⟩ := hlast.cases
    · exact .inr ⟨hroot, rfl, trivial, made, hmade, hnames⟩
    · refine .inr ⟨by simpa [Heap.define] using hroot, rfl, trivial, (name, mutable) :: made, hmade,
        fun other => ?_⟩
      exact (hnames.append [(name, mutable)] other).trans
        (Heap.lookup_define_root hroot name mutable v other)
  · obtain rfl : made = all := hmade
    exact ⟨hroot, hnames, .inl rfl⟩

/-! ### Turns -/

section Turns

variable {c c' : Control} {k : ValueCont} {m : StmtCont}

/-- What declares nothing can be looked at whatever waits. -/
theorem calm_eval {e : Expr} (he : Quiet id (.expr e)) (hk : k.Calm id) :
    (Control.eval e k).Calm id ∧ (Control.eval e k).owed id = k.owed id := by
  refine ⟨⟨he.checkedAt, hk, fun hid hsome => absurd (he hid).2 hsome⟩, ?_⟩
  have hnone : rootOnly id e.declared = [] := he.rootOnly_declared
  rw [Control.owed, hnone, List.append_nil]

/-- A statement that is quiet owes nothing of its own. -/
theorem calm_exec {s : Stmt} (hs : Quiet id (.stmt s)) (hm : m.Calm id) :
    (Control.exec s m).Calm id ∧ (Control.exec s m).owed id = m.owed id := by
  refine ⟨⟨hs.checkedAt, hm, fun hid hsome => absurd (hs hid).2 hsome⟩, ?_⟩
  have hnone : rootOnly id s.declared = [] := hs.rootOnly_declared
  rw [Control.owed, hnone, List.append_nil]

/-- All that an expression owes that declares nothing waits in its continuation. -/
theorem owed_eval {e : Expr} (hnone : e.declared = []) :
    (Control.eval e k).owed id = k.owed id := by
  rw [Control.owed, hnone, rootOnly_nil, List.append_nil]

theorem owed_exec {s : Stmt} (hnone : s.declared = []) :
    (Control.exec s m).owed id = m.owed id := by
  rw [Control.owed, hnone, rootOnly_nil, List.append_nil]

/-- A part of an expression that declares nothing is looked at, for a continuation that owes what it
did. -/
theorem Control.Calm.part {e part : Expr} {k' : ValueCont} (hc : (Control.eval e k).Calm id)
    (hpart : part ∈ e.parts) (hnone : e.declared = []) (hk' : k'.Calm id)
    (howed : k'.owed id = k.owed id) :
    (Control.eval part k').Calm id ∧ (Control.eval part k').owed id =
      (Control.eval e k).owed id := by
  obtain ⟨hcalm, heq⟩ := calm_eval (hc.1.part hpart) hk'
  exact ⟨hcalm, by rw [heq, howed, owed_eval hnone]⟩

/-- The same, for an expression of a statement. -/
theorem calm_operand {s : Stmt} {e : Expr} (he : Quiet id (.expr e)) (hnone : s.declared = [])
    (hk : k.Calm id) (howed : k.owed id = m.owed id) :
    (Control.eval e k).Calm id ∧ (Control.eval e k).owed id = (Control.exec s m).owed id := by
  obtain ⟨hcalm, heq⟩ := calm_eval he hk
  exact ⟨hcalm, by rw [heq, howed, owed_exec hnone]⟩

/-- The body of a block or a function is never in the root scope. -/
theorem calm_runBody (hm : m.Calm id) (hid : id ≠ Heap.root) (body : List Stmt) :
    (runBody body m).Calm id ∧ (runBody body m).owed id = m.owed id := by
  cases body with
  | nil => exact ⟨hm, rfl⟩
  | cons s rest =>
    exact calm_exec (m := .statements rest m) (fun hroot => absurd hroot hid) ⟨hid, hm⟩

/-- A branch owes nothing of its own. -/
theorem calm_runBranch (hm : m.Calm id) {branch : Option Stmt}
    (hbranch : ∀ s ∈ branch, Quiet id (.stmt s)) :
    (runBranch branch m).Calm id ∧ (runBranch branch m).owed id = m.owed id := by
  cases branch with
  | none => exact ⟨hm, rfl⟩
  | some s => exact calm_exec (hbranch s rfl) hm

section Loops

variable {loop : Loop} (hm : m.Calm id) (hloop : loop.CheckedAt id)

include hm hloop

theorem calm_loopBody : (Control.exec loop.body (.loopBody loop m)).Calm id ∧
    (Control.exec loop.body (.loopBody loop m)).owed id = m.owed id :=
  calm_exec (m := .loopBody loop m) (CheckedAt.inner hloop List.mem_cons_self) ⟨hloop, hm⟩

/-- Nor does a turn of a loop. -/
theorem calm_runLoop : (runLoop loop m).Calm id ∧ (runLoop loop m).owed id = m.owed id := by
  unfold runLoop
  cases hcondition : loop.condition with
  | none => exact calm_loopBody hm hloop
  | some condition =>
    have hmem : condition ∈ (Stmt.loop loop.condition loop.body loop.closer).exprs := by
      simp [Stmt.exprs, hcondition]
    exact calm_eval (k := .loopTest loop m)
      (CheckedAt.operand hloop hmem (by simp) (by simp)) ⟨hloop, hm⟩

theorem calm_closeLoop : (closeLoop loop m).Calm id ∧ (closeLoop loop m).owed id = m.owed id := by
  unfold closeLoop
  cases hcloser : loop.closer with
  | none => exact calm_runLoop hm hloop
  | some closer =>
    have hmem : closer ∈ (Stmt.loop loop.condition loop.body loop.closer).exprs := by
      simp [Stmt.exprs, hcloser]
    exact calm_eval (k := .loopCloser loop m)
      (CheckedAt.operand hloop hmem (by simp) (by simp)) ⟨hloop, hm⟩

end Loops

/-- A turn owes what was owed. -/
theorem Turn.calms (hturn : Turn id h c c') (hc : c.Calm id) :
    c'.Calm id ∧ c'.owed id = c.owed id := by
  cases hturn with
  | literal | var | thisRef => exact ⟨hc.2.1, (owed_eval rfl).symm⟩
  | function => exact ⟨hc.2.1, (owed_eval (by simp [Expr.declared])).symm⟩
  | grouping | unary | assign | get => exact hc.part List.mem_cons_self rfl hc.2.1 rfl
  | binary | logical | getKey | index | set =>
    have hright := hc.1.part (List.mem_cons_of_mem _ List.mem_cons_self)
    exact hc.part List.mem_cons_self rfl ⟨hright, hc.2.1⟩ rfl
  | setKey | setIndex =>
    have hkey := hc.1.part (List.mem_cons_of_mem _ List.mem_cons_self)
    have hvalue := hc.1.part (List.mem_cons_of_mem _ (List.mem_cons_of_mem _ List.mem_cons_self))
    exact hc.part List.mem_cons_self rfl ⟨hkey, hvalue, hc.2.1⟩ rfl
  | call | list =>
    exact hc.part List.mem_cons_self rfl
      ⟨fun e he => hc.1.part (List.mem_cons_of_mem _ he), hc.2.1⟩ rfl
  | object =>
    exact hc.part List.mem_cons_self rfl
      ⟨fun f hf => hc.1.part (List.mem_cons_of_mem _ (List.mem_map_of_mem hf)), hc.2.1⟩ rfl
  | unaryGiven | binaryGiven | item | constructed | discard | retGiven => exact ⟨hc, rfl⟩
  | settled | loopFalse | loopBroke | loopReturned | skipped => exact ⟨hc.2, rfl⟩
  | unsettled | binaryLeft | getKeyObject | indexObject | setKeyObject | setIndexObject
  | assignable =>
    exact calm_eval hc.1 hc.2
  | callee | argument | field | element =>
    obtain ⟨hrest, hk⟩ := hc
    rw [List.forall_mem_cons] at hrest
    exact calm_eval hrest.1 ⟨hrest.2, hk⟩
  | writes hwrites => cases hwrites <;> exact calm_eval hc.1 hc.2
  | chosen =>
    refine calm_runBranch hc.2.2 ?_
    split
    · exact hc.1
    · exact hc.2.1
  | loopTrue => exact calm_loopBody hc.2 hc.1
  | loopCloser => exact calm_runLoop hc.2 hc.1
  | evaluate =>
    obtain ⟨hs, hm, hlast⟩ := hc
    refine ⟨⟨fun hid => (hs hid).expr List.mem_cons_self, hm, fun hid hsome => ?_⟩, rfl⟩
    rw [hlast hid hsome]
    trivial
  | print | ret =>
    exact calm_operand (hc.1.operand List.mem_cons_self (by simp) (by simp)) rfl hc.2.1 rfl
  | @declare mutable name e =>
    obtain ⟨hs, hm, hlast⟩ := hc
    have hdone : id = Heap.root → _ = StmtCont.done := fun hid => hlast hid (List.cons_ne_nil _ _)
    refine ⟨⟨fun hid => (hs hid).expr List.mem_cons_self, ⟨hdone, hm⟩, fun hid _ => ?_⟩, ?_⟩
    · rw [hdone hid]
      trivial
    · have hsplit : rootOnly id (Stmt.declare mutable name (some e)).declared =
          rootOnly id [(name.name, mutable)] ++ rootOnly id e.declared :=
        rootOnly_append id [(name.name, mutable)] e.declared
      rw [Control.owed, Control.owed, hsplit, ← List.append_assoc]
      rfl
  | @branch e thenBranch elseBranch =>
    have hthen : ∀ s ∈ thenBranch, Quiet id (.stmt s) := fun s hmem =>
      hc.1.inner (List.mem_append_left _ (Option.mem_toList.mpr hmem))
    have helse : ∀ s ∈ elseBranch, Quiet id (.stmt s) := fun s hmem =>
      hc.1.inner (List.mem_append_right _ (Option.mem_toList.mpr hmem))
    exact calm_operand (hc.1.operand List.mem_cons_self (by simp) (by simp)) rfl
      ⟨hthen, helse, hc.2.1⟩ rfl
  | @loop condition body closer =>
    have hloop : Loop.CheckedAt ⟨condition, body, closer⟩ id := hc.1
    obtain ⟨hcalm, heq⟩ := calm_runLoop hc.2.1 hloop
    exact ⟨hcalm, by rw [heq, owed_exec rfl]⟩
  | retNil | brk | cont => exact ⟨hc.2.1, (owed_exec rfl).symm⟩
  | statements => exact calm_runBody hc.2 hc.1 _
  | loopNormal | loopContinued => exact calm_closeLoop hc.2 hc.1

end Turns

/-! ### Transitions -/

/-- Only a binding that may be assigned to is, and it stays one. -/
theorem keepsRoot_target {distance : Nat} {name : Ident} {outer : ScopeId} (v : Value)
    (htarget : h.target id distance name = .ok outer) :
    h.KeepsRoot (h.define outer name.name true v) := by
  refine Heap.keepsRoot_define outer name.name true v fun hid => ?_
  subst hid
  unfold Heap.target Heap.find at htarget
  cases hancestor : h.ancestor? id distance with
  | none => simp [hancestor] at htarget
  | some found =>
    cases hbinding : (h.bindings found).get? name.name with
    | none => simp [hancestor, hbinding] at htarget
    | some binding =>
      cases hmutable : binding.mutable with
      | false => simp [hancestor, hbinding, hmutable] at htarget
      | true =>
        simp only [hancestor, hbinding, hmutable, if_true, Except.ok.injEq] at htarget
        rw [Heap.lookup_rootNames, ← htarget, hbinding, Option.map_some, hmutable]

section Transitions

variable {c : Control} {k : ValueCont} {depth : Nat} {console : Console}
  (hp : Pending all first h (c.Calm id) (c.owed id))

include hp

/-- What waits for a value owes what was owed. -/
theorem Pending.given (hcalm : c.Calm id → k.Calm id) (howed : c.owed id = k.owed id) :
    Pending all first h (k.Calm id) (k.owed id) :=
  ⟨hp.root, hcalm hp.calm, howed ▸ hp.owed, hp.names⟩

/-- A call owes what its continuation owes. -/
theorem Pending.calls {callee : Value} {arguments : List Value} {paren : Span}
    (hcalls : c.Calls h callee arguments paren k) :
    Pending all first h (k.Calm id) (k.owed id) := by
  cases hcalls <;> exact hp.given And.right rfl

/-- So does the reading of a property. -/
theorem Pending.reads {owner : Value} {name : Text} {blame : Span}
    (hreads : c.Reads h owner name blame k) : Pending all first h (k.Calm id) (k.owed id) := by
  cases hreads <;> exact hp.given (fun hk => hk) rfl

theorem Pending.supers {superclass : ClassId} {receiver : InstanceId} {method : Ident}
    (hsupers : c.Supers id h superclass receiver method k) :
    Pending all first h (k.Calm id) (k.owed id) := by
  cases hsupers
  exact hp.given (fun hk => hk.2.1) (owed_eval rfl)

theorem Pending.gathers {entries : Entries Value} (hgathers : c.Gathers entries k) :
    Pending all first h (k.Calm id) (k.owed id) := by
  cases hgathers with
  | none => exact hp.given (fun hk => hk.2.1) (owed_eval rfl)
  | last => exact hp.given And.right rfl

theorem Pending.lists {elements : List Value} (hlists : c.Lists elements k) :
    Pending all first h (k.Calm id) (k.owed id) := by
  cases hlists with
  | none => exact hp.given (fun hk => hk.2.1) (owed_eval rfl)
  | last => exact hp.given And.right rfl

omit hp in
/-- The body of a function is evaluated in a scope of its own. -/
theorem settles_enter (hp : Pending all first h (k.Calm id) (k.owed id)) (callee : Closure)
    (arguments : List Value) : (enter callee arguments k id depth h console).Settles all first := by
  have hlater := hp.keeps (Heap.keepsRoot_fork hp.root callee.scope
    (argumentBindings callee.function.params arguments))
  obtain ⟨hcalm, howed⟩ :=
    calm_runBody (m := .functionBody id k) hp.calm hp.root.ne' callee.function.body
  exact .inl ⟨hlater.root, hcalm, howed.trans hp.owed, hlater.names⟩

/-- What a transition does to the names of the root scope. -/
theorem Transition.settles {limit : Nat} {next : Next}
    (htrans : Transition limit id depth h console c next) : next.Settles all first := by
  -- a class in the heap changes no scope, so only the binding of its name counts
  have hclass : ∀ {h : Heap} (made : ClassDef), h.KeepsRoot (h.newClass made).2 :=
    fun made => Heap.keepsRoot_of_scopes_eq rfl
  cases htrans with
  | turn hturn =>
    obtain ⟨hcalm, howed⟩ := hturn.calms hp.calm
    exact .inl ⟨hp.root, hcalm, howed.trans hp.owed, hp.names⟩
  | fails => exact hp.names
  | finished =>
    obtain rfl : [] = all := hp.owed
    exact ⟨hp.root, hp.names, .inr rfl⟩
  | lambda =>
    refine Pending.define (c := .give _ _) _ _ _ ⟨hp.root, hp.calm.2.1, hp.owed, hp.names⟩
      fun hid => ?_
    exact hp.calm.2.2 hid (List.cons_ne_nil _ _)
  | declareNil =>
    refine Pending.define (c := .finish .normal _) _ _ _ ⟨hp.root, hp.calm.2.1, hp.owed, hp.names⟩
      fun hid => ?_
    exact hp.calm.2.2 hid (List.cons_ne_nil _ _) ▸ trivial
  | declare =>
    refine Pending.define (c := .finish .normal _) _ _ _ ⟨hp.root, hp.calm.2, hp.owed, hp.names⟩
      fun hid => ?_
    exact hp.calm.1 hid ▸ trivial
  | assign htarget =>
    exact .inl ((hp.given (fun hk => hk) rfl).keeps (keepsRoot_target _ htarget))
  | classDecl =>
    refine Pending.define (c := .finish .normal _) _ _ _
      (Pending.keeps ⟨hp.root, hp.calm.2.1, hp.owed, hp.names⟩ (hclass _)) fun hid => ?_
    exact hp.calm.2.2 hid (List.cons_ne_nil _ _) ▸ trivial
  | @subclass _ _ _ _ parent =>
    have hforked := Heap.keepsRoot_fork hp.root id [(superName, ⟨false, .classRef parent⟩)]
    refine Pending.define (c := .finish .normal _) _ _ _
      ((Pending.keeps ⟨hp.root, hp.calm.2.1, hp.owed, hp.names⟩ hforked).keeps (hclass _))
      fun hid => ?_
    exact hp.calm.2.2 hid (List.cons_ne_nil _ _) ▸ trivial
  | object hgathers => exact .inl ((hp.gathers hgathers).keeps (Heap.keepsRoot_of_scopes_eq rfl))
  | list hlists => exact .inl ((hp.lists hlists).keeps (Heap.keepsRoot_of_scopes_eq rfl))
  | setField | setElement =>
    exact .inl ((hp.given (fun hk => hk) rfl).keeps (Heap.keepsRoot_of_scopes_eq rfl))
  | @property _ _ _ _ _ p hreads =>
    cases p with
    | own v => exact .inl (hp.reads hreads)
    | method m => exact .inl ((hp.reads hreads).keeps (Heap.keepsRoot_fork hp.root m.scope _))
  | superMethod hsupers => exact .inl ((hp.supers hsupers).keeps (Heap.keepsRoot_fork hp.root _ _))
  | superIdle hsupers => exact .inl ((hp.supers hsupers).keeps (Heap.keepsRoot_of_scopes_eq rfl))
  | enter hcalls =>
    have hlater := hp.calls hcalls
    exact settles_enter (k := .activation _) hlater _ _
  | @construct _ made _ _ _ _ hcalls =>
    have hmade :=
      (hp.calls hcalls).keeps
        (Heap.keepsRoot_of_scopes_eq (rfl : (h.newInstance (some made) []).2.scopes = h.scopes))
    exact settles_enter (k := .construct _ (.activation _))
      (hmade.keeps (Heap.keepsRoot_fork hmade.root _ _)) _ _
  | «instance» hcalls => exact .inl ((hp.calls hcalls).keeps (Heap.keepsRoot_of_scopes_eq rfl))
  | @native _ b arguments paren _ _ hcalls =>
    have hscopes := (b.effect_call arguments paren h console).scopes
    exact .inl ((hp.calls hcalls).keeps (Heap.keepsRoot_of_scopes_eq hscopes))
  | @nativeFails _ b arguments paren _ _ hcalls =>
    have hscopes := (b.effect_call arguments paren h console).scopes
    exact ((hp.calls hcalls).keeps (Heap.keepsRoot_of_scopes_eq hscopes)).names
  | idle hcalls => exact .inl (hp.calls hcalls)
  | block =>
    have hlater := hp.keeps (Heap.keepsRoot_fork hp.root id [])
    have howed := (owed_exec rfl).symm.trans hp.owed
    obtain ⟨hcalm, heq⟩ := calm_runBody (m := .leave id _) hp.calm.2.1 hp.root.ne' _
    exact .inl ⟨hlater.root, hcalm, heq.trans howed, hlater.names⟩
  | leave | bodyEnd | bodyReturn | activation | print => exact .inl hp

end Transitions

/-- A step makes the declarations of a statement last, or leaves them all to be made. -/
theorem settles_step (limit : Nat) {s : State} (hp : (Next.running s).Settles all first) :
    (step limit s).Settles all first := by
  obtain hp | hclosing := hp
  · exact (transition_step limit s).settles hp
  · exact hclosing.step limit

end Steps

/-! ## Runs -/

/-- A run settles what its first state has pending. -/
theorem settles_runFor (limit budget : Nat) {all first : StaticScope} {s : State}
    (hp : (Next.running s).Settles all first) : (runFor limit budget s).Settles all first := by
  apply invariant_runFor
  · exact hp
  · intro m _ s' _ hsettles
    exact settles_step limit hsettles

section Statement

variable {s : Stmt} {h : Heap} (hs : Checked (.stmt s)) (hroot : Heap.root < h.scopes.size)

include hs hroot

/-- The run of a statement makes all declarations of the statement, or stops before the first. -/
theorem settles_runStmt (limit budget : Nat) (console : Console) :
    (runFor limit budget (.ofStmt s h console)).Settles s.declared h.rootNames :=
  settles_runFor limit budget (.inl ⟨hroot, ⟨fun _ => hs, trivial, fun _ _ => rfl⟩, rfl, .refl _⟩)

variable {limit budget : Nat} {h' : Heap} {console console' : Console}

/-- A statement of a program that completes leaves the names of the root scope with its own
added. -/
theorem rootNames_runStmt (hrun : runStmt limit budget s h console = ⟨.completed, h', console'⟩) :
    Heap.root < h'.scopes.size ∧ StaticScope.Alike (s.declared ++ h.rootNames) h'.rootNames := by
  have hend := settles_runStmt hs hroot limit budget console
  rw [Next.ended_eq_completed hrun] at hend
  exact ⟨hend.root, hend.names⟩

/-- A statement of a program that fails leaves the names of the root scope as they were. -/
theorem rootNames_runStmt_stopped {stop : Stop}
    (hrun : runStmt limit budget s h console = ⟨.stopped stop, h', console'⟩) :
    StaticScope.Alike h.rootNames h'.rootNames := by
  have hend := settles_runStmt hs hroot limit budget console
  unfold runStmt at hrun
  generalize runFor limit budget (.ofStmt s h console) = next at hend hrun
  cases next with
  | running s' => cases hrun
  | stopped stop' heap console'' =>
    cases hrun
    exact hend
  | finished signal heap console'' =>
    -- A signal that is not the normal one has no declarations behind it.
    have hnone : signal ≠ .normal → StaticScope.Alike h.rootNames heap.rootNames :=
      fun hsignal => by
      have hnames := hend.names
      rwa [hend.normal.resolve_left hsignal, List.nil_append] at hnames
    cases signal <;> cases hrun <;> exact hnone nofun

end Statement

/-- A program is resolved statement by statement, each with the names that those before it have
declared. -/
theorem resolveStmts_cons {run : Nat} {s : Stmt} {rest : List Stmt} {top : StaticScope}
    (htidy : Every Tidy (.stmts (s :: rest)))
    (hclean : (resolveStmts run .none (s :: rest) [top]).diagnostics = []) :
    let first := (s.resolve run .none [top]).value
    let later := resolveStmts run .none rest [s.declared ++ top]
    Checked (.stmt first) ∧ later.diagnostics = [] ∧
      (resolveStmts run .none (s :: rest) [top]).value = first :: later.value ∧
      (resolveStmts run .none (s :: rest) [top]).scopes = later.scopes := by
  intro first later
  have hs : Every Tidy (.stmt s) := htidy.child (.member List.mem_cons_self)
  have hscopes : (s.resolve run .none [top]).scopes = [s.declared ++ top] :=
    steady hs run .none top []
  simp only [resolveStmts, bind_diagnostics, bind_value, bind_scopes, hscopes, pure_diagnostics,
    pure_value, pure_scopes, List.append_nil, List.append_eq_nil_iff] at hclean ⊢
  exact ⟨⟨.none, top, [], run, s, hs, rfl, hclean.1⟩, hclean.2, rfl, rfl⟩

/-- A program that is resolved without a report and completes leaves the names in the root scope
that resolution ends with. -/
theorem rootNames_runProgram {limit budget run : Nat} {source : List Stmt} {top : StaticScope}
    {h h' : Heap} {console console' : Console} (htidy : Every Tidy (.stmts source))
    (hclean : (resolveStmts run .none source [top]).diagnostics = [])
    (htop : StaticScope.Alike h.rootNames top) (hroot : Heap.root < h.scopes.size)
    (hrun : runProgram limit budget (resolveStmts run .none source [top]).value h console =
      ⟨.completed, h', console'⟩) :
    StaticScopes.Alike [h'.rootNames] (resolveStmts run .none source [top]).scopes := by
  induction source generalizing top h console with
  | nil =>
    obtain ⟨rfl, rfl⟩ : h = h' ∧ console = console' := by
      simpa [resolveStmts, runProgram] using hrun
    exact .cons htop .nil
  | cons s rest ih =>
    obtain ⟨hmade, hlater, hvalue, hscopes⟩ := resolveStmts_cons htidy hclean
    rw [hvalue, runProgram] at hrun
    rw [hscopes]
    -- The first statement completes, or the program would not.
    rcases hfirst : runStmt limit budget (s.resolve run .none [top]).value h
      console with ⟨_ | _ | _, h₁, console₁⟩
    · simp only [hfirst] at hrun
      obtain ⟨hroot₁, hnames⟩ := rootNames_runStmt hmade hroot hfirst
      rw [Stmt.declared_resolve] at hnames
      refine ih (every_tail htidy) hlater (fun name => ?_) hroot₁ hrun
      exact (hnames name).symm.trans (htop.append s.declared name)
    · simp [hfirst] at hrun
    · simp [hfirst] at hrun

end Lox
