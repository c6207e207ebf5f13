import Lox.Machine.Run
import Lox.Proofs.Evaluation.Frames
import Lox.Proofs.Resolution.Events

/-!
# The order of evaluation

The evaluation of an expression is a run of the machine from the expression to a value for what
waits. Its **trace** lists what the expression itself does in scopes, step by step: the calls that
it makes are left aside, and so are the steps inside them. While it runs, what the machine looks at
and what waits above the end still **owe** events to the trace (`Owes`); a step of the expression
itself pays the first of them (`Transition.owes`), and a call pays none (`calledFrom_step`). So the
trace of an evaluation that skips no operand is the list of the expression's events, all of them in
the scope it started in (`Evaluates.trace_eq`).

Resolution performs the same events, and those of a kind in the same order unless an assignment to a
property or an element has some both in its target and in its value (`performed_as_evaluated`).
There it does go another way (`performed_otherwise`).
-/

namespace Lox

/-! ## Events of steps -/

/-- What a step does in the scope that it starts in. -/
def Control.events : Control → List Event
  | .eval (.var use) _ => [.read use]
  | .eval (.lambda none function) _ => [.body function]
  | .eval (.lambda (some name) function) _ => [.declare name, .body function]
  | .eval (.thisRef keyword slot) _ => [.receiver keyword slot]
  | .eval (.superRef keyword _ slot) _ => [.superclass keyword slot]
  | .give _ (.assign use _) => [.assign use]
  | _ => []

/-- What an event of a step from one state to another does to the heap. -/
def Event.Occurs (s s' : State) : Event → Prop
  | .declare name => ∃ v, s'.heap = s.heap.define s.scope name.name false v
  | .read use =>
    ∃ v next, s.heap.lookup s.scope (use.depth.getD 0) use.ident.name = .ok v ∧ s'.control =
      .give v next
  | .assign use =>
    ∃ outer v, s.heap.target s.scope (use.depth.getD 0) use.ident = .ok outer ∧
      s'.heap = s.heap.define outer use.ident.name true v
  | .receiver _ slot =>
    ∃ v next, s.heap.lookup s.scope (slot.getD 0) thisName = .ok v ∧ s'.control = .give v next
  | .superclass _ slot => ∃ found, s.heap.superOf s.scope (slot.getD 0) = .ok found
  | .body function => ∃ next, s'.control = .give (.closure ⟨function, s.scope⟩) next

theorem lookup_of_readName {slot : Option Nat} {name : Text} {next : ValueCont} {scope : ScopeId}
    {depth : Nat} {heap : Heap} {console : Console} {s' : State}
    (h : readName slot name next scope depth heap console = .running s') :
    ∃ v next', heap.lookup scope (slot.getD 0) name = .ok v ∧ s'.control = .give v next' := by
  unfold readName at h
  cases hlookup : heap.lookup scope (slot.getD 0) name with
  | error fault => simp [hlookup] at h
  | ok v =>
    simp only [hlookup, Next.running.injEq] at h
    exact ⟨v, next, rfl, h ▸ rfl⟩

/-- The events of a step occur. -/
theorem occurs_of_step {limit : Nat} {s s' : State} (h : step limit s = .running s') :
    ∀ event ∈ s.control.events, event.Occurs s s' := by
  obtain ⟨control, scope, depth, heap, console⟩ := s
  intro event hevent
  simp only [Control.events] at hevent
  split at hevent
  · obtain rfl := List.mem_singleton.mp hevent
    exact lookup_of_readName h
  · obtain rfl := List.mem_singleton.mp hevent
    obtain rfl := Next.running.inj h
    exact ⟨_, rfl⟩
  · obtain rfl := Next.running.inj h
    rcases List.mem_pair.mp hevent with rfl | rfl
    · exact ⟨_, rfl⟩
    · exact ⟨_, rfl⟩
  · obtain rfl := List.mem_singleton.mp hevent
    exact lookup_of_readName h
  · obtain rfl := List.mem_singleton.mp hevent
    next keyword method slot next =>
    simp only [step, stepExpr] at h
    split at h
    · next hfound => exact ⟨_, hfound⟩
    · cases h
  · obtain rfl := List.mem_singleton.mp hevent
    simp only [step, stepValue] at h
    split at h
    · next outer htarget =>
      obtain rfl := Next.running.inj h
      exact ⟨outer, _, htarget, rfl⟩
    · cases h
  · cases hevent

/-- A logical operator is about to skip its right operand. -/
def Control.skips : Control → Bool
  | .give v (.logical op _ _) => op.settledBy v
  | _ => false

/-- A run gives a value to what waits at a depth, without skipping an operand there. The trace lists
the events of the steps at that depth, each with the scope that it is in. -/
inductive Evaluates (limit : Nat) (k : ValueCont) (depth : Nat) :
    State → List (ScopeId × Event) → Value → Prop
  | given {v : Value} {scope : ScopeId} {heap : Heap} {console : Console} :
      Evaluates limit k depth ⟨.give v k, scope, depth, heap, console⟩ [] v
  | own {s s' : State} {trace : List (ScopeId × Event)} {v : Value} :
      s.depth = depth → (∀ w, s.control ≠ .give w k) → s.control.skips = false →
      step limit s = .running s' → Evaluates limit k depth s' trace v →
      Evaluates limit k depth s (s.control.events.map (s.scope, ·) ++ trace) v
  | inner {s s' : State} {trace : List (ScopeId × Event)} {v : Value} :
      depth < s.depth → step limit s = .running s' → Evaluates limit k depth s' trace v →
      Evaluates limit k depth s trace v

/-- What a trace lists has happened: some state of the run, at the depth of the expression, takes a
step in which the event occurs. -/
theorem Evaluates.occurs {limit : Nat} {k : ValueCont} {depth : Nat} {s : State}
    {trace : List (ScopeId × Event)} {v : Value} (h : Evaluates limit k depth s trace v)
    {entry : ScopeId × Event} (hentry : entry ∈ trace) :
    ∃ n a a', runFor limit n s = .running a ∧ step limit a = .running a' ∧ a.depth = depth ∧
      a.scope = entry.1 ∧
      entry.2.Occurs a a' := by
  induction h with
  | given => cases hentry
  | @own s s' trace v hdepth _ _ hstep _ ih =>
    rcases List.mem_append.mp hentry with hown | hlater
    · obtain ⟨event, hevent, rfl⟩ := List.mem_map.mp hown
      exact ⟨0, s, s', rfl, hstep, hdepth, rfl, occurs_of_step hstep event hevent⟩
    · obtain ⟨n, a, a', hrun, hrest⟩ := ih hlater
      exact ⟨n + 1, a, a', by rw [runFor, hstep]; exact hrun, hrest⟩
  | inner _ hstep _ ih =>
    obtain ⟨n, a, a', hrun, hrest⟩ := ih hentry
    exact ⟨n + 1, a, a', by rw [runFor, hstep]; exact hrun, hrest⟩

/-! ## What is owed to a trace -/

/-- The events that wait in the part of an expression's continuation nearest to the value, and what
is below it. -/
def ValueCont.waiting? : ValueCont → Option (List Event × ValueCont)
  | .unary _ _ next | .binaryRight _ _ _ next | .get _ next | .getKey _ _ next | .index _ _ next
  | .setField _ _ next | .setElement _ _ _ next => some ([], next)
  | .binaryLeft _ _ e next | .logical _ e next | .getKeyObject _ e next | .indexObject e _ next
  | .setObject _ e next | .setKey _ _ e next | .setIndex _ _ e next =>
    some (e.events .evaluation, next)
  | .setKeyObject _ first second next | .setIndexObject first _ second next =>
    some (first.events .evaluation ++ second.events .evaluation, next)
  | .callee rest _ next | .argument _ _ rest _ next | .element _ rest next =>
    some (eventsOf .evaluation rest, next)
  | .field _ _ rest next => some (fieldEvents .evaluation rest, next)
  | .assign use next => some ([.assign use], next)
  | _ => none

/-- The parts of an expression that wait above a continuation, with the events that they owe. -/
inductive WaitsAbove (k : ValueCont) : ValueCont → List Event → Prop
  | nothing : WaitsAbove k k []
  | part {c next : ValueCont} {waiting rest : List Event} :
      c.waiting? = some (waiting, next) → WaitsAbove k next rest → WaitsAbove k c (waiting ++ rest)

theorem WaitsAbove.idle {k c next : ValueCont} {es : List Event}
    (hnone : c.waiting? = some ([], next)) (h : WaitsAbove k next es) : WaitsAbove k c es :=
  .part hnone h

/-- What waits lies further out. -/
theorem sizeOf_lt_of_waiting? {c next : ValueCont} {waiting : List Event}
    (h : c.waiting? = some (waiting, next)) : sizeOf next < sizeOf c := by
  cases c <;>
    simp only [ValueCont.waiting?, Option.some.injEq, Prod.mk.injEq, reduceCtorEq] at h <;> grind

theorem WaitsAbove.sizeOf_le {k c : ValueCont} {es : List Event} (h : WaitsAbove k c es) :
    sizeOf k ≤ sizeOf c := by
  induction h with
  | nothing => exact Nat.le_refl _
  | part hwaiting _ ih =>
    exact Nat.le_of_lt (Nat.lt_of_le_of_lt ih (sizeOf_lt_of_waiting? hwaiting))

/-- Nothing is owed any more where the value is given to what waits at the end. -/
theorem WaitsAbove.eq_nil {k : ValueCont} {es : List Event} (h : WaitsAbove k k es) : es = [] := by
  cases h with
  | nothing => rfl
  | part hwaiting hrest =>
    have hlt := sizeOf_lt_of_waiting? hwaiting
    exact absurd hrest.sizeOf_le (Nat.not_le_of_lt hlt)

/-- The events that the machine owes to the trace of an evaluation where it looks at a part of the
expression, or gives its value to one that waits. -/
inductive Control.Owes (k : ValueCont) : Control → List Event → Prop
  | eval {e : Expr} {c : ValueCont} {es : List Event} :
      WaitsAbove k c es → Owes k (.eval e c) (e.events .evaluation ++ es)
  | give {v : Value} {c : ValueCont} {es : List Event} : WaitsAbove k c es → Owes k (.give v c) es

/-- The events that a state owes to the trace of an evaluation. Those of a call wait below it. -/
inductive Owes (k : ValueCont) (scope : ScopeId) (depth : Nat) : State → List Event → Prop
  | own {c : Control} {es : List Event} {heap : Heap} {console : Console} :
      c.Owes k es → Owes k scope depth ⟨c, scope, depth, heap, console⟩ es
  | called {s : State} {c : ValueCont} {es : List Event} :
      depth < s.depth → s.CalledFrom depth (scope, c) → WaitsAbove k c es → Owes k scope depth s es

section Steps

variable {limit depth : Nat} {k : ValueCont} {c : Control} {scope : ScopeId} {heap : Heap}
    {console : Console} {es : List Event} (howes : c.Owes k es) (hk : ∀ w, c ≠ .give w k)

include howes hk

/-- A turn pays the events that it has itself. -/
theorem Turn.owes {c' : Control} (hturn : Turn scope heap c c') (hskips : c.skips = false) :
    ∃ rest, es = c.events ++ rest ∧ c'.Owes k rest := by
  cases howes with
  | eval h =>
    cases hturn with
    | writes hwrites => cases hwrites
    | literal | function | var | thisRef => exact ⟨_, rfl, .give h⟩
    | grouping => exact ⟨_, rfl, .eval h⟩
    | unary | get => exact ⟨_, rfl, .eval (.idle rfl h)⟩
    | setKey | setIndex =>
      refine ⟨_, ?_, .eval (.part rfl h)⟩
      simp only [Expr.events, Pass.arrange, Control.events, List.append_assoc, List.nil_append]
    | _ => exact ⟨_, List.append_assoc _ _ _, .eval (.part rfl h)⟩
  | give h =>
    cases h with
    | nothing => exact absurd rfl (hk _)
    | part hwaiting h =>
      cases hturn with
      | writes hwrites => cases hwrites <;> cases hwaiting <;> exact ⟨_, rfl, .eval (.idle rfl h)⟩
      | unaryGiven | binaryGiven | item =>
        cases hwaiting
        exact ⟨_, rfl, .give h⟩
      | settled hsettled => cases hsettled.symm.trans hskips
      | unsettled =>
        cases hwaiting
        exact ⟨_, rfl, .eval h⟩
      | binaryLeft | getKeyObject | indexObject | assignable =>
        cases hwaiting
        exact ⟨_, rfl, .eval (.idle rfl h)⟩
      | setKeyObject | setIndexObject | callee | argument | field | element =>
        cases hwaiting
        exact ⟨_, List.append_assoc _ _ _, .eval (.part rfl h)⟩
      | _ => cases hwaiting

/-- A value is given for a part that waits, or a call is made for it. -/
theorem Control.Calls.owes {callee : Value} {arguments : List Value} {paren : Span}
    {next : ValueCont} (hcalls : c.Calls heap callee arguments paren next) :
    c.events = [] ∧ WaitsAbove k next es := by
  cases howes with
  | eval => cases hcalls
  | give h =>
    cases h with
    | nothing => exact absurd rfl (hk _)
    | part hwaiting h =>
      cases hcalls <;> cases hwaiting <;> exact ⟨rfl, h⟩

/-- A step of the expression itself pays the events that it has. -/
theorem Transition.owes {s' : State} {next : Next}
    (htrans : Transition limit scope depth heap console c next) (hnext : next = .running s')
    (hskips : c.skips = false) : ∃ rest, es = c.events ++ rest ∧ Owes k scope depth s' rest := by
  cases htrans with
  | turn hturn =>
    obtain rfl := Next.running.inj hnext
    obtain ⟨rest, hes, howes⟩ := hturn.owes howes hk hskips
    exact ⟨rest, hes, .own howes⟩
  | fails | nativeFails | finished => cases hnext
  | enter hcalls | construct hcalls =>
    obtain rfl := Next.running.inj hnext
    obtain ⟨hevents, hwaits⟩ := hcalls.owes howes hk
    refine ⟨es, by rw [hevents, List.nil_append],
      .called (Nat.lt_succ_self depth) ⟨1, rfl, ?_⟩ hwaits⟩
    rw [beneath_runBody]
    exact ValueCont.beneath_zero _ _
  | «instance» hcalls | native hcalls | idle hcalls =>
    obtain rfl := Next.running.inj hnext
    obtain ⟨hevents, hwaits⟩ := hcalls.owes howes hk
    exact ⟨es, by rw [hevents, List.nil_append], .own (.give hwaits)⟩
  | superMethod hvia | superIdle hvia =>
    obtain rfl := Next.running.inj hnext
    cases hvia
    cases howes with
    | eval h => exact ⟨_, rfl, .own (.give h)⟩
  | object hvia | list hvia | property hvia =>
    obtain rfl := Next.running.inj hnext
    cases howes with
    | eval h => cases hvia <;> exact ⟨_, rfl, .own (.give h)⟩
    | give h =>
      cases h with
      | nothing => exact absurd rfl (hk _)
      | part hwaiting h => cases hvia <;> cases hwaiting <;> exact ⟨_, rfl, .own (.give h)⟩
  | lambda =>
    obtain rfl := Next.running.inj hnext
    cases howes with
    | eval h => exact ⟨_, rfl, .own (.give h)⟩
  | assign | setField | setElement =>
    obtain rfl := Next.running.inj hnext
    cases howes with
    | give h =>
      cases h with
      | nothing => exact absurd rfl (hk _)
      | part hwaiting h =>
        cases hwaiting
        exact ⟨_, rfl, .own (.give h)⟩
  -- what belongs to a statement or to a call does not wait in an expression
  | declare | activation | print =>
    cases howes with
    | give h =>
      cases h with
      | nothing => exact absurd rfl (hk _)
      | part hwaiting => cases hwaiting
  | _ => cases howes

end Steps

/-! ## The trace of an evaluation -/

section Traces

variable {limit : Nat} {k : ValueCont} {scope : ScopeId} {depth : Nat} {s s' : State}
    {es : List Event}

/-- A step of the expression itself performs the next of its events, if any. -/
theorem Owes.step_own (h : Owes k scope depth s es) (hdepth : s.depth = depth)
    (hk : ∀ w, s.control ≠ .give w k) (hskips : s.control.skips = false)
    (hstep : step limit s = .running s') :
    s.scope = scope ∧ ∃ rest, es = s.control.events ++ rest ∧ Owes k scope depth s' rest := by
  cases h with
  | @own c es heap console howes =>
    exact ⟨rfl, (transition_step limit ⟨c, scope, depth, heap, console⟩).owes howes hk hstep hskips⟩
  | called hlt => exact absurd hlt (hdepth ▸ Nat.lt_irrefl _)

/-- A step of a call that it makes leaves its events alone. -/
theorem Owes.step_inner (h : Owes k scope depth s es) (hdepth : depth < s.depth)
    (hstep : step limit s = .running s') : Owes k scope depth s' es := by
  cases h with
  | own => exact absurd hdepth (Nat.lt_irrefl _)
  | called _ hcalled hwaits =>
    have hall := calledFrom_step limit hcalled hdepth
    rw [hstep] at hall
    obtain ⟨calls, hcalls, hbeneath⟩ := hall
    cases calls with
    | succ calls => exact .called (by omega) ⟨calls + 1, hcalls, hbeneath⟩ hwaits
    | zero =>
      obtain ⟨control, scope', depth', heap, console⟩ := s'
      obtain rfl : depth' = depth := hcalls
      cases control with
      | give v c =>
        obtain ⟨rfl, rfl⟩ := Prod.mk.inj (Option.some.inj hbeneath)
        exact .own (.give hwaits)
      | _ => cases hbeneath

/-- An evaluation traces the events that are owed, all in one scope. -/
theorem Owes.trace_eq {trace : List (ScopeId × Event)} {v : Value}
    (heval : Evaluates limit k depth s trace v) (h : Owes k scope depth s es) :
    trace = es.map (scope, ·) := by
  induction heval generalizing es with
  | given =>
    cases h with
    | called hlt => exact absurd hlt (Nat.lt_irrefl _)
    | own howes =>
      cases howes with
      | give hwaits =>
        rw [hwaits.eq_nil]
        rfl
  | own hdepth hk hskips hstep _ ih =>
    obtain ⟨rfl, rest, rfl, hrest⟩ := h.step_own hdepth hk hskips hstep
    rw [ih hrest, List.map_append]
  | inner hdepth hstep _ ih => exact ih (h.step_inner hdepth hstep)

/-- The trace of the evaluation of an expression is the list of its events, all in the scope that it
starts in. -/
theorem Evaluates.trace_eq {e : Expr} {heap : Heap} {console : Console}
    {trace : List (ScopeId × Event)} {v : Value}
    (h : Evaluates limit k depth ⟨.eval e k, scope, depth, heap, console⟩ trace v) :
    trace = (e.events .evaluation).map (scope, ·) := by
  have howes :
      Owes k scope depth ⟨.eval e k, scope, depth, heap, console⟩ (e.events .evaluation ++ []) :=
    .own (.eval .nothing)
  rw [List.append_nil] at howes
  exact howes.trace_eq h

end Traces

/-! ## Resolution and evaluation -/

/-- The events that resolution performs on an expression are those that occur in the evaluation of
what it makes, all in the scope that it starts in. Those of a kind come in the same order, if no
assignment to a property or an element has some both in its target and in its value. -/
theorem performed_as_evaluated (run : Nat) (context : ClassContext) (e : Expr) (S : StaticScopes)
    {limit depth : Nat} {k : ValueCont} {scope : ScopeId} {heap : Heap} {console : Console}
    {trace : List (ScopeId × Event)} {v : Value}
    (heval : Evaluates limit k depth
      ⟨.eval (e.resolve run context S).value k, scope, depth, heap, console⟩ trace v) :
    ∃ performed,
      (e.events .resolution).mapM (Event.perform run context) S =
        ⟨performed, (e.resolve run context S).scopes, (e.resolve run context S).diagnostics⟩ ∧
      (∀ entry ∈ trace, entry.1 = scope ∧ ∃ n a a',
        runFor limit n ⟨.eval (e.resolve run context S).value k, scope, depth, heap, console⟩ =
          .running a ∧
          step limit a = .running a' ∧ a.depth = depth ∧ a.scope = scope ∧ entry.2.Occurs a a') ∧
      performed.Perm (trace.map Prod.snd) ∧
      ∀ watched, Aligned watched (e.resolve run context S).value →
        performed.filter watched = (trace.map Prod.snd).filter watched := by
  have htrace := heval.trace_eq
  have hevents : trace.map Prod.snd = (e.resolve run context S).value.events .evaluation := by
    rw [htrace, List.map_map]
    exact List.map_id _
  refine ⟨(e.resolve run context S).value.events .resolution, ?_, ?_, ?_, ?_⟩
  · rw [← events_resolve e]
    exact congrArg (Resolved.mk _ _) (List.append_nil _)
  · intro entry hentry
    have hscope : entry.1 = scope := by
      rw [htrace] at hentry
      obtain ⟨event, -, rfl⟩ := List.mem_map.mp hentry
      rfl
    exact ⟨hscope, hscope ▸ heval.occurs hentry⟩
  · exact hevents ▸ perm_events _
  · intro watched haligned
    exact hevents ▸ haligned.filter_events

/-- The value of a property is the call of a function that declares its own name. -/
theorem performed_as_evaluated_call :
    let name : Ident := ⟨utf8 "f", ⟨0, 1⟩⟩
    let function : Function := .mk ⟨0, 1⟩ 0 [] []
    let e : Expr := .set (.object []) name (.call (.lambda (some name) function) [] ⟨0, 1⟩)
    let trace : List (ScopeId × Event) := [(Heap.root, .declare name), (Heap.root, .body function)]
    Evaluates 10 (.discard .done) 0
        ⟨.eval (e.resolve 0 .none [[]]).value (.discard .done), Heap.root, 0, .ofBindings [],
          ⟨[], [], none, none⟩⟩
        trace .nil ∧
      Aligned (fun _ => true) (e.resolve 0 .none [[]]).value ∧
      ((e.events .resolution).mapM (Event.perform 0 .none) [[]]).value = trace.map Prod.snd := by
  intro name function e trace
  have heval :
      Evaluates 10 (.discard .done) 0 ⟨.eval (e.resolve 0 .none [[]]).value (.discard .done),
        Heap.root, 0, .ofBindings [], ⟨[], [], none, none⟩⟩ trace .nil := by
    -- The object, the function and its call; the body runs inside the call.
    refine .own rfl nofun rfl rfl (.own rfl nofun rfl rfl (.own rfl nofun rfl rfl ?_))
    refine .own rfl nofun rfl rfl (.own rfl nofun rfl rfl (.own rfl nofun rfl rfl ?_))
    refine .inner (by decide) rfl (.inner (by decide) rfl ?_)
    exact .own rfl nofun rfl rfl .given
  have haligned : Aligned (fun _ => true) (e.resolve 0 .none [[]]).value := by
    refine .intro (.inl rfl)
      (List.forall_mem_cons.mpr ⟨.intro trivial nofun, List.forall_mem_cons.mpr ⟨?_, nofun⟩⟩)
    exact .intro trivial (List.forall_mem_cons.mpr ⟨.intro trivial nofun, nofun⟩)
  obtain ⟨performed, hperformed, -, -, hkinds⟩ := performed_as_evaluated 0 .none e [[]] heval
  have hall := hkinds (fun _ => true) haligned
  rw [List.filter_true, List.filter_true] at hall
  exact ⟨heval, haligned, (congrArg Resolved.value hperformed).trans hall⟩

/-- The target declares a name that the value reads. Resolution looks it up in the scope around,
before the target has declared it; in the order of evaluation it would have found the function. -/
theorem performed_otherwise :
    let name : Ident := ⟨utf8 "f", ⟨0, 1⟩⟩
    let function : Function := .mk ⟨0, 1⟩ 0 [] []
    let e : Expr :=
      .set (.object [.mk (utf8 "x") (.lambda (some name) function)]) name (.var ⟨name, none⟩)
    let S : StaticScopes := [[], [(name.name, true)]]
    let heap : Heap := (Heap.fork (.ofBindings [(name.name, ⟨true, .nil⟩)]) Heap.root []).2
    let trace : List (ScopeId × Event) :=
      [(1, .declare name), (1, .body function), (1, .read ⟨name, some 1⟩)]
    Evaluates 10 (.discard .done) 0
        ⟨.eval (e.resolve 0 .none S).value (.discard .done), 1, 0, heap, ⟨[], [], none, none⟩⟩
          trace .nil ∧
      ((e.events .resolution).mapM (Event.perform 0 .none) S).value ≠ trace.map Prod.snd ∧
      ((e.events .evaluation).mapM (Event.perform 0 .none) S).value =
        [.declare name, .body function, .read ⟨name, some 0⟩] := by
  intro name function e S heap trace
  refine ⟨?_, nofun, rfl⟩
  refine .own rfl nofun rfl rfl (.own rfl nofun rfl rfl (.own rfl nofun rfl rfl ?_))
  refine .own rfl nofun rfl rfl (.own rfl nofun rfl rfl (.own rfl nofun rfl rfl ?_))
  exact .own rfl nofun rfl rfl .given

end Lox
