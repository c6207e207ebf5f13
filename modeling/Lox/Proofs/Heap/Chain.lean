import Lox.Proofs.Evaluation.Lineage

/-!
# Chains of scopes

A chain is a scope with those around it. It is worked on by opening a scope inside the innermost
one, going back to the scope around it, and binding, reading and assigning names, the last two at a
distance.

What a chain shows is what has been **written** to its scopes: for each of them, from the innermost
to the root, the bindings that definitions and assignments have made, the latest first. One
operation keeps the chain and what was written to it in agreement (`Chain.shows_after`), and so does
any sequence of them.
-/

namespace Lox

/-- An operation on a chain of scopes. -/
inductive ChainOp
  | push
  | pop
  | define (name : Text) (mutable : Bool) (value : Value)
  | get (distance : Nat) (name : Text)
  | assign (distance : Nat) (name : Ident) (value : Value)

/-- The latest binding of a name that was written to the scope at a distance. -/
def latest (written : List (Entries Binding)) (distance : Nat) (name : Text) :
    Except Fault Binding :=
  match written[distance]? with
  | none => .error (.noScope distance)
  | some writes =>
    match writes.get? name with
    | none => .error (.unbound name distance)
    | some binding => .ok binding

/-- What has been written after an operation. An assignment writes only where the latest binding may
be replaced, and the root is never left. -/
def ChainOp.write (written : List (Entries Binding)) : ChainOp → List (Entries Binding)
  | push => [] :: written
  | pop => if written.length = 1 then written else written.tail
  | define name mutable value => written.modify 0 ((name, ⟨mutable, value⟩) :: ·)
  | get _ _ => written
  | assign distance name value =>
    match latest written distance name.name with
    | .ok ⟨true, _⟩ => written.modify distance ((name.name, ⟨true, value⟩) :: ·)
    | _ => written

/-- A scope in its heap, with the scopes around it. -/
structure Chain where
  heap : Heap
  scope : ScopeId

/-- The chain after an operation. One that fails leaves the chain as it is. -/
def Chain.after (c : Chain) : ChainOp → Chain
  | .push => ⟨(c.heap.fork c.scope []).2, (c.heap.fork c.scope []).1⟩
  | .pop => ⟨c.heap, (c.heap.enclosing? c.scope).getD c.scope⟩
  | .define name mutable value => ⟨c.heap.define c.scope name mutable value, c.scope⟩
  | .get _ _ => c
  | .assign distance name value =>
    match c.heap.assign c.scope distance name value with
    | .ok heap => ⟨heap, c.scope⟩
    | .error _ => c

/-- The chain that operations make of an empty root. -/
def Chain.run (ops : List ChainOp) : Chain := ops.foldl after ⟨.ofBindings [], Heap.root⟩

/-- What operations have written to the scopes of their chain. -/
def Chain.written (ops : List ChainOp) : List (Entries Binding) := ops.foldl ChainOp.write [[]]

/-! ## The scopes of a chain -/

namespace Heap

variable {h : Heap} {id outer : ScopeId} {written : List (Entries Binding)} {distance : Nat}

/-- A scope has the latest of some bindings. -/
def ShowsAt (h : Heap) (id : ScopeId) (writes : Entries Binding) : Prop :=
  id < h.scopes.size ∧ ∀ name, (h.bindings id).get? name = writes.get? name

/-- A scope and those around it, each older than the one before, have the latest bindings that were
written to them. -/
inductive Shows (h : Heap) : ScopeId → List (Entries Binding) → Prop
  | root {id : ScopeId} {writes : Entries Binding} : h.ShowsAt id writes → h.enclosing? id = none →
      Shows h id [writes]
  | inner {id outer : ScopeId} {writes : Entries Binding} {written : List (Entries Binding)} :
      h.ShowsAt id writes → h.enclosing? id = some outer → outer < id → Shows h outer written →
      Shows h id (writes :: written)

theorem get?_define (at' : ScopeId) (name : Text) (mutable : Bool) (value : Value) (id : ScopeId)
    (other : Text) :
    ((h.define at' name mutable value).bindings id).get? other =
      if id = at' ∧ at' < h.scopes.size ∧ other = name then some ⟨mutable, value⟩
        else (h.bindings id).get? other := by
  rw [bindings_define]
  by_cases hid : id = at' ∧ at' < h.scopes.size
  · simp [hid, Entries.get?_put]
  · rw [if_neg hid, if_neg (fun hall => hid ⟨hall.1, hall.2.1⟩)]

theorem ShowsAt.define_ne {writes : Entries Binding} (hs : h.ShowsAt id writes) {at' : ScopeId}
    (hne : id ≠ at') (name : Text) (mutable : Bool) (value : Value) :
    (h.define at' name mutable value).ShowsAt id writes := by
  refine ⟨by simpa [define] using hs.1, fun other => ?_⟩
  rw [get?_define, if_neg (fun hall => hne hall.1)]
  exact hs.2 other

theorem ShowsAt.define_self {writes : Entries Binding} (hs : h.ShowsAt id writes) (name : Text)
    (mutable : Bool) (value : Value) :
    (h.define id name mutable value).ShowsAt id ((name, ⟨mutable, value⟩) :: writes) := by
  refine ⟨by simpa [define] using hs.1, fun other => ?_⟩
  rw [get?_define, Entries.get?_cons, hs.2]
  simp [hs.1]

namespace Shows

theorem lt (hs : h.Shows id written) : id < h.scopes.size := by
  cases hs with
  | root hat | inner hat => exact hat.1

theorem ne_nil (hs : h.Shows id written) : written ≠ [] := by
  cases hs <;> exact List.cons_ne_nil _ _

/-- Opening a scope leaves the others as they are. -/
theorem fork (hs : h.Shows id written) (at' : ScopeId) : (h.fork at' []).2.Shows id written := by
  have hat : ∀ {id writes}, h.ShowsAt id writes → (h.fork at' []).2.ShowsAt id writes := fun hat =>
    ⟨hat.1.trans_le (grows_fork at' []).scopes,
      fun name => by rw [bindings_fork, if_neg hat.1.ne]; exact hat.2 name⟩
  induction hs with
  | root here hnone => exact .root (hat here) (by rwa [enclosing?_fork, if_neg here.1.ne])
  | inner here hsome hlt _ ih =>
    exact .inner (hat here) (by rwa [enclosing?_fork, if_neg here.1.ne]) hlt ih

/-- A binding in a scope that is younger changes nothing. -/
theorem define_lt (hs : h.Shows id written) {at' : ScopeId} (hlt : id < at') (name : Text)
    (mutable : Bool) (value : Value) : (h.define at' name mutable value).Shows id written := by
  induction hs with
  | root here hnone => exact .root (here.define_ne hlt.ne ..) (by rwa [enclosing?_define])
  | inner here hsome hless _ ih =>
    exact .inner (here.define_ne hlt.ne ..) (by rwa [enclosing?_define]) hless
      (ih (hless.trans hlt))

/-- A binding in a scope of the chain is written to it. -/
theorem define (hs : h.Shows id written) (houter : h.ancestor? id distance = some outer)
    (name : Text) (mutable : Bool) (value : Value) :
    outer ≤ id ∧
      (h.define outer name mutable value).Shows id
        (written.modify distance ((name, ⟨mutable, value⟩) :: ·)) := by
  -- The first part is for the induction: a scope further out is not the one that the chain starts
  -- with.
  induction hs generalizing distance with
  | root here hnone =>
    cases distance with
    | zero =>
      obtain rfl := Option.some.inj houter
      exact ⟨le_rfl, .root (here.define_self ..) (by rwa [enclosing?_define])⟩
    | succ distance =>
      rw [ancestor?, hnone] at houter
      cases houter
  | inner here hsome hless hrest ih =>
    cases distance with
    | zero =>
      obtain rfl := Option.some.inj houter
      exact ⟨le_rfl, .inner (here.define_self ..) (by rwa [enclosing?_define]) hless
        (hrest.define_lt hless ..)⟩
    | succ distance =>
      rw [ancestor?, hsome] at houter
      obtain ⟨hle, hshows⟩ := ih houter
      have hlt := hle.trans_lt hless
      exact ⟨hlt.le, .inner (here.define_ne hlt.ne' ..) (by rwa [enclosing?_define]) hless hshows⟩

/-- The scope at a distance, where there is one. -/
theorem at_distance (hs : h.Shows id written) (distance : Nat) :
    (h.ancestor? id distance = none ∧ written[distance]? = none) ∨ ∃ outer writes,
      h.ancestor? id distance = some outer ∧ written[distance]? = some writes ∧
        h.ShowsAt outer writes := by
  induction hs generalizing distance with
  | root here hnone =>
    cases distance with
    | zero => exact .inr ⟨_, _, rfl, rfl, here⟩
    | succ distance => exact .inl ⟨by rw [ancestor?, hnone]; rfl, rfl⟩
  | inner here hsome _ _ ih =>
    cases distance with
    | zero => exact .inr ⟨_, _, rfl, rfl, here⟩
    | succ distance =>
      rw [ancestor?, hsome]
      exact ih distance

theorem find (hs : h.Shows id written) (distance : Nat) (name : Text) :
    (h.find id distance name).map Prod.snd = latest written distance name := by
  rw [Heap.find, latest]
  obtain ⟨hnone, hwritten⟩ | ⟨outer, writes, hsome, hwritten, hat⟩ := hs.at_distance distance
  · rw [hnone, hwritten]
    rfl
  · simp only [hsome, hwritten, hat.2 name]
    cases writes.get? name <;> rfl

end Shows

end Heap

namespace Chain

variable {c : Chain}

/-- One operation keeps a chain and what was written to it in agreement. -/
theorem shows_after {written : List (Entries Binding)} (hs : c.heap.Shows c.scope written)
    (op : ChainOp) : (c.after op).heap.Shows (c.after op).scope (op.write written) := by
  cases op with
  | push =>
    refine .inner ⟨by simp [after, Heap.fork], fun name => ?_⟩
      ((c.heap.enclosing?_fork ..).trans (if_pos rfl)) hs.lt (hs.fork c.scope)
    exact congrArg (Entries.get? · name) ((c.heap.bindings_fork ..).trans (if_pos rfl))
  | pop =>
    rw [after, ChainOp.write]
    cases hs with
    | root here hnone => simpa [hnone] using Heap.Shows.root here hnone
    | inner here hsome _ hrest => simpa [hsome, hrest.ne_nil] using hrest
  | define name mutable value => exact (hs.define rfl name mutable value).2
  | get => exact hs
  | assign distance name value =>
    rw [after, ChainOp.write, ← hs.find, Heap.assign, Heap.target]
    rcases hfind : c.heap.find c.scope distance name.name with fault | ⟨outer, mutable, old⟩
    · exact hs
    · cases mutable with
      | false => exact hs
      | true => exact (hs.define (Heap.of_find_eq_ok hfind).1 ..).2

/-- Operations on an empty root make a chain that shows what they have written. -/
theorem shows_run (ops : List ChainOp) : (run ops).heap.Shows (run ops).scope (written ops) := by
  induction ops using List.reverseRecOn with
  | nil => exact .root ⟨Nat.zero_lt_one, fun _ => rfl⟩ rfl
  | append_singleton ops op ih =>
    rw [run, written, List.foldl_append, List.foldl_append]
    exact shows_after ih op

/-- An assignment changes no binding but one that may be replaced, which stays so. -/
theorem get?_assign (c : Chain) (distance : Nat) (name : Ident) (value : Value) (id : ScopeId)
    (other : Text) :
    ((c.after (.assign distance name value)).heap.bindings id).get? other =
      (c.heap.bindings id).get? other ∨
      ∃ old, (c.heap.bindings id).get? other = some ⟨true, old⟩ ∧
        ((c.after (.assign distance name value)).heap.bindings id).get? other =
          some ⟨true, value⟩ := by
  rw [after, Heap.assign, Heap.target]
  rcases hfind : c.heap.find c.scope distance name.name with fault | ⟨outer, mutable, old⟩
  · exact .inl rfl
  · cases mutable with
    | false => exact .inl rfl
    | true =>
      by_cases hsame : id = outer ∧ outer < c.heap.scopes.size ∧ other = name.name
      · refine .inr ⟨old, ?_, (Heap.get?_define ..).trans (if_pos hsame)⟩
        rw [hsame.1, hsame.2.2]
        exact (Heap.of_find_eq_ok hfind).2
      · exact .inl ((Heap.get?_define ..).trans (if_neg hsame))

/-- A constant binding is replaced only by a definition of its name in its scope. -/
theorem get?_after_of_constant {id : ScopeId} {name : Text} {value : Value}
    (hget : (c.heap.bindings id).get? name = some ⟨false, value⟩) (op : ChainOp) :
    ((c.after op).heap.bindings id).get? name = some ⟨false, value⟩ ∨
      ∃ mutable value', op = .define name mutable value' ∧ id = c.scope := by
  cases op with
  | push =>
    have hid : id < c.heap.scopes.size := Heap.Bound.lt ⟨_, hget⟩
    rw [after, Heap.bindings_fork, if_neg hid.ne]
    exact .inl hget
  | pop | get => exact .inl hget
  | define other mutable value' =>
    rw [after, Heap.get?_define]
    split
    · next hsame => exact .inr ⟨mutable, value', by rw [hsame.2.2], hsame.1⟩
    · exact .inl hget
  | assign distance other value' =>
    obtain hkept | ⟨old, hold, -⟩ := c.get?_assign distance other value' id name
    · exact .inl (hkept.trans hget)
    · rw [hget] at hold
      cases hold

/-- **Chains keep their history.** After any operations, a name is read at a distance exactly if
there is a scope and the name was written to it, and its value is the latest that was written there.
An assignment is answered by the latest binding; one that fails leaves all scopes as they are, and
none adds a name or changes whether one may be assigned to. A constant binding is replaced only by a
definition of its name in its scope. -/
theorem keeps_history (ops : List ChainOp) :
    (∀ distance name, (run ops).heap.lookup (run ops).scope distance name =
      (latest (written ops) distance name).map Binding.value) ∧
    (∀ distance name value,
      ((run ops).heap.assign (run ops).scope distance name value).map (fun _ => ()) =
      match latest (written ops) distance name.name with
      | .ok ⟨true, _⟩ => .ok ()
      | .ok ⟨false, old⟩ => .error (.blame (.constant old.kind name.name) name.span)
      | .error fault => .error (.fault fault)) ∧
    (∀ distance name value stop,
      (run ops).heap.assign (run ops).scope distance name value = .error stop →
      (run ops).after (.assign distance name value) = run ops) ∧
    (∀ distance name value id other,
      ((((run ops).after (.assign distance name value)).heap.bindings id).get? other).map
          Binding.mutable =
        (((run ops).heap.bindings id).get? other).map Binding.mutable) ∧
    ∀ op id name value, ((run ops).heap.bindings id).get? name = some ⟨false, value⟩ →
      (((run ops).after op).heap.bindings id).get? name = some ⟨false, value⟩ ∨
        ∃ mutable value', op = .define name mutable value' ∧ id = (run ops).scope := by
  have hfind := (shows_run ops).find
  refine ⟨fun distance name => ?_,
    fun distance name value => ?_,
    fun distance name value stop hstop => ?_, fun distance name value id other => ?_,
    fun op id name value hget => get?_after_of_constant hget op⟩
  · rw [Heap.lookup, ← hfind]
    cases (run ops).heap.find (run ops).scope distance name <;> rfl
  · rw [Heap.assign, Heap.target, ← hfind]
    rcases (run ops).heap.find (run ops).scope distance name.name with fault | ⟨outer, mutable, old⟩
    · rfl
    · cases mutable <;> rfl
  · rw [after, hstop]
  · obtain hkept | ⟨old, hold, hnew⟩ := (run ops).get?_assign distance name value id other
    · rw [hkept]
    · rw [hold, hnew]
      rfl

end Chain

end Lox
