import Lox.Proofs.Evaluation.Equivariance
import Lox.Proofs.Session.Soundness

/-!
# Runs that agree

Two runs **agree** when they print the same, end in the same way and leave the same to be seen in
the root scope. Where a diagnostic stands is left to a relation between places, as the sources of
the two runs may differ.

A program and the same program with other marks agree, because evaluation cannot tell a relabelling.
-/

namespace Lox

/-- What is to be seen of the bindings of the root scope, in the order in which they were made. -/
def Heap.rootView (h : Heap) : List Session.Global :=
  (h.bindings Heap.root).map
    fun entry => ⟨entry.1, entry.2.mutable, entry.2.value.kind, entry.2.value.printed h⟩

/-- Two runs end in the same way: with diagnostics that agree one by one, with the same fault, or
not at all. -/
def Ending.Agrees (same : Span → Span → Prop) : Ending → Ending → Prop
  | .diagnosed ds, .diagnosed ds' => List.Forall₂ (Diagnostic.Agrees same) ds ds'
  | .faulted fault, .faulted fault' => fault = fault'
  | .exhausted, .exhausted => True
  | _, _ => False

/-! ## Marks cannot be seen -/

/-- In a guise there is the same to be seen, under other names. -/
theorem Heap.rootView_dress (g : Guise) (h : Heap) :
    (h.dress g).rootView = h.rootView.map fun global =>
      { global with name := g.name global.name } := by
  simp only [rootView, bindings_dress, Entries.dress, List.map_map]
  refine List.map_congr_left fun entry _ => ?_
  simp only [Function.comp_apply, Binding.dress, Value.kind_dress, Value.printed_dress]

theorem Heap.rootView_mark (m : Marks) (h : Heap) : (h.mark m).rootView = h.rootView := by
  rw [mark_eq_dress, rootView_dress]
  exact List.map_id h.rootView

/-- A new session has nothing but the natives, so a guise that keeps their names makes no difference
to it. -/
theorem Session.dress_fresh {g : Guise}
    (hnatives : ∀ b : Builtin, g.name (utf8 b.name) = utf8 b.name) (console : Console)
    (limit : Nat) : (fresh console limit).heap.dress g = (fresh console limit).heap := by
  have hbindings : Entries.dress (Binding.dress g) g Builtin.bindings = Builtin.bindings := by
    simp only [Entries.dress, Builtin.bindings, List.map_map]
    refine List.map_congr_left fun b _ => ?_
    exact congrArg (·, (⟨true, .native (.builtin b)⟩ : Binding)) (hnatives b)
  simp only [fresh, Heap.ofBindings, Heap.dress, List.map_toArray, List.map_nil, List.map_cons,
    Scope.dress, hbindings]

/-- The functions of the root scope have no marks. -/
theorem Session.mark_fresh (m : Marks) (console : Console) (limit : Nat) :
    (fresh console limit).heap.mark m = (fresh console limit).heap := by
  rw [Heap.mark_eq_dress, dress_fresh fun _ => rfl]

/-- Two programs that are one program with other marks run alike in a new session. -/
theorem runProgram_alike (r r' : Relabelling) {program program' : List Stmt}
    (h : markStmts r program = markStmts r' program') (limit budget : Nat) (console : Console) :
    (runProgram limit budget program (Session.fresh console limit).heap console).mark r =
      (runProgram limit budget program' (Session.fresh console limit).heap console).mark r' := by
  rw [← runProgram_mark, ← runProgram_mark, h, Session.mark_fresh, Session.mark_fresh]

/-- Outcomes that are the same but for marks are endings that agree, where the sites that they blame
do. -/
theorem Ending.agrees_of_mark {r r' : Relabelling} {outcome outcome' : Outcome}
    {same : Span → Span → Prop} (h : outcome.mark r = outcome'.mark r')
    (hsame : ∀ problem site problem' site', outcome = .stopped (.blame problem site) →
      outcome' = .stopped (.blame problem' site') → same site.blamed site'.blamed) :
    (Session.endingOf outcome).Agrees same (Session.endingOf outcome') := by
  cases outcome with
  | completed =>
    cases outcome' with
    | completed => exact .nil
    | stopped | exhausted => cases h
  | exhausted =>
    cases outcome' with
    | exhausted => trivial
    | stopped | completed => cases h
  | stopped stop =>
    cases outcome' with
    | completed | exhausted => cases h
    | stopped stop' =>
      have hstop : stop.mark r = stop'.mark r' := Outcome.stopped.inj h
      cases stop with
      | blame problem site =>
        cases stop' with
        | blame problem' site' =>
          simp only [Stop.mark, Stop.blame.injEq] at hstop
          exact .cons ⟨congrArg Problem.runtime hstop.1,
            hsame problem site problem' site' rfl rfl⟩ .nil
        | fault => cases hstop
      | fault f =>
        cases stop' with
        | blame => cases hstop
        | fault f' => exact Stop.fault.inj hstop

/-- What is to be seen of two runs that agree: what was printed and read, how they ended, and the
root scope. -/
structure Session.Agrees (same : Span → Span → Prop) (run run' : RunReport × Session) : Prop where
  console : run.2.console = run'.2.console
  ending : run.1.ending.Agrees same run'.1.ending
  root : run.2.heap.rootView = run'.2.heap.rootView

/-- Runs of programs that end alike but for marks agree. -/
theorem Session.agrees_of_mark {r r' : Relabelling} {s s' : Session} {source source' : Text}
    {program program' : List Stmt} {same : Span → Span → Prop} {budget : Nat}
    (hprogram : s.program? source = some program) (hprogram' : s'.program? source' = some program')
    (hmark : (runProgram s.limit budget program s.heap s.console).mark r =
      (runProgram s'.limit budget program' s'.heap s'.console).mark r')
    (hsame : ∀ problem site problem' site',
      (runProgram s.limit budget program s.heap s.console).outcome =
      .stopped (.blame problem site) →
      (runProgram s'.limit budget program' s'.heap s'.console).outcome =
      .stopped (.blame problem' site') → same site.blamed site'.blamed) :
    Session.Agrees same (s.run budget source) (s'.run budget source') := by
  obtain ⟨hending, hafter⟩ := run_of_program?_eq_some budget hprogram
  obtain ⟨hending', hafter'⟩ := run_of_program?_eq_some budget hprogram'
  have hconsole := congrArg Ended.console hmark
  have hroot := congrArg (fun ended => ended.heap.rootView) hmark
  simp only [Ended.mark, Heap.rootView_mark] at hconsole hroot
  constructor
  · rw [hafter, hafter']
    exact hconsole
  · rw [hending, hending']
    exact Ending.agrees_of_mark (congrArg Ended.outcome hmark) hsame
  · rw [hafter, hafter']
    exact hroot

end Lox
