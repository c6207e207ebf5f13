import Lox.Proofs.Evaluation.Bearing
import Lox.Proofs.Session.Soundness

/-!
# The lineage of a session

The scopes that a session opens and the classes that it extends make a lineage. A new session is
traced, and each run keeps that, whatever it ends with, so every state that a session passes is
traced (`traced_of_reaches`). The programs of a session have been gone over among the names of the
root scope (`arises_program`).
-/

namespace Lox

open Code

namespace Session

variable {console : Console} {limit : Nat} {runs before rest : List (Nat × Text)} {r : Nat × Text}
    {program : List Stmt}

/-- A scope was made when a class was declared, and this class was the value of its superclass
then. -/
def Extended (console : Console) (limit : Nat) (runs : List (Nat × Text)) (id : ScopeId)
    (superclass : ClassId) : Prop :=
  ∃ state name use methods next, Reaches console limit runs state ∧
    state.control = .exec (.classDecl name (some use) methods) next ∧
    state.Opens limit id (.superclass name use methods) ∧
    state.heap.lookup state.scope (use.depth.getD 0) use.ident.name = .ok (.classRef superclass)

/-- The lineage of a session. -/
def lineage (console : Console) (limit : Nat) (runs : List (Nat × Text)) : Lineage where
  programs := Programs console limit runs
  opened := Opened console limit runs
  extended := Extended console limit runs
  once := opened_unique

/-! ## A new session -/

/-- The natives may be assigned to. -/
theorem mutable_of_mem_fresh {id : ScopeId} {name : Text} {binding : Binding}
    (h : (name, binding) ∈ (fresh console limit).heap.bindings id) : binding.mutable = true := by
  cases id with
  | zero =>
    obtain ⟨b, -, heq⟩ := List.mem_map.mp h
    rw [← (Prod.mk.inj heq).2]
  | succ id => cases h

/-- A new session has no lists and no instances. -/
theorem stores_fresh (p : Value → Prop) : (fresh console limit).heap.Stores p := by
  constructor
  · intro id v hv
    cases hv with
    | mk hv => cases hv
  · intro id name v hv
    cases hv

theorem traced_fresh : (lineage console limit runs).TracedHeap (fresh console limit).heap where
  root := Nat.one_pos
  binds id opener name binding hopened hmem := by
    cases id with
    | zero =>
      obtain rfl : opener = .root := opened_unique hopened (.inl ⟨rfl, rfl⟩)
      obtain ⟨b, rfl, -⟩ := mem_bindings_fresh hmem
      exact .inl ⟨b, by rw [mutable_of_mem_fresh hmem]⟩
    | succ id => cases hmem
  words id opener hopened hid := by
    obtain rfl : id = 0 := Nat.lt_one_iff.mp hid
    obtain rfl : opener = .root := opened_unique hopened (.inl ⟨rfl, rfl⟩)
    exact fun word hword => by cases hword
  values id name binding hmem := by
    obtain ⟨b, -, hvalue⟩ := mem_bindings_fresh hmem
    rw [hvalue]
    trivial
  stores := stores_fresh _
  classes id c hc := by cases hc

/-- A new session has no function of a program. -/
theorem bears_fresh (p : Code → Prop) : (fresh console limit).heap.Bears p where
  values id name binding hmem := by
    obtain ⟨b, -, hvalue⟩ := mem_bindings_fresh hmem
    rw [hvalue]
    trivial
  stores := stores_fresh _
  methods id c hc := by cases hc
  constructors id c hc := by cases hc

/-! ## Every run -/

/-- A class that is declared with a superclass opens a scope. -/
theorem opens_superclass {state : State} {name : Ident} {use : NameUse} {methods : List Method}
    {next : StmtCont} {superclass : ClassId}
    (hcontrol : state.control = .exec (.classDecl name (some use) methods) next)
    (hlookup : state.heap.lookup state.scope (use.depth.getD 0) use.ident.name =
      .ok (.classRef superclass)) :
    state.Opens limit state.heap.scopes.size (.superclass name use methods) := by
  obtain ⟨control, scope, depth, heap, console⟩ := state
  obtain rfl : control = _ := hcontrol
  have hstep :
    step limit ⟨.exec (.classDecl name (some use) methods) next, scope, depth, heap, console⟩ =
      .running ⟨.finish .normal next, scope, depth,
        defineClass name.name (some superclass) methods heap.scopes.size scope
        (heap.fork scope [(superName, ⟨false, .classRef superclass⟩)]).2, console⟩ := by
    simp only [step, stepStmt, runClass, hlookup]
    rfl
  exact ⟨0, _, hstep, rfl, by simp [defineClass, Heap.define, Heap.newClass, Heap.fork], rfl⟩

/-- The lineage of a session tells of every step. -/
theorem tells_of_reaches {state : State} (h : Reaches console limit runs state) :
    (lineage console limit runs).Tells limit state where
  records i _ state' hstep hsize hopener := .inr ⟨state, h, i, state', hstep, rfl, hsize, hopener⟩
  superclasses name use methods next _ hcontrol hlookup :=
    ⟨state, name, use, methods, next, h, hcontrol, opens_superclass hcontrol hlookup, hlookup⟩

theorem tells_of_passes (hruns : runs = before ++ r :: rest)
    (hprogram : (after console limit before).program? r.2 = some program) (state : State)
    (hpasses : Passes limit r.1 program (after console limit before).heap
      (after console limit before).console state) :
    (lineage console limit runs).Tells limit state :=
  tells_of_reaches ⟨before, r, rest, program, hruns, hprogram, hpasses⟩

/-- A program stands in the root scope. -/
theorem stands_program (hruns : runs = before ++ r :: rest)
    (hprogram : (after console limit before).program? r.2 = some program)
    (hheap : (lineage console limit runs).TracedHeap (after console limit before).heap) :
    (lineage console limit runs).Stands (after console limit before).heap Heap.root
      (.stmts program) :=
  ⟨.none, _, .program ⟨before, r, rest, hruns, rfl, hprogram⟩, .last (.inl ⟨rfl, rfl⟩) hheap.root⟩

/-- The heap is traced after each run. -/
theorem traced_after (hruns : runs = before ++ rest) :
    (lineage console limit runs).TracedHeap (after console limit before).heap := by
  induction before using List.reverseRecOn generalizing rest with
  | nil => exact traced_fresh
  | append_singleton before r ih =>
    have hsplit : runs = before ++ r :: rest := by simpa using hruns
    have hheap := ih hsplit
    rw [after_concat]
    cases hprogram : (after console limit before).program? r.2 with
    | none =>
      obtain ⟨report, hrun, -⟩ := run_of_program?_eq_none r.1 hprogram
      rw [hrun]
      exact hheap
    | some program =>
      rw [(run_of_program?_eq_some r.1 hprogram).2, limit_after]
      exact Lineage.traced_runProgram hheap (stands_program hsplit hprogram hheap)
        (tells_of_passes hsplit hprogram)

/-- Every state that a session passes is traced. -/
theorem traced_of_reaches {state : State} (h : Reaches console limit runs state) :
    (lineage console limit runs).TracedState state := by
  obtain ⟨before, r, rest, program, hruns, hprogram, hpasses⟩ := h
  have hheap : (lineage console limit runs).TracedHeap (after console limit before).heap :=
    traced_after hruns
  exact Lineage.traced_of_passes hheap (stands_program hruns hprogram hheap)
    (tells_of_passes hruns hprogram) hpasses

/-- A session that runs one source reaches what the run passes. -/
theorem reaches_of_passes {budget : Nat} {source : Text}
    (hprogram : (fresh console limit).program? source = some program) {state : State}
    (hpasses : Passes limit budget program (fresh console limit).heap console state) :
    Reaches console limit [(budget, source)] state :=
  ⟨[], (budget, source), [], program, rfl, hprogram, hpasses⟩

/-! ## What resolution has seen -/

/-- A program of a session arises among the names of the root scope and its own. -/
theorem arises_program {s : Session} {source : Text} (hprogram : s.program? source = some program)
    {root : Text × Bool → Prop} (hnames : ∀ d ∈ s.rootNames, root d)
    (hdeclared : ∀ d ∈ declaresOf program, root d) :
    (Code.stmts program).Arises root .none [.root] := by
  obtain ⟨-, hparse, hclean, rfl⟩ := analyse_ok (program?_eq_some hprogram)
  refine arises_resolveStmts (by trivial) (shaped_of_parse hparse)
    (List.forall₂_cons.mpr ⟨fun d hd => ?_, .nil⟩) hclean
  rcases List.mem_append.mp hd with hd | hd
  · refine hdeclared d ?_
    rw [resolveProgram, declaresOf_resolveStmts]
    exact List.mem_reverse.mp hd
  · exact hnames d hd

end Session

end Lox
