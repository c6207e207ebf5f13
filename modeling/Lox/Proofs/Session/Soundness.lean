import Lox.Proofs.Evaluation.CallDepth
import Lox.Proofs.Syntax.Placement
import Lox.Proofs.Syntax.Shape
import Lox.Session

/-!
# Resolution is sound for evaluation

A session runs sources one after another, whatever comes of each. Its programs are resolved against
the names that the root scope has at that moment, and the scopes that they open stay in the heap; so
the programs and the scopes of a whole session make one chronicle, and everything in the heap fits
it after each run.

The main theorem is `resolution_sound`: evaluation never ends with a fault, and each name that is
looked up is found in the scope that resolution has chosen.
-/

namespace Lox

open Code

/-! ## The analysis of a source -/

/-- The function literals of a source that have a name are whole statements, or the values that
declarations start with. -/
def LiteralsPlaced (source : Text) : Prop :=
  (scan source).diagnostics = [] → (parse (scan source).tokens (scan source).size).diagnostics =
    [] → Every Code.LiteralsPlaced (.stmts (parse (scan source).tokens (scan source).size).stmts)

/-- What the stages before evaluation have to do to hand a program on. -/
theorem analyse_ok {run : Nat} {root : StaticScope} {source : Text} {program : List Stmt}
    (h : (analyse run root source).result = .ok program) :
    (scan source).diagnostics = [] ∧
      (parse (scan source).tokens (scan source).size).diagnostics = [] ∧
      (resolveProgram run root (parse (scan source).tokens (scan source).size).stmts).diagnostics =
        [] ∧
      (resolveProgram run root (parse (scan source).tokens (scan source).size).stmts).value =
        program := by
  simp only [analyse] at h
  split at h
  · next hscan =>
    split at h
    · next hparse =>
      dsimp only at h
      split at h
      · next hresolve =>
        exact ⟨List.isEmpty_iff.mp hscan, List.isEmpty_iff.mp hparse, List.isEmpty_iff.mp hresolve,
          Except.ok.inj h⟩
      · cases h
    · cases h
  · cases h

/-- A program without reports is made by resolution. -/
theorem made_of_analyse {run : Nat} {root : StaticScope} {source : Text} {program : List Stmt}
    (hplaced : LiteralsPlaced source) (h : (analyse run root source).result = .ok program) :
    Made .none [root] (.stmts program) := by
  obtain ⟨hscan, hparse, hclean, hvalue⟩ := analyse_ok h
  exact ⟨run, _, every_tidy (shaped_of_parse hparse) (hplaced hscan hparse), hvalue, hclean⟩

namespace Session

/-! ## The course of a session -/

/-- The session after sources, each with its budget, have been run. -/
def after (console : Console) (limit : Nat) (runs : List (Nat × Text)) : Session :=
  runs.foldl (fun s r => (s.run r.1 r.2).2) (.fresh console limit)

/-- The program that a session makes of a source, if it gets as far as evaluation. -/
def program? (s : Session) (source : Text) : Option (List Stmt) :=
  (analyse s.runs s.rootNames source).result.toOption

section Course

variable (console : Console) (limit : Nat) (runs : List (Nat × Text))

/-- The programs of a session, with the names of the root scope that they are resolved against. -/
def Programs (names : StaticScope) (program : List Stmt) : Prop :=
  ∃ before r rest, runs = before ++ r :: rest ∧ (after console limit before).rootNames = names ∧
    (after console limit before).program? r.2 = some program

/-- A session passes a state, and takes a step from it. -/
def Reaches (state : State) : Prop :=
  ∃ before r rest program, runs = before ++ r :: rest ∧ (after console limit before).program? r.2 =
    some program ∧ Passes limit r.1 program (after console limit before).heap
    (after console limit before).console state

/-- What has opened a scope: the root scope is there from the start, and the others are made by
steps. -/
def Opened (id : ScopeId) (opener : Opener) : Prop :=
  id = Heap.root ∧ opener = .root ∨
    ∃ state, Reaches console limit runs state ∧ state.Opens limit id opener

end Course

variable {console : Console} {limit : Nat} {runs : List (Nat × Text)}

/-- The session after one more run. -/
theorem after_concat (before : List (Nat × Text)) (r : Nat × Text) :
    after console limit (before ++ [r]) = ((after console limit before).run r.1 r.2).2 := by
  simp [after]

/-- A program is what analysis gives without a report. -/
theorem program?_eq_some {s : Session} {source : Text} {program : List Stmt}
    (h : s.program? source = some program) :
    (analyse s.runs s.rootNames source).result = .ok program := by
  rw [program?] at h
  cases hresult : (analyse s.runs s.rootNames source).result with
  | error ds =>
    rw [hresult] at h
    cases h
  | ok program' =>
    rw [hresult] at h
    rw [Option.some.inj h]

/-- A run may as well start each statement with no call active. -/
theorem run_eq (budget : Nat) (s : Session) (source : Text) :
    s.run budget source =
      match (analyse s.runs s.rootNames source).result with
      | .error ds =>
        (⟨.diagnosed ds, (analyse s.runs s.rootNames source).log⟩, { s with runs := s.runs + 1 })
      | .ok program => conclude s.runs s.limit (analyse s.runs s.rootNames source) program
          (runProgram s.limit budget program s.heap s.console) := by
  cases hresult : (analyse s.runs s.rootNames source).result with
  | error ds => simp only [run, hresult]
  | ok program => simp only [run, hresult, (execute_eq ..).1]

/-- A run that does not get as far as evaluation leaves the heap and the console as they are. -/
theorem run_of_program?_eq_none {s : Session} {source : Text} (budget : Nat)
    (h : s.program? source = none) :
    ∃ report, s.run budget source = (report, { s with runs := s.runs + 1 }) ∧
      ∀ fault, report.ending ≠ .faulted fault := by
  rw [program?] at h
  cases hresult : (analyse s.runs s.rootNames source).result with
  | error ds =>
    refine ⟨⟨.diagnosed ds, (analyse s.runs s.rootNames source).log⟩, ?_, nofun⟩
    simp only [run, hresult]
  | ok program =>
    rw [hresult] at h
    cases h

/-- A run of a program ends as the program does. -/
theorem run_of_program?_eq_some {s : Session} {source : Text} {program : List Stmt} (budget : Nat)
    (h : s.program? source = some program) :
    (s.run budget source).1.ending =
      endingOf (runProgram s.limit budget program s.heap s.console).outcome ∧
      (s.run budget source).2 = ⟨(runProgram s.limit budget program s.heap s.console).heap,
        (runProgram s.limit budget program s.heap s.console).console, s.runs + 1, s.limit⟩ := by
  have hresult := program?_eq_some h
  simp only [run_eq, hresult, conclude, and_self]

@[simp] theorem limit_run (s : Session) (budget : Nat) (source : Text) :
    (s.run budget source).2.limit = s.limit := by
  cases hprogram : s.program? source with
  | none =>
    obtain ⟨report, hrun, -⟩ := run_of_program?_eq_none budget hprogram
    rw [hrun]
  | some program => rw [(run_of_program?_eq_some budget hprogram).2]

/-- Runs leave the limit on calls alone. -/
@[simp] theorem limit_after (runs : List (Nat × Text)) :
    (after console limit runs).limit = limit := by
  induction runs using List.reverseRecOn with
  | nil => rfl
  | append_singleton before r ih => rw [after_concat, limit_run, ih]

/-! ## The chronicle of a session -/

/-- The chronicle of a session whose function literals stand where they should. -/
def chronicle (console : Console) (limit : Nat) (runs : List (Nat × Text))
    (hplaced : ∀ r ∈ runs, LiteralsPlaced r.2) : Chronicle where
  programs := Programs console limit runs
  opened := Opened console limit runs
  made := by
    rintro names program ⟨before, r, rest, rfl, rfl, hprogram⟩
    exact made_of_analyse (hplaced r (by simp)) (program?_eq_some hprogram)

section Chronicle

/-! ### A new session -/

/-- A fresh session binds the natives only. -/
theorem mem_bindings_fresh {id : ScopeId} {name : Text} {binding : Binding}
    (h : (name, binding) ∈ (fresh console limit).heap.bindings id) :
    ∃ b : Builtin, name = utf8 b.name ∧ binding.value = .native (.builtin b) := by
  cases id with
  | zero =>
    obtain ⟨b, -, heq⟩ := List.mem_map.mp h
    obtain ⟨rfl, rfl⟩ := Prod.mk.inj heq
    exact ⟨b, rfl, rfl⟩
  | succ id => cases h

/-- No function of the root scope is bound under a reserved word. -/
theorem builtin_not_reserved (b : Builtin) : utf8 b.name ∉ reservedNames := by
  cases b <;> decide

/-- A new session fits. -/
theorem fitsHeap_fresh (w : Chronicle) : w.FitsHeap (fresh console limit).heap where
  root := Nat.one_pos
  bindings id name binding hmem := by
    obtain ⟨b, rfl, hvalue⟩ := mem_bindings_fresh hmem
    have hname := builtin_not_reserved b
    rw [hvalue]
    exact ⟨trivial, fun heq => absurd (heq ▸ thisName_mem_reservedNames) hname,
      fun heq => absurd (heq ▸ superName_mem_reservedNames) hname⟩
  elements id v hv := by cases hv with | mk hv => cases hv
  fields id name v hv := by cases hv
  classes id c hc := by cases hc

/-- The root scope mirrors its names. -/
theorem mirrors_root {s : Session} {w : Chronicle} (hheap : w.FitsHeap s.heap)
    (hroot : w.opened Heap.root .root) : w.Mirrors s.heap Heap.root [⟨.root, s.rootNames⟩] := by
  refine .last hroot hheap.root fun d hd => ?_
  obtain ⟨⟨name, binding⟩, hmem, rfl⟩ := List.mem_map.mp hd
  exact Entries.get?_ne_none_of_mem hmem

/-! ### Every run -/

variable (hplaced : ∀ r ∈ runs, LiteralsPlaced r.2) {before rest : List (Nat × Text)}
    {r : Nat × Text} {program : List Stmt}

/-- A program of the session is visited with the names of the root scope. -/
theorem visited_program (hruns : runs = before ++ r :: rest)
    (hprogram : (after console limit before).program? r.2 = some program) :
    (chronicle console limit runs hplaced).Visited [⟨.root, (after console limit before).rootNames⟩]
      (.stmts program) :=
  ⟨.none, .program ⟨before, r, rest, hruns, rfl, hprogram⟩⟩

variable (hacyclic : ∀ state, Reaches console limit runs state →
    ∀ x, state.call? = some (.native (.builtin .deepCopy), [x]) → state.depth < limit →
    state.heap.Acyclic x)

include hacyclic

/-- The chronicle covers the states that a session passes. -/
theorem covers_of_reaches {state : State} (h : Reaches console limit runs state) :
    (chronicle console limit runs hplaced).Covers limit state where
  acyclic := hacyclic state h
  records i _ state' hstep hsize hopener := .inr ⟨state, h, i, state', hstep, rfl, hsize, hopener⟩

theorem covers_of_passes (hruns : runs = before ++ r :: rest)
    (hprogram : (after console limit before).program? r.2 = some program) (state : State)
    (hpasses : Passes limit r.1 program (after console limit before).heap
      (after console limit before).console state) :
    (chronicle console limit runs hplaced).Covers limit state :=
  covers_of_reaches hplaced hacyclic ⟨before, r, rest, program, hruns, hprogram, hpasses⟩

/-- What the run of a program leaves behind, if the heap fits at its start. -/
theorem fits_program (hruns : runs = before ++ r :: rest)
    (hprogram : (after console limit before).program? r.2 = some program)
    (hheap : (chronicle console limit runs hplaced).FitsHeap (after console limit before).heap) :
    (after console limit before).heap.Grows ((after console limit before).run r.1 r.2).2.heap ∧
      (chronicle console limit runs hplaced).FitsHeap
        ((after console limit before).run r.1 r.2).2.heap ∧
      ∀ fault, ((after console limit before).run r.1 r.2).1.ending ≠ .faulted fault := by
  obtain ⟨hending, hafter⟩ := run_of_program?_eq_some r.1 hprogram
  obtain ⟨hg, hfits, houtcome⟩ :=
    Chronicle.fits_runProgram (visited_program hplaced hruns hprogram) hheap
      (mirrors_root hheap (.inl ⟨rfl, rfl⟩)) (covers_of_passes hplaced hacyclic hruns hprogram)
  rw [hending, hafter, limit_after]
  refine ⟨hg, hfits, fun fault heq => houtcome fault ?_⟩
  generalize (runProgram limit r.1 program _ _).outcome = outcome at heq ⊢
  cases outcome with
  | completed | exhausted => cases heq
  | stopped stop =>
    cases stop with
    | blame => cases heq
    | fault other => rw [Ending.faulted.inj heq]

/-- A run leaves a heap that fits, and ends without a fault. -/
theorem fits_run (hruns : runs = before ++ r :: rest)
    (hheap : (chronicle console limit runs hplaced).FitsHeap (after console limit before).heap) :
    (after console limit before).heap.Grows ((after console limit before).run r.1 r.2).2.heap ∧
      (chronicle console limit runs hplaced).FitsHeap
        ((after console limit before).run r.1 r.2).2.heap ∧
      ∀ fault, ((after console limit before).run r.1 r.2).1.ending ≠ .faulted fault := by
  cases hprogram : (after console limit before).program? r.2 with
  | none =>
    obtain ⟨report, hrun, hending⟩ := run_of_program?_eq_none r.1 hprogram
    rw [hrun]
    exact ⟨.refl _, hheap, hending⟩
  | some program => exact fits_program hplaced hacyclic hruns hprogram hheap

/-- The heap fits after each run. -/
theorem fitsHeap_after (hruns : runs = before ++ rest) :
    (chronicle console limit runs hplaced).FitsHeap (after console limit before).heap := by
  induction before using List.reverseRecOn generalizing rest with
  | nil => exact fitsHeap_fresh _
  | append_singleton before r ih =>
    have hsplit : runs = before ++ r :: rest := by simpa using hruns
    rw [after_concat]
    exact (fits_run hplaced hacyclic hsplit (ih hsplit)).2.1

/-- Every state that a session passes fits. -/
theorem fitsState_of_reaches {state : State} (h : Reaches console limit runs state) :
    ∃ final, (chronicle console limit runs hplaced).FitsState final state := by
  obtain ⟨before, r, rest, program, hruns, hprogram, hpasses⟩ := h
  have hheap := fitsHeap_after hplaced hacyclic hruns
  exact (Chronicle.fits_of_passes (visited_program hplaced hruns hprogram) hheap
    (mirrors_root hheap (.inl ⟨rfl, rfl⟩))
    (covers_of_passes hplaced hacyclic hruns hprogram) hpasses).2

end Chronicle

/-! ## Every scope is opened once -/

section Order

variable {before rest : List (Nat × Text)} {r : Nat × Text} {program : List Stmt}

/-- A run grows the heap. -/
theorem grows_run (s : Session) (budget : Nat) (source : Text) :
    s.heap.Grows (s.run budget source).2.heap := by
  cases hprogram : s.program? source with
  | none =>
    obtain ⟨report, hrun, -⟩ := run_of_program?_eq_none budget hprogram
    rw [hrun]
  | some program =>
    rw [(run_of_program?_eq_some budget hprogram).2]
    exact (keeps_runProgram s.limit budget program s.heap s.console).1

/-- The heap of a session grows with each run. -/
theorem grows_after (before more : List (Nat × Text)) :
    (after console limit before).heap.Grows (after console limit (before ++ more)).heap := by
  induction more using List.reverseRecOn with
  | nil => rw [List.append_nil]
  | append_singleton more r ih =>
    rw [← List.append_assoc, after_concat]
    exact ih.trans (grows_run ..)

/-- A step makes scopes that are there when a later run starts. -/
theorem precedes_after (more : List (Nat × Text))
    (hprogram : (after console limit before).program? r.2 = some program) {state : State}
    (hpasses : Passes limit r.1 program (after console limit before).heap
      (after console limit before).console state) :
    Precedes limit state (after console limit (before ++ r :: more)).heap := by
  have hprecedes := precedes_runProgram hpasses
  have hafter : (after console limit (before ++ [r])).heap =
      (runProgram limit r.1 program (after console limit before).heap
        (after console limit before).console).heap := by
    rw [after_concat, (run_of_program?_eq_some r.1 hprogram).2, limit_after]
  rw [← hafter] at hprecedes
  simpa using hprecedes.trans (grows_after (before ++ [r]) more)

/-- Of two states that a session passes, one precedes the other, or they are the same. -/
theorem reaches_total {a b : State} (ha : Reaches console limit runs a)
    (hb : Reaches console limit runs b) :
    a = b ∨ Precedes limit a b.heap ∨ Precedes limit b a.heap := by
  obtain ⟨before, r, rest, program, hruns, hprogram, hpasses⟩ := ha
  obtain ⟨before', r', rest', program', hruns', hprogram', hpasses'⟩ := hb
  rcases List.append_eq_append_iff.mp (hruns.symm.trans hruns') with ⟨more, rfl, hrest⟩
    | ⟨more, rfl, hrest⟩
  · cases more with
    | nil =>
      rw [List.append_nil] at hprogram' hpasses'
      obtain ⟨rfl, rfl⟩ := List.cons.inj hrest
      obtain rfl := Option.some.inj (hprogram.symm.trans hprogram')
      exact passes_total hpasses hpasses'
    | cons first more =>
      obtain ⟨rfl, rfl⟩ := List.cons.inj hrest
      exact .inr (.inl ((precedes_after more hprogram hpasses).trans (grows_of_passes hpasses')))
  · cases more with
    | nil =>
      rw [List.append_nil] at hprogram hpasses
      obtain ⟨rfl, rfl⟩ := List.cons.inj hrest
      obtain rfl := Option.some.inj (hprogram.symm.trans hprogram')
      exact passes_total hpasses hpasses'
    | cons first more =>
      obtain ⟨rfl, rfl⟩ := List.cons.inj hrest
      exact .inr (.inr ((precedes_after more hprogram' hpasses').trans (grows_of_passes hpasses)))

/-- The root scope is there from the start. -/
theorem root_lt_of_reaches {state : State} (h : Reaches console limit runs state) :
    Heap.root < state.heap.scopes.size := by
  obtain ⟨before, r, rest, program, -, -, hpasses⟩ := h
  have hfresh : Heap.root < (after console limit []).heap.scopes.size := Nat.one_pos
  exact hfresh.trans_le ((grows_after [] before).trans (grows_of_passes hpasses)).scopes

/-- A step never makes the root scope. -/
theorem root_ne_of_opens {state : State} (hstate : Reaches console limit runs state) {id : ScopeId}
    {opener : Opener} (h : state.Opens limit id opener) : id ≠ Heap.root := by
  obtain ⟨i, state', -, hid, -, -⟩ := h
  have hroot : 0 < state.heap.scopes.size := root_lt_of_reaches hstate
  rintro rfl
  have hzero : 0 = state.heap.scopes.size + i := hid
  omega

/-- One step has made a scope. -/
theorem eq_of_opens {a b : State} (ha : Reaches console limit runs a)
    (hb : Reaches console limit runs b) {id : ScopeId} {opener opener' : Opener}
    (hopens : a.Opens limit id opener) (hopens' : b.Opens limit id opener') :
    a = b ∧ opener = opener' := by
  obtain ⟨i, a', hstep, hid, hsize, hopener⟩ := hopens
  obtain ⟨j, b', hstep', hid', hsize', hopener'⟩ := hopens'
  have hsame : a.heap.scopes.size + i = b.heap.scopes.size + j := hid.symm.trans hid'
  have hin : a.heap.scopes.size + i < a'.heap.scopes.size := hid ▸ hsize
  have hin' : b.heap.scopes.size + j < b'.heap.scopes.size := hid' ▸ hsize'
  rcases reaches_total ha hb with rfl | hprecedes | hprecedes
  · obtain rfl : i = j := Nat.add_left_cancel hsame
    exact ⟨rfl, Option.some.inj (hopener.symm.trans hopener')⟩
  · have := hprecedes a' hstep
    omega
  · have := hprecedes b' hstep'
    omega

/-- A scope has been opened by one thing. -/
theorem opened_unique {id : ScopeId} {opener opener' : Opener}
    (h : Opened console limit runs id opener) (h' : Opened console limit runs id opener') :
    opener = opener' := by
  rcases h with ⟨rfl, rfl⟩ | ⟨a, ha, hopens⟩
  · rcases h' with ⟨-, rfl⟩ | ⟨b, hb, hopens'⟩
    · rfl
    · exact absurd rfl (root_ne_of_opens hb hopens')
  · rcases h' with ⟨rfl, rfl⟩ | ⟨b, hb, hopens'⟩
    · exact absurd rfl (root_ne_of_opens ha hopens)
    · exact (eq_of_opens ha hb hopens hopens').2

end Order

/-! ## Sessions without deep copies -/

/-- Whether a state calls for a deep copy. -/
def copies (state : State) : Bool :=
  match state.call? with
  | some (.native (.builtin .deepCopy), _) => true
  | _ => false

/-- Whether a state or one that follows it within a number of steps calls for a deep copy. -/
def copiesWithin (limit : Nat) : Nat → State → Bool
  | 0, _ => false
  | budget + 1, state =>
    copies state ||
      match step limit state with
      | .running state => copiesWithin limit budget state
      | _ => false

/-- Whether a program calls for a deep copy. -/
def programCopies (limit budget : Nat) : List Stmt → Heap → Console → Bool
  | [], _, _ => false
  | s :: rest, heap, console =>
    copiesWithin limit budget (.ofStmt s heap console) ||
      match runStmt limit budget s heap console with
      | ⟨.completed, heap, console⟩ => programCopies limit budget rest heap console
      | _ => false

/-- Whether a session calls for a deep copy in one of its runs. -/
def sessionCopies (s : Session) : List (Nat × Text) → Bool
  | [] => false
  | r :: rest =>
    ((s.program? r.2).map fun program => programCopies s.limit r.1 program s.heap s.console).getD
      false || sessionCopies (s.run r.1 r.2).2 rest

theorem not_copies_of_runFor {budget : Nat} {state : State}
    (h : copiesWithin limit budget state = false) {n : Nat} (hn : n < budget) {state' : State}
    (hrun : runFor limit n state = .running state') : copies state' = false := by
  induction budget generalizing n state with
  | zero => cases hn
  | succ budget ih =>
    obtain ⟨hhere, hlater⟩ := Bool.or_eq_false_iff.mp h
    cases n with
    | zero =>
      obtain rfl := Next.running.inj hrun
      exact hhere
    | succ n =>
      simp only [runFor] at hrun
      cases hstep : step limit state with
      | running state₁ =>
        simp only [hstep] at hlater hrun
        exact ih hlater (Nat.lt_of_succ_lt_succ hn) hrun
      | finished | stopped =>
        rw [hstep] at hrun
        cases hrun

/-- Where no deep copy is made, no state makes one. -/
theorem not_copies_of_passes {budget : Nat} {program : List Stmt} {heap : Heap} {console : Console}
    {state : State} (hpasses : Passes limit budget program heap console state)
    (h : programCopies limit budget program heap console = false) : copies state = false := by
  induction hpasses with
  | here hn hrun => exact not_copies_of_runFor (Bool.or_eq_false_iff.mp h).1 hn hrun
  | later hrun _ ih =>
    have hlater := (Bool.or_eq_false_iff.mp h).2
    simp only [hrun] at hlater
    exact ih hlater

theorem not_sessionCopies_after {s : Session} {before rest : List (Nat × Text)}
    (h : sessionCopies s (before ++ rest) = false) :
    sessionCopies (before.foldl (fun s r => (s.run r.1 r.2).2) s) rest = false := by
  induction before generalizing s with
  | nil => exact h
  | cons r before ih => exact ih (Bool.or_eq_false_iff.mp h).2

/-- A session that never calls for a deep copy passes no state that does. -/
theorem not_copies_of_reaches (h : sessionCopies (.fresh console limit) runs = false)
    {state : State} (hstate : Reaches console limit runs state) : copies state = false := by
  obtain ⟨before, r, rest, program, rfl, hprogram, hpasses⟩ := hstate
  have hrest := (Bool.or_eq_false_iff.mp (not_sessionCopies_after h)).1
  rw [show before.foldl (fun s r => (s.run r.1 r.2).2) (.fresh console limit) =
    after console limit before from rfl, hprogram, limit_after] at hrest
  exact not_copies_of_passes hpasses hrest

theorem ne_deepCopy_of_not_copies {state : State} (h : copies state = false)
    (arguments : List Value) : state.call? ≠ some (.native (.builtin .deepCopy), arguments) := by
  intro hcall
  simp [copies, hcall] at h

/-- Resolution is sound for evaluation. In a session whose named function literals are whole
statements or the values that declarations start with, and in which no deep copy is asked for of a
value that contains itself, no run ends with a fault. Each name that a step looks up is found: the
part of the program that is looked at has been gone over with some frames, its slot is the distance
of the innermost of them that declares the name, as many scopes further out lies a scope that has
been opened by what opened that frame and by nothing else, and it binds the name. Under `super` is a
class, and one scope nearer, under `this`, an instance. -/
theorem resolution_sound (console : Console) (limit : Nat) (runs : List (Nat × Text))
    (hplaced : ∀ r ∈ runs, LiteralsPlaced r.2)
    (hacyclic : ∀ state, Reaches console limit runs state →
      ∀ x, state.call? = some (.native (.builtin .deepCopy), [x]) → state.depth < limit →
      state.heap.Acyclic x) :
    (∀ before r rest, runs = before ++ r :: rest → ∀ fault,
      ((after console limit before).run r.1 r.2).1.ending ≠ .faulted fault) ∧
    ∀ state, Reaches console limit runs state →
      (∀ fault heap console', step limit state ≠ .stopped (.fault fault) heap console') ∧
      (∀ name slot, state.lookup? = some (name, slot) →
        ∃ node context frames depth mutable frame outer, state.LooksAt node ∧ node.lookup? =
          some (name, slot) ∧
          Visit (Programs console limit runs) context frames node ∧
          (scopesOf frames).find? name = some (depth, mutable) ∧ slot = some depth ∧
            frames[depth]? = some frame ∧
          state.heap.ancestor? state.scope depth = some outer ∧
            Opened console limit runs outer frame.opener ∧
          (∀ opener, Opened console limit runs outer opener → opener = frame.opener) ∧
            state.heap.Bound outer name) ∧
      ∀ keyword method slot next, state.control = .eval (.superRef keyword method slot) next →
        ∃ depth superclass receiver, slot = some (depth + 1) ∧
          state.heap.lookup state.scope (depth + 1) superName = .ok (.classRef superclass) ∧
          state.heap.lookup state.scope depth thisName = .ok (.object receiver) := by
  refine ⟨fun before r rest hruns =>
    (fits_run hplaced hacyclic hruns (fitsHeap_after hplaced hacyclic hruns)).2.2,
      fun state hstate => ?_⟩
  obtain ⟨final, hfits⟩ := fitsState_of_reaches hplaced hacyclic hstate
  have hcovers := covers_of_reaches hplaced hacyclic hstate
  refine ⟨fun fault heap console' hstep => ?_,
    fun name slot hlookup => ?_, fun keyword method slot next hcontrol => ?_⟩
  · have hnext := hfits.step hcovers.acyclic hcovers.records
    rw [hstep] at hnext
    exact hnext.2.2 fault rfl
  · obtain ⟨node, frames, hlooks, hnode, hvisited, hm⟩ := hfits.lookup hlookup
    obtain ⟨depth, mutable, hfind, hslot⟩ := hvisited.lookup hnode
    obtain ⟨frame, outer, binding, hframe, hopened, houter, hbinding⟩ := hm.find hfind
    obtain ⟨context, hvisit⟩ := hvisited
    exact ⟨node, context, frames, depth, mutable, frame, outer, hlooks, hnode, hvisit, hfind, hslot,
      hframe, houter, hopened, fun opener h => opened_unique h hopened, binding, hbinding⟩
  · have hfitting := hfits.control
    rw [hcontrol] at hfitting
    obtain ⟨frames, hm, hvisited, -⟩ := hfitting
    obtain ⟨depth, mutable, mutable', hthis, hsuper, hslot⟩ := hvisited.receiver_of_super
    obtain ⟨superclass, receiver, hclass, hobject, -, -⟩ := hvisited.superOf_ok hm hfits.heap
    rw [hslot] at hclass hobject
    exact ⟨depth, superclass, receiver, hslot, hclass, hobject⟩

/-- A method of a subclass uses the superclass, called from a later run. -/
theorem resolution_sound_superclass :
    let runs := [
      (10, utf8 "class A \x7b m(x) \x7b return this; \x7d \x7d class B extends A \x7b m(x) \x7b return super.m(x); \x7d \x7d"),
      (100, utf8 "\x7b let b = B(); fun f(x) \x7b return x.m(b); \x7d b = f(b); print b.m(nil); \x7d")]
    (∀ r ∈ runs, LiteralsPlaced r.2) ∧ sessionCopies (.fresh ⟨[], [], none, none⟩ 10) runs = false ∧
      ∀ before r rest, runs = before ++ r :: rest → ∀ fault,
        ((after ⟨[], [], none, none⟩ 10 before).run r.1 r.2).1.ending ≠ .faulted fault := by
  intro runs
  have hplaced : ∀ r ∈ runs, LiteralsPlaced r.2 := by
    have hwithin :
        (runs.all fun r => Code.placedWithin 20
          (.stmts (parse (scan r.2).tokens (scan r.2).size).stmts)) = true := by
      decide +kernel
    exact fun r hr _ _ => everyPlaced_of_placedWithin (List.all_eq_true.mp hwithin r hr)
  have hcopies : sessionCopies (.fresh ⟨[], [], none, none⟩ 10) runs = false := by decide +kernel
  refine ⟨hplaced, hcopies,
    (resolution_sound ⟨[], [], none, none⟩ 10 runs hplaced fun state hstate x hcall => ?_).1⟩
  exact absurd hcall (ne_deepCopy_of_not_copies (not_copies_of_reaches hcopies hstate) [x])

end Session

end Lox
