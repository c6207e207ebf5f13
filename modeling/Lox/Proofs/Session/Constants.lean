import Lox.Proofs.Evaluation.Reassignment
import Lox.Proofs.Session.Blame
import Lox.Proofs.Session.Lineage

/-!
# Constants

Whether a name may be assigned to is decided twice: resolution goes by the declarations that it has
seen, evaluation by the bindings that have been made. Where no scope of a program declares a name
twice, the two agree: what opens a scope settles whether a name in it may be assigned to
(`Visit.settles`), resolution lets only names be assigned to that are declared mutable in the scope
it points at, and that scope binds nothing but what it declares.

The main theorem is `constants_kept`: a program that resolves without a report never stops because a
name may not be assigned to.
-/

namespace Lox

open Code

/-! ## Names that are declared once -/

/-- No name is declared twice in the scope that a part opens: that of a block, or that of a function
with its parameters. -/
def Code.Distinct : Code → Prop
  | .stmt (.block body) => ((declaresOf body).map Prod.fst).Nodup
  | .function f => ((parameterScope f.params ++ declaresOf f.body).map Prod.fst).Nodup
  | _ => True

instance : DecidablePred Code.Distinct := fun c =>
  match c with
  | .stmt (.block _) | .function _ => List.nodupDecidable _
  | .stmt (.evaluate _) | .stmt (.print _) | .stmt (.declare _ _ _) | .stmt (.branch _ _ _)
  | .stmt (.loop _ _ _) | .stmt (.ret _ _) | .stmt (.brk _) | .stmt (.cont _)
  | .stmt (.classDecl _ _ _) | .stmts _ | .expr _ => .isTrue trivial

/-- What opens a scope settles for each name whether it may be assigned to. -/
def Opener.Settles (root : Text × Bool → Prop) (opener : Opener) : Prop :=
  ∀ name mutable mutable', opener.Holds root (name, mutable) → opener.Holds root (name, mutable') →
    mutable = mutable'

theorem mutable_eq_of_nodup {names : StaticScope} (h : (names.map Prod.fst).Nodup) {name : Text}
    {mutable mutable' : Bool} (hmem : (name, mutable) ∈ names) (hmem' : (name, mutable') ∈ names) :
    mutable = mutable' :=
  (Prod.mk.inj (List.inj_on_of_nodup_map h hmem hmem' rfl)).2

section Settling

variable {programs : StaticScope → List Stmt → Prop} {root : Text × Bool → Prop}

theorem settles_receiver (f : Function) : (Opener.receiver f).Settles root :=
  fun _ _ _ h h' => ((Prod.mk.inj h).2).trans (Prod.mk.inj h').2.symm

theorem settles_superclass (name : Ident) (use : NameUse) (methods : List Method) :
    (Opener.superclass name use methods).Settles root :=
  fun _ _ _ h h' => ((Prod.mk.inj h).2).trans (Prod.mk.inj h').2.symm

/-- Around a part that is visited every opener settles its names, if the scopes of the programs
declare each name once. -/
theorem Visit.settles (hroot : Opener.root.Settles root)
    (hprograms : ∀ names body, programs names body → Every Distinct (.stmts body))
    {context : ClassContext} {frames : List Frame} {c : Code}
    (h : Visit programs context frames c) :
    Every Distinct c ∧ ∀ o ∈ openersOf frames, o.Settles root := by
  induction h with
  | program hprogram => exact ⟨hprograms _ _ hprogram, by simpa [openersOf] using hroot⟩
  | first _ ih => exact ⟨ih.1.child (.member List.mem_cons_self), ih.2⟩
  | next _ ih =>
    rw [openersOf_declareIn]
    exact ⟨ih.1.tail trivial, ih.2⟩
  | block _ ih =>
    refine ⟨ih.1.child .block, List.forall_mem_cons.mpr ⟨fun name m m' hm hm' => ?_, ih.2⟩⟩
    exact mutable_eq_of_nodup ih.1.here hm hm'
  | inner _ hs ih => exact ⟨ih.1.child (.inner hs), ih.2⟩
  | method _ hm ih =>
    rw [openersOf_cons, openersOf_declareIn]
    exact ⟨ih.1.child (.method hm), List.forall_mem_cons.mpr ⟨settles_receiver _, ih.2⟩⟩
  | submethod _ hm ih =>
    rw [openersOf_cons, openersOf_cons, openersOf_declareIn]
    exact ⟨ih.1.child (.method hm),
      List.forall_mem_cons.mpr
      ⟨settles_receiver _, List.forall_mem_cons.mpr ⟨settles_superclass _ _ _, ih.2⟩⟩⟩
  | expr _ he ih => exact ⟨ih.1.child (.expr he), ih.2⟩
  | part _ he ih => exact ⟨ih.1.child (.part he), ih.2⟩
  | literal _ ih =>
    rw [openersOf_declareIn]
    exact ⟨ih.1.child .literal, ih.2⟩
  | body _ ih =>
    refine ⟨ih.1.child .body, List.forall_mem_cons.mpr ⟨fun name m m' hm hm' => ?_, ih.2⟩⟩
    exact mutable_eq_of_nodup ih.1.here hm hm'

end Settling

/-! ## Assignments in a traced state -/

namespace Lineage

variable {l : Lineage}

/-- The name that an assignment finds may be assigned to, where the openers around it settle their
names. -/
theorem TracedState.assign_mutable
    (harises : ∀ names body, l.programs names body →
      (Code.stmts body).Arises l.Global .none [.root]) (hroot : Opener.root.Settles l.Global)
    (hdistinct : ∀ names body, l.programs names body → Every Distinct (.stmts body)) {state : State}
    (hstate : l.TracedState state) {v : Value} {use : NameUse} {next : ValueCont}
    (hcontrol : state.control = .give v (.assign use next)) :
    ∃ distance outer, use.depth = some distance ∧ state.heap.ancestor? state.scope distance =
      some outer ∧
      ∀ binding, (state.heap.bindings outer).get? use.ident.name = some binding →
        binding.mutable = true := by
  have htraced := hstate.control
  rw [hcontrol] at htraced
  obtain ⟨value, context, frames, hvisit, hwithin⟩ := htraced.2.1
  obtain ⟨distance, opener, hdepth, hopener, hholds⟩ := (hvisit.arises harises).assign
  obtain ⟨outer, houter, -, hopened⟩ := hwithin.ancestor hopener
  refine ⟨distance, outer, hdepth, houter, fun binding hget => ?_⟩
  have hsettles : opener.Settles l.Global :=
    (hvisit.settles hroot hdistinct).2 opener (List.mem_of_getElem? hopener)
  have hbinds := hstate.heap.binds outer opener _ binding hopened (Entries.mem_of_get? hget)
  cases opener with
  | root | block | call => exact hsettles _ _ _ ((binds_iff (by trivial)).mp hbinds) hholds
  | receiver | superclass => exact Bool.noConfusion (Prod.mk.inj hholds).2

end Lineage

namespace Session

variable {console : Console} {limit budget : Nat} {source : Text} {program : List Stmt}

/-! ## A program in a new session -/

/-- The only program of a session that runs one source. -/
theorem program_of_programs {names : StaticScope} {body : List Stmt}
    (h : Programs console limit [(budget, source)] names body) :
    (fresh console limit).program? source = some body := by
  obtain ⟨before, r, rest, hruns, -, hbody⟩ := h
  cases before with
  | nil =>
    obtain ⟨rfl, -⟩ := List.cons.inj hruns
    exact hbody
  | cons first before => simp at hruns

theorem mem_builtins (b : Builtin) : b ∈ Builtin.all := by
  cases b <;> decide

/-- A name that the root scope can have is that of a native or one that the program declares. -/
theorem mem_of_global (hprogram : (fresh console limit).program? source = some program)
    {d : Text × Bool} (h : (lineage console limit [(budget, source)]).Global d) :
    d ∈ (fresh console limit).rootNames ++ declaresOf program := by
  rcases h with ⟨b, rfl⟩ | ⟨names, body, hbody, hd⟩
  · refine List.mem_append_left _
      (List.mem_map.mpr ⟨(utf8 b.name, ⟨true, .native (.builtin b)⟩), ?_, rfl⟩)
    exact List.mem_map_of_mem (mem_builtins b)
  · obtain rfl := Option.some.inj (hprogram.symm.trans (program_of_programs hbody))
    exact List.mem_append_right _ hd

theorem global_of_mem_rootNames {runs : List (Nat × Text)} {d : Text × Bool}
    (hd : d ∈ (fresh console limit).rootNames) : (lineage console limit runs).Global d := by
  obtain ⟨⟨name, binding⟩, hmem, rfl⟩ := List.mem_map.mp hd
  obtain ⟨b, rfl, -⟩ := mem_bindings_fresh hmem
  exact .inl ⟨b, Prod.ext rfl (mutable_of_mem_fresh hmem)⟩

/-- In a program whose scopes declare each name once, an assignment finds a name that may be
assigned to. -/
theorem assigns_mutable (hprogram : (fresh console limit).program? source = some program)
    (hroot : (((fresh console limit).rootNames ++ declaresOf program).map Prod.fst).Nodup)
    (hscopes : Every Distinct (.stmts program)) {state : State}
    (hpasses : Passes limit budget program (fresh console limit).heap console state) {v : Value}
    {use : NameUse} {next : ValueCont} (hcontrol : state.control = .give v (.assign use next)) :
    ∃ distance outer, use.depth = some distance ∧ state.heap.ancestor? state.scope distance =
      some outer ∧
      ∀ binding, (state.heap.bindings outer).get? use.ident.name = some binding →
        binding.mutable = true := by
  have htraced := traced_of_reaches (reaches_of_passes hprogram hpasses)
  refine htraced.assign_mutable (fun names body hbody => ?_) (fun name m m' hm hm' => ?_)
    (fun names body hbody => ?_) hcontrol
  · exact arises_program (program_of_programs hbody) (fun d => global_of_mem_rootNames)
      fun d hd => .inr ⟨names, body, hbody, hd⟩
  · exact mutable_eq_of_nodup hroot (mem_of_global hprogram hm) (mem_of_global hprogram hm')
  · obtain rfl := Option.some.inj (hprogram.symm.trans (program_of_programs hbody))
    exact hscopes

/-- **The static check of constants is complete.** Let a program be run in a new session, and let
none of its scopes declare a name twice: no block, no function with its parameters, and not the root
scope with the natives. If it gets past resolution, no run of it, however long, ends because a name
may not be assigned to. Whenever an assignment has its value, the scope that its target points at is
there, and the name, if it is bound there, may be assigned to. -/
theorem constants_kept (console : Console) (limit : Nat) (source : Text) (program : List Stmt)
    (hprogram : (fresh console limit).program? source = some program)
    (hroot : (((fresh console limit).rootNames ++ declaresOf program).map Prod.fst).Nodup)
    (hscopes : Every Distinct (.stmts program)) (budget : Nat) :
    (∀ d ∈ ((fresh console limit).run budget source).1.ending.diagnostics,
      ∀ kind name, d.problem ≠ .runtime (.constant kind name)) ∧
    ∀ state, Passes limit budget program (fresh console limit).heap console state →
      ∀ v use next, state.control = .give v (.assign use next) →
        ∃ distance outer, use.depth = some distance ∧ state.heap.ancestor? state.scope distance =
          some outer ∧
          ∀ binding, (state.heap.bindings outer).get? use.ident.name = some binding →
            binding.mutable = true := by
  refine ⟨fun d hd kind name hproblem => ?_,
    fun state hpasses v use next => assigns_mutable hprogram hroot hscopes hpasses⟩
  rw [(run_of_program?_eq_some budget hprogram).1] at hd
  obtain ⟨problem, site, houtcome, rfl⟩ := exists_blame_of_mem hd
  have hsparing : Stop.Sparing (.blame problem site) := by
    refine stops_runProgram (fun _ => trivial) (fun _ => trivial) (fun _ => trivial)
      (fun state hpasses => ?_) houtcome
    by_cases hassign : ∃ v use next, state.control = .give v (.assign use next)
    · obtain ⟨v, use, next, hcontrol⟩ := hassign
      obtain ⟨distance, outer, hdepth, houter, hmutable⟩ :=
        assigns_mutable hprogram hroot hscopes hpasses hcontrol
      refine sparing_assign hcontrol fun found binding hfind => ?_
      obtain ⟨hfound, hget⟩ := Heap.of_find_eq_ok hfind
      rw [hdepth, Option.getD_some, houter] at hfound
      obtain rfl := Option.some.inj hfound
      exact hmutable binding hget
    · exact sparing_step limit fun v use next hcontrol => hassign ⟨v, use, next, hcontrol⟩
  obtain rfl := Problem.runtime.inj hproblem
  exact hsparing

/-- A function assigns to a name around it and to its parameter, and a loop declares a constant in
each turn. -/
theorem constants_kept_loop :
    let source :=
      utf8 "let a = true; const k = nil; fun set(x) \x7b const b = x; a = b; x = k; \x7d" ++
      utf8 "for ; a; \x7b const c = a; let d = c; d = k; set(d); \x7d print a;"
    ∃ program, (fresh ⟨[], [], none, none⟩ 9).program? source = some program ∧
      (((fresh ⟨[], [], none, none⟩ 9).rootNames ++ declaresOf program).map Prod.fst).Nodup ∧
      Every Distinct (.stmts program) ∧
      ((fresh ⟨[], [], none, none⟩ 9).run 200 source).2.console.output = utf8 "nil\n" ∧
      ∀ budget, ∀ d ∈ ((fresh ⟨[], [], none, none⟩ 9).run budget source).1.ending.diagnostics,
        ∀ kind name, d.problem ≠ .runtime (.constant kind name) := by
  intro source
  have hchecked : (((fresh ⟨[], [], none, none⟩ 9).program? source).map fun program =>
      decide (((fresh ⟨[], [], none, none⟩ 9).rootNames ++ declaresOf program).map
        Prod.fst).Nodup && allWithin (fun c => decide c.Distinct) 20 (.stmts program)) =
        some true := by decide +kernel
  have houtput : ((fresh ⟨[], [], none, none⟩ 9).run 200 source).2.console.output =
      utf8 "nil\n" := by decide +kernel
  obtain ⟨program, hprogram, hchecks⟩ := Option.map_eq_some_iff.mp hchecked
  obtain ⟨hnames, hwithin⟩ := Bool.and_eq_true_iff.mp hchecks
  have hroot := of_decide_eq_true hnames
  have hscopes : Every Distinct (.stmts program) :=
    every_of_allWithin (fun c => of_decide_eq_true) hwithin
  exact ⟨program, hprogram, hroot, hscopes, houtput,
    fun budget =>
    (constants_kept ⟨[], [], none, none⟩ 9 source program hprogram hroot hscopes budget).1⟩

-- Where a scope declares a name twice, the second declaration can make a constant of what
-- resolution took for a variable.
example :
    ((fresh ⟨[], [], none, none⟩ 9).run 100
      (utf8 "let a; fun f() \x7b a = true; \x7d const a = nil; f();")).1.ending.diagnostics.map
      Diagnostic.message = [utf8 "Cannot reassign a const nil `a`"] := by
  decide +kernel

end Session

end Lox
