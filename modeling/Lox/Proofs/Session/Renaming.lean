import Lox.Proofs.Resolution.Parts
import Lox.Proofs.Session.Blame
import Lox.Proofs.Session.Lineage
import Mathlib.Logic.Equiv.Basic

/-!
# Scoping is by structure

The names of variables, parameters and functions mean nothing but which declaration a use belongs
to. If all of them are given other names, different names for different ones, then resolution finds
for each use the same slot, and evaluation does the same: it prints the same, ends in the same way,
and leaves the same behind under other names (`scoping_by_structure`).

A class shows its name when it is printed, and the natives are there before the program, so their
names are kept. The names of properties and methods are no names of scopes.
-/

namespace Lox

open Code

/-- Statements with other names for variables, parameters and functions. -/
def renameStmts (name : Text → Text) (program : List Stmt) : List Stmt :=
  dressStmts (.renamed name) program

/-- A class that a part declares keeps its name. -/
def Code.KeepsClass (g : Guise) : Code → Prop
  | .stmt s => s.KeepsClass g
  | _ => True

/-- Whether a class that a part declares keeps its name. -/
def Code.keepsClassHere (g : Guise) : Code → Bool
  | .stmt (.classDecl name _ _) => g.name name.name == name.name
  | _ => true

theorem Code.keepsClass_of_here {g : Guise} {c : Code} (h : c.keepsClassHere g = true) :
    c.KeepsClass g := by
  cases c with
  | stmt s =>
    cases s with
    | classDecl name superclass methods => exact beq_iff_eq.mp h
    | _ => trivial
  | _ => trivial

/-- Other names for those of a program: different names get different names, and the classes of the
program, the natives and the two words that are bound in scopes keep theirs. -/
structure Renames (name : Text → Text) (program : List Stmt) : Prop where
  injective : Function.Injective name
  receiver : name thisName = thisName
  superclass : name superName = superName
  natives : ∀ b : Builtin, name (utf8 b.name) = utf8 b.name
  classes : Every (KeepsClass (.renamed name)) (.stmts program)

/-! ## What is seen of another name -/

/-- A problem about another name. -/
def Problem.rename (name : Text → Text) : Problem → Problem
  | .resolve problem => .resolve (problem.dress (.renamed name))
  | .runtime problem => .runtime (problem.dress (.renamed name))
  | problem => problem

/-- A diagnostic about another name, at the same place. -/
def Diagnostic.rename (name : Text → Text) (d : Diagnostic) : Diagnostic :=
  { d with problem := d.problem.rename name }

/-- The end of a run of a program with other names. -/
def Ending.rename (name : Text → Text) : Ending → Ending
  | .diagnosed ds => .diagnosed (ds.map (Diagnostic.rename name))
  | .faulted fault => .faulted (fault.dress (.renamed name))
  | .exhausted => .exhausted

/-- What is to be seen of a binding under another name. -/
def Session.Global.rename (name : Text → Text) (g : Session.Global) : Session.Global :=
  { g with name := name g.name }

theorem Diagnostic.Dressed.eq_rename {name : Text → Text} {d d' : Diagnostic}
    (h : d.Dressed (.renamed name) d') : d' = d.rename name := by
  obtain ⟨problem, site, rfl, rfl⟩ := h
  rfl

theorem endingOf_dress (name : Text → Text) (outcome : Outcome) :
    Session.endingOf (outcome.dress (.renamed name)) = (Session.endingOf outcome).rename name := by
  cases outcome with
  | completed | exhausted => rfl
  | stopped stop =>
    cases stop with
    | fault => rfl
    | blame problem site =>
      have hsite : (Guise.renamed name).blame problem site = site := by
        unfold Guise.blame
        split <;> rfl
      simp only [Outcome.dress, Stop.dress, Session.endingOf, hsite]
      rfl

/-! ## Renamed programs -/

namespace Renames

variable {name : Text → Text} {program : List Stmt} (h : Renames name program)

include h

theorem lawful : (Guise.renamed name).Lawful := ⟨h.injective, h.receiver, h.superclass⟩

/-- The disguise of other names. -/
def disguise : Disguise where
  toGuise := .renamed name
  sameLiteral := Relabelling.sameLiteral_kept
  lawful := h.lawful

/-- A new session has the natives under their names. -/
theorem alikeIn_rootNames (console : Console) (limit : Nat) :
    (Session.fresh console limit).rootNames.AlikeIn (.renamed name)
      (Session.fresh console limit).rootNames := by
  have hnames : (Session.fresh console limit).rootNames.dress (.renamed name) =
      (Session.fresh console limit).rootNames := by
    calc (Session.fresh console limit).rootNames.dress (.renamed name)
        = (((Session.fresh console limit).heap.dress (.renamed name)).bindings Heap.root).map
            fun entry => (entry.1, entry.2.mutable) := by
          rw [Heap.bindings_dress, Session.rootNames, StaticScope.dress, Entries.dress,
            List.map_map, List.map_map]
          rfl
      _ = (Session.fresh console limit).rootNames := by
          rw [Session.dress_fresh h.natives]
          rfl
  have halike := StaticScope.alikeIn_dress h.lawful (Session.fresh console limit).rootNames
  rwa [hnames] at halike

/-- Resolution finds the same slots for other names, and reports the same about them. -/
theorem resolve_rename (console : Console) (limit : Nat) :
    (resolveProgram 0 (Session.fresh console limit).rootNames (renameStmts name program)).value =
        renameStmts name (resolveProgram 0 (Session.fresh console limit).rootNames program).value ∧
      (resolveProgram 0 (Session.fresh console limit).rootNames
        (renameStmts name program)).diagnostics =
        (resolveProgram 0 (Session.fresh console limit).rootNames program).diagnostics.map
          (Diagnostic.rename name) := by
  have hroot : StaticScopes.AlikeIn (.renamed name) [(Session.fresh console limit).rootNames]
      [(Session.fresh console limit).rootNames] := .cons (h.alikeIn_rootNames console limit) .nil
  obtain ⟨hvalue, -, hdiagnostics⟩ :=
    dresses_resolveStmts h.lawful
      (fun _ _ => rfl : ∀ r keyword, Prod.mk 0 keyword =
        (0, ((Guise.renamed name).literal r keyword).2)) .none program _ _ hroot
  have heq : List.Forall₂ (· = ·) (List.map (Diagnostic.rename name) _) _ :=
    List.forall₂_map_left_iff.mpr
      (hdiagnostics.imp fun _ _ hd => (Diagnostic.Dressed.eq_rename hd).symm)
  rw [List.forall₂_eq_eq_eq] at heq
  exact ⟨hvalue, heq.symm⟩

/-- The classes that the resolved program declares keep their names, too. -/
theorem keepsClass_resolved (run : Nat) (root : StaticScope) :
    Every (KeepsClass (.renamed name)) (.stmts (resolveProgram run root program).value) := by
  refine every_resolved (fun run context S c hc => ?_) h.classes
  cases c with
  | stmt s =>
    cases s with
    | classDecl name superclass methods => cases superclass <;> exact hc
    | _ => trivial
  | _ => trivial

/-- Evaluation of a program under other names does the same with other names. -/
theorem runProgram_rename (limit budget : Nat) (console : Console) :
    runProgram limit budget
      (renameStmts name (resolveProgram 0 (Session.fresh console limit).rootNames program).value)
        (Session.fresh console limit).heap console =
      (runProgram limit budget
        (resolveProgram 0 (Session.fresh console limit).rootNames program).value
        (Session.fresh console limit).heap console).dress (.renamed name) := by
  have hkeeps := h.keepsClass_resolved 0 (Session.fresh console limit).rootNames
  have hpassed :
      ∀ state, Passes limit budget
      (resolveProgram 0 (Session.fresh console limit).rootNames program).value
      (Session.fresh console limit).heap console state → state.KeepsClass (.renamed name) := by
    intro state hpasses stmt next hcontrol
    have hbears :=
      bears_of_passes (hereditary_every fun _ => trivial) hpasses (Session.bears_fresh _) hkeeps
    have hheld := hbears.control
    rw [hcontrol] at hheld
    exact hheld.1.here
  have hrun := runProgram_dress h.disguise hpassed
  have hfresh : (Session.fresh console limit).heap.dress h.disguise =
      (Session.fresh console limit).heap :=
    Session.dress_fresh h.natives console limit
  rw [hfresh] at hrun
  exact hrun

end Renames

/-- Scoping is by structure, not by name. Let a program be given other names for its variables,
parameters and functions, different names for different ones, with the natives and its classes
keeping theirs; names of properties and methods are not touched. Then resolution against the root
scope of a new session writes the same slots and reports the same at the same places, but for the
name that a report quotes. And evaluation of what it leaves, with the same input, call limit and
budget, prints the same and takes the same from the input, ends in the same way but for the name
that the diagnostic quotes, and leaves the same in the root scope under the other names. -/
theorem scoping_by_structure (console : Console) (limit : Nat) (name : Text → Text)
    (program : List Stmt) (h : Renames name program) :
    let root := (Session.fresh console limit).rootNames
    let heap := (Session.fresh console limit).heap
    let resolved := resolveProgram 0 root program
    let resolved' := resolveProgram 0 root (renameStmts name program)
    resolved'.value = renameStmts name resolved.value ∧
      resolved'.diagnostics = resolved.diagnostics.map (Diagnostic.rename name) ∧
      ∀ budget,
        let ended := runProgram limit budget resolved.value heap console
        let ended' := runProgram limit budget resolved'.value heap console
        ended'.console = ended.console ∧
          Session.endingOf ended'.outcome = (Session.endingOf ended.outcome).rename name ∧
          ended'.heap.rootView = ended.heap.rootView.map (Session.Global.rename name) := by
  intro root heap resolved resolved'
  obtain ⟨hvalue, hdiagnostics⟩ := h.resolve_rename console limit
  refine ⟨hvalue, hdiagnostics, fun budget => ?_⟩
  intro ended ended'
  have hended : ended' = ended.dress (.renamed name) := by
    have hrun := h.runProgram_rename limit budget console
    rwa [← hvalue] at hrun
  rw [hended]
  exact ⟨rfl, endingOf_dress name ended.outcome, ended.heap.rootView_dress _⟩

/-- Two names that change places, in a program that ends with a diagnostic about one of them. -/
theorem scoping_by_structure_swapped :
    let source := utf8
      "let a; fun f(b) \x7b a = b; \x7d class C \x7b m(b) \x7b print b; \x7d \x7d const a = nil; C().m(a); f(a);"
    let program := (parse (scan source).tokens (scan source).size).stmts
    let swapped : Text → Text := Equiv.swap (utf8 "a") (utf8 "b")
    let start := Session.fresh ⟨[], [], none, none⟩ 9
    Renames swapped program ∧
      (Session.endingOf (runProgram 9 200
        (resolveProgram 0 start.rootNames (renameStmts swapped program)).value start.heap
        start.console).outcome).diagnostics.map Diagnostic.message =
        [utf8 "Cannot reassign a const nil `b`"] ∧
      (runProgram 9 200 (resolveProgram 0 start.rootNames (renameStmts swapped program)).value
          start.heap start.console).heap.rootView =
        (runProgram 9 200 (resolveProgram 0 start.rootNames program).value
            start.heap start.console).heap.rootView.map
          (Session.Global.rename swapped) := by
  intro source program swapped start
  have hwithin : allWithin (keepsClassHere (.renamed swapped)) 20 (.stmts program) = true := by
    decide +kernel
  have hrenames : Renames swapped program := by
    refine ⟨(Equiv.swap _ _).injective, by decide +kernel, by decide +kernel, fun b => ?_, ?_⟩
    · cases b <;> decide +kernel
    · exact every_of_allWithin (fun c => keepsClass_of_here) hwithin
  refine ⟨hrenames, by decide +kernel, ?_⟩
  exact ((scoping_by_structure ⟨[], [], none, none⟩ 9 swapped program hrenames).2.2 200).2.2

end Lox
