import Lox.Proofs.Evaluation.Advance
import Lox.Proofs.Evaluation.Contents

/-!
# The classes of a heap

Of all that a step can do, only a class declaration makes a class, and nothing changes or removes
one: a step leaves the classes as they are or adds the class that is declared (`classes_step`). The
methods of this class are those of the declaration, and of two with one name the last
(`get?_methodEntries`).

What steps keep is kept by runs: a property of heaps that no step of a run breaks holds of every
state that the run passes and of the heap that it leaves (`invariant_runProgram`).
-/

namespace Lox

/-! ## Steps -/

/-- What a class declaration gives to the class when it is executed: the methods, and the scope that
they are in. -/
structure Members where
  methods : List Method
  scope : ScopeId

/-- A state executes a class declaration, which has these members. The methods of a class with a
superclass are in a scope of their own. -/
def State.Declares (state : State) (members : Members) : Prop :=
  ∃ name superclass next, state.control = .exec (.classDecl name superclass members.methods) next ∧
    members.scope = if superclass.isSome then state.heap.scopes.size else state.scope

/-- A step leaves the classes as they are, or executes a declaration and adds the class that is
declared. -/
theorem classes_step (limit : Nat) (state : State) :
    (step limit state).heap.classes = state.heap.classes ∨
    ∃ members c, state.Declares members ∧ (step limit state).heap.classes =
      state.heap.classes.push c ∧
      c.methods = methodEntries members.scope members.methods := by
  obtain ⟨control, scope, depth, h, console⟩ := state
  have htrans := transition_step limit ⟨control, scope, depth, h, console⟩
  generalize step limit ⟨control, scope, depth, h, console⟩ = next at htrans ⊢
  cases htrans with
  | @classDecl name methods k =>
    exact .inr ⟨⟨methods, scope⟩, _, ⟨name, none, k, rfl, rfl⟩, rfl, rfl⟩
  | @subclass name use methods k =>
    exact .inr ⟨⟨methods, h.scopes.size⟩, _, ⟨name, some use, k, rfl, rfl⟩, rfl, rfl⟩
  | @property _ _ _ _ _ p => cases p <;> exact .inl rfl
  | @native _ b arguments paren | @nativeFails _ b arguments paren =>
    exact .inl (b.effect_call arguments paren h console).classes
  | _ => exact .inl rfl

/-! ## Members -/

/-- The name of a method. -/
def Method.name : Method → Text
  | .mk ident _ => ident.name

/-- The function of a method. -/
def Method.function : Method → Function
  | .mk _ f => f

/-- What a declaration defines a name as. The last definition counts. -/
def Members.method? (members : Members) (name : Text) : Option Closure :=
  (members.methods.reverse.find? fun m => m.name == name).map fun m => ⟨m.function, members.scope⟩

/-- A class has what its declaration defines, but the constructor is no method. -/
theorem get?_methodEntries (members : Members) (name : Text) :
    (methodEntries members.scope members.methods).get? name =
      if name = constructorName then none else members.method? name := by
  obtain ⟨methods, scope⟩ := members
  induction methods using List.reverseRecOn with
  | nil => simp [methodEntries, Entries.get?, Members.method?]
  | append_singleton methods m ih =>
    obtain ⟨ident, f⟩ := m
    have hlast : methodEntries scope (methods ++ [.mk ident f]) =
        if ident.name == constructorName then methodEntries scope methods
        else (methodEntries scope methods).put ident.name ⟨f, scope⟩ := by
      simp only [methodEntries, List.foldl_append, List.foldl_cons, List.foldl_nil]
    have hfind : Members.method? ⟨methods ++ [.mk ident f], scope⟩ name =
        if ident.name = name then some ⟨f, scope⟩ else Members.method? ⟨methods, scope⟩ name := by
      by_cases hname : ident.name = name <;>
        simp [Members.method?, Method.name, Method.function, hname]
    dsimp only at ih ⊢
    rw [hlast, hfind]
    by_cases hconstructor : ident.name = constructorName
    · rw [if_pos (by simpa using hconstructor), ih]
      by_cases hname : name = constructorName
      · rw [if_pos hname, if_pos hname]
      · rw [if_neg hname, if_neg hname, if_neg fun heq => hname (heq.symm.trans hconstructor)]
    · rw [if_neg (by simpa using hconstructor), Entries.get?_put]
      by_cases hsame : ident.name = name
      · subst hsame
        simp [hconstructor]
      · rw [if_neg (Ne.symm hsame), if_neg hsame, ih]

/-! ## Runs -/

section Invariant

variable {P : Heap → Prop} {limit budget : Nat}

/-- What no step of a run breaks holds of the states that the run passes, and of the heap that it
leaves. -/
theorem invariant_runProgram {program : List Stmt} {heap : Heap} {console : Console}
    (hheap : P heap)
    (hstep : ∀ state, Passes limit budget program heap console state → P state.heap →
      P (step limit state).heap) :
    (∀ state, Passes limit budget program heap console state → P state.heap) ∧
      P (runProgram limit budget program heap console).heap := by
  induction program generalizing heap console with
  | nil => exact ⟨nofun, hheap⟩
  | cons s rest ih =>
    have hfirst : ∀ n ≤ budget, P (runFor limit n (.ofStmt s heap console)).heap := fun n hn =>
      invariant_runFor (P := fun next => P next.heap) hheap fun m hm state' hrun =>
        hstep state' (.here (hm.trans_le hn) hrun)
    have hlast : P (runStmt limit budget s heap console).heap := by
      rw [runStmt, Next.ended_heap]
      exact hfirst budget le_rfl
    have hrest : ∀ heap' console', runStmt limit budget s heap console =
      ⟨.completed, heap', console'⟩ →
        (∀ state, Passes limit budget rest heap' console' state → P state.heap) ∧
          P (runProgram limit budget rest heap' console').heap := by
      intro heap' console' hrun
      rw [hrun] at hlast
      exact ih hlast fun state hpasses => hstep state (.later hrun hpasses)
    refine ⟨fun state hpasses => ?_, ?_⟩
    · cases hpasses with
      | here hn hrun =>
        have hhere := hfirst _ hn.le
        rwa [hrun] at hhere
      | later hrun hpasses => exact (hrest _ _ hrun).1 state hpasses
    · rw [runProgram]
      split
      · next heap' console' hrun => exact (hrest heap' console' hrun).2
      · exact hlast

end Invariant

end Lox
