import Lox.Heap.Index
import Lox.Value.Operation

/-!
# What operations give

An operator gives a **plain** value, one that refers to nothing in the heap, and a subscript gives a
plain value or an element of a list. Or they have a problem.

Problems come from different places of a program, and what is said of a problem often needs no more
than its **cause**: a signal that leaves its construct, a subscript, the assignment to a constant, a
native, or any other expression or statement. Each operation of the machine has problems of one
cause.
-/

namespace Lox

/-- What a runtime problem comes from. -/
inductive Cause
  | signal
  | subscript
  | assignment
  | native
  | other
  deriving DecidableEq

/-- What a problem comes from. -/
def RuntimeProblem.cause : RuntimeProblem → Cause
  | breakOutsideLoop | continueOutsideLoop | returnOutsideFunction => .signal
  | notIndexable _ | stringAssignment | indexKind _ | indexFraction _ | indexNegative _
  | indexRange _ _ => .subscript
  | constant _ _ => .assignment
  | numberArgument _ | charArgument _ | listArgument _ _ | lengthArgument _ | expandArgument _
  | hasArguments _ _ | unsetArguments _ _ | numericArgument _ _ | console _ => .native
  | superclass _ | operand _ _ | operands _ _ _ | strings _ | callee _ | tooManyArguments _ _
  | notEnoughArguments _ _ | callDepth | noProperties _ | undefinedProperty _ => .other

/-- A value refers to nothing: it is no list, instance, function or class. -/
def Value.IsPlain : Value → Prop
  | .nil | .bool _ | .number _ | .string _ | .char _ => True
  | _ => False

/-- An operation gives a plain value, or has a problem of a cause. -/
def Yields (cause : Cause) : Except RuntimeProblem Value → Prop
  | .ok v => v.IsPlain
  | .error problem => problem.cause = cause

variable {h : Heap} {problem : RuntimeProblem} {v w : Value}

section Yields

variable {origin : Cause} {result : Except RuntimeProblem Value} (hy : Yields origin result)

include hy

theorem Yields.isPlain (heq : result = .ok v) : v.IsPlain := by
  rw [heq] at hy
  exact hy

/-- What fails has one cause. -/
theorem Yields.cause (heq : result = .error problem) : problem.cause = origin := by
  rw [heq] at hy
  exact hy

end Yields

theorem eq_error_of_map {ε α β : Type} {result : Except ε α} {f : α → β} {e : ε}
    (h : result.map f = .error e) : result = .error e := by
  cases result with
  | ok a => cases h
  | error e' =>
    cases h
    rfl

/-! ## Operators and subscripts -/

/-- Unary operators give plain values. -/
theorem yields_unary (op : UnaryOp) (v : Value) : Yields .other (op.apply v) := by
  cases op <;> cases v <;> trivial

/-- So do binary ones. -/
theorem yields_binary (op : BinaryOp) (v w : Value) : Yields .other (op.apply v w) := by
  simp only [BinaryOp.apply]
  split
  · trivial
  · trivial
  · simp only [BinaryOp.compute]
    split
    · cases op <;> trivial
    · split <;> trivial
    · trivial

/-- A position that is none is the fault of a subscript. -/
theorem cause_positionOf {length : Nat} (heq : positionOf v length = .error problem) :
    problem.cause = .subscript := by
  simp only [positionOf] at heq
  split at heq
  · split at heq
    · obtain rfl := Except.error.inj heq
      rfl
    · obtain rfl := Except.error.inj heq
      rfl
    · split at heq
      · cases heq
      · obtain rfl := Except.error.inj heq
        rfl
  · obtain rfl := Except.error.inj heq
    rfl

/-- So is an item that is not there. -/
theorem cause_item (heq : h.item v w = .error problem) : problem.cause = .subscript := by
  cases v with
  | list | string => exact cause_positionOf (eq_error_of_map heq)
  | _ =>
    obtain rfl := Except.error.inj heq
    rfl

/-- What a subscript gives is plain, or an element. -/
theorem isPlain_or_mem_of_item {owner position : Value} (heq : h.item owner position = .ok v) :
    v.IsPlain ∨ ∃ id, v ∈ h.elements id := by
  cases owner with
  | list owner =>
    simp only [Heap.item] at heq
    cases hposition : positionOf position (h.elements owner).size with
    | error problem => simp [hposition, Except.map] at heq
    | ok i =>
      obtain rfl : (h.elements owner).getD i .nil = v := by simpa [hposition, Except.map] using heq
      rw [Array.getD_eq_getD_getElem?]
      rcases hget : (h.elements owner)[i]? with _ | u
      · exact .inl trivial
      · exact .inr ⟨owner, Array.mem_of_getElem? hget⟩
  | string t =>
    simp only [Heap.item] at heq
    cases hposition : positionOf position t.count with
    | error problem => simp [hposition, Except.map] at heq
    | ok i =>
      obtain rfl : ((t.nth? i).map Value.char).getD .nil = v := by
        simpa [hposition, Except.map] using heq
      cases t.nth? i <;> exact .inl trivial
  | _ => cases heq

theorem cause_assignableList (heq : Heap.assignableList v = .error problem) :
    problem.cause = .subscript := by
  cases v <;> cases heq <;> rfl

end Lox
