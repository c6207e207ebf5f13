import Lox.Proofs.Syntax.Tree

/-!
# Every part, computed

Whether something holds of every part of a program can be computed, going as deep into the program
as a number says. So it can be computed whether the function literals of a program stand where they
should.
-/

namespace Lox

namespace Code

/-- Whether an expression is a function literal that has a name. -/
def isNamed : Expr → Bool
  | .lambda (some _) _ => true
  | _ => false

/-- The statements of a block and the methods of a class, as parts of a statement. -/
def bodies : Stmt → List Code
  | .block body => [.stmts body]
  | .classDecl _ _ methods => methods.map fun (.mk _ f) => .function f
  | _ => []

/-- The parts that stand directly in a part. -/
def children : Code → List Code
  | .stmts body => body.map .stmt
  | .stmt s => bodies s ++ s.inner.map .stmt ++ s.exprs.map .expr
  | .expr (.lambda _ f) => [.function f]
  | .expr e => e.parts.map .expr
  | .function f => [.stmts f.body]

/-- Whether the function literals that stand directly in a part do so where they should. -/
def placedHere : Code → Bool
  | .expr e => e.parts.all fun part => !isNamed part
  | .stmt (.evaluate _) | .stmt (.declare _ _ _) => true
  | .stmt s => s.exprs.all fun e => !isNamed e
  | .stmts _ | .function _ => true

/-- Whether all parts of a part pass a test, and the part goes no deeper than a number. -/
def allWithin (test : Code → Bool) : Nat → Code → Bool
  | 0, _ => false
  | levels + 1, c => test c && (children c).all (allWithin test levels)

/-- Whether all function literals stand where they should, in a part that goes no deeper than a
number. -/
def placedWithin : Nat → Code → Bool := allWithin placedHere

theorem isNamed_of_named {e : Expr} (h : e.IsNamed) : isNamed e = true := by
  obtain ⟨name, f, rfl⟩ := h
  rfl

/-- The children of a part can be listed. -/
theorem mem_children {c d : Code} (h : Child d c) : d ∈ children c := by
  cases h with
  | member hs => exact List.mem_map_of_mem hs
  | block => exact List.mem_append_left _ (List.mem_append_left _ List.mem_cons_self)
  | inner hs => exact List.mem_append_left _ (List.mem_append_right _ (List.mem_map_of_mem hs))
  | method hm =>
    exact List.mem_append_left _ (List.mem_append_left _ (List.mem_map.mpr ⟨_, hm, rfl⟩))
  | expr he => exact List.mem_append_right _ (List.mem_map_of_mem he)
  | @part e e' he =>
    cases e with
    | lambda => cases he
    | _ => exact List.mem_map_of_mem he
  | literal | body => exact List.mem_cons_self

theorem literalsPlaced_of_placedHere {c : Code} (h : placedHere c = true) : c.LiteralsPlaced := by
  have hnot : ∀ {es : List Expr}, (es.all fun e => !isNamed e) = true → ∀ e ∈ es, ¬ e.IsNamed := by
    intro es hall e he hnamed
    have := List.all_eq_true.mp hall e he
    simp [isNamed_of_named hnamed] at this
  cases c with
  | expr e => exact hnot h
  | stmt s =>
    intro e he hnamed
    cases s with
    | evaluate e' => exact .inl (by rw [List.mem_singleton.mp he])
    | declare mutable name init =>
      obtain rfl := Option.mem_toList.mp he
      exact .inr ⟨mutable, name, rfl⟩
    | _ => exact absurd hnamed (hnot h e he)
  | stmts | function => trivial

/-- What is tested on all levels holds of every part. -/
theorem every_of_allWithin {test : Code → Bool} {p : Code → Prop} (hp : ∀ c, test c = true → p c)
    {levels : Nat} {c : Code} (h : allWithin test levels c = true) : Every p c := by
  induction levels generalizing c with
  | zero => cases h
  | succ levels ih =>
    obtain ⟨hhere, hchildren⟩ := Bool.and_eq_true_iff.mp h
    exact .intro (hp c hhere) fun d hd => ih (List.all_eq_true.mp hchildren d (mem_children hd))

/-- So the place of function literals can be decided. -/
theorem everyPlaced_of_placedWithin {levels : Nat} {c : Code} (h : placedWithin levels c = true) :
    Every LiteralsPlaced c :=
  every_of_allWithin (fun _ => literalsPlaced_of_placedHere) h

end Code

end Lox
