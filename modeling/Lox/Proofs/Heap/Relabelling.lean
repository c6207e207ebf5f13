import Lox.Proofs.Heap.Guise

/-!
# Relabelled values and heaps

Functions in a heap keep their trees, so other marks on trees are other marks on values and heaps. A
**relabelling** is marks that evaluation cannot tell from those it replaces: it tells function
literals apart that are different. Evaluation does nothing with a span but blame it, so a
relabelling may move spans as it likes. It is a disguise that keeps all names.
-/

namespace Lox

/-- Marks that evaluation cannot tell from those they replace. -/
structure Relabelling extends Marks where
  sameLiteral : ∀ run keyword run' keyword',
    ((literal run keyword).1 = (literal run' keyword').1 ∧
      (literal run keyword).2.offset = (literal run' keyword').2.offset) ↔
    run = run' ∧ keyword.offset = keyword'.offset

instance : Coe Relabelling Marks := ⟨Relabelling.toMarks⟩

/-- Function literals that are left as they are stay told apart. -/
theorem Relabelling.sameLiteral_kept (run : Nat) (keyword : Span) (run' : Nat) (keyword' : Span) :
    (run = run' ∧ keyword.offset = keyword'.offset) ↔ run = run' ∧ keyword.offset =
      keyword'.offset :=
  Iff.rfl

/-- The disguise of a relabelling. -/
def Relabelling.disguise (r : Relabelling) : Disguise where
  toGuise := .ofMarks r
  sameLiteral := r.sameLiteral
  lawful := Guise.lawful_ofMarks r

/-! ## Values and heaps with other marks -/

/-- A function with other marks. -/
def Closure.mark (m : Marks) (c : Closure) : Closure := { c with function := c.function.mark m }

/-- A value with other marks. -/
def Value.mark (m : Marks) : Value → Value
  | .closure c => .closure (c.mark m)
  | v => v

/-- A binding with other marks. -/
def Binding.mark (m : Marks) (b : Binding) : Binding := { b with value := b.value.mark m }

/-- A scope with other marks. -/
def Scope.mark (m : Marks) (s : Scope) : Scope :=
  { s with bindings := s.bindings.mapValues (Binding.mark m) }

/-- An instance with other marks. -/
def Instance.mark (m : Marks) (o : Instance) : Instance :=
  { o with fields := o.fields.mapValues (Value.mark m) }

/-- A class with other marks. -/
def ClassDef.mark (m : Marks) (c : ClassDef) : ClassDef :=
  { c with
    methods := c.methods.mapValues (Closure.mark m),
    constructor := c.constructor.map (Closure.mark m) }

/-- A heap with other marks. -/
def Heap.mark (m : Marks) (h : Heap) : Heap :=
  ⟨h.scopes.map (Scope.mark m), h.lists.map fun elements => elements.map (Value.mark m),
    h.instances.map (Instance.mark m), h.classes.map (ClassDef.mark m), h.idles⟩

/-- The end of an evaluation with other marks. -/
def Stop.mark (m : Marks) : Stop → Stop
  | .blame problem site => .blame problem (m.span site)
  | .fault f => .fault f

/-! ## Marks are a guise -/

variable (m : Marks)

theorem Closure.mark_eq_dress : Closure.mark m = Closure.dress (.ofMarks m) := by
  funext c
  rw [mark, dress, Function.mark_eq_dress]

/-- To mark a value is to dress it with marks only. -/
theorem Value.mark_eq_dress : Value.mark m = Value.dress (.ofMarks m) := by
  funext v
  cases v with
  | closure c => rw [mark, dress, Closure.mark_eq_dress]
  | _ => rfl

theorem Binding.mark_eq_dress : Binding.mark m = Binding.dress (.ofMarks m) := by
  funext b
  rw [mark, dress, Value.mark_eq_dress]

theorem Scope.mark_eq_dress : Scope.mark m = Scope.dress (.ofMarks m) := by
  funext s
  rw [mark, dress, Binding.mark_eq_dress]
  rfl

theorem Instance.mark_eq_dress : Instance.mark m = Instance.dress (.ofMarks m) := by
  funext o
  rw [mark, dress, Value.mark_eq_dress]

theorem ClassDef.mark_eq_dress : ClassDef.mark m = ClassDef.dress (.ofMarks m) := by
  funext c
  rw [mark, dress, Closure.mark_eq_dress]

/-- So it is for a heap. -/
theorem Heap.mark_eq_dress (h : Heap) : h.mark m = h.dress (.ofMarks m) := by
  rw [mark, dress, Scope.mark_eq_dress, Value.mark_eq_dress, Instance.mark_eq_dress,
    ClassDef.mark_eq_dress]

/-- So it is for what stops a run. -/
theorem Stop.mark_eq_dress (stop : Stop) : stop.mark m = stop.dress (.ofMarks m) := by
  cases stop with
  | blame problem site =>
    have hproblem : problem.dress (.ofMarks m) = problem := by cases problem <;> rfl
    have hsite : (Guise.ofMarks m).blame problem site = m.span site := by
      unfold Guise.blame
      split <;> rfl
    rw [mark, dress, hproblem, hsite]
  | fault f => cases f <;> rfl

end Lox
