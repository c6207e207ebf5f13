import Lox.Proofs.Heap.Copying

/-!
# What a value unfolds to

Lists and instances live in the heap and may be shared. **Unfolding** a value follows its elements
and properties and gives a tree in which nothing is shared: a node is a list, or an instance with
its class and the names of its properties in order, and a leaf is any other value. A value that
contains itself has no such tree, so unfolding is told how many levels to go down.

A heap that **agrees** with another below a value unfolds it to the same tree, and the same paths
lead through it (`Agrees.tree?`, `Agrees.follow?`).
-/

namespace Lox

/-- What a node of an unfolded value is. -/
inductive Shape
  | list
  | object (ofClass : Option ClassId) (names : List Text)

/-- An unfolded value. -/
inductive Tree
  | leaf (v : Value)
  | node (shape : Shape) (items : List Tree)

namespace Heap

open Relation

/-- The shape of a list or of an instance. -/
def shape? (h : Heap) : Value → Option Shape
  | .list _ => some .list
  | .object id => some (.object (h.classOf? id) (h.fields id).names)
  | _ => none

/-- The tree of a value whose lists and instances lie within a number of levels. -/
def tree? (h : Heap) : Nat → Value → Option Tree
  | 0, v => if (h.shape? v).isSome then none else some (.leaf v)
  | levels + 1, v =>
    match h.shape? v with
    | none => some (.leaf v)
    | some shape => ((h.contents v).mapM (h.tree? levels)).map (.node shape)

/-- The value at the end of a path, which says which element or property to take at each list or
instance. -/
def follow? (h : Heap) (v : Value) : List Nat → Option Value
  | [] => some v
  | i :: path => (h.contents v)[i]?.bind fun u => h.follow? u path

variable {h h' h'' : Heap} {u v : Value}

/-! ## Paths -/

/-- A path leads to what is held, directly or not. -/
theorem reflTransGen_of_follow? {path : List Nat} (hpath : h.follow? v path = some u) :
    ReflTransGen h.Holds v u := by
  induction path generalizing v with
  | nil => exact Option.some.inj hpath ▸ .refl
  | cons i path ih =>
    obtain ⟨w, hw, hrest⟩ := Option.bind_eq_some_iff.mp hpath
    exact .head (List.mem_of_getElem? hw) (ih hrest)

/-- What is held, directly or not, is at the end of a path. -/
theorem exists_follow? (hu : ReflTransGen h.Holds v u) : ∃ path, h.follow? v path = some u := by
  induction hu using ReflTransGen.head_induction_on with
  | refl => exact ⟨[], rfl⟩
  | head hheld _ ih =>
    obtain ⟨path, hpath⟩ := ih
    obtain ⟨i, hi⟩ := List.mem_iff_getElem?.mp hheld
    exact ⟨i :: path, by rw [follow?, hi, Option.bind_some, hpath]⟩

/-! ## Trees -/

theorem mapM_of_forall₂ {f g : Value → Option Tree} {us vs : List Value}
    (heq : List.Forall₂ (fun u v => f u = g v) us vs) : us.mapM f = vs.mapM g := by
  induction heq with
  | nil => rfl
  | cons hfirst _ ih => rw [List.mapM_cons, List.mapM_cons, hfirst, ih]

theorem tree?_leaf (hv : h.shape? v = none) (levels : Nat) : h.tree? levels v = some (.leaf v) := by
  cases levels <;> simp [tree?, hv]

/-- Values of two heaps that look alike, and whose items unfold alike. -/
theorem tree?_congr {n : Nat} (hshape : h'.shape? u = h.shape? v)
    (hcontents : List.Forall₂ (fun u v => ∀ m < n, h'.tree? m u = h.tree? m v) (h'.contents u)
      (h.contents v)) (hleaf : h.shape? v = none → u = v) : h'.tree? n u = h.tree? n v := by
  cases hv : h.shape? v with
  | none =>
    obtain rfl := hleaf hv
    rw [tree?_leaf (hshape.trans hv), tree?_leaf hv]
  | some shape =>
    rw [hv] at hshape
    cases n with
    | zero => simp [tree?, hshape, hv]
    | succ n =>
      have hitems := mapM_of_forall₂ (hcontents.imp fun _ _ heq => heq n n.lt_succ_self)
      simp only [tree?, hshape, hv, hitems]

theorem mapM_eq_some {f : Value → Option Tree} {us : List Value}
    (hf : ∀ u ∈ us, ∃ tree, f u = some tree) : ∃ trees, us.mapM f = some trees := by
  induction us with
  | nil => exact ⟨[], rfl⟩
  | cons u rest ih =>
    obtain ⟨⟨tree, htree⟩, hrest⟩ := List.forall_mem_cons.mp hf
    obtain ⟨trees, htrees⟩ := ih hrest
    exact ⟨tree :: trees, by simp [htree, htrees]⟩

/-- A value that lies within a number of levels unfolds to a tree. -/
theorem tree?_of_within {levels : Nat} (hv : h.Within levels v) :
    ∃ tree, h.tree? levels v = some tree := by
  induction levels generalizing v with
  | zero =>
    cases v with
    | list | object => exact hv.elim
    | _ => exact ⟨_, rfl⟩
  | succ levels ih =>
    cases hshape : h.shape? v with
    | none => exact ⟨_, tree?_leaf hshape _⟩
    | some shape =>
      obtain ⟨items, hitems⟩ := mapM_eq_some fun u hu => ih (hv u hu)
      exact ⟨.node shape items, by simp [tree?, hshape, hitems]⟩

/-! ## Agreement -/

/-- What is in a value, however deep, has the same shape and contents in two heaps. -/
def Agrees (h h' : Heap) (v : Value) : Prop :=
  ∀ u, ReflTransGen h.Holds v u → h'.shape? u = h.shape? u ∧ h'.contents u = h.contents u

namespace Agrees

theorem held (ha : h.Agrees h' v) (hu : u ∈ h.contents v) : h.Agrees h' u :=
  fun w hw => ha w (.head hu hw)

/-- Heaps that agree on a value unfold it to the same tree. -/
theorem tree? (ha : h.Agrees h' v) (levels : Nat) : h'.tree? levels v = h.tree? levels v := by
  induction levels using Nat.strong_induction_on generalizing v with
  | _ levels ih =>
    obtain ⟨hshape, hcontents⟩ := ha v .refl
    refine tree?_congr hshape ?_ fun _ => rfl
    rw [hcontents]
    exact List.forall₂_same.mpr fun u hu m hm => ih m hm (ha.held hu)

/-- Paths lead to the same values. -/
theorem follow? (ha : h.Agrees h' v) (path : List Nat) : h'.follow? v path = h.follow? v path := by
  induction path generalizing v with
  | nil => rfl
  | cons i path ih =>
    rw [Heap.follow?, Heap.follow?, (ha v .refl).2]
    cases hi : (h.contents v)[i]? with
    | none => rfl
    | some u => exact ih (ha.held (List.mem_of_getElem? hi))

/-- Nothing more is in a value. -/
theorem reach (ha : h.Agrees h' v) (hu : ReflTransGen h'.Holds v u) : ReflTransGen h.Holds v u := by
  obtain ⟨path, hpath⟩ := exists_follow? hu
  exact reflTransGen_of_follow? (ha.follow? path ▸ hpath)

/-- Agreement is passed on. -/
theorem trans (first : h.Agrees h' v) (second : h'.Agrees h'' v) : h.Agrees h'' v := by
  intro u hu
  obtain ⟨path, hpath⟩ := exists_follow? hu
  obtain ⟨hshape, hcontents⟩ :=
    second u (reflTransGen_of_follow? ((first.follow? path).trans hpath))
  exact ⟨hshape.trans (first u hu).1, hcontents.trans (first u hu).2⟩

end Agrees

/-! ## Whole values -/

/-- All that is in a value, however deep, is in the heap. -/
def Whole (h : Heap) (v : Value) : Prop := ∀ u, ReflTransGen h.Holds v u → h.Valid u

/-- A valid value is whole if nothing invalid is held. -/
theorem whole_of_stored (hstored : ∀ u w, w ∈ h.contents u → h.Valid w) (hv : h.Valid v) :
    h.Whole v := by
  intro u hu
  cases hu with
  | refl => exact hv
  | tail _ hheld => exact hstored _ _ hheld

theorem Extends.valid (he : Extends h h') (hu : h.Valid u) : h'.Valid u := by
  cases u with
  | list id => exact hu.trans_le he.lists_size
  | object id => exact hu.trans_le he.instances_size
  | _ => trivial

/-- An extension keeps what valid values hold. -/
theorem Extends.same (he : Extends h h') (hu : h.Valid u) :
    h'.shape? u = h.shape? u ∧ h'.contents u = h.contents u := by
  cases u with
  | list id => exact ⟨rfl, congrArg Array.toList (he.elements hu)⟩
  | object id => simp only [shape?, contents, classOf?, he.instance? hu, he.fields hu, and_self]
  | _ => exact ⟨rfl, rfl⟩

/-- So it agrees on whole values. -/
theorem Whole.agrees (hv : h.Whole v) (he : Extends h h') : h.Agrees h' v :=
  fun u hu => he.same (hv u hu)

end Heap

end Lox
