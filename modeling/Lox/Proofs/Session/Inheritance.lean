import Lox.Proofs.Evaluation.Classes
import Lox.Proofs.Session.Lineage

/-!
# Inheritance

A class extends one that was there when it was declared, so the way up from a class comes to an end,
whatever has become of the names of the classes in between: a name may be declared again, hidden, or
given to a class that extends the one it stood for before. On the way up, a method is that of the
first class whose declaration defines it.

Every class of a session was made by a step that executes its declaration (`declared_of_attains`),
because this is the only step that makes classes and no step changes one. The main theorem is
`methods_inherited`.
-/

namespace Lox

/-! ## The way up -/

namespace Heap

variable {h : Heap} {name : Text}

/-- The classes on the way up from a class: the class itself, its superclass, and so on up to a
class that extends none. -/
inductive Ancestry (h : Heap) : ClassId → List ClassId → Prop
  | top {id : ClassId} {c : ClassDef} : h.classes[id]? = some c → c.superclass = none →
      Ancestry h id [id]
  | up {id superclass : ClassId} {c : ClassDef} {above : List ClassId} : h.classes[id]? = some c →
      c.superclass = some superclass → Ancestry h superclass above → Ancestry h id (id :: above)

theorem Ancestry.unique {id : ClassId} {chain chain' : List ClassId} (h₁ : h.Ancestry id chain)
    (h₂ : h.Ancestry id chain') : chain' = chain := by
  induction h₁ generalizing chain' with
  | top hc hnone =>
    cases h₂ with
    | top => rfl
    | up hc' hsome _ =>
      obtain rfl := Option.some.inj (hc.symm.trans hc')
      cases hnone.symm.trans hsome
  | up hc hsome _ ih =>
    cases h₂ with
    | top hc' hnone =>
      obtain rfl := Option.some.inj (hc.symm.trans hc')
      cases hnone.symm.trans hsome
    | up hc' hsome' habove =>
      obtain rfl := Option.some.inj (hc.symm.trans hc')
      obtain rfl := Option.some.inj (hsome.symm.trans hsome')
      rw [ih habove]

theorem Ancestry.exists_class {id : ClassId} {chain : List ClassId} (hchain : h.Ancestry id chain)
    {other : ClassId} (hmem : other ∈ chain) : ∃ c, h.classes[other]? = some c := by
  induction hchain with
  | top hc _ => exact List.mem_singleton.mp hmem ▸ ⟨_, hc⟩
  | up hc _ _ ih =>
    rcases List.mem_cons.mp hmem with rfl | habove
    · exact ⟨_, hc⟩
    · exact ih habove

/-- The method that a class has by itself. -/
def ownMethod? (h : Heap) (name : Text) (id : ClassId) : Option Closure :=
  (h.classes[id]?).bind fun c => c.methods.get? name

/-- Looking at as many classes as there are on the way up is enough to find the first that has a
method. -/
theorem Ancestry.methodWithin {id : ClassId} {chain : List ClassId} (hchain : h.Ancestry id chain)
    {fuel : Nat} (hfuel : chain.length ≤ fuel) :
    h.methodWithin name fuel id = chain.findSome? (h.ownMethod? name) := by
  induction hchain generalizing fuel with
  | @top id c hc hnone =>
    obtain ⟨fuel, rfl⟩ := Nat.exists_eq_add_of_le' hfuel
    cases hget : c.methods.get? name <;> simp [Heap.methodWithin, ownMethod?, hc, hnone, hget]
  | @up id superclass c above hc hsome _ ih =>
    obtain ⟨fuel, rfl⟩ := Nat.exists_eq_add_of_le' hfuel
    have hrest : h.methodWithin name (fuel + above.length) superclass =
        above.findSome? (h.ownMethod? name) :=
      ih (Nat.le_add_left _ _)
    cases hget : c.methods.get? name with
    | some m => simp [Heap.methodWithin, ownMethod?, hc, hget]
    | none => simp [Heap.methodWithin, ownMethod?, hc, hsome, hget, hrest]

/-- The way up from a class ends, as it leads to older classes only. -/
theorem exists_ancestry (hancestral : h.Ancestral) {id : ClassId} (hid : id < h.classes.size) :
    ∃ chain, h.Ancestry id chain ∧ chain.length ≤ id + 1 := by
  induction id using Nat.strongRecOn with
  | ind id ih =>
    have hc : h.classes[id]? = some h.classes[id] := Array.getElem?_eq_getElem hid
    cases hsuper : h.classes[id].superclass with
    | none => exact ⟨[id], .top hc hsuper, by simp⟩
    | some superclass =>
      have hlt : superclass < id := hancestral id _ hc superclass hsuper
      obtain ⟨above, habove, hlength⟩ := ih superclass hlt (hlt.trans hid)
      exact ⟨id :: above, .up hc hsuper habove, Nat.succ_le_succ (hlength.trans hlt)⟩

end Heap

namespace Session

variable {console : Console} {limit : Nat} {runs : List (Nat × Text)} {h : Heap}

/-! ## The heaps of a session -/

/-- A session comes to a heap: it has it between two runs, or in a state that it passes. -/
def Attains (console : Console) (limit : Nat) (runs : List (Nat × Text)) (h : Heap) : Prop :=
  (∃ before rest, runs = before ++ rest ∧ (after console limit before).heap = h) ∨
    ∃ state, Reaches console limit runs state ∧ state.heap = h

/-- What a new session has and no step breaks holds of every heap that a session comes to. -/
theorem invariant_of_attains {P : Heap → Prop} (hfresh : P (fresh console limit).heap)
    (hstep : ∀ state, Reaches console limit runs state → P state.heap → P (step limit state).heap)
    (hh : Attains console limit runs h) : P h := by
  have hafter : ∀ before rest, runs = before ++ rest → P (after console limit before).heap := by
    intro before
    induction before using List.reverseRecOn with
    | nil => exact fun _ _ => hfresh
    | append_singleton before r ih =>
      intro rest hruns
      have hsplit : runs = before ++ r :: rest := by simpa using hruns
      have hbefore := ih (r :: rest) hsplit
      rw [after_concat]
      cases hprogram : (after console limit before).program? r.2 with
      | none =>
        obtain ⟨report, hrun, -⟩ := run_of_program?_eq_none r.1 hprogram
        rw [hrun]
        exact hbefore
      | some program =>
        rw [(run_of_program?_eq_some r.1 hprogram).2, limit_after]
        exact (invariant_runProgram hbefore fun state hpasses =>
          hstep state ⟨before, r, rest, program, hsplit, hprogram, hpasses⟩).2
  rcases hh with ⟨before, rest, hruns, rfl⟩ | ⟨state, hreaches, rfl⟩
  · exact hafter before rest hruns
  · obtain ⟨before, r, rest, program, hruns, hprogram, hpasses⟩ := hreaches
    exact (invariant_runProgram (hafter before _ hruns) fun state hpasses =>
      hstep state ⟨before, r, rest, program, hruns, hprogram, hpasses⟩).1 state hpasses

theorem traced_of_attains (hh : Attains console limit runs h) :
    (lineage console limit runs).TracedHeap h := by
  rcases hh with ⟨before, rest, hruns, rfl⟩ | ⟨state, hreaches, rfl⟩
  · exact traced_after hruns
  · exact (traced_of_reaches hreaches).heap

/-- In every heap that a session comes to, superclasses are older than their subclasses. -/
theorem ancestral_of_attains (hh : Attains console limit runs h) : h.Ancestral :=
  (traced_of_attains hh).ancestral

/-! ## Where classes come from -/

/-- A step of the session has made a class by executing a declaration with these members. -/
def DeclaredBy (console : Console) (limit : Nat) (runs : List (Nat × Text)) (id : ClassId)
    (members : Members) : Prop :=
  ∃ state, Reaches console limit runs state ∧ state.Declares members ∧ state.heap.classes.size =
    id ∧ (step limit state).heap.classes.size = id + 1

/-- Every class was made by executing its declaration, and has the methods of that. -/
theorem declared_of_attains (hh : Attains console limit runs h) {id : ClassId} {c : ClassDef}
    (hc : h.classes[id]? = some c) :
    ∃ members, DeclaredBy console limit runs id members ∧ c.methods =
      methodEntries members.scope members.methods := by
  revert id c
  refine invariant_of_attains
    (P := fun h => ∀ {id : ClassId} {c : ClassDef}, h.classes[id]? = some c →
      ∃ members, DeclaredBy console limit runs id members ∧ c.methods =
      methodEntries members.scope members.methods) ?_ ?_ hh
  · intro id c hc
    cases hc
  · intro state hreaches hheap id c hc
    rcases classes_step limit state with hsame | ⟨members, made, hdeclares, hpush, hmethods⟩
    · rw [hsame] at hc
      exact hheap hc
    · rw [hpush, Array.getElem?_push] at hc
      split at hc
      · next hid =>
        obtain rfl := Option.some.inj hc
        refine ⟨members, ⟨state, hreaches, hdeclares, hid.symm, ?_⟩, hmethods⟩
        rw [hpush, Array.size_push, hid]
      · exact hheap hc

/-- **Methods are inherited from the nearest class that defines them.** In every heap that a session
comes to, all class values are classes of the heap, and the way up from each class ends. Each class
on the way was made by executing a declaration. A name other than that of the constructor is found
as what the first declaration on the way defines it as, the last definition in that declaration, and
not at all if none defines it; the constructor is never found. -/
theorem methods_inherited (console : Console) (limit : Nat) (runs : List (Nat × Text)) (h : Heap)
    (hh : Attains console limit runs h) :
    (∀ scope name binding id, (name, binding) ∈ h.bindings scope → binding.value = .classRef id →
      id < h.classes.size) ∧
    h.Stores (fun v => ∀ id, v = .classRef id → id < h.classes.size) ∧
    ∀ id < h.classes.size, ∃ (chain : List ClassId) (declaration : ClassId → Members),
      h.Ancestry id chain ∧ (∀ chain', h.Ancestry id chain' → chain' = chain) ∧
      (∀ c ∈ chain, DeclaredBy console limit runs c (declaration c)) ∧
      (∀ name, name ≠ constructorName →
        h.method? id name = chain.findSome? fun c => (declaration c).method? name) ∧
      h.method? id constructorName = none := by
  have htraced := traced_of_attains hh
  refine ⟨fun scope name binding id hmem hvalue => ?_,
    htraced.stores.mono fun v hv id heq => ?_, fun id hid => ?_⟩
  · have hclass := htraced.values scope name binding hmem
    rw [hvalue] at hclass
    exact hclass
  · subst heq
    exact hv
  · obtain ⟨chain, hchain, hlength⟩ := Heap.exists_ancestry (ancestral_of_attains hh) hid
    have hdeclared :
        ∀ other, ∃ members, ∀ c, h.classes[other]? = some c →
        DeclaredBy console limit runs other members ∧ c.methods =
        methodEntries members.scope members.methods := by
      intro other
      cases hc : h.classes[other]? with
      | none => exact ⟨⟨[], 0⟩, nofun⟩
      | some c =>
        obtain ⟨members, hmembers⟩ := declared_of_attains hh hc
        exact ⟨members, fun c' hc' => Option.some.inj hc' ▸ hmembers⟩
    choose declaration hdeclaration using hdeclared
    have hown : ∀ other ∈ chain, ∀ name, h.ownMethod? name other =
        if name = constructorName then none else (declaration other).method? name := by
      intro other hmem name
      obtain ⟨c, hc⟩ := hchain.exists_class hmem
      rw [Heap.ownMethod?, hc, Option.bind_some, (hdeclaration other c hc).2, get?_methodEntries]
    have hmethod : ∀ name, h.method? id name = chain.findSome? (h.ownMethod? name) := fun name =>
      hchain.methodWithin hlength
    refine ⟨chain, declaration, hchain,
      fun chain' => hchain.unique, fun other hmem => ?_, fun name hname => ?_, ?_⟩
    · obtain ⟨c, hc⟩ := hchain.exists_class hmem
      exact (hdeclaration other c hc).1
    · rw [hmethod, ← List.head?_filterMap, ← List.head?_filterMap]
      refine congrArg List.head? (List.filterMap_congr fun other hmem => ?_)
      rw [hown other hmem, if_neg hname]
    · rw [hmethod, List.findSome?_eq_none_iff]
      intro other hmem
      rw [hown other hmem, if_pos rfl]

/-- The name of a class is given to a class that extends a subclass of the first, which defines a
method twice. -/
theorem methods_inherited_redeclared :
    let runs : List (Nat × Text) :=
      [(9,
        utf8 "class A \x7b m() \x7b\x7d m() \x7b return 1; \x7d \x7d class B extends A \x7b\x7d"),
      (9, utf8 "class A extends B \x7b constructor() \x7b\x7d \x7d")]
    let h := (after ⟨[], [], none, none⟩ 9 runs).heap
    Attains ⟨[], [], none, none⟩ 9 runs h ∧ h.Ancestry 2 [2, 1, 0] ∧
      ∃ declaration : ClassId → Members,
      (∀ c ∈ [2, 1, 0], DeclaredBy ⟨[], [], none, none⟩ 9 runs c (declaration c)) ∧
      h.method? 2 (utf8 "m") = [2, 1, 0].findSome? (fun c => (declaration c).method? (utf8 "m")) ∧
      (h.method? 2 (utf8 "m")).map (fun m => m.function.body.length) = some 1 ∧
      h.method? 2 constructorName = none := by
  intro runs h
  have hattains : Attains ⟨[], [], none, none⟩ 9 runs h := .inl ⟨runs, [], by simp, rfl⟩
  have hsuper : h.classes.toList.map ClassDef.superclass = [none, some 0, some 1] := by
    decide +kernel
  have hclass : ∀ (id : ClassId) superclass, [none, some 0, some 1][id]? = some superclass →
      ∃ c, h.classes[id]? = some c ∧ c.superclass = superclass := by
    intro id superclass hid
    rw [← hsuper, List.getElem?_map, Array.getElem?_toList] at hid
    exact Option.map_eq_some_iff.mp hid
  obtain ⟨a, ha, hnone⟩ := hclass 0 none rfl
  obtain ⟨b, hb, hextends⟩ := hclass 1 (some 0) rfl
  obtain ⟨c, hc, hextends'⟩ := hclass 2 (some 1) rfl
  have hchain : h.Ancestry 2 [2, 1, 0] := .up hc hextends' (.up hb hextends (.top ha hnone))
  have hsize : 2 < h.classes.size := (Array.getElem?_eq_some_iff.mp hc).1
  obtain ⟨chain, declaration, -, hunique, hdeclared, hmethod, hconstructor⟩ :=
    (methods_inherited ⟨[], [], none, none⟩ 9 runs h hattains).2.2 2 hsize
  obtain rfl := hunique _ hchain
  exact ⟨hattains, hchain, declaration, hdeclared, hmethod (utf8 "m") (by decide),
    by decide +kernel, hconstructor⟩

end Session

end Lox
