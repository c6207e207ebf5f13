import Lox.Proofs.Evaluation.Calls
import Lox.Proofs.Evaluation.Transitions

/-!
# Steps keep what fits

A step from a state that fits leads to one that fits, and never to a fault (`FitsState.step`),
provided that no deep copy is asked for of a value that contains itself. What fits is taken apart
along the kinds of transitions: a turn needs the parts that the continuation holds, a failure none,
and what changes the heap leaves one that fits.
-/

namespace Lox

open Code

namespace Chronicle

variable {w : Chronicle} {final : List Frame} {h : Heap} {id : ScopeId} {frames : List Frame}
    {depth : Nat} {console : Console} {c c' : Control}

/-! ## What is looked at -/

/-- An expression that declares nothing goes on with the frames that it is looked at with. -/
theorem FitsControl.eval {e : Expr} {next : ValueCont}
    (hc : w.FitsControl final h id (.eval e next)) (hdeclared : e.declared = []) :
    ∃ frames, w.Mirrors h id frames ∧ w.Visited frames (.expr e) ∧
      w.FitsValueCont final h id frames next := by
  obtain ⟨frames, hm, he, hn⟩ := hc
  rw [hdeclared, declareIn_nil] at hn
  exact ⟨frames, hm, he, hn⟩

theorem FitsControl.exec {s : Stmt} {next : StmtCont} (hc : w.FitsControl final h id (.exec s next))
    (hdeclared : s.declared = []) : ∃ frames, w.Mirrors h id frames ∧ w.Visited frames (.stmt s) ∧
      w.FitsStmtCont final h id frames next := by
  obtain ⟨frames, hm, hs, hn⟩ := hc
  rw [hdeclared, declareIn_nil] at hn
  exact ⟨frames, hm, hs, hn⟩

theorem FitsControl.calls {callee : Value} {arguments : List Value} {paren : Span}
    {next : ValueCont} (hcalls : c.Calls h callee arguments paren next)
    (hc : w.FitsControl final h id c) :
    ∃ frames, w.Mirrors h id frames ∧ w.FitsValue h callee ∧ (∀ v ∈ arguments, w.FitsValue h v) ∧
      w.FitsValueCont final h id frames next := by
  cases hcalls with
  | callee =>
    obtain ⟨frames, hm, hv, -, hn⟩ := hc
    exact ⟨frames, hm, hv, nofun, hn⟩
  | argument =>
    obtain ⟨frames, hm, hv, hcallee, hbefore, -, hn⟩ := hc
    refine ⟨frames, hm, hcallee, fun v hmem => ?_, hn⟩
    exact List.forall_mem_cons.mpr ⟨hv, hbefore⟩ v (List.mem_reverse.mp hmem)

theorem FitsControl.reads {owner : Value} {name : Text} {blame : Span} {next : ValueCont}
    (hreads : c.Reads h owner name blame next) (hc : w.FitsControl final h id c) :
    ∃ frames, w.Mirrors h id frames ∧ w.FitsValue h owner ∧
      w.FitsValueCont final h id frames next := by
  cases hreads with
  | get => exact hc
  | getKey =>
    obtain ⟨frames, hm, -, howner, hn⟩ := hc
    exact ⟨frames, hm, howner, hn⟩

theorem FitsControl.writes {owner : Value} {name : Text} {blame : Span} {e : Expr}
    {next : ValueCont} (hwrites : c.Writes h owner name blame e next)
    (hc : w.FitsControl final h id c) :
    ∃ frames, w.Mirrors h id frames ∧ w.FitsValue h owner ∧ w.Operand frames e ∧
      w.FitsValueCont final h id frames next := by
  cases hwrites with
  | set => exact hc
  | setKey =>
    obtain ⟨frames, hm, -, hn⟩ := hc
    exact ⟨frames, hm, hn⟩

theorem FitsControl.gathers {entries : Entries Value} {next : ValueCont}
    (hgathers : c.Gathers entries next) (hc : w.FitsControl final h id c) :
    ∃ frames, w.Mirrors h id frames ∧ (∀ name v, (name, v) ∈ entries → w.FitsValue h v) ∧
      w.FitsValueCont final h id frames next := by
  cases hgathers with
  | none =>
    obtain ⟨frames, hm, -, hn⟩ := hc.eval rfl
    exact ⟨frames, hm, fun _ _ => (absurd · List.not_mem_nil), hn⟩
  | last =>
    obtain ⟨frames, hm, hv, hbefore, -, hn⟩ := hc
    exact ⟨frames, hm, Entries.forall_mem_put hv hbefore, hn⟩

theorem FitsControl.lists {elements : List Value} {next : ValueCont}
    (hlists : c.Lists elements next) (hc : w.FitsControl final h id c) :
    ∃ frames, w.Mirrors h id frames ∧ (∀ v ∈ elements, w.FitsValue h v) ∧
      w.FitsValueCont final h id frames next := by
  cases hlists with
  | none =>
    obtain ⟨frames, hm, -, hn⟩ := hc.eval rfl
    exact ⟨frames, hm, nofun, hn⟩
  | last =>
    obtain ⟨frames, hm, hv, hbefore, -, hn⟩ := hc
    exact ⟨frames, hm, List.forall_mem_cons.mpr ⟨hv, hbefore⟩, hn⟩

/-- The receiver and the superclass are there, and the continuation fits. -/
theorem FitsControl.supers {superclass : ClassId} {receiver : InstanceId} {method : Ident}
    {next : ValueCont} (hh : w.FitsHeap h) (hsupers : c.Supers id h superclass receiver method next)
    (hc : w.FitsControl final h id c) :
    ∃ frames, w.Mirrors h id frames ∧ w.FitsValue h (.object receiver) ∧
      w.FitsValueCont final h id frames next := by
  cases hsupers with
  | intro hsuper =>
    obtain ⟨frames, hm, he, hn⟩ := hc.eval rfl
    obtain ⟨superclass', receiver', -, -, hok, hreceiver⟩ := he.superOf_ok hm hh
    obtain ⟨rfl, rfl⟩ := Prod.mk.inj (Except.ok.inj (hsuper.symm.trans hok))
    exact ⟨frames, hm, hreceiver, hn⟩

/-! ## Turns -/

theorem fits_item (hh : w.FitsHeap h) {owner position v : Value}
    (heq : h.item owner position = .ok v) : w.FitsValue h v := by
  rcases isPlain_or_mem_of_item heq with hplain | ⟨id, hmem⟩
  · exact .of_isPlain hplain
  · exact hh.elements id v hmem

/-- A turn leads to what fits in the same heap. -/
theorem fits_turn (hh : w.FitsHeap h) (hturn : Turn id h c c') (hc : w.FitsControl final h id c) :
    w.FitsControl final h id c' := by
  cases hturn with
  | @literal l =>
    obtain ⟨frames, hm, -, hn⟩ := hc.eval rfl
    refine ⟨frames, hm, ?_, hn⟩
    cases l <;> trivial
  | function =>
    obtain ⟨frames, hm, ⟨context, he⟩, hn⟩ := hc.eval rfl
    refine ⟨frames, hm, ⟨frames, ⟨context, ?_⟩, hm⟩, hn⟩
    simpa [Expr.declared] using he.literal
  | var hlookup | thisRef hlookup =>
    obtain ⟨frames, hm, he, hn⟩ := hc.eval rfl
    obtain ⟨v, hv, hfits⟩ := he.lookup_ok hm hh rfl
    obtain rfl := Except.ok.inj (hlookup.symm.trans hv)
    exact ⟨frames, hm, hfits.fits, hn⟩
  | grouping | unary | get =>
    obtain ⟨frames, hm, he, hn⟩ := hc.eval rfl
    exact fits_eval_operand hm (he.operand List.mem_cons_self) hn
  | assign =>
    obtain ⟨frames, hm, he, hn⟩ := hc.eval rfl
    exact fits_eval_operand hm (he.operand List.mem_cons_self) ⟨⟨_, he⟩, hn⟩
  | binary | logical | getKey | index | set =>
    obtain ⟨frames, hm, he, hn⟩ := hc.eval rfl
    have hright := he.operand (List.mem_cons_of_mem _ List.mem_cons_self)
    exact fits_eval_operand hm (he.operand List.mem_cons_self) ⟨hright, hn⟩
  | setKey | setIndex =>
    obtain ⟨frames, hm, he, hn⟩ := hc.eval rfl
    have hkey := he.operand (List.mem_cons_of_mem _ List.mem_cons_self)
    have hvalue := he.operand (List.mem_cons_of_mem _ (List.mem_cons_of_mem _ List.mem_cons_self))
    exact fits_eval_operand hm (he.operand List.mem_cons_self) ⟨hkey, hvalue, hn⟩
  | call =>
    obtain ⟨frames, hm, he, hn⟩ := hc.eval rfl
    exact fits_eval_operand hm (he.operand List.mem_cons_self)
      ⟨fun e hmem => he.operand (List.mem_cons_of_mem _ hmem), hn⟩
  | @object key e rest =>
    obtain ⟨frames, hm, he, hn⟩ := hc.eval rfl
    have hpart : ∀ f ∈ Field.mk key e :: rest, w.Operand frames f.value :=
      fun f hf => he.operand (List.mem_map_of_mem hf)
    rw [List.forall_mem_cons] at hpart
    exact fits_eval_operand hm hpart.1 ⟨fun _ _ => (absurd · List.not_mem_nil), hpart.2, hn⟩
  | list =>
    obtain ⟨frames, hm, he, hn⟩ := hc.eval rfl
    exact fits_eval_operand hm (he.operand List.mem_cons_self)
      ⟨List.forall_mem_nil _, fun e hmem => he.operand (List.mem_cons_of_mem _ hmem), hn⟩
  | unaryGiven happly =>
    obtain ⟨frames, hm, -, hn⟩ := hc
    exact ⟨frames, hm, .of_isPlain ((yields_unary _ _).isPlain happly), hn⟩
  | binaryGiven happly =>
    obtain ⟨frames, hm, -, hn⟩ := hc
    exact ⟨frames, hm, .of_isPlain ((yields_binary _ _ _).isPlain happly), hn.2⟩
  | item hitem =>
    obtain ⟨frames, hm, -, hn⟩ := hc
    exact ⟨frames, hm, fits_item hh hitem, hn.2⟩
  | settled =>
    obtain ⟨frames, hm, hv, hn⟩ := hc
    exact ⟨frames, hm, hv, hn.2⟩
  | unsettled =>
    obtain ⟨frames, hm, -, hn⟩ := hc
    exact fits_eval_operand hm hn.1 hn.2
  | binaryLeft | getKeyObject | indexObject | setKeyObject | setIndexObject =>
    obtain ⟨frames, hm, hv, hn⟩ := hc
    exact fits_eval_operand hm hn.1 ⟨hv, hn.2⟩
  | callee =>
    obtain ⟨frames, hm, hv, harguments, hn⟩ := hc
    have hrest := List.forall_mem_cons.mp harguments
    exact fits_eval_operand hm hrest.1 ⟨hv, List.forall_mem_nil _, hrest.2, hn⟩
  | argument =>
    obtain ⟨frames, hm, hv, hcallee, hbefore, hrest, hn⟩ := hc
    rw [List.forall_mem_cons] at hrest
    exact fits_eval_operand hm hrest.1
      ⟨hcallee, List.forall_mem_cons.mpr ⟨hv, hbefore⟩, hrest.2, hn⟩
  | constructed =>
    obtain ⟨frames, hm, -, hn⟩ := hc
    exact ⟨frames, hm, hn⟩
  | writes hwrites =>
    obtain ⟨frames, hm, howner, he, hn⟩ := hc.writes hwrites
    exact fits_eval_operand hm he ⟨howner, hn⟩
  | @assignable _ owner _ _ _ _ hlist =>
    obtain ⟨frames, hm, hv, howner, he, hn⟩ := hc
    cases owner with
    | list =>
      obtain rfl := Except.ok.inj hlist
      exact fits_eval_operand hm he ⟨howner, hv, hn⟩
    | _ => cases hlist
  | field =>
    obtain ⟨frames, hm, hv, hbefore, hrest, hn⟩ := hc
    rw [List.forall_mem_cons] at hrest
    exact fits_eval_operand hm hrest.1 ⟨Entries.forall_mem_put hv hbefore, hrest.2, hn⟩
  | element =>
    obtain ⟨frames, hm, hv, hbefore, hrest, hn⟩ := hc
    rw [List.forall_mem_cons] at hrest
    exact fits_eval_operand hm hrest.1 ⟨List.forall_mem_cons.mpr ⟨hv, hbefore⟩, hrest.2, hn⟩
  | discard =>
    obtain ⟨frames, hm, -, hn⟩ := hc
    exact ⟨frames, hm, trivial, hn⟩
  | chosen =>
    obtain ⟨frames, hm, -, hthen, helse, hn⟩ := hc
    refine fits_runBranch hm (fun s hs => ?_) hn
    split at hs
    · exact hthen s hs
    · exact helse s hs
  | loopTrue =>
    obtain ⟨frames, hm, -, hn⟩ := hc
    exact fits_loopBody hm hn.1 hn.2
  | loopFalse =>
    obtain ⟨frames, hm, -, hn⟩ := hc
    exact ⟨frames, hm, trivial, hn.2⟩
  | loopCloser =>
    obtain ⟨frames, hm, -, hn⟩ := hc
    exact fits_runLoop hm hn.1 hn.2
  | retGiven => exact hc
  | evaluate =>
    obtain ⟨frames, hm, hs, hn⟩ := hc
    exact ⟨frames, hm, hs.expr List.mem_cons_self, hn⟩
  | print | ret =>
    obtain ⟨frames, hm, hs, hn⟩ := hc.exec rfl
    exact fits_eval_operand hm (hs.operand_of_stmt List.mem_cons_self (by simp) (by simp)) hn
  | declare =>
    obtain ⟨frames, hm, hs, hn⟩ := hc
    refine ⟨frames, hm, hs.expr List.mem_cons_self, hs.tidy.1.1 _ List.mem_cons_self, ?_⟩
    rw [declareIn_declareIn]
    exact hn
  | branch =>
    obtain ⟨frames, hm, hs, hn⟩ := hc.exec rfl
    refine fits_eval_operand hm (hs.operand_of_stmt List.mem_cons_self (by simp) (by simp))
      ⟨fun s hthen => hs.branch ?_, fun s helse => hs.branch ?_, hn⟩
    · exact List.mem_append_left _ (Option.mem_toList.mpr hthen)
    · exact List.mem_append_right _ (Option.mem_toList.mpr helse)
  | @loop condition body closer =>
    obtain ⟨frames, hm, hs, hn⟩ := hc.exec rfl
    have hloop : w.Looping frames ⟨condition, body, closer⟩ := hs
    exact fits_runLoop hm hloop hn
  | retNil | brk | cont =>
    obtain ⟨frames, hm, -, hn⟩ := hc.exec rfl
    exact ⟨frames, hm, trivial, hn⟩
  | statements =>
    obtain ⟨frames, hm, -, hrest, hn⟩ := hc
    exact fits_runBody hm hrest hn
  | skipped =>
    obtain ⟨frames, hm, hs, -, hn⟩ := hc
    exact ⟨frames, hm, hs, hn frames⟩
  | loopNormal | loopContinued =>
    obtain ⟨frames, hm, -, hloop, hn⟩ := hc
    exact fits_closeLoop hm hloop hn
  | loopBroke =>
    obtain ⟨frames, hm, -, -, hn⟩ := hc
    exact ⟨frames, hm, trivial, hn⟩
  | loopReturned =>
    obtain ⟨frames, hm, hs, -, hn⟩ := hc
    exact ⟨frames, hm, hs, hn⟩

/-! ## Failures -/

/-- Where a name is looked up, it is found. -/
theorem FitsControl.not_lookup_error {node : Code} (hh : w.FitsHeap h)
    (hnode : w.Visited frames node) (hm : w.Mirrors h id frames) {name : Text} {slot : Option Nat}
    (hlookup : node.lookup? = some (name, slot)) (fault : Fault) :
    h.lookup id (slot.getD 0) name ≠ .error fault := by
  obtain ⟨v, hv, -⟩ := hnode.lookup_ok hm hh hlookup
  simp [hv]

/-- What a step fails with is a problem of the program. -/
theorem ne_fault_of_fails {limit : Nat} {stop : Stop} (hh : w.FitsHeap h)
    (hfails : Fails limit id depth h c stop) (hc : w.FitsControl final h id c) (fault : Fault) :
    stop ≠ .fault fault := by
  cases hfails with
  | var hlookup | thisRef hlookup | superclass hlookup =>
    obtain ⟨frames, hm, hnode, -⟩ := hc
    exact absurd hlookup (FitsControl.not_lookup_error hh hnode hm rfl _)
  | superRef hsuper =>
    obtain ⟨frames, hm, hnode, -⟩ := hc
    obtain ⟨superclass, receiver, -, -, hok, -⟩ := hnode.superOf_ok hm hh
    rw [hok] at hsuper
    cases hsuper
  | target htarget =>
    obtain ⟨frames, hm, -, ⟨e, hnode⟩, -⟩ := hc
    obtain ⟨distance, mutable, hfind, hslot⟩ := hnode.lookup rfl
    obtain ⟨outer, binding, hok, -⟩ := hm.find_ok hfind
    simp only [Heap.target, hslot, Option.getD_some, hok] at htarget
    split at htarget
    · cases htarget
    · obtain rfl := Except.error.inj htarget
      exact Stop.noConfusion
  | _ => exact Stop.noConfusion

/-! ## Transitions -/

/-- Binds a name that is declared at this moment. -/
theorem fits_define (hh : w.FitsHeap h) (hm : w.Mirrors h id frames) {name : Text}
    (hname : name ∉ reservedNames) (mutable : Bool) {v : Value}
    (hv : w.FitsValue (h.define id name mutable v) v) :
    w.FitsHeap (h.define id name mutable v) ∧
      w.Mirrors (h.define id name mutable v) id (declareIn [(name, mutable)] frames) := by
  refine ⟨hh.define id mutable (.of_name hname hv),
    (hm.mono (Heap.grows_define ..)).declare fun d hd => ?_⟩
  obtain rfl := List.mem_singleton.mp hd
  exact Heap.bound_define hm.lt ..

/-- A name of the program is bound, and what comes next knows it. -/
theorem fits_declare (hh : w.FitsHeap h) (hm : w.Mirrors h id frames) {name : Text}
    (hname : name ∉ reservedNames) (mutable : Bool) {v : Value} (hv : w.FitsValue h v)
    {next : StmtCont} (hn : w.FitsStmtCont final h id (declareIn [(name, mutable)] frames) next) :
    w.FitsNext final h
      (.running ⟨.finish .normal next, id, depth, h.define id name mutable v, console⟩) := by
  have hg : h.Grows (h.define id name mutable v) := Heap.grows_define ..
  obtain ⟨hheap, hmirrors⟩ := fits_define hh hm hname mutable (hv.mono hg)
  exact ⟨hg, hheap, _, hmirrors, trivial, hn.mono hg⟩

/-- A class is made in a heap that has grown, and its name is bound. -/
theorem fits_newClass {h' : Heap} (hg : h.Grows h') (hh' : w.FitsHeap h')
    (hm : w.Mirrors h id frames) {name : Text} (hname : name ∉ reservedNames) {next : StmtCont}
    (hn : w.FitsStmtCont final h id (declareIn [(name, false)] frames) next) {d : ClassDef}
    (hclass : ∀ h'', h'.Grows h'' → w.Mirrors h'' id (declareIn [(name, false)] frames) →
      w.FitsClass h'' d) :
    w.FitsNext final h (.running ⟨.finish .normal next, id, depth,
      (h'.newClass d).2.define id name false (.classRef h'.classes.size), console⟩) := by
  have hgdefine : h'.Grows ((h'.newClass d).2.define id name false (.classRef h'.classes.size)) :=
    (Heap.grows_newClass d).trans (Heap.grows_define ..)
  have hmirrors : w.Mirrors ((h'.newClass d).2.define id name false (.classRef h'.classes.size)) id
      (declareIn [(name, false)] frames) := by
    refine (hm.mono (hg.trans hgdefine)).declare fun d hd => ?_
    obtain rfl := List.mem_singleton.mp hd
    exact Heap.bound_define (hm.lt.trans_le hg.scopes) ..
  exact ⟨hg.trans hgdefine, hh'.defineClass id hname (hclass _ hgdefine hmirrors), _, hmirrors,
    trivial, hn.mono (hg.trans hgdefine)⟩

/-- A class whose methods fit, wherever they stand in its scope. -/
theorem FitsClass.of_methods {inner : ScopeId} {name : Text} {superclass : Option ClassId}
    {methods : List Method} (hmethods : ∀ m f, .mk m f ∈ methods → w.FitsMethod h ⟨f, inner⟩) :
    w.FitsClass h ⟨name, superclass, methodEntries inner methods, constructorOf inner methods⟩ := by
  refine ⟨fun key c hc => ?_, fun c hc => ?_⟩
  · obtain ⟨m, f, hmethod, rfl⟩ := mem_methodEntries hc
    exact hmethods m f hmethod
  · obtain ⟨m, f, hmethod, rfl⟩ := constructorOf_eq_some hc
    exact hmethods m f hmethod

theorem fits_classDecl (hh : w.FitsHeap h) {name : Ident} {methods : List Method} {next : StmtCont}
    (hc : w.FitsControl final h id (.exec (.classDecl name none methods) next)) :
    w.FitsNext final h
      (.running ⟨.finish .normal next, id, depth, defineClass name.name none methods id id h,
      console⟩) := by
  obtain ⟨frames, hm, hs, hn⟩ := hc
  refine fits_newClass (.refl h) hh hm (hs.tidy.1.1 _ List.mem_cons_self) hn
    fun h'' _ hmirrors => ?_
  refine .of_methods fun m f hmethod => ?_
  obtain ⟨context, hs⟩ := hs
  exact ⟨_, ⟨_, hs.method hmethod⟩, hmirrors⟩

/-- The methods of a class with a superclass stand in the scope that knows it. -/
theorem fits_subclass (hh : w.FitsHeap h) {name : Ident} {use : NameUse} {methods : List Method}
    {next : StmtCont}
    (hc : w.FitsControl final h id (.exec (.classDecl name (some use) methods) next))
    {parent : ClassId}
    (hlookup : h.lookup id (use.depth.getD 0) use.ident.name = .ok (.classRef parent))
    (hopened : w.opened h.scopes.size (.superclass name use methods)) :
    w.FitsNext final h (.running ⟨.finish .normal next, id, depth,
      defineClass name.name (some parent) methods
        (h.fork id [(superName, ⟨false, .classRef parent⟩)]).1 id
        (h.fork id [(superName, ⟨false, .classRef parent⟩)]).2, console⟩) := by
  obtain ⟨frames, hm, hs, hn⟩ := hc
  obtain ⟨v, hv, hfits⟩ := hs.lookup_ok hm hh rfl
  obtain rfl := Except.ok.inj (hlookup.symm.trans hv)
  have hheap : w.FitsHeap (h.fork id [(superName, ⟨false, .classRef parent⟩)]).2 := by
    refine hh.fork id fun other binding hmem => ?_
    obtain ⟨rfl, rfl⟩ := Prod.mk.inj (List.mem_singleton.mp hmem)
    exact ⟨hfits.fits, fun heq => absurd heq (by decide), fun _ => ⟨parent, rfl⟩⟩
  have hinner : w.Mirrors (h.fork id [(superName, ⟨false, .classRef parent⟩)]).2 h.scopes.size
      (superclassFrame name use methods :: frames) := by
    refine hm.fork hopened fun d hd => ?_
    obtain rfl := List.mem_singleton.mp hd
    exact ⟨_, rfl⟩
  refine fits_newClass (Heap.grows_fork ..) hheap hm (hs.tidy.1.1 _ List.mem_cons_self) hn
    fun h'' hg'' hmirrors => ?_
  refine .of_methods fun m f hmethod => ?_
  -- the scope of the superclass stays inside the one that gets the name of the class
  have henclosing : h''.enclosing? h.scopes.size = some id :=
    hg''.enclosing _ _ (by rw [Heap.enclosing?_fork, if_pos rfl])
  obtain ⟨context, hs⟩ := hs
  refine ⟨_, ⟨_, hs.submethod hmethod⟩, ?_⟩
  cases hinner.mono hg'' with
  | last _ _ _ => cases hm
  | inside hopened hlt hbound _ _ => exact .inside hopened hlt hbound henclosing hmirrors

/-- A method is given with its receiver bound. -/
theorem fits_giveMethod (hh : w.FitsHeap h) (hm : w.Mirrors h id frames) {next : ValueCont}
    (hn : w.FitsValueCont final h id frames next) {receiver : InstanceId}
    (hreceiver : w.FitsValue h (.object receiver)) {m : Closure} (hmethod : w.FitsMethod h m)
    (hopened : w.opened h.scopes.size (.receiver m.function)) :
    w.FitsNext final h (.running ⟨.give (.closure (h.bindMethod receiver m).1) next, id, depth,
      (h.bindMethod receiver m).2, console⟩) := by
  obtain ⟨hg, hheap, hbound⟩ := fits_bindMethod hh hreceiver hmethod hopened
  exact .give (v := .closure _) hg hheap hm hbound hn

/-- A property that is found fits. -/
theorem fits_property (hh : w.FitsHeap h) (hm : w.Mirrors h id frames) {next : ValueCont}
    (hn : w.FitsValueCont final h id frames next) {owner : InstanceId}
    (howner : w.FitsValue h (.object owner)) {name : Text} {p : Property}
    (hp : h.property? owner name = some p)
    (hopened : ∀ m, p = .method m → w.opened h.scopes.size (.receiver m.function)) :
    w.FitsNext final h
      (.running ⟨.give (h.take owner p).1 next, id, depth, (h.take owner p).2, console⟩) := by
  simp only [Heap.property?] at hp
  split at hp
  · next v hv =>
    obtain rfl := Option.some.inj hp
    exact .give (.refl h) hh hm (hh.field? hv) hn
  · obtain ⟨m, hm', rfl⟩ := Option.map_eq_some_iff.mp hp
    obtain ⟨d, -, hd⟩ := Option.bind_eq_some_iff.mp hm'
    exact fits_giveMethod hh hm hn howner (hh.methodWithin hd) (hopened m rfl)

theorem fits_superMethod (hh : w.FitsHeap h) {superclass : ClassId} {name : Text} {m : Closure}
    (hm : (if name == constructorName then h.constructor? superclass
      else h.method? superclass name) = some m) : w.FitsMethod h m := by
  split at hm
  · exact hh.constructor? hm
  · exact hh.methodWithin hm

/-- An instance is made, and the constructor of its class started with it. -/
theorem fits_construct (hh : w.FitsHeap h) (hm : w.Mirrors h id frames) {next : ValueCont}
    (hn : w.FitsValueCont final h id frames next) {made : ClassId} {arguments : List Value}
    (harguments : ∀ v ∈ arguments, w.FitsValue h v) {constructor : Closure}
    (hconstructor : h.constructor? made = some constructor)
    (hlength : arguments.length = constructor.arity)
    (hreceiver : w.opened h.scopes.size (.receiver constructor.function))
    (hcall : w.opened (h.scopes.size + 1) (.call constructor.function)) :
    w.FitsNext final h
      (enter ((h.newInstance (some made) []).2.bindMethod (h.newInstance (some made) []).1
        constructor).1 arguments
        (.construct (h.newInstance (some made) []).1 (.activation next)) id depth
        ((h.newInstance (some made) []).2.bindMethod (h.newInstance (some made) []).1 constructor).2
          console) := by
  have hg : h.Grows (h.newInstance (some made) []).2 := Heap.grows_newInstance ..
  have hobject : w.FitsValue (h.newInstance (some made) []).2 (.object h.instances.size) := by
    simp [FitsValue, Heap.newInstance]
  obtain ⟨hg', hheap', hbound⟩ :=
    fits_bindMethod (hh.newInstance (some made) fun _ _ => (absurd · List.not_mem_nil)) hobject
      ((hh.constructor? hconstructor).mono hg) hreceiver
  have hgrows := hg.trans hg'
  have hsize :
      ((h.newInstance (some made) []).2.bindMethod h.instances.size constructor).2.scopes.size =
      h.scopes.size + 1 := by simp [Heap.bindMethod, Heap.fork, Heap.newInstance]
  have hnext :
      w.FitsValueCont final
        ((h.newInstance (some made) []).2.bindMethod h.instances.size constructor).2 id frames
        (.construct h.instances.size (.activation next)) := ⟨hobject.mono hg', hn.mono hgrows⟩
  exact .of_grows hgrows
    (fits_enter hheap' (hm.mono hgrows) hnext hbound (fun v hv => (harguments v hv).mono hgrows)
      hlength (hsize ▸ hcall))

/-- A deep copy is asked for of its only argument. -/
theorem acyclic_of_calls {limit : Nat} {b : Builtin} {arguments : List Value} {paren : Span}
    {next : ValueCont} (hcalls : c.Calls h (.native (.builtin b)) arguments paren next)
    (harity : arguments.length = b.arity) (hlimit : depth < limit)
    (hacyclic : ∀ x, State.call? ⟨c, id, depth, h, console⟩ =
      some (.native (.builtin .deepCopy), [x]) → depth < limit → h.Acyclic x) (hb : b = .deepCopy) :
    h.Acyclic (arguments.getD 0 .nil) := by
  subst hb
  cases hcalls with
  | callee => cases harity
  | @argument last _ before =>
    obtain rfl : before = [] := by simpa [Builtin.arity] using harity
    exact hacyclic last rfl hlimit

/-- What a transition leads to fits, if no deep copy is asked for of a value that contains
itself. -/
theorem fits_transition {limit : Nat} {next : Next}
    (htrans : Transition limit id depth h console c next) (hh : w.FitsHeap h)
    (hc : w.FitsControl final h id c)
    (hacyclic : ∀ x, State.call? ⟨c, id, depth, h, console⟩ =
      some (.native (.builtin .deepCopy), [x]) → depth < limit → h.Acyclic x)
    (hopened : w.Records h (State.opening ⟨c, id, depth, h, console⟩) next) :
    w.FitsNext final h next := by
  cases htrans with
  | turn hturn => exact ⟨.refl h, hh, fits_turn hh hturn hc⟩
  | fails hfails => exact ⟨.refl h, hh, ne_fault_of_fails hh hfails hc⟩
  | finished =>
    obtain ⟨frames, hm, -, rfl, rfl⟩ := hc
    exact ⟨.refl h, hh, fun _ => hm⟩
  | @lambda name f next =>
    obtain ⟨frames, hm, he, hn⟩ := hc
    have hname : name.name ∉ reservedNames := he.tidy.1.1 _ List.mem_cons_self
    have hg : h.Grows (h.define id name.name false (.closure ⟨f, id⟩)) := Heap.grows_define ..
    have hmirrors : w.Mirrors (h.define id name.name false (.closure ⟨f, id⟩)) id
        (declareIn [(name.name, false)] frames) := by
      refine (hm.mono hg).declare fun d hd => ?_
      obtain rfl := List.mem_singleton.mp hd
      exact Heap.bound_define hm.lt ..
    obtain ⟨context, he⟩ := he
    have hclosure :
        w.FitsValue (h.define id name.name false (.closure ⟨f, id⟩)) (.closure ⟨f, id⟩) :=
      ⟨_, ⟨context, he.literal⟩, hmirrors⟩
    exact ⟨hg, (fits_define hh hm hname false hclosure).1, _, hmirrors, hclosure, hn.mono hg⟩
  | declareNil =>
    obtain ⟨frames, hm, hs, hn⟩ := hc
    exact fits_declare (v := .nil) hh hm (hs.tidy.1.1 _ List.mem_cons_self) _ trivial hn
  | declare =>
    obtain ⟨frames, hm, hv, hname, hn⟩ := hc
    exact fits_declare hh hm hname _ hv hn
  | @assign v use next outer =>
    obtain ⟨frames, hm, hv, ⟨e, hnode⟩, hn⟩ := hc
    have hg : h.Grows (h.define outer use.ident.name true v) := Heap.grows_define ..
    exact .give hg (hh.define outer true (.of_name (hnode.tidy.1.2 use rfl) (hv.mono hg))) hm
      (hv.mono hg) hn
  | classDecl => exact fits_classDecl hh hc
  | subclass hlookup =>
    refine fits_subclass hh hc hlookup (hopened 0 _ _ rfl ?_ rfl)
    simp [defineClass, Heap.define, Heap.newClass, Heap.fork]
  | object hgathers =>
    obtain ⟨frames, hm, hentries, hn⟩ := hc.gathers hgathers
    refine .give (Heap.grows_newInstance ..) (hh.newInstance _ hentries) hm ?_ hn
    simp [FitsValue, Heap.newInstance]
  | list hlists =>
    obtain ⟨frames, hm, helements, hn⟩ := hc.lists hlists
    refine .give (Heap.grows_newList _) (hh.newList fun v hv => ?_) hm ?_ hn
    · exact helements v (List.mem_reverse.mp (List.mem_toArray.mp hv))
    · simp [FitsValue, Heap.newList]
  | @setField v owner name next =>
    obtain ⟨frames, hm, hv, -, hn⟩ := hc
    have hg : h.Grows (h.setField owner name v) := Heap.grows_modifyInstance owner _
    refine .give hg (hh.modifyInstance owner fun other u hu => ?_) hm (hv.mono hg) hn
    rcases Entries.mem_put hu with heq | hu
    · obtain ⟨rfl, rfl⟩ := Prod.mk.inj heq
      exact .inr hv
    · exact .inl hu
  | @setElement v owner position blame next i =>
    obtain ⟨frames, hm, hv, -, -, hn⟩ := hc
    have hg : h.Grows (h.setElement owner i v) := Heap.grows_modifyList owner _
    refine .give hg (hh.modifyList owner fun u hu => ?_) hm (hv.mono hg) hn
    rcases Array.mem_or_eq_of_mem_setIfInBounds hu with hu | rfl
    · exact .inl hu
    · exact .inr hv
  | property hreads hp =>
    obtain ⟨frames, hm, howner, hn⟩ := hc.reads hreads
    refine fits_property hh hm hn howner hp ?_
    rintro m rfl
    refine hopened 0 _ _ rfl (by simp [Heap.take, Heap.bindMethod, Heap.fork]) ?_
    cases hreads <;> simp [State.opening, openingOf, Heap.methodAt?, hp]
  | superMethod hsupers hm =>
    obtain ⟨frames, hmirrors, hreceiver, hn⟩ := hc.supers hh hsupers
    refine fits_giveMethod hh hmirrors hn hreceiver (fits_superMethod hh hm) ?_
    refine hopened 0 _ _ rfl (by simp [Heap.bindMethod, Heap.fork]) ?_
    cases hsupers with
    | intro hsuper => simp only [State.opening, hsuper, openingOf, Heap.superMethod?, hm]; rfl
  | superIdle hsupers =>
    obtain ⟨frames, hm, -, hn⟩ := hc.supers hh hsupers
    have hg : h.Grows h.newIdle.2 := .of_scopes_eq rfl le_rfl le_rfl le_rfl
    refine .give (v := .native _) hg ?_ hm trivial hn
    exact FitsHeap.grow hg hh (fun _ _ _ => .inl) (fun _ _ => .inl) (fun _ _ _ => .inl)
      fun _ _ => .inl
  | enter hcalls harity =>
    obtain ⟨frames, hm, hcallee, harguments, hn⟩ := hc.calls hcalls
    have hactivation : w.FitsValueCont final h id frames (.activation _) := hn
    refine fits_enter hh hm hactivation hcallee harguments harity (hopened 0 _ _ rfl (by simp) ?_)
    cases hcalls <;> rfl
  | @construct _ made _ _ _ constructor hcalls hconstructor harity =>
    obtain ⟨frames, hm, -, harguments, hn⟩ := hc.calls hcalls
    have hconstructor : h.constructor? made = some constructor := hconstructor
    have hopening : State.opening ⟨c, id, depth, h, console⟩ = h.callOpening (.classRef made) := by
      cases hcalls <;> rfl
    simp only [hopening, Heap.callOpening, hconstructor] at hopened
    refine fits_construct hh hm hn harguments hconstructor ?_ (hopened 0 _ _ rfl ?_ rfl)
      (hopened 1 _ _ rfl ?_ rfl)
    · simpa [Heap.arity?, hconstructor] using harity
    · simp [Heap.bindMethod, Heap.fork, Heap.newInstance]
    · simp [Heap.bindMethod, Heap.fork, Heap.newInstance]
  | «instance» hcalls =>
    obtain ⟨frames, hm, -, -, hn⟩ := hc.calls hcalls
    refine .give (Heap.grows_newInstance ..)
      (hh.newInstance _ fun _ _ => (absurd · List.not_mem_nil)) hm ?_ hn
    simp [FitsValue, Heap.newInstance]
  | @native _ b _ paren _ _ hcalls harity hlimit hv =>
    obtain ⟨frames, hm, -, harguments, hn⟩ := hc.calls hcalls
    have hanswer :=
      hh.call b harguments paren console (acyclic_of_calls hcalls harity hlimit hacyclic)
    exact .give hanswer.grows hanswer.heap hm (hanswer.result _ hv) hn
  | @nativeFails _ b _ paren _ _ hcalls harity hlimit hstop =>
    obtain ⟨frames, hm, -, harguments, hn⟩ := hc.calls hcalls
    have hanswer :=
      hh.call b harguments paren console (acyclic_of_calls hcalls harity hlimit hacyclic)
    exact ⟨hanswer.grows, hanswer.heap, fun fault heq => hanswer.noFault fault (heq ▸ hstop)⟩
  | idle hcalls =>
    obtain ⟨frames, hm, -, -, hn⟩ := hc.calls hcalls
    exact .give (v := .nil) (.refl h) hh hm trivial hn
  | @block body next =>
    obtain ⟨frames, hm, ⟨context, hs⟩, hn⟩ := hc.exec rfl
    have hblock : w.opened h.scopes.size (.block body) :=
      hopened 0 _ _ rfl (by simp [Heap.fork]) rfl
    have hg : h.Grows (h.fork id []).2 := Heap.grows_fork ..
    have hinner : w.Mirrors (h.fork id []).2 h.scopes.size (⟨.block body, []⟩ :: frames) :=
      hm.fork hblock (List.forall_mem_nil _)
    exact ⟨hg, hh.fork id fun _ _ => (absurd · List.not_mem_nil),
      fits_runBody hinner ⟨context, hs.block⟩ fun _ => ⟨frames, hm.mono hg, hn.mono hg⟩⟩
  | leave =>
    obtain ⟨-, -, hs, frames, hm, hn⟩ := hc
    exact ⟨.refl h, hh, frames, hm, hs, hn⟩
  | bodyEnd =>
    obtain ⟨-, -, -, frames, hm, hn⟩ := hc
    exact ⟨.refl h, hh, frames, hm, trivial, hn⟩
  | bodyReturn =>
    obtain ⟨-, -, hv, frames, hm, hn⟩ := hc
    exact ⟨.refl h, hh, frames, hm, hv, hn⟩
  | activation => exact ⟨.refl h, hh, hc⟩
  | print =>
    obtain ⟨frames, hm, -, hn⟩ := hc
    exact ⟨.refl h, hh, frames, hm, trivial, hn⟩

/-- A step from a state that fits leads to one that fits. -/
theorem FitsState.step {state : State} (hstate : w.FitsState final state) {limit : Nat}
    (hacyclic : ∀ x, state.call? = some (.native (.builtin .deepCopy), [x]) → state.depth < limit →
      state.heap.Acyclic x)
    (hopened : w.Records state.heap state.opening (Lox.step limit state)) :
    w.FitsNext final state.heap (Lox.step limit state) :=
  fits_transition (transition_step limit state) hstate.heap hstate.control hacyclic hopened

end Chronicle

end Lox
