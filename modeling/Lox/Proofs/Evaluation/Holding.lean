import Lox.Proofs.Evaluation.Contents
import Lox.Proofs.Evaluation.Transitions
import Lox.Proofs.Syntax.Tree

/-!
# What a machine holds

What remains to be done holds parts of programs, each waiting for the scope that it will be
evaluated in, and values. If something goes down to the parts of a part, and holds of every value
that a turn can find in the heap, then a turn keeps it of all that the machine holds (`Turn.holds`):
a turn takes programs apart, and makes nothing else of them than functions.
-/

namespace Lox

open Code

/-! ## What a continuation holds -/

/-- The statement that a loop comes from. -/
def Loop.stmt (loop : Loop) : Stmt := .loop loop.condition loop.body loop.closer

section Holding

variable (code : ScopeId → Code → Prop) (value : Value → Prop)

mutual

/-- Something holds of each part that waits to be evaluated, with the scope it waits for, and of
each value that is kept. -/
def ValueCont.Holds (id : ScopeId) : ValueCont → Prop
  | .unary _ _ next | .activation next | .construct _ next | .get _ next | .setField _ _ next =>
    next.Holds id
  | .binaryLeft _ _ e next | .logical _ e next | .getKeyObject _ e next | .indexObject e _ next
  | .setObject _ e next => code id (.expr e) ∧ next.Holds id
  | .binaryRight _ _ v next | .getKey v _ next | .index v _ next | .setElement _ v _ next =>
    value v ∧ next.Holds id
  | .setKeyObject _ key e next | .setIndexObject key _ e next =>
    code id (.expr key) ∧ code id (.expr e) ∧ next.Holds id
  | .setKey v _ e next | .setIndex v _ e next => value v ∧ code id (.expr e) ∧ next.Holds id
  | .assign use next => (∃ e, code id (.expr (.assign use e))) ∧ next.Holds id
  | .callee arguments _ next => (∀ e ∈ arguments, code id (.expr e)) ∧ next.Holds id
  | .argument callee before rest _ next =>
    value callee ∧ (∀ v ∈ before, value v) ∧ (∀ e ∈ rest, code id (.expr e)) ∧ next.Holds id
  | .field before _ rest next =>
    (∀ name v, (name, v) ∈ before → value v) ∧ (∀ f ∈ rest, code id (.expr f.value)) ∧ next.Holds id
  | .element before rest next =>
    (∀ v ∈ before, value v) ∧ (∀ e ∈ rest, code id (.expr e)) ∧ next.Holds id
  | .discard next | .print next | .ret _ next => next.Holds id
  | .declare mutable name next =>
    (∃ ident init, ident.name = name ∧ code id (.stmt (.declare mutable ident init))) ∧
      next.Holds id
  | .branch thenBranch elseBranch next =>
    (∀ s ∈ thenBranch, code id (.stmt s)) ∧ (∀ s ∈ elseBranch, code id (.stmt s)) ∧ next.Holds id
  | .loopTest loop next | .loopCloser loop next => code id (.stmt loop.stmt) ∧ next.Holds id

/-- The same, for what remains after a statement. -/
def StmtCont.Holds (id : ScopeId) : StmtCont → Prop
  | .done => True
  | .statements rest next => code id (.stmts rest) ∧ next.Holds id
  | .leave outer next => next.Holds outer
  | .loopBody loop next => code id (.stmt loop.stmt) ∧ next.Holds id
  | .functionBody caller next => next.Holds caller

end

/-- Something holds of the value that a signal carries. -/
def Signal.Holds : Signal → Prop
  | .returned _ v => value v
  | .normal | .broke _ | .continued _ => True

/-- Something holds of all that is looked at and of all that remains. -/
def Control.Holds (id : ScopeId) : Control → Prop
  | .eval e next => code id (.expr e) ∧ next.Holds code value id
  | .exec s next => code id (.stmt s) ∧ next.Holds code value id
  | .give v next => value v ∧ next.Holds code value id
  | .finish signal next => signal.Holds value ∧ next.Holds code value id

end Holding

section Mono

variable {code code' : ScopeId → Code → Prop} {value value' : Value → Prop}

mutual

/-- What is known of code and values may be known less well. -/
theorem ValueCont.Holds.mono (hcode : ∀ id c, code id c → code' id c)
    (hvalue : ∀ v, value v → value' v) {id : ScopeId} :
    {next : ValueCont} → next.Holds code value id → next.Holds code' value' id
  | .unary _ _ next, hn | .activation next, hn | .construct _ next, hn | .get _ next, hn
  | .setField _ _ next, hn =>
    (ValueCont.Holds.mono hcode hvalue hn : next.Holds code' value' id)
  | .binaryLeft _ _ _ _, hn | .logical _ _ _, hn | .getKeyObject _ _ _, hn | .indexObject _ _ _, hn
  | .setObject _ _ _, hn => ⟨hcode _ _ hn.1, ValueCont.Holds.mono hcode hvalue hn.2⟩
  | .binaryRight _ _ _ _, hn | .getKey _ _ _, hn | .index _ _ _, hn | .setElement _ _ _ _, hn =>
    ⟨hvalue _ hn.1, ValueCont.Holds.mono hcode hvalue hn.2⟩
  | .setKeyObject _ _ _ _, hn | .setIndexObject _ _ _ _, hn =>
    ⟨hcode _ _ hn.1, hcode _ _ hn.2.1, ValueCont.Holds.mono hcode hvalue hn.2.2⟩
  | .setKey _ _ _ _, hn | .setIndex _ _ _ _, hn =>
    ⟨hvalue _ hn.1, hcode _ _ hn.2.1, ValueCont.Holds.mono hcode hvalue hn.2.2⟩
  | .assign _ _, hn => ⟨hn.1.imp fun _ => hcode _ _, ValueCont.Holds.mono hcode hvalue hn.2⟩
  | .callee _ _ _, hn => ⟨fun e he => hcode _ _ (hn.1 e he), ValueCont.Holds.mono hcode hvalue hn.2⟩
  | .argument _ _ _ _ _, hn =>
    ⟨hvalue _ hn.1, fun v hv => hvalue v (hn.2.1 v hv), fun e he => hcode _ _ (hn.2.2.1 e he),
      ValueCont.Holds.mono hcode hvalue hn.2.2.2⟩
  | .field _ _ _ _, hn =>
    ⟨fun name v hv => hvalue v (hn.1 name v hv),
      fun f hf => hcode _ _ (hn.2.1 f hf), ValueCont.Holds.mono hcode hvalue hn.2.2⟩
  | .element _ _ _, hn =>
    ⟨fun v hv => hvalue v (hn.1 v hv),
      fun e he => hcode _ _ (hn.2.1 e he), ValueCont.Holds.mono hcode hvalue hn.2.2⟩
  | .discard next, hn | .print next, hn | .ret _ next, hn =>
    (StmtCont.Holds.mono hcode hvalue hn : next.Holds code' value' id)
  | .declare _ _ _, hn =>
    ⟨hn.1.imp fun _ => Exists.imp fun _ => And.imp_right (hcode _ _),
      StmtCont.Holds.mono hcode hvalue hn.2⟩
  | .branch _ _ _, hn =>
    ⟨fun s hs => hcode _ _ (hn.1 s hs),
      fun s hs => hcode _ _ (hn.2.1 s hs), StmtCont.Holds.mono hcode hvalue hn.2.2⟩
  | .loopTest _ _, hn | .loopCloser _ _, hn =>
    ⟨hcode _ _ hn.1, StmtCont.Holds.mono hcode hvalue hn.2⟩

theorem StmtCont.Holds.mono (hcode : ∀ id c, code id c → code' id c)
    (hvalue : ∀ v, value v → value' v) {id : ScopeId} :
    {next : StmtCont} → next.Holds code value id → next.Holds code' value' id
  | .done, _ => trivial
  | .statements _ _, hn => ⟨hcode _ _ hn.1, StmtCont.Holds.mono hcode hvalue hn.2⟩
  | .leave outer next, hn => (StmtCont.Holds.mono hcode hvalue hn : next.Holds code' value' outer)
  | .loopBody _ _, hn => ⟨hcode _ _ hn.1, StmtCont.Holds.mono hcode hvalue hn.2⟩
  | .functionBody caller next, hn =>
    (ValueCont.Holds.mono hcode hvalue hn : next.Holds code' value' caller)

end

end Mono

/-! ## What a turn keeps -/

/-- Something goes down from a part to those that are evaluated in the same scope, and holds of
every value that a turn can give in that scope. -/
structure Heap.Supplies (heap : Heap) (id : ScopeId) (code : Code → Prop) (value : Value → Prop) :
    Prop where
  part : ∀ {e part}, code (.expr e) → part ∈ e.parts → code (.expr part)
  expr : ∀ {s e}, code (.stmt s) → e ∈ s.exprs → code (.expr e)
  inner : ∀ {s t}, code (.stmt s) → t ∈ s.inner → code (.stmt t)
  first : ∀ {s rest}, code (.stmts (s :: rest)) → code (.stmt s)
  rest : ∀ {s rest}, code (.stmts (s :: rest)) → code (.stmts rest)
  function : ∀ {f}, code (.expr (.lambda none f)) → value (.closure ⟨f, id⟩)
  data : OfData value
  lookup : ∀ {distance name v}, heap.lookup id distance name = .ok v → value v
  stores : heap.Stores value

section Turn

variable {code : ScopeId → Code → Prop} {value : Value → Prop} {heap : Heap} {id : ScopeId}
    {c : Control}

namespace Control.Holds

variable (hc : c.Holds code value id)

include hc

/-- A call holds its callee, its arguments and what waits for it. -/
theorem calls {callee : Value} {arguments : List Value} {paren : Span} {k : ValueCont}
    (hcalls : c.Calls heap callee arguments paren k) :
    value callee ∧ (∀ v ∈ arguments, value v) ∧ k.Holds code value id := by
  cases hcalls with
  | callee => exact ⟨hc.1, fun v hv => absurd hv List.not_mem_nil, hc.2.2⟩
  | argument =>
    obtain ⟨hlast, hcallee, hbefore, -, hk⟩ := hc
    exact ⟨hcallee, fun v hv =>
      List.forall_mem_cons.mpr ⟨hlast, hbefore⟩ v (List.mem_reverse.mp hv), hk⟩

/-- The reading of a property holds what waits for it. -/
theorem reads {owner : Value} {name : Text} {blame : Span} {k : ValueCont}
    (hreads : c.Reads heap owner name blame k) : k.Holds code value id := by
  cases hreads with
  | get => exact hc.2
  | getKey => exact hc.2.2

/-- The writing holds the expression for the value. -/
theorem writes {owner : Value} {name : Text} {blame : Span} {e : Expr} {k : ValueCont}
    (hwrites : c.Writes heap owner name blame e k) : code id (.expr e) ∧ k.Holds code value id := by
  cases hwrites with
  | set => exact hc.2
  | setKey => exact hc.2.2

theorem supers {superclass : ClassId} {receiver : InstanceId} {method : Ident} {k : ValueCont}
    (hsupers : c.Supers id heap superclass receiver method k) : k.Holds code value id := by
  cases hsupers with
  | intro => exact hc.2

/-- An object that is complete holds its entries. -/
theorem gathers {entries : Entries Value} {k : ValueCont} (hgathers : c.Gathers entries k) :
    (∀ name v, (name, v) ∈ entries → value v) ∧ k.Holds code value id := by
  cases hgathers with
  | none => exact ⟨fun _ _ hmem => absurd hmem List.not_mem_nil, hc.2⟩
  | last => exact ⟨Entries.forall_mem_put hc.1 hc.2.1, hc.2.2.2⟩

theorem lists {elements : List Value} {k : ValueCont} (hlists : c.Lists elements k) :
    (∀ v ∈ elements, value v) ∧ k.Holds code value id := by
  cases hlists with
  | none => exact ⟨fun _ hmem => absurd hmem List.not_mem_nil, hc.2⟩
  | last => exact ⟨List.forall_mem_cons.mpr ⟨hc.1, hc.2.1⟩, hc.2.2.2⟩

end Control.Holds

namespace Heap.Supplies

variable (hs : heap.Supplies id (code id) value) {k : StmtCont} (hk : k.Holds code value id)

include hs hk

/-- A body is entered with its statements held. -/
theorem runBody {body : List Stmt} (hbody : code id (.stmts body)) :
    (runBody body k).Holds code value id := by
  cases body with
  | nil => exact ⟨trivial, hk⟩
  | cons s rest => exact ⟨hs.first hbody, hs.rest hbody, hk⟩

/-- A loop is begun with itself held. -/
theorem runLoop {loop : Loop} (hloop : code id (.stmt loop.stmt)) :
    (runLoop loop k).Holds code value id := by
  obtain ⟨condition, body, closer⟩ := loop
  cases condition with
  | none => exact ⟨hs.inner hloop List.mem_cons_self, hloop, hk⟩
  | some e => exact ⟨hs.expr hloop List.mem_cons_self, hloop, hk⟩

theorem closeLoop {loop : Loop} (hloop : code id (.stmt loop.stmt)) :
    (closeLoop loop k).Holds code value id := by
  obtain ⟨condition, body, closer⟩ := loop
  cases closer with
  | none => exact hs.runLoop hk hloop
  | some e => exact ⟨hs.expr hloop (List.mem_append_right _ List.mem_cons_self), hloop, hk⟩

end Heap.Supplies

/-- A turn makes no part of a program of its own, and gives only values that the heap supplies. -/
theorem Turn.holds {c' : Control} (hturn : Turn id heap c c')
    (hs : heap.Supplies id (code id) value) (hc : c.Holds code value id) :
    c'.Holds code value id := by
  cases hturn with
  | @literal l => exact ⟨hs.data _ (by cases l <;> trivial), hc.2⟩
  | function => exact ⟨hs.function hc.1, hc.2⟩
  | var hv | thisRef hv => exact ⟨hs.lookup hv, hc.2⟩
  | unaryGiven happly => exact ⟨hs.data.plain ((yields_unary _ _).isPlain happly), hc.2⟩
  | binaryGiven happly => exact ⟨hs.data.plain ((yields_binary _ _ _).isPlain happly), hc.2.2⟩
  | item hitem => exact ⟨hs.stores.item hs.data hitem, hc.2.2⟩
  | grouping | unary | get => exact ⟨hs.part hc.1 List.mem_cons_self, hc.2⟩
  | assign => exact ⟨hs.part hc.1 List.mem_cons_self, ⟨_, hc.1⟩, hc.2⟩
  | binary | logical | getKey | index | set =>
    have hfirst := hs.part hc.1 List.mem_cons_self
    exact ⟨hfirst, hs.part hc.1 (List.mem_cons_of_mem _ List.mem_cons_self), hc.2⟩
  | setKey | setIndex =>
    have hfirst := hs.part hc.1 List.mem_cons_self
    have hsecond := hs.part hc.1 (List.mem_cons_of_mem _ List.mem_cons_self)
    have hthird := hs.part hc.1 (List.mem_cons_of_mem _ (List.mem_cons_of_mem _ List.mem_cons_self))
    exact ⟨hfirst, hsecond, hthird, hc.2⟩
  | call =>
    exact ⟨hs.part hc.1 List.mem_cons_self,
      fun e he => hs.part hc.1 (List.mem_cons_of_mem _ he), hc.2⟩
  | object =>
    exact ⟨hs.part hc.1 List.mem_cons_self, fun _ _ hmem => absurd hmem List.not_mem_nil,
      fun f hf => hs.part hc.1 (List.mem_cons_of_mem _ (List.mem_map_of_mem hf)), hc.2⟩
  | list =>
    exact ⟨hs.part hc.1 List.mem_cons_self, fun _ hmem => absurd hmem List.not_mem_nil,
      fun e he => hs.part hc.1 (List.mem_cons_of_mem _ he), hc.2⟩
  | binaryLeft | getKeyObject | indexObject | setKeyObject | setIndexObject =>
    exact ⟨hc.2.1, hc.1, hc.2.2⟩
  | settled => exact ⟨hc.1, hc.2.2⟩
  | unsettled => exact hc.2
  | callee =>
    obtain ⟨hcallee, hrest, hk⟩ := hc
    obtain ⟨he, hrest⟩ := List.forall_mem_cons.mp hrest
    exact ⟨he, hcallee, fun _ hmem => absurd hmem List.not_mem_nil, hrest, hk⟩
  | argument =>
    obtain ⟨hv, hcallee, hbefore, hrest, hk⟩ := hc
    obtain ⟨he, hrest⟩ := List.forall_mem_cons.mp hrest
    exact ⟨he, hcallee, List.forall_mem_cons.mpr ⟨hv, hbefore⟩, hrest, hk⟩
  | field =>
    obtain ⟨hv, hbefore, hrest, hk⟩ := hc
    obtain ⟨he, hrest⟩ := List.forall_mem_cons.mp hrest
    exact ⟨he, Entries.forall_mem_put hv hbefore, hrest, hk⟩
  | element =>
    obtain ⟨hv, hbefore, hrest, hk⟩ := hc
    obtain ⟨he, hrest⟩ := List.forall_mem_cons.mp hrest
    exact ⟨he, List.forall_mem_cons.mpr ⟨hv, hbefore⟩, hrest, hk⟩
  | constructed => exact ⟨hs.data _ trivial, hc.2⟩
  | writes hwrites => exact ⟨(hc.writes hwrites).1, (hc.writes hwrites).2⟩
  | assignable => exact ⟨hc.2.2.1, hc.1, hc.2.2.2⟩
  | discard => exact ⟨trivial, hc.2⟩
  | @chosen v thenBranch elseBranch =>
    obtain ⟨-, hthen, helse, hk⟩ := hc
    have hbranch : ∀ s ∈ if v.isTrue then thenBranch else elseBranch, code id (.stmt s) := by
      split
      · exact hthen
      · exact helse
    cases hchosen : (if v.isTrue then thenBranch else elseBranch) with
    | none => exact ⟨trivial, hk⟩
    | some s => exact ⟨hbranch s (hchosen ▸ rfl), hk⟩
  | loopTrue => exact ⟨hs.inner hc.2.1 List.mem_cons_self, hc.2⟩
  | loopFalse => exact ⟨trivial, hc.2.2⟩
  | loopCloser => exact hs.runLoop hc.2.2 hc.2.1
  | retGiven => exact hc
  | evaluate | print | ret => exact ⟨hs.expr hc.1 List.mem_cons_self, hc.2⟩
  | declare => exact ⟨hs.expr hc.1 List.mem_cons_self, ⟨_, _, rfl, hc.1⟩, hc.2⟩
  | branch =>
    refine ⟨hs.expr hc.1 List.mem_cons_self,
      fun s hs' => hs.inner hc.1 ?_, fun s hs' => hs.inner hc.1 ?_, hc.2⟩
    · exact List.mem_append_left _ (Option.mem_toList.mpr hs')
    · exact List.mem_append_right _ (Option.mem_toList.mpr hs')
  | @loop condition body closer =>
    have hloop : code id (.stmt (Loop.stmt ⟨condition, body, closer⟩)) := hc.1
    exact hs.runLoop hc.2 hloop
  | retNil => exact ⟨hs.data _ trivial, hc.2⟩
  | brk | cont => exact ⟨trivial, hc.2⟩
  | statements => exact hs.runBody hc.2.2 hc.2.1
  | skipped => exact ⟨hc.1, hc.2.2⟩
  | loopNormal | loopContinued => exact hs.closeLoop hc.2.2 hc.2.1
  | loopBroke => exact ⟨trivial, hc.2.2⟩
  | loopReturned => exact ⟨hc.1, hc.2.2⟩

end Turn

end Lox
