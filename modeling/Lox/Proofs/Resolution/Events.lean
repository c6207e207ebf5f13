import Lox.Proofs.Resolution.Scopes

/-!
# What an expression does in the scope around it

An expression declares the names of its function literals in the scope it stands in, and looks names
up from there. Each of these is an **event**, and so is the body of a function literal, which takes
the scope as it is at that moment. `Expr.events` lists the events of an expression in the order of a
**pass**, which is resolution or evaluation. The two differ in assignments to a property or to an
element: there resolution takes the value before the target, and evaluation after it.

Resolution of an expression performs its events one after another (`events_resolve`). Both passes
have the same events (`perm_events`), and they list those of some kind alike wherever no assignment
has such events both in its target and in its value (`Aligned.filter_events`).
-/

namespace Lox

open Resolve

/-! ## Events -/

/-- Something that an expression does in the scope around it. -/
inductive Event
  /-- The name of a function literal is declared. -/
  | declare (name : Ident)
  /-- A name is looked up for its value. -/
  | read (use : NameUse)
  /-- A name is looked up to be assigned to. -/
  | assign (use : NameUse)
  /-- The receiver of a method is looked up. -/
  | receiver (keyword : Span) (slot : Option Nat)
  /-- The superclass is looked up. -/
  | superclass (keyword : Span) (slot : Option Nat)
  /-- A function literal takes the scope with it. -/
  | body (function : Function)

/-- What goes over an expression. -/
inductive Pass
  | resolution
  | evaluation

/-- The events of an assignment to a property or an element, from those of its target and of its
value. -/
def Pass.arrange (target value : List Event) : Pass → List Event
  | .resolution => value ++ target
  | .evaluation => target ++ value

mutual

/-- The events of an expression, in the order of a pass. -/
def Expr.events (pass : Pass) : Expr → List Event
  | .literal _ => []
  | .grouping inner => inner.events pass
  | .unary _ _ operand => operand.events pass
  | .binary _ _ left right => left.events pass ++ right.events pass
  | .logical _ left right => left.events pass ++ right.events pass
  | .var use => [.read use]
  | .assign use value => value.events pass ++ [.assign use]
  | .call callee arguments _ => callee.events pass ++ eventsOf pass arguments
  | .lambda none function => [.body function]
  | .lambda (some name) function => [.declare name, .body function]
  | .get object _ => object.events pass
  | .getKey object _ key => object.events pass ++ key.events pass
  | .index object index _ => object.events pass ++ index.events pass
  | .set object _ value => pass.arrange (object.events pass) (value.events pass)
  | .setKey object _ key value =>
    pass.arrange (object.events pass ++ key.events pass) (value.events pass)
  | .setIndex object index _ value =>
    pass.arrange (object.events pass ++ index.events pass) (value.events pass)
  | .thisRef keyword slot => [.receiver keyword slot]
  | .superRef keyword _ slot => [.superclass keyword slot]
  | .object fields => fieldEvents pass fields
  | .list elements => eventsOf pass elements

/-- The events of expressions, in order. -/
def eventsOf (pass : Pass) : List Expr → List Event
  | [] => []
  | e :: rest => e.events pass ++ eventsOf pass rest

/-- The events of the properties of an object, in order. -/
def fieldEvents (pass : Pass) : List Field → List Event
  | [] => []
  | .mk _ value :: rest => value.events pass ++ fieldEvents pass rest

end

theorem fieldEvents_eq (pass : Pass) (fields : List Field) :
    fieldEvents pass fields = eventsOf pass (fields.map Field.value) := by
  induction fields with
  | nil => rfl
  | cons f rest ih =>
    obtain ⟨key, value⟩ := f
    rw [fieldEvents, ih]
    rfl

/-! ## Induction on the parts of an expression -/

theorem sizeOf_lt_of_mem_parts {e part : Expr} (h : part ∈ e.parts) : sizeOf part < sizeOf e := by
  cases e with
  | literal | var | lambda | thisRef | superRef => cases h
  | call callee arguments _ =>
    rcases List.mem_cons.mp h with rfl | hmem
    · simp only [Expr.call.sizeOf_spec]
      omega
    · have hlt := List.sizeOf_lt_of_mem hmem
      simp only [Expr.call.sizeOf_spec]
      omega
  | list elements =>
    have hlt : sizeOf part < sizeOf elements := List.sizeOf_lt_of_mem h
    simp only [Expr.list.sizeOf_spec]
    omega
  | object fields =>
    obtain ⟨⟨key, value⟩, hmem, rfl⟩ := List.mem_map.mp h
    have hlt := List.sizeOf_lt_of_mem hmem
    simp only [Expr.object.sizeOf_spec, Field.mk.sizeOf_spec, Field.value] at hlt ⊢
    omega
  | _ =>
    simp only [Expr.parts, List.mem_cons, List.not_mem_nil, or_false] at h
    grind

/-- What holds of an expression if it holds of its parts holds of every expression. -/
@[elab_as_elim]
theorem Expr.byParts {motive : Expr → Prop}
    (intro : ∀ e, (∀ part ∈ e.parts, motive part) → motive e) (e : Expr) : motive e :=
  intro e fun part h =>
    have := sizeOf_lt_of_mem_parts h
    byParts intro part
termination_by sizeOf e

/-! ## Resolution performs the events -/

/-- What resolution does for an event. It gives the event with its slots filled. -/
def Event.perform (run : Nat) (context : ClassContext) : Event → Resolve Event
  | .declare name => do
    Resolve.declare name.name false
    return .declare name
  | .read use => do return .read (← use.resolve)
  | .assign use => do return .assign (← use.resolveTarget)
  | .receiver keyword _ => do return .receiver keyword (← resolveThis context keyword)
  | .superclass keyword _ => do return .superclass keyword (← resolveSuper context keyword)
  | .body function => do return .body (← function.resolve run context)

section Performing

instance : LawfulMonad Resolve := LawfulMonad.mk' Resolve
  (fun _ => funext fun _ => congrArg (Resolved.mk _ _) (List.append_nil _))
  (fun _ _ => rfl)
  (fun _ _ _ => funext fun _ => congrArg (Resolved.mk _ _) (List.append_assoc _ _ _))

variable {run : Nat} {context : ClassContext}

variable (run context) in
/-- Going over an expression is to perform its events one after another. -/
def Performs (e : Expr) : Prop :=
  Expr.events .resolution <$> e.resolve run context =
    (e.events .resolution).mapM (Event.perform run context)

theorem events_resolveExprs {es : List Expr} (h : ∀ e ∈ es, Performs run context e) :
    eventsOf .resolution <$> resolveExprs run context es =
      (eventsOf .resolution es).mapM (Event.perform run context) := by
  induction es with
  | nil => rfl
  | cons e rest ih =>
    obtain ⟨he, hrest⟩ := List.forall_mem_cons.mp h
    rw [eventsOf, List.mapM_append, ← he, ← ih hrest, resolveExprs]
    simp [eventsOf]

theorem events_resolveFields {fields : List Field}
    (h : ∀ f ∈ fields, Performs run context f.value) :
    fieldEvents .resolution <$> resolveFields run context fields =
      (fieldEvents .resolution fields).mapM (Event.perform run context) := by
  induction fields with
  | nil => rfl
  | cons f rest ih =>
    obtain ⟨key, value⟩ := f
    obtain ⟨hvalue, hrest⟩ := List.forall_mem_cons.mp h
    have hvalue : Performs run context value := hvalue
    rw [fieldEvents, List.mapM_append, ← hvalue, ← ih hrest, resolveFields]
    simp [fieldEvents]

/-- Going over any expression is to perform its events one after another. -/
theorem events_resolve (e : Expr) : Performs run context e := by
  induction e using Expr.byParts with
  | intro e ih =>
    cases e with
    | literal => rfl
    | var | thisRef | superRef => simp [Performs, Expr.events, Expr.resolve, Event.perform]
    | lambda name f => cases name <;> simp [Performs, Expr.events, Expr.resolve, Event.perform]
    | grouping e | unary _ _ e | get e _ =>
      have he : Performs run context e := ih e (by simp [Expr.parts])
      rw [Performs, Expr.events, ← he]
      simp [Expr.resolve, Expr.events]
    | assign use e =>
      have he : Performs run context e := ih e (by simp [Expr.parts])
      rw [Performs, Expr.events, List.mapM_append, ← he]
      simp [Expr.resolve, Expr.events, Event.perform]
    | binary _ _ left right | logical _ left right =>
      have hleft : Performs run context left := ih left (by simp [Expr.parts])
      have hright : Performs run context right := ih right (by simp [Expr.parts])
      rw [Performs, Expr.events, List.mapM_append, ← hleft, ← hright]
      simp [Expr.resolve, Expr.events]
    | getKey left _ right | index left right _ =>
      have hleft : Performs run context left := ih left (by simp [Expr.parts])
      have hright : Performs run context right := ih right (by simp [Expr.parts])
      rw [Performs, Expr.events, List.mapM_append, ← hleft, ← hright]
      simp [Expr.resolve, Expr.events]
    | set owner _ value =>
      have howner : Performs run context owner := ih owner (by simp [Expr.parts])
      have hvalue : Performs run context value := ih value (by simp [Expr.parts])
      rw [Performs, Expr.events, Pass.arrange, List.mapM_append, ← howner, ← hvalue]
      simp [Expr.resolve, Expr.events, Pass.arrange]
    | setKey owner _ key value | setIndex owner key _ value =>
      have howner : Performs run context owner := ih owner (by simp [Expr.parts])
      have hkey : Performs run context key := ih key (by simp [Expr.parts])
      have hvalue : Performs run context value := ih value (by simp [Expr.parts])
      rw [Performs, Expr.events, Pass.arrange, List.mapM_append, List.mapM_append, ← howner,
        ← hkey, ← hvalue]
      simp [Expr.resolve, Expr.events, Pass.arrange]
    | call callee arguments _ =>
      have hcallee : Performs run context callee := ih callee (by simp [Expr.parts])
      have harguments := events_resolveExprs fun e he => ih e (List.mem_cons_of_mem _ he)
      rw [Performs, Expr.events, List.mapM_append, ← hcallee, ← harguments]
      simp [Expr.resolve, Expr.events]
    | object fields =>
      have hfields := events_resolveFields fun f hf => ih f.value (List.mem_map_of_mem hf)
      rw [Performs, Expr.events, ← hfields]
      simp [Expr.resolve, Expr.events]
    | list elements =>
      have helements : eventsOf .resolution <$> resolveExprs run context elements = _ :=
        events_resolveExprs ih
      rw [Performs, Expr.events, ← helements]
      simp [Expr.resolve, Expr.events]

end Performing

/-! ## The two passes -/

theorem perm_eventsOf {es : List Expr}
    (h : ∀ e ∈ es, (e.events .resolution).Perm (e.events .evaluation)) :
    (eventsOf .resolution es).Perm (eventsOf .evaluation es) := by
  induction es with
  | nil => exact .nil
  | cons e rest ih =>
    obtain ⟨he, hrest⟩ := List.forall_mem_cons.mp h
    exact he.append (ih hrest)

/-- Both passes have the same events. -/
theorem perm_events (e : Expr) : (e.events .resolution).Perm (e.events .evaluation) := by
  induction e using Expr.byParts with
  | intro e ih =>
    cases e with
    | literal | var | thisRef | superRef => exact .refl _
    | lambda name f => cases name <;> exact .refl _
    | grouping e | unary _ _ e | get e _ => exact ih e (by simp [Expr.parts])
    | assign use e => exact (ih e (by simp [Expr.parts])).append_right _
    | binary _ _ left right | logical _ left right =>
      exact (ih left (by simp [Expr.parts])).append (ih right (by simp [Expr.parts]))
    | getKey left _ right | index left right _ =>
      exact (ih left (by simp [Expr.parts])).append (ih right (by simp [Expr.parts]))
    | set owner _ value =>
      have howner := ih owner (by simp [Expr.parts])
      have hvalue := ih value (by simp [Expr.parts])
      exact (hvalue.append howner).trans List.perm_append_comm
    | setKey owner _ key value | setIndex owner key _ value =>
      have howner := ih owner (by simp [Expr.parts])
      have hkey := ih key (by simp [Expr.parts])
      have hvalue := ih value (by simp [Expr.parts])
      exact (hvalue.append (howner.append hkey)).trans List.perm_append_comm
    | call callee arguments _ =>
      exact (ih callee (by simp [Expr.parts])).append
        (perm_eventsOf fun e he => ih e (List.mem_cons_of_mem _ he))
    | object fields =>
      simp only [Expr.events, fieldEvents_eq]
      exact perm_eventsOf ih
    | list elements => exact perm_eventsOf ih

/-- No event of a kind is in the one list, or none is in the other. -/
def Apart (watched : Event → Bool) (target value : List Event) : Prop :=
  target.filter watched = [] ∨ value.filter watched = []

/-- If an expression is an assignment to a property or an element, the events of a kind are all in
its target or all in its value. -/
def Expr.KeepsApart (watched : Event → Bool) : Expr → Prop
  | .set owner _ value => Apart watched (owner.events .evaluation) (value.events .evaluation)
  | .setKey owner _ key value =>
    Apart watched (owner.events .evaluation ++ key.events .evaluation) (value.events .evaluation)
  | .setIndex owner position _ value =>
    Apart watched (owner.events .evaluation ++ position.events .evaluation)
      (value.events .evaluation)
  | _ => True

/-- In every assignment to a property or an element that stands in an expression, the events of a
kind are all in the target or all in the value. -/
inductive Aligned (watched : Event → Bool) : Expr → Prop
  | intro {e : Expr} : e.KeepsApart watched → (∀ part ∈ e.parts, Aligned watched part) →
      Aligned watched e

section Alignment

variable {watched : Event → Bool}

theorem Apart.filter_arrange {target value target' value' : List Event}
    (h : Apart watched target value) (htarget : target'.filter watched = target.filter watched)
    (hvalue : value'.filter watched = value.filter watched) :
    (Pass.arrange target' value' .resolution).filter watched =
      (Pass.arrange target value .evaluation).filter watched := by
  simp only [Pass.arrange, List.filter_append, htarget, hvalue]
  rcases h with hnone | hnone
  · rw [hnone, List.append_nil, List.nil_append]
  · rw [hnone, List.append_nil, List.nil_append]

theorem filter_eventsOf {es : List Expr}
    (h : ∀ e ∈ es, (e.events .resolution).filter watched = (e.events .evaluation).filter watched) :
    (eventsOf .resolution es).filter watched = (eventsOf .evaluation es).filter watched := by
  induction es with
  | nil => rfl
  | cons e rest ih =>
    obtain ⟨he, hrest⟩ := List.forall_mem_cons.mp h
    rw [eventsOf, eventsOf, List.filter_append, List.filter_append, he, ih hrest]

/-- Both passes list the events of a kind alike. -/
theorem Aligned.filter_events {e : Expr} (h : Aligned watched e) :
    (e.events .resolution).filter watched = (e.events .evaluation).filter watched := by
  induction h with
  | @intro e hapart _ ih =>
    cases e with
    | literal | var | thisRef | superRef => rfl
    | lambda name f => cases name <;> rfl
    | grouping e | unary _ _ e | get e _ => exact ih e (by simp [Expr.parts])
    | assign use e =>
      have he := ih e (by simp [Expr.parts])
      simp only [Expr.events, List.filter_append, he]
    | binary _ _ left right | logical _ left right =>
      have hleft := ih left (by simp [Expr.parts])
      have hright := ih right (by simp [Expr.parts])
      simp only [Expr.events, List.filter_append, hleft, hright]
    | getKey left _ right | index left right _ =>
      have hleft := ih left (by simp [Expr.parts])
      have hright := ih right (by simp [Expr.parts])
      simp only [Expr.events, List.filter_append, hleft, hright]
    | set owner _ value =>
      exact Apart.filter_arrange hapart (ih owner (by simp [Expr.parts]))
        (ih value (by simp [Expr.parts]))
    | setKey owner _ key value | setIndex owner key _ value =>
      have howner := ih owner (by simp [Expr.parts])
      have hkey := ih key (by simp [Expr.parts])
      refine Apart.filter_arrange hapart ?_ (ih value (by simp [Expr.parts]))
      rw [List.filter_append, List.filter_append, howner, hkey]
    | call callee arguments _ =>
      have hcallee := ih callee (by simp [Expr.parts])
      have harguments := filter_eventsOf fun e he => ih e (List.mem_cons_of_mem _ he)
      simp only [Expr.events, List.filter_append, hcallee, harguments]
    | object fields =>
      simp only [Expr.events, fieldEvents_eq]
      exact filter_eventsOf ih
    | list elements => exact filter_eventsOf ih

end Alignment

end Lox
