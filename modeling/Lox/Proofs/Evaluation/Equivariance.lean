import Lox.Machine.Run
import Lox.Proofs.Evaluation.Operations
import Lox.Proofs.Evaluation.Runs

/-!
# Evaluation does not see through a disguise

A step of the machine from a state in a disguise leads to what the step from the state leads to, in
the disguise (`step_dress`), if the disguise keeps the name of a class that the step declares. So a
program in a disguise runs as the program does: it prints the same, ends in the same way, and leaves
the heap in the disguise (`runProgram_dress`). A relabelling is such a disguise, whatever the
program declares (`runProgram_mark`).
-/

namespace Lox

/-! ## States in a guise -/

section Definitions

variable (g : Guise)

/-- A signal in a guise. -/
def Signal.dress : Signal → Signal
  | .normal => .normal
  | .returned keyword v => .returned (g.span keyword) (v.dress g)
  | .broke keyword => .broke (g.span keyword)
  | .continued keyword => .continued (g.span keyword)

/-- The parts of a loop in a guise. -/
def Loop.dress (loop : Loop) : Loop :=
  ⟨dressExpr? g loop.condition, loop.body.dress g, dressExpr? g loop.closer⟩

mutual

/-- What remains to be done with a value, in a guise. -/
def ValueCont.dress : ValueCont → ValueCont
  | .unary op blame next => .unary op (g.span blame) next.dress
  | .binaryLeft op blame right next => .binaryLeft op (g.span blame) (right.dress g) next.dress
  | .binaryRight op blame left next => .binaryRight op (g.span blame) (left.dress g) next.dress
  | .logical op right next => .logical op (right.dress g) next.dress
  | .assign use next => .assign (use.dress g) next.dress
  | .callee arguments paren next => .callee (dressExprs g arguments) (g.span paren) next.dress
  | .argument callee before rest paren next =>
    .argument (callee.dress g) (before.map (Value.dress g)) (dressExprs g rest)
      (g.span paren) next.dress
  | .activation next => .activation next.dress
  | .construct id next => .construct id next.dress
  | .get name next => .get (name.mark g.toMarks) next.dress
  | .getKeyObject paren key next => .getKeyObject (g.span paren) (key.dress g) next.dress
  | .getKey owner paren next => .getKey (owner.dress g) (g.span paren) next.dress
  | .indexObject index blame next => .indexObject (index.dress g) (g.subscript blame) next.dress
  | .index owner blame next => .index (owner.dress g) (g.subscript blame) next.dress
  | .setObject name value next => .setObject (name.mark g.toMarks) (value.dress g) next.dress
  | .setKeyObject paren key value next =>
    .setKeyObject (g.span paren) (key.dress g) (value.dress g) next.dress
  | .setKey owner paren value next =>
    .setKey (owner.dress g) (g.span paren) (value.dress g) next.dress
  | .setField id name next => .setField id name next.dress
  | .setIndexObject index blame value next =>
    .setIndexObject (index.dress g) (g.subscript blame) (value.dress g) next.dress
  | .setIndex owner blame value next =>
    .setIndex (owner.dress g) (g.subscript blame) (value.dress g) next.dress
  | .setElement id index blame next => .setElement id (index.dress g) (g.subscript blame) next.dress
  | .field before key rest next =>
    .field (before.mapValues (Value.dress g)) key (dressFields g rest) next.dress
  | .element before rest next =>
    .element (before.map (Value.dress g)) (dressExprs g rest) next.dress
  | .discard next => .discard next.dress
  | .print next => .print next.dress
  | .declare mutable name next => .declare mutable (g.name name) next.dress
  | .branch thenBranch elseBranch next =>
    .branch (dressStmt? g thenBranch) (dressStmt? g elseBranch) next.dress
  | .loopTest loop next => .loopTest (loop.dress g) next.dress
  | .loopCloser loop next => .loopCloser (loop.dress g) next.dress
  | .ret keyword next => .ret (g.span keyword) next.dress

/-- What remains to be done after a statement, in a guise. -/
def StmtCont.dress : StmtCont → StmtCont
  | .done => .done
  | .statements rest next => .statements (dressStmts g rest) next.dress
  | .leave scope next => .leave scope next.dress
  | .loopBody loop next => .loopBody (loop.dress g) next.dress
  | .functionBody caller next => .functionBody caller next.dress

end

/-- What the machine is looking at, in a guise. -/
def Control.dress : Control → Control
  | .eval e next => .eval (e.dress g) (next.dress g)
  | .exec s next => .exec (s.dress g) (next.dress g)
  | .give v next => .give (v.dress g) (next.dress g)
  | .finish signal next => .finish (signal.dress g) (next.dress g)

/-- A state in a guise. -/
def State.dress (s : State) : State :=
  { s with control := s.control.dress g, heap := s.heap.dress g }

end Definitions

/-- What a step leads to, in a guise. -/
def Next.dress (g : Guise) : Next → Next
  | .running s => .running (s.dress g)
  | .finished signal heap console => .finished (signal.dress g) (heap.dress g) console
  | .stopped stop heap console => .stopped (stop.dress g) (heap.dress g) console

@[simp] theorem Function.params_dress (g : Guise) (f : Function) :
    (f.dress g).params = f.params.map (Ident.dress g) := by
  cases f
  rfl

@[simp] theorem Function.body_dress (g : Guise) (f : Function) :
    (f.dress g).body = dressStmts g f.body := by
  cases f
  rfl

/-! ## Calls -/

/-- A body is entered in its guise. -/
theorem runBody_dress (g : Guise) (body : List Stmt) (next : StmtCont) :
    runBody (dressStmts g body) (next.dress g) = (runBody body next).dress g := by
  cases body <;> rfl

/-- Parameters are bound under their other names. -/
theorem argumentBindings_dress (d : Disguise) (params : List Ident) (arguments : List Value) :
    argumentBindings (params.map (Ident.dress d)) (arguments.map (Value.dress d)) =
      (argumentBindings params arguments).dress (Binding.dress d) d := by
  suffices hfold : ∀ (pairs : List (Ident × Value)) (bindings : Entries Binding),
      (pairs.map fun pair => (pair.1.dress d, pair.2.dress d)).foldl
        (fun bindings pair => bindings.put pair.1.name ⟨true, pair.2⟩)
          (bindings.dress (Binding.dress d) d) =
      (pairs.foldl (fun bindings pair => bindings.put pair.1.name ⟨true, pair.2⟩) bindings).dress
        (Binding.dress d) d by
    have hpairs := hfold (params.zip arguments) []
    simp only [argumentBindings, List.zip_map]
    exact hpairs
  intro pairs
  induction pairs with
  | nil => exact fun _ => rfl
  | cons pair pairs ih =>
    intro bindings
    simp only [List.map_cons, List.foldl_cons]
    rw [← ih, ← Entries.put_dress _ d.lawful]
    rfl

section Calls

variable (d : Disguise) (scope : ScopeId) (depth : Nat) (h : Heap) (console : Console)

/-- A value takes as many arguments in its guise. -/
theorem Heap.arity?_dress (g : Guise) (v : Value) :
    (h.dress g).arity? (v.dress g) = h.arity? v := by
  cases v with
  | closure c => simp [Heap.arity?, Closure.arity, Closure.dress]
  | classRef id =>
    simp only [Heap.arity?, Value.dress_classRef, Heap.constructor?_dress]
    cases h.constructor? id with
    | none => rfl
    | some c => simp [Closure.arity, Closure.dress]
  | _ => rfl

/-- A new instance of a class has no properties. -/
theorem Heap.newInstance_dress_bare (id : ClassId) :
    (h.dress (d : Guise)).newInstance (some id) [] =
    ((h.newInstance (some id) []).1, (h.newInstance (some id) []).2.dress d) :=
  Heap.newInstance_dress d h (some id) []

/-- A call opens a scope of other names. -/
theorem enter_dress (c : Closure) (arguments : List Value) (next : ValueCont) :
    enter (c.dress d) (arguments.map (Value.dress d)) (next.dress d) scope depth
      (h.dress d) console =
      (enter c arguments next scope depth h console).dress d := by
  have hbody := runBody_dress d c.function.body (.functionBody scope next)
  simp only [enter, Closure.dress, Function.params_dress, Function.body_dress,
    argumentBindings_dress, Heap.fork_dress]
  exact congrArg (fun control => Next.running ⟨control, _, depth, _, console⟩) hbody

/-- What a native stops with blames the call and no name, so that marks are all that a guise
changes. -/
theorem Stop.dress_native {b : Builtin} {arguments : List Value} {paren : Span} {stop : Stop}
    (hstop : (b.call arguments paren h console).result = .error stop) :
    stop.dress d = stop.mark d.toMarks := by
  rcases b.blames_call arguments stop hstop with ⟨problem, rfl, hcause⟩ | rfl
  · exact Stop.dress_other d (by rw [hcause]; exact Cause.noConfusion)
      (by rw [hcause]; exact Cause.noConfusion) paren
  · rfl

/-- The superclass is found where it was found. -/
theorem Heap.superOf_dress (distance : Nat) :
    (h.dress d).superOf scope distance = (h.superOf scope distance).mapError (Fault.dress d) := by
  have hsuper := h.lookup_dress d scope distance superName
  have hthis := h.lookup_dress d scope (distance - 1) thisName
  rw [d.lawful.superclass] at hsuper
  rw [d.lawful.receiver] at hthis
  simp only [Heap.superOf, hsuper, hthis]
  cases h.lookup scope distance superName with
  | error fault => rfl
  | ok v =>
    cases v with
    | classRef superclass =>
      cases h.lookup scope (distance - 1) thisName with
      | error fault => rfl
      | ok u => cases u <;> rfl
    | _ => rfl

end Calls

/-! ## Statements -/

section Statements

variable (d : Disguise) (scope : ScopeId) (depth : Nat) (h : Heap) (console : Console)
    (next : StmtCont)

/-- A loop is begun in its guise. -/
theorem runLoop_dress (g : Guise) (loop : Loop) :
    runLoop (loop.dress g) (next.dress g) = (runLoop loop next).dress g := by
  obtain ⟨condition, body, closer⟩ := loop
  cases condition <;> rfl

theorem closeLoop_dress (g : Guise) (loop : Loop) :
    closeLoop (loop.dress g) (next.dress g) = (closeLoop loop next).dress g := by
  obtain ⟨condition, body, closer⟩ := loop
  cases closer with
  | some closer => rfl
  | none => exact runLoop_dress next g ⟨condition, body, none⟩

theorem runBranch_dress (g : Guise) (branch : Option Stmt) :
    runBranch (dressStmt? g branch) (next.dress g) = (runBranch branch next).dress g := by
  cases branch <;> rfl

/-- Methods keep their names. -/
theorem methodEntries_dress (g : Guise) (methods : List Method) :
    methodEntries scope (dressMethods g methods) =
      (methodEntries scope methods).mapValues (Closure.dress g) := by
  unfold methodEntries
  -- The entries so far are what the induction goes through.
  refine (?_ : ∀ entries : Entries Closure,
    (dressMethods g methods).foldl _ (entries.mapValues (Closure.dress g)) =
    (methods.foldl _ entries).mapValues (Closure.dress g)) []
  induction methods with
  | nil => exact fun _ => rfl
  | cons method methods ih =>
    obtain ⟨name, f⟩ := method
    intro entries
    have hname : (name.mark g.toMarks).name = name.name := rfl
    simp only [dressMethods, List.foldl_cons, hname]
    split
    · exact ih entries
    · rw [← ih, ← Entries.put_mapValues]
      rfl

/-- So does the constructor. -/
theorem constructorOf_dress (g : Guise) (methods : List Method) :
    constructorOf scope (dressMethods g methods) =
      (constructorOf scope methods).map (Closure.dress g) := by
  unfold constructorOf
  refine (?_ : ∀ found : Option Closure,
    (dressMethods g methods).foldl _ (found.map (Closure.dress g)) =
    (methods.foldl _ found).map (Closure.dress g)) none
  induction methods with
  | nil => exact fun _ => rfl
  | cons method methods ih =>
    obtain ⟨name, f⟩ := method
    intro found
    have hname : (name.mark g.toMarks).name = name.name := rfl
    simp only [dressMethods, List.foldl_cons, hname]
    split
    · exact ih (some ⟨f, scope⟩)
    · exact ih found

/-- A class is defined in its guise, if its name is kept. -/
theorem defineClass_dress {name : Text} (hname : d.name name = name) (superclass : Option ClassId)
    (methods : List Method) (inner : ScopeId) :
    defineClass name superclass (dressMethods d methods) inner scope (h.dress d) =
      (defineClass name superclass methods inner scope h).dress d := by
  have hclass :=
    Heap.newClass_dress d h ⟨name, superclass, methodEntries inner methods,
      constructorOf inner methods⟩
  simp only [ClassDef.dress, ← methodEntries_dress, ← constructorOf_dress] at hclass
  have hdefine := fun heap : Heap => fun id => heap.define_dress d scope name false (.classRef id)
  rw [hname] at hdefine
  simp only [defineClass, hclass]
  exact hdefine _ _

/-- A guise keeps the name of a class that a statement declares. -/
def Stmt.KeepsClass (g : Guise) : Stmt → Prop
  | .classDecl name _ _ => g.name name.name = name.name
  | _ => True

end Statements

/-! ## Transitions -/

section Transitions

variable {d : Disguise} {limit depth : Nat} {scope : ScopeId} {h : Heap} {console : Console}
    {c : Control}

/-- A call is a call in every guise. -/
theorem Control.Calls.dress {callee : Value} {arguments : List Value} {paren : Span} {k : ValueCont}
    (hcalls : c.Calls h callee arguments paren k) :
    (c.dress d).Calls (h.dress d) (callee.dress d) (arguments.map (Value.dress d)) (d.span paren)
      (k.dress d) := by
  cases hcalls with
  | callee harity => exact .callee ((Heap.arity?_dress h d callee).trans harity)
  | argument =>
    rw [List.map_reverse]
    exact .argument

/-- So is the reading of a property. -/
theorem Control.Reads.dress {owner : Value} {name : Text} {blame : Span} {k : ValueCont}
    (hreads : c.Reads h owner name blame k) :
    (c.dress d).Reads (h.dress d) (owner.dress d) name (d.span blame) (k.dress d) := by
  cases hreads with
  | get => exact .get
  | @getKey v =>
    rw [← Value.printed_dress d h v]
    exact .getKey

theorem Control.Writes.dress {owner : Value} {name : Text} {blame : Span} {e : Expr} {k : ValueCont}
    (hwrites : c.Writes h owner name blame e k) :
    (c.dress d).Writes (h.dress d) (owner.dress d) name (d.span blame) (e.dress d) (k.dress d) := by
  cases hwrites with
  | set => exact .set
  | @setKey v =>
    rw [← Value.printed_dress d h v]
    exact .setKey

/-- So is the use of the superclass. -/
theorem Control.Supers.dress {superclass : ClassId} {receiver : InstanceId} {method : Ident}
    {k : ValueCont} (hsupers : c.Supers scope h superclass receiver method k) :
    (c.dress d).Supers scope (h.dress d) superclass receiver (method.mark d.toMarks)
      (k.dress d) := by
  cases hsupers with
  | intro hsuper =>
    refine .intro ?_
    rw [Heap.superOf_dress, hsuper]
    rfl

theorem Control.Gathers.dress {entries : Entries Value} {k : ValueCont}
    (hgathers : c.Gathers entries k) :
    (c.dress d).Gathers (entries.mapValues (Value.dress d)) (k.dress d) := by
  cases hgathers with
  | none => exact .none
  | last =>
    rw [← Entries.put_mapValues]
    exact .last

theorem Control.Lists.dress {elements : List Value} {k : ValueCont} (hlists : c.Lists elements k) :
    (c.dress d).Lists (elements.map (Value.dress d)) (k.dress d) := by
  cases hlists with
  | none => exact .none
  | last => exact .last

theorem Heap.lookup_dress_ok {distance : Nat} {name : Text} {v : Value}
    (hv : h.lookup scope distance name = .ok v) :
    (h.dress d).lookup scope distance (d.name name) = .ok (v.dress d) := by
  rw [Heap.lookup_dress, hv]
  rfl

theorem Heap.lookup_dress_error {distance : Nat} {name : Text} {fault : Fault}
    (hfault : h.lookup scope distance name = .error fault) :
    (h.dress d).lookup scope distance (d.name name) = .error (fault.dress d) := by
  rw [Heap.lookup_dress, hfault]
  rfl

/-- A turn is one in a disguise as well. -/
theorem Turn.dress {c' : Control} (hturn : Turn scope h c c') :
    Turn scope (h.dress d) (c.dress d) (c'.dress d) := by
  cases hturn with
  | literal =>
    rw [Control.dress, Control.dress, Value.ofLiteral_dress]
    exact .literal
  | var hv => exact .var (Heap.lookup_dress_ok hv)
  | thisRef hv =>
    have hthis := Heap.lookup_dress_ok (d := d) hv
    rw [d.lawful.receiver] at hthis
    exact .thisRef hthis
  | unaryGiven happly => exact .unaryGiven (by rw [UnaryOp.apply_dress, happly]; rfl)
  | binaryGiven happly => exact .binaryGiven (by rw [BinaryOp.apply_dress, happly]; rfl)
  | settled hsettled => exact .settled (by rw [LogicalOp.settledBy_dress, hsettled])
  | unsettled hsettled => exact .unsettled (by rw [LogicalOp.settledBy_dress, hsettled])
  | callee harity => exact .callee ((Heap.arity?_dress h d _).trans harity)
  | item hitem => exact .item (by rw [Heap.item_dress, hitem]; rfl)
  | writes hwrites => exact .writes hwrites.dress
  | assignable hlist => exact .assignable (by rw [Heap.assignableList_dress, hlist])
  | field =>
    simp only [Control.dress, ValueCont.dress, ← Entries.put_mapValues]
    exact .field
  | @chosen v thenBranch elseBranch k =>
    have hchosen : dressStmt? d (if v.isTrue then thenBranch else elseBranch) =
        if (v.dress d).isTrue then dressStmt? d thenBranch else dressStmt? d elseBranch := by
      rw [Value.isTrue_dress]
      split <;> rfl
    rw [← runBranch_dress, hchosen]
    exact .chosen
  | loopTrue htrue => exact .loopTrue (by rw [Value.isTrue_dress, htrue])
  | loopFalse hfalse => exact .loopFalse (by rw [Value.isTrue_dress, hfalse])
  | loopCloser =>
    rw [← runLoop_dress]
    exact .loopCloser
  | loop =>
    rw [← runLoop_dress]
    exact .loop
  | statements =>
    rw [← runBody_dress]
    exact .statements
  | @skipped signal _ _ hsignal =>
    refine .skipped fun heq => hsignal ?_
    cases signal <;> first | rfl | cases heq
  | loopNormal =>
    rw [← closeLoop_dress]
    exact .loopNormal
  | loopContinued =>
    rw [← closeLoop_dress]
    exact .loopContinued
  | _ => constructor

/-- A failure is one in a disguise as well. -/
theorem Fails.dress {stop : Stop} (hfails : Fails limit scope depth h c stop) :
    Fails limit scope depth (h.dress d) (c.dress d) (stop.dress d) := by
  cases hfails with
  | var hfault => exact .var (Heap.lookup_dress_error hfault)
  | thisRef hfault =>
    have hthis := Heap.lookup_dress_error (d := d) hfault
    rw [d.lawful.receiver] at hthis
    exact .thisRef hthis
  | superRef hfault => exact .superRef (by rw [Heap.superOf_dress, hfault]; rfl)
  | superMethod hsupers hname hmethod =>
    exact .superMethod hsupers.dress hname
      ((Heap.method?_dress ..).trans (congrArg (Option.map _) hmethod))
  | superclass hfault => exact .superclass (Heap.lookup_dress_error hfault)
  | @notAClass _ _ _ _ v hv hne =>
    rw [← Value.kind_dress d v]
    refine .notAClass (Heap.lookup_dress_ok hv) fun id heq => ?_
    cases v <;> first | exact hne id heq | cases heq
  | @unary _ blame _ _ _ happly =>
    have hcause := (yields_unary _ _).cause happly
    rw [Stop.dress_other d (hcause ▸ Cause.noConfusion) (hcause ▸ Cause.noConfusion) blame]
    exact .unary (by rw [UnaryOp.apply_dress, happly]; rfl)
  | @binary _ blame _ _ _ _ happly =>
    have hcause := (yields_binary _ _ _).cause happly
    rw [Stop.dress_other d (hcause ▸ Cause.noConfusion) (hcause ▸ Cause.noConfusion) blame]
    exact .binary (by rw [BinaryOp.apply_dress, happly]; rfl)
  | item hitem =>
    rw [Stop.dress_subscript d (cause_item hitem)]
    exact .item (by rw [Heap.item_dress, hitem]; rfl)
  | target htarget => exact .target ((Heap.target_dress ..).trans (congrArg _ htarget))
  | @callee v _ _ _ harity =>
    rw [← Value.kind_dress d v]
    exact .callee ((Heap.arity?_dress h d v).trans harity)
  | @tooMany _ callee arguments _ _ hcalls hlt =>
    rw [← Heap.arity?_dress h d callee, ← List.length_map (Value.dress d)] at hlt ⊢
    exact .tooMany hcalls.dress hlt
  | @notEnough _ callee arguments _ _ hcalls hlt =>
    rw [← Heap.arity?_dress h d callee, ← List.length_map (Value.dress d)] at hlt ⊢
    exact .notEnough hcalls.dress hlt
  | @callDepth _ callee _ _ _ hcalls harity hle =>
    rw [← Heap.arity?_dress h d callee, ← List.length_map (Value.dress d)] at harity
    exact .callDepth hcalls.dress harity hle
  | undefined hreads hnone =>
    exact .undefined hreads.dress (by rw [Heap.property?_dress, hnone]; rfl)
  | @notReadable _ owner _ _ _ hreads howner =>
    rw [← Value.kind_dress d owner]
    refine .notReadable hreads.dress fun id heq => ?_
    cases owner <;> first | exact howner id heq | cases heq
  | @notWritable _ owner _ _ _ _ hwrites howner =>
    rw [← Value.kind_dress d owner]
    refine .notWritable hwrites.dress fun id heq => ?_
    cases owner <;> first | exact howner id heq | cases heq
  | notAssignable hlist =>
    rw [Stop.dress_subscript d (cause_assignableList hlist)]
    exact .notAssignable (by rw [Heap.assignableList_dress, hlist])
  | position hposition =>
    rw [Stop.dress_subscript d (cause_positionOf hposition)]
    refine .position ?_
    rw [positionOf_dress, Heap.elements_dress, Array.size_map, hposition]
  | broke => exact .broke
  | continued => exact .continued

/-- A transition is one in a disguise as well, if the disguise keeps the name of a class that it
declares. -/
theorem Transition.dress {next : Next} (htrans : Transition limit scope depth h console c next)
    (hkeeps : ∀ s k, c = .exec s k → s.KeepsClass d) :
    Transition limit scope depth (h.dress d) console (c.dress d) (next.dress d) := by
  cases htrans with
  | turn hturn => exact .turn hturn.dress
  | fails hfails => exact .fails hfails.dress
  | finished => exact .finished
  | lambda =>
    simp only [Next.dress, State.dress, ← Heap.define_dress]
    exact .lambda
  | declareNil =>
    simp only [Next.dress, State.dress, ← Heap.define_dress]
    exact .declareNil
  | declare =>
    simp only [Next.dress, State.dress, ← Heap.define_dress]
    exact .declare
  | assign htarget =>
    simp only [Next.dress, State.dress, ← Heap.define_dress]
    exact .assign ((Heap.target_dress ..).trans (congrArg _ htarget))
  | @classDecl name methods k =>
    have hname : d.name name.name = name.name := hkeeps _ k rfl
    simp only [Next.dress, State.dress, ← defineClass_dress d scope h hname]
    rw [← hname]
    exact .classDecl
  | @subclass name use methods k id hlookup =>
    have hname : d.name name.name = name.name := hkeeps _ k rfl
    have hfork := Heap.fork_dress d h scope [(superName, ⟨false, .classRef id⟩)]
    simp only [Entries.dress, List.map_singleton, d.lawful.superclass] at hfork
    have hbinding : Binding.dress d ⟨false, .classRef id⟩ = ⟨false, .classRef id⟩ := rfl
    rw [hbinding] at hfork
    have hsubclass :
        Transition limit scope depth (h.dress d) console
          (.exec (.classDecl (name.dress d) (some (use.dress d)) (dressMethods d methods))
            (k.dress d)) _ := .subclass (Heap.lookup_dress_ok hlookup)
    have hdressed : (name.dress (d : Guise)).name = name.name := hname
    simp only [hfork, hdressed, defineClass_dress d scope _ hname] at hsubclass
    exact hsubclass
  | object hgathers =>
    have hobject : Transition limit scope depth (h.dress d) console (c.dress d) _ :=
      .object hgathers.dress
    rw [Heap.newInstance_dress] at hobject
    exact hobject
  | list hlists =>
    have hlist : Transition limit scope depth (h.dress d) console (c.dress d) _ :=
      .list hlists.dress
    rw [← List.map_reverse, ← List.map_toArray, Heap.newList_dress] at hlist
    exact hlist
  | setField =>
    simp only [Next.dress, State.dress, ← Heap.setField_dress]
    exact .setField
  | setElement hposition =>
    simp only [Next.dress, State.dress, ← Heap.setElement_dress]
    refine .setElement ?_
    rw [positionOf_dress, Heap.elements_dress, Array.size_map, hposition]
  | @property _ id _ _ _ p hreads hp =>
    have hproperty : Transition limit scope depth (h.dress d) console (c.dress d) _ :=
      .property hreads.dress ((Heap.property?_dress ..).trans (congrArg (Option.map _) hp))
    rw [Heap.take_dress] at hproperty
    exact hproperty
  | @superMethod _ superclass receiver method _ m hsupers hm =>
    have hmethod :
      (if (method.mark d.toMarks).name == constructorName then (h.dress d).constructor? superclass
        else (h.dress d).method? superclass (method.mark d.toMarks).name) = some (m.dress d) := by
      rw [Heap.constructor?_dress, Heap.method?_dress, ← apply_ite]
      exact congrArg (Option.map _) hm
    have hbound : Transition limit scope depth (h.dress d) console (c.dress d) _ :=
      .superMethod hsupers.dress hmethod
    rw [Heap.bindMethod_dress] at hbound
    exact hbound
  | superIdle hsupers hname hm =>
    exact .superIdle hsupers.dress hname (by rw [Heap.constructor?_dress, hm]; rfl)
  | @enter _ callee _ _ k hcalls harity hlimit =>
    have hlength := (List.length_map (Value.dress d)).trans harity
    rw [← enter_dress]
    refine .enter hcalls.dress (hlength.trans ?_) hlimit
    simp [Closure.arity, Closure.dress]
  | @construct _ id _ _ k constructor hcalls hconstructor harity hlimit =>
    have hlength := (List.length_map (Value.dress d)).trans harity
    rw [← Heap.arity?_dress h d] at hlength
    have hmade := h.newInstance_dress_bare d id
    have hfound : ((h.dress (d : Guise)).newInstance (some id) []).2.constructor? id =
        some (constructor.dress d) := by
      rw [hmade, Heap.constructor?_dress, hconstructor]
      rfl
    have hconstruct : Transition limit scope depth (h.dress d) console (c.dress d) _ :=
      .construct hcalls.dress hfound hlength hlimit
    simp only [hmade, Heap.bindMethod_dress] at hconstruct
    rw [← enter_dress]
    exact hconstruct
  | @«instance» _ id _ _ k hcalls hconstructor harity hlimit =>
    have hlength := (List.length_map (Value.dress d)).trans harity
    rw [← Heap.arity?_dress h d] at hlength
    have hmade := h.newInstance_dress_bare d id
    have hnone : ((h.dress (d : Guise)).newInstance (some id) []).2.constructor? id = none := by
      rw [hmade, Heap.constructor?_dress, hconstructor]
      rfl
    have hinstance : Transition limit scope depth (h.dress d) console (c.dress d) _ :=
      .instance hcalls.dress hnone hlength hlimit
    rw [hmade] at hinstance
    exact hinstance
  | @native _ b arguments paren k v hcalls harity hlimit hv =>
    have hlength := (List.length_map (Value.dress d)).trans harity
    have hcall := Builtin.call_dress d h paren console b arguments
    have hnative : Transition limit scope depth (h.dress d) console (c.dress d) _ :=
      .native (v := v.dress d) hcalls.dress hlength hlimit
        (by rw [hcall, Builtin.Answer.dress, hv]; rfl)
    rw [hcall] at hnative
    exact hnative
  | @nativeFails _ b arguments paren k stop hcalls harity hlimit hstop =>
    have hlength := (List.length_map (Value.dress d)).trans harity
    have hcall := Builtin.call_dress d h paren console b arguments
    rw [Next.dress, Stop.dress_native d h console hstop]
    have hnative : Transition limit scope depth (h.dress d) console (c.dress d) _ :=
      .nativeFails hcalls.dress hlength hlimit (by rw [hcall, Builtin.Answer.dress, hstop]; rfl)
    rw [hcall] at hnative
    exact hnative
  | @idle _ callee _ _ _ hcalls hidle harity hlimit =>
    have hlength := (List.length_map (Value.dress d)).trans harity
    rw [← Heap.arity?_dress h d] at hlength
    exact .idle hcalls.dress (by cases callee <;> exact hidle) hlength hlimit
  | @block body k =>
    have hfork : (h.dress (d : Guise)).fork scope [] =
        ((h.fork scope []).1, (h.fork scope []).2.dress d) :=
      Heap.fork_dress d h scope []
    have hblock :
        Transition limit scope depth (h.dress d) console
          (.exec (.block (dressStmts d body)) (k.dress d)) _ := .block
    have hbody := runBody_dress d body (.leave scope k)
    rw [hfork] at hblock
    simp only [Next.dress, State.dress, ← hbody]
    exact hblock
  | print =>
    simp only [Next.dress, State.dress, ← Value.printed_dress d h]
    exact .print
  | _ => constructor

end Transitions

/-! ## Steps and runs -/

/-- A guise keeps the name of a class that a state declares. -/
def State.KeepsClass (g : Guise) (s : State) : Prop :=
  ∀ stmt next, s.control = .exec stmt next → stmt.KeepsClass g

/-- How a program ended, in a guise. -/
def Outcome.dress (g : Guise) : Outcome → Outcome
  | .completed => .completed
  | .stopped stop => .stopped (stop.dress g)
  | .exhausted => .exhausted

/-- What a program left behind, in a guise. -/
def Ended.dress (g : Guise) (ended : Ended) : Ended :=
  ⟨ended.outcome.dress g, ended.heap.dress g, ended.console⟩

section Runs

variable (d : Disguise) {limit budget : Nat}

/-- A step from a state in a disguise leads to what the step from the state leads to, in the
disguise. -/
theorem step_dress {s : State} (hs : s.KeepsClass d) :
    step limit (s.dress d) = (step limit s).dress d :=
  ((transition_step limit s).dress hs).eq_step.symm

/-- A run in a disguise, if no step declares a class that would be renamed. -/
theorem runFor_dress {s : State}
    (hs : ∀ n < budget, ∀ s', runFor limit n s = .running s' → s'.KeepsClass d) :
    runFor limit budget (s.dress d) = (runFor limit budget s).dress d := by
  induction budget generalizing s with
  | zero => rfl
  | succ budget ih =>
    have hstep : step limit (s.dress d) = (step limit s).dress d :=
      step_dress d (hs 0 budget.succ_pos s rfl)
    simp only [runFor, hstep]
    cases hnext : step limit s with
    | running s' =>
      refine ih fun n hn s'' hs'' => hs (n + 1) (Nat.succ_lt_succ hn) s'' ?_
      simpa only [runFor, hnext] using hs''
    | finished | stopped => rfl

/-- How a statement ends is seen through the guise. -/
theorem Next.ended_dress (next : Next) : (next.dress d).ended = next.ended.dress d := by
  cases next with
  | running | stopped => rfl
  | finished signal heap console => cases signal <;> rfl

/-- A program in a disguise runs as the program does. -/
theorem runProgram_dress {program : List Stmt} {h : Heap} {console : Console}
    (hs : ∀ s, Passes limit budget program h console s → s.KeepsClass d) :
    runProgram limit budget (dressStmts d program) (h.dress d) console =
      (runProgram limit budget program h console).dress d := by
  induction program generalizing h console with
  | nil => rfl
  | cons s rest ih =>
    have hfirst : runFor limit budget ((State.ofStmt s h console).dress d) =
        (runFor limit budget (.ofStmt s h console)).dress d :=
      runFor_dress d fun n hn s' hs' => hs s' (.here hn hs')
    have hrun : runStmt limit budget (s.dress d) (h.dress d) console =
        (runStmt limit budget s h console).dress d := by
      rw [runStmt, runStmt, ← Next.ended_dress, ← hfirst]
      rfl
    simp only [dressStmts, runProgram, hrun]
    cases hstmt : runStmt limit budget s h console with
    | mk outcome h' console' =>
      cases outcome with
      | completed => exact ih fun s' hs' => hs s' (.later hstmt hs')
      | stopped | exhausted => rfl

end Runs

/-! ## Relabellings -/

section Relabelling

variable (r : Relabelling)

/-- How a program ended, with other marks. -/
def Outcome.mark : Outcome → Outcome
  | .completed => .completed
  | .stopped stop => .stopped (stop.mark r)
  | .exhausted => .exhausted

/-- What a program left behind, with other marks. -/
def Ended.mark (ended : Ended) : Ended := ⟨ended.outcome.mark r, ended.heap.mark r, ended.console⟩

theorem Ended.mark_eq_dress (ended : Ended) : ended.mark r = ended.dress r.disguise := by
  have houtcome : ended.outcome.mark r = ended.outcome.dress r.disguise := by
    cases ended.outcome with
    | stopped stop => exact congrArg Outcome.stopped (stop.mark_eq_dress r)
    | completed | exhausted => rfl
  rw [mark, dress, houtcome, Heap.mark_eq_dress]
  rfl

/-- A relabelled program runs as the program does. -/
theorem runProgram_mark (limit budget : Nat) (program : List Stmt) (h : Heap) (console : Console) :
    runProgram limit budget (markStmts r program) (h.mark r) console =
      (runProgram limit budget program h console).mark r := by
  rw [markStmts_eq_dressStmts, Heap.mark_eq_dress, Ended.mark_eq_dress]
  refine runProgram_dress r.disguise fun s _ stmt _ _ => ?_
  cases stmt <;> trivial

end Relabelling

end Lox
