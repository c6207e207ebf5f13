import Lox.Machine.Step
import Lox.Proofs.Evaluation.Causes

/-!
# What a step can do

A step either is a **turn**, which changes only what the machine looks at, or **fails** without
having changed anything, or is one of the few kinds that change the heap, the scope, the number of
active calls or the console, or that end a statement of the program. `Transition` lists them all,
with their guards, so that a fact about every step needs one case for each kind of step
(`transition_step`), and a fact about two machines compares their transitions
(`Transition.eq_step`).
-/

namespace Lox

/-! ## What several steps share -/

/-- A value that can be called is called with arguments, for a continuation. -/
inductive Control.Calls (heap : Heap) : Control → Value → List Value → Span → ValueCont → Prop
  | callee {v paren k arity} (harity : heap.arity? v = some arity) :
      Calls heap (.give v (.callee [] paren k)) v [] paren k
  | argument {last v before paren k} :
      Calls heap (.give last (.argument v before [] paren k)) v (last :: before).reverse paren k

/-- A property of a value is read, for a continuation. -/
inductive Control.Reads (heap : Heap) : Control → Value → Text → Span → ValueCont → Prop
  | get {owner name k} : Reads heap (.give owner (.get name k)) owner name.name name.span k
  | getKey {v owner paren k} :
      Reads heap (.give v (.getKey owner paren k)) owner (v.printed heap) paren k

/-- A property of a value is to be written, once its new value is known. -/
inductive Control.Writes (heap : Heap) : Control → Value → Text → Span → Expr → ValueCont → Prop
  | set {owner name e k} :
      Writes heap (.give owner (.setObject name e k)) owner name.name name.span e k
  | setKey {v owner paren e k} :
      Writes heap (.give v (.setKey owner paren e k)) owner (v.printed heap) paren e k

/-- A method of the superclass is asked for, with the receiver to bind. -/
inductive Control.Supers (scope : ScopeId) (heap : Heap) : Control → ClassId → InstanceId → Ident →
    ValueCont → Prop
  | intro {keyword method slot k superclass receiver}
      (hsuper : heap.superOf scope (slot.getD 0) = .ok (superclass, receiver)) :
      Supers scope heap (.eval (.superRef keyword method slot) k) superclass receiver method k

/-- All properties of an object that is written out are known. -/
inductive Control.Gathers : Control → Entries Value → ValueCont → Prop
  | none {k} : Gathers (.eval (.object []) k) [] k
  | last {v before key k} : Gathers (.give v (.field before key [] k)) (before.put key v) k

/-- All elements of a list that is written out are known, last to first. -/
inductive Control.Lists : Control → List Value → ValueCont → Prop
  | none {k} : Lists (.eval (.list []) k) [] k
  | last {v before k} : Lists (.give v (.element before [] k)) (v :: before) k

/-- A call of a value does nothing. -/
def Value.Idles : Value → Prop
  | .closure _ | .classRef _ | .native (.builtin _) => False
  | _ => True

/-! ## Turns -/

section Turn

variable (scope : ScopeId) (heap : Heap)

/-- A step that changes only what the machine looks at. -/
inductive Turn : Control → Control → Prop
  -- an expression gives a value, or its first part is looked at
  | literal {l k} : Turn (.eval (.literal l) k) (.give (.ofLiteral l) k)
  | function {f k} : Turn (.eval (.lambda none f) k) (.give (.closure ⟨f, scope⟩) k)
  | var {use k v} (h : heap.lookup scope (use.depth.getD 0) use.ident.name = .ok v) :
      Turn (.eval (.var use) k) (.give v k)
  | thisRef {keyword slot k v} (h : heap.lookup scope (slot.getD 0) thisName = .ok v) :
      Turn (.eval (.thisRef keyword slot) k) (.give v k)
  | grouping {e k} : Turn (.eval (.grouping e) k) (.eval e k)
  | unary {op blame e k} : Turn (.eval (.unary op blame e) k) (.eval e (.unary op blame k))
  | binary {op blame e right k} :
      Turn (.eval (.binary op blame e right) k) (.eval e (.binaryLeft op blame right k))
  | logical {op e right k} : Turn (.eval (.logical op e right) k) (.eval e (.logical op right k))
  | assign {use e k} : Turn (.eval (.assign use e) k) (.eval e (.assign use k))
  | call {e arguments paren k} :
      Turn (.eval (.call e arguments paren) k) (.eval e (.callee arguments paren k))
  | get {e name k} : Turn (.eval (.get e name) k) (.eval e (.get name k))
  | getKey {e paren key k} :
      Turn (.eval (.getKey e paren key) k) (.eval e (.getKeyObject paren key k))
  | index {e position blame k} :
      Turn (.eval (.index e position blame) k) (.eval e (.indexObject position blame k))
  | set {e name value k} : Turn (.eval (.set e name value) k) (.eval e (.setObject name value k))
  | setKey {e paren key value k} :
      Turn (.eval (.setKey e paren key value) k) (.eval e (.setKeyObject paren key value k))
  | setIndex {e position blame value k} :
      Turn (.eval (.setIndex e position blame value) k)
        (.eval e (.setIndexObject position blame value k))
  | object {key e rest k} :
      Turn (.eval (.object (.mk key e :: rest)) k) (.eval e (.field [] key rest k))
  | list {e rest k} : Turn (.eval (.list (e :: rest)) k) (.eval e (.element [] rest k))
  -- a value is operated on, or the next part is looked at
  | unaryGiven {op blame k v result} (h : op.apply v = .ok result) :
      Turn (.give v (.unary op blame k)) (.give result k)
  | binaryLeft {op blame right k v} :
      Turn (.give v (.binaryLeft op blame right k)) (.eval right (.binaryRight op blame v k))
  | binaryGiven {op blame left k v result} (h : op.apply left v = .ok result) :
      Turn (.give v (.binaryRight op blame left k)) (.give result k)
  | settled {op right k v} (h : op.settledBy v = true) :
      Turn (.give v (.logical op right k)) (.give v k)
  | unsettled {op right k v} (h : op.settledBy v = false) :
      Turn (.give v (.logical op right k)) (.eval right k)
  | callee {v e rest paren k arity} (h : heap.arity? v = some arity) :
      Turn (.give v (.callee (e :: rest) paren k)) (.eval e (.argument v [] rest paren k))
  | argument {v callee before e rest paren k} :
      Turn (.give v (.argument callee before (e :: rest) paren k))
        (.eval e (.argument callee (v :: before) rest paren k))
  | constructed {v id k} : Turn (.give v (.construct id k)) (.give (.object id) k)
  | getKeyObject {v paren key k} :
      Turn (.give v (.getKeyObject paren key k)) (.eval key (.getKey v paren k))
  | indexObject {v position blame k} :
      Turn (.give v (.indexObject position blame k)) (.eval position (.index v blame k))
  | item {v owner blame k result} (h : heap.item owner v = .ok result) :
      Turn (.give v (.index owner blame k)) (.give result k)
  | writes {c id name blame e k} (h : c.Writes heap (.object id) name blame e k) :
      Turn c (.eval e (.setField id name k))
  | setKeyObject {v paren key value k} :
      Turn (.give v (.setKeyObject paren key value k)) (.eval key (.setKey v paren value k))
  | setIndexObject {v position blame value k} :
      Turn (.give v (.setIndexObject position blame value k))
        (.eval position (.setIndex v blame value k))
  | assignable {v owner blame value k id} (h : Heap.assignableList owner = .ok id) :
      Turn (.give v (.setIndex owner blame value k)) (.eval value (.setElement id v blame k))
  | field {v before key next e rest k} :
      Turn (.give v (.field before key (.mk next e :: rest) k))
        (.eval e (.field (before.put key v) next rest k))
  | element {v before e rest k} :
      Turn (.give v (.element before (e :: rest) k)) (.eval e (.element (v :: before) rest k))
  | discard {v k} : Turn (.give v (.discard k)) (.finish .normal k)
  | chosen {v thenBranch elseBranch k} :
      Turn (.give v (.branch thenBranch elseBranch k))
        (runBranch (if v.isTrue then thenBranch else elseBranch) k)
  | loopTrue {v loop k} (h : v.isTrue = true) :
      Turn (.give v (.loopTest loop k)) (.exec loop.body (.loopBody loop k))
  | loopFalse {v loop k} (h : v.isTrue = false) :
      Turn (.give v (.loopTest loop k)) (.finish .normal k)
  | loopCloser {v loop k} : Turn (.give v (.loopCloser loop k)) (runLoop loop k)
  | retGiven {v keyword k} : Turn (.give v (.ret keyword k)) (.finish (.returned keyword v) k)
  -- a statement jumps, or its first part is looked at
  | evaluate {e k} : Turn (.exec (.evaluate e) k) (.eval e (.discard k))
  | print {e k} : Turn (.exec (.print e) k) (.eval e (.print k))
  | declare {mutable name e k} :
      Turn (.exec (.declare mutable name (some e)) k) (.eval e (.declare mutable name.name k))
  | branch {e thenBranch elseBranch k} :
      Turn (.exec (.branch e thenBranch elseBranch) k) (.eval e (.branch thenBranch elseBranch k))
  | loop {condition body closer k} :
      Turn (.exec (.loop condition body closer) k) (runLoop ⟨condition, body, closer⟩ k)
  | ret {keyword e k} : Turn (.exec (.ret keyword (some e)) k) (.eval e (.ret keyword k))
  | retNil {keyword k} : Turn (.exec (.ret keyword none) k) (.finish (.returned keyword .nil) k)
  | brk {keyword k} : Turn (.exec (.brk keyword) k) (.finish (.broke keyword) k)
  | cont {keyword k} : Turn (.exec (.cont keyword) k) (.finish (.continued keyword) k)
  -- a signal is taken, or goes on outwards
  | statements {rest k} : Turn (.finish .normal (.statements rest k)) (runBody rest k)
  | skipped {signal rest k} (h : signal ≠ .normal) :
      Turn (.finish signal (.statements rest k)) (.finish signal k)
  | loopNormal {loop k} : Turn (.finish .normal (.loopBody loop k)) (closeLoop loop k)
  | loopContinued {keyword loop k} :
      Turn (.finish (.continued keyword) (.loopBody loop k)) (closeLoop loop k)
  | loopBroke {keyword loop k} :
      Turn (.finish (.broke keyword) (.loopBody loop k)) (.finish .normal k)
  | loopReturned {keyword v loop k} :
      Turn (.finish (.returned keyword v) (.loopBody loop k)) (.finish (.returned keyword v) k)

end Turn

/-! ## Failures -/

section Fails

variable (limit : Nat) (scope : ScopeId) (depth : Nat) (heap : Heap)

/-- A step that fails without having changed anything. -/
inductive Fails : Control → Stop → Prop
  | var {use k fault} (h : heap.lookup scope (use.depth.getD 0) use.ident.name = .error fault) :
      Fails (.eval (.var use) k) (.fault fault)
  | thisRef {keyword slot k fault} (h : heap.lookup scope (slot.getD 0) thisName = .error fault) :
      Fails (.eval (.thisRef keyword slot) k) (.fault fault)
  | superRef {keyword method slot k fault} (h : heap.superOf scope (slot.getD 0) = .error fault) :
      Fails (.eval (.superRef keyword method slot) k) (.fault fault)
  | superMethod {c superclass receiver method k}
      (h : c.Supers scope heap superclass receiver method k) (hname : method.name ≠ constructorName)
      (hmethod : heap.method? superclass method.name = none) : Fails c
      (.blame (.undefinedProperty method.name) method.span)
  | superclass {name use methods k fault}
      (h : heap.lookup scope (use.depth.getD 0) use.ident.name = .error fault) :
      Fails (.exec (.classDecl name (some use) methods) k) (.fault fault)
  | notAClass {name use methods k v}
      (h : heap.lookup scope (use.depth.getD 0) use.ident.name = .ok v)
      (hv : ∀ id, v ≠ .classRef id) : Fails (.exec (.classDecl name (some use) methods) k)
      (.blame (.superclass v.kind) use.ident.span)
  | unary {op blame k v problem} (h : op.apply v = .error problem) :
      Fails (.give v (.unary op blame k)) (.blame problem blame)
  | binary {op blame left k v problem} (h : op.apply left v = .error problem) :
      Fails (.give v (.binaryRight op blame left k)) (.blame problem blame)
  | item {owner blame k v problem} (h : heap.item owner v = .error problem) :
      Fails (.give v (.index owner blame k)) (.blame problem blame)
  | target {use k v stop} (h : heap.target scope (use.depth.getD 0) use.ident = .error stop) :
      Fails (.give v (.assign use k)) stop
  | callee {v arguments paren k} (h : heap.arity? v = none) :
      Fails (.give v (.callee arguments paren k)) (.blame (.callee v.kind) paren)
  | tooMany {c callee arguments paren k} (h : c.Calls heap callee arguments paren k)
      (hlt : (heap.arity? callee).getD 0 < arguments.length) :
      Fails c (.blame (.tooManyArguments ((heap.arity? callee).getD 0) arguments.length) paren)
  | notEnough {c callee arguments paren k} (h : c.Calls heap callee arguments paren k)
      (hlt : arguments.length < (heap.arity? callee).getD 0) :
      Fails c (.blame (.notEnoughArguments ((heap.arity? callee).getD 0) arguments.length) paren)
  | callDepth {c callee arguments paren k} (h : c.Calls heap callee arguments paren k)
      (harity : arguments.length = (heap.arity? callee).getD 0) (hle : limit ≤ depth) : Fails c
      (.blame .callDepth paren)
  | undefined {c id name blame k} (h : c.Reads heap (.object id) name blame k)
      (hnone : heap.property? id name = none) : Fails c (.blame (.undefinedProperty name) blame)
  | notReadable {c owner name blame k} (h : c.Reads heap owner name blame k)
      (howner : ∀ id, owner ≠ .object id) : Fails c (.blame (.noProperties owner.kind) blame)
  | notWritable {c owner name blame e k} (h : c.Writes heap owner name blame e k)
      (howner : ∀ id, owner ≠ .object id) : Fails c (.blame (.noProperties owner.kind) blame)
  | notAssignable {v owner blame value k problem} (h : Heap.assignableList owner = .error problem) :
      Fails (.give v (.setIndex owner blame value k)) (.blame problem blame)
  | position {v id position blame k problem}
      (h : positionOf position (heap.elements id).size = .error problem) : Fails
      (.give v (.setElement id position blame k)) (.blame problem blame)
  | broke {keyword caller k} :
      Fails (.finish (.broke keyword) (.functionBody caller k)) (.blame .breakOutsideLoop keyword)
  | continued {keyword caller k} :
      Fails (.finish (.continued keyword) (.functionBody caller k))
        (.blame .continueOutsideLoop keyword)

end Fails

/-- What a failure where the machine looks comes from. -/
def Control.cause : Control → Cause
  | .give _ (.assign _ _) => .assignment
  | .give _ (.index _ _ _) | .give _ (.setIndex _ _ _ _) | .give _ (.setElement _ _ _ _) =>
    .subscript
  | .finish _ _ => .signal
  | _ => .other

/-- The problem of a step that fails comes from what the machine looks at. -/
theorem Fails.cause_eq {limit depth : Nat} {scope : ScopeId} {heap : Heap} {c : Control}
    {problem : RuntimeProblem} {site : Span}
    (h : Fails limit scope depth heap c (.blame problem site)) : problem.cause = c.cause := by
  cases h with
  | unary happly => exact (yields_unary _ _).cause happly
  | binary happly => exact (yields_binary _ _ _).cause happly
  | item hitem => exact cause_item hitem
  | notAssignable hlist => exact cause_assignableList hlist
  | position hposition => exact cause_positionOf hposition
  | target htarget =>
    simp only [Heap.target] at htarget
    split at htarget
    · cases htarget
    · split at htarget <;> cases htarget
      rfl
  | superMethod hvia | tooMany hvia | notEnough hvia | callDepth hvia | undefined hvia
  | notReadable hvia | notWritable hvia => cases hvia <;> rfl
  | _ => rfl

/-! ## Transitions -/

section Transition

variable (limit : Nat) (scope : ScopeId) (depth : Nat) (heap : Heap) (console : Console)

/-- What a step leads to. -/
inductive Transition : Control → Next → Prop
  | turn {c c'} (h : Turn scope heap c c') :
      Transition c (.running ⟨c', scope, depth, heap, console⟩)
  | fails {c stop} (h : Fails limit scope depth heap c stop) :
      Transition c (.stopped stop heap console)
  | finished {signal} : Transition (.finish signal .done) (.finished signal heap console)
  -- names are bound
  | lambda {name f k} : Transition (.eval (.lambda (some name) f) k)
      (.running ⟨.give (.closure ⟨f, scope⟩) k, scope, depth,
        heap.define scope name.name false (.closure ⟨f, scope⟩), console⟩)
  | declareNil {mutable name k} :
      Transition (.exec (.declare mutable name none) k)
        (.running ⟨.finish .normal k, scope, depth,
          heap.define scope name.name mutable .nil, console⟩)
  | declare {v mutable name k} : Transition (.give v (.declare mutable name k))
      (.running ⟨.finish .normal k, scope, depth, heap.define scope name mutable v, console⟩)
  | assign {v use k outer} (h : heap.target scope (use.depth.getD 0) use.ident = .ok outer) :
      Transition (.give v (.assign use k))
        (.running ⟨.give v k, scope, depth, heap.define outer use.ident.name true v, console⟩)
  | classDecl {name methods k} :
      Transition (.exec (.classDecl name none methods) k)
        (.running ⟨.finish .normal k, scope, depth,
          defineClass name.name none methods scope scope heap, console⟩)
  | subclass {name use methods k id}
      (h : heap.lookup scope (use.depth.getD 0) use.ident.name = .ok (.classRef id)) :
      Transition (.exec (.classDecl name (some use) methods) k)
        (.running ⟨.finish .normal k, scope, depth,
          defineClass name.name (some id) methods
            (heap.fork scope [(superName, ⟨false, .classRef id⟩)]).1 scope
            (heap.fork scope [(superName, ⟨false, .classRef id⟩)]).2, console⟩)
  -- objects and lists are made, changed and looked into
  | object {c entries k} (h : c.Gathers entries k) :
      Transition c (.running ⟨.give (.object (heap.newInstance none entries).1) k, scope, depth,
        (heap.newInstance none entries).2, console⟩)
  | list {c elements k} (h : c.Lists elements k) :
      Transition c (.running ⟨.give (.list (heap.newList elements.reverse.toArray).1) k, scope,
        depth, (heap.newList elements.reverse.toArray).2, console⟩)
  | setField {v id name k} : Transition (.give v (.setField id name k))
      (.running ⟨.give v k, scope, depth, heap.setField id name v, console⟩)
  | setElement {v id position blame k i} (h : positionOf position (heap.elements id).size = .ok i) :
      Transition (.give v (.setElement id position blame k))
        (.running ⟨.give v k, scope, depth, heap.setElement id i v, console⟩)
  | property {c id name blame k p} (h : c.Reads heap (.object id) name blame k)
      (hp : heap.property? id name = some p) :
      Transition c
        (.running ⟨.give (heap.take id p).1 k, scope, depth, (heap.take id p).2, console⟩)
  | superMethod {c superclass receiver method k m}
      (h : c.Supers scope heap superclass receiver method k)
      (hm : (if method.name == constructorName then heap.constructor? superclass
        else heap.method? superclass method.name) = some m) :
      Transition c (.running ⟨.give (.closure (heap.bindMethod receiver m).1) k, scope, depth,
        (heap.bindMethod receiver m).2, console⟩)
  | superIdle {c superclass receiver method k}
      (h : c.Supers scope heap superclass receiver method k) (hname : method.name = constructorName)
      (hm : heap.constructor? superclass = none) :
      Transition c
        (.running ⟨.give (.native heap.newIdle.1) k, scope, depth, heap.newIdle.2, console⟩)
  -- calls are made
  | enter {c callee arguments paren k} (h : c.Calls heap (.closure callee) arguments paren k)
      (harity : arguments.length = callee.arity) (hlimit : depth < limit) :
      Transition c (enter callee arguments (.activation k) scope (depth + 1) heap console)
  | construct {c id arguments paren k constructor}
      (h : c.Calls heap (.classRef id) arguments paren k)
      (hconstructor : (heap.newInstance (some id) []).2.constructor? id = some constructor)
      (harity : arguments.length = (heap.arity? (.classRef id)).getD 0) (hlimit : depth < limit) :
      Transition c
        (enter
          ((heap.newInstance (some id) []).2.bindMethod (heap.newInstance (some id) []).1
            constructor).1
          arguments (.construct (heap.newInstance (some id) []).1 (.activation k)) scope (depth + 1)
          ((heap.newInstance (some id) []).2.bindMethod (heap.newInstance (some id) []).1
            constructor).2
          console)
  | instance {c id arguments paren k} (h : c.Calls heap (.classRef id) arguments paren k)
      (hconstructor : (heap.newInstance (some id) []).2.constructor? id = none)
      (harity : arguments.length = (heap.arity? (.classRef id)).getD 0) (hlimit : depth < limit) :
      Transition c (.running ⟨.give (.object (heap.newInstance (some id) []).1) k, scope, depth,
        (heap.newInstance (some id) []).2, console⟩)
  | native {c b arguments paren k v} (h : c.Calls heap (.native (.builtin b)) arguments paren k)
      (harity : arguments.length = b.arity) (hlimit : depth < limit)
      (hv : (b.call arguments paren heap console).result = .ok v) :
      Transition c (.running ⟨.give v k, scope, depth, (b.call arguments paren heap console).heap,
        (b.call arguments paren heap console).console⟩)
  | nativeFails {c b arguments paren k stop}
      (h : c.Calls heap (.native (.builtin b)) arguments paren k)
      (harity : arguments.length = b.arity) (hlimit : depth < limit)
      (hstop : (b.call arguments paren heap console).result = .error stop) :
      Transition c
        (.stopped stop (b.call arguments paren heap console).heap
          (b.call arguments paren heap console).console)
  | idle {c callee arguments paren k} (h : c.Calls heap callee arguments paren k)
      (hidle : callee.Idles) (harity : arguments.length = (heap.arity? callee).getD 0)
      (hlimit : depth < limit) : Transition c (.running ⟨.give .nil k, scope, depth, heap, console⟩)
  -- scopes are opened and left, calls return, a line is printed
  | block {body k} :
      Transition (.exec (.block body) k)
        (.running ⟨runBody body (.leave scope k), (heap.fork scope []).1, depth,
          (heap.fork scope []).2, console⟩)
  | leave {signal outer k} : Transition (.finish signal (.leave outer k))
      (.running ⟨.finish signal k, outer, depth, heap, console⟩)
  | bodyEnd {caller k} : Transition (.finish .normal (.functionBody caller k))
      (.running ⟨.give .nil k, caller, depth, heap, console⟩)
  | bodyReturn {keyword v caller k} :
      Transition (.finish (.returned keyword v) (.functionBody caller k))
        (.running ⟨.give v k, caller, depth, heap, console⟩)
  | activation {v k} :
      Transition (.give v (.activation k)) (.running ⟨.give v k, scope, depth - 1, heap, console⟩)
  | print {v k} : Transition (.give v (.print k))
      (.running ⟨.finish .normal k, scope, depth, heap, console.printLine (v.printed heap)⟩)

end Transition

section Steps

variable {limit : Nat} {scope : ScopeId} {depth : Nat} {heap : Heap} {console : Console}

/-! ## Every step is a transition -/

/-- A method of the superclass, its constructor, or a native in its place. -/
theorem transition_super {keyword : Span} {method : Ident} {slot : Option Nat}
    {superclass : ClassId} {receiver : InstanceId}
    (hsuper : heap.superOf scope (slot.getD 0) = .ok (superclass, receiver)) (next : ValueCont) :
    Transition limit scope depth heap console (.eval (.superRef keyword method slot) next)
      (getSuper superclass receiver method next scope depth heap console) := by
  have hs :
      (Control.eval (.superRef keyword method slot) next).Supers scope heap superclass receiver
        method next :=
    .intro hsuper
  unfold getSuper
  split
  · next hname =>
    split
    · next c hc => exact .superMethod hs (by rw [if_pos hname, hc])
    · next hc => exact .superIdle hs (beq_iff_eq.mp hname) hc
  · next hname =>
    split
    · next c hc => exact .superMethod hs (by rw [if_neg hname, hc])
    · next hm => exact .fails (.superMethod hs (fun heq => hname (beq_iff_eq.mpr heq)) hm)

/-- The first step into an expression, with a case for each kind. -/
theorem transition_stepExpr (e : Expr) (next : ValueCont) :
    Transition limit scope depth heap console (.eval e next)
      (stepExpr e next scope depth heap console) := by
  cases e with
  | var use =>
    simp only [stepExpr, readName]
    split
    · next h => exact .turn (.var h)
    · next h => exact .fails (.var h)
  | thisRef keyword slot =>
    simp only [stepExpr, readName]
    split
    · next h => exact .turn (.thisRef h)
    · next h => exact .fails (.thisRef h)
  | superRef keyword method slot =>
    simp only [stepExpr]
    split
    · next h => exact transition_super h next
    · next h => exact .fails (.superRef h)
  | lambda name f =>
    cases name with
    | none => exact .turn .function
    | some name => exact .lambda
  | object fields =>
    rcases fields with _ | ⟨⟨key, e⟩, rest⟩
    · exact .object .none
    · exact .turn .object
  | list elements =>
    cases elements with
    | nil => exact .list .none
    | cons e rest => exact .turn .list
  | _ => exact .turn (by constructor)

/-- The first step into a statement. -/
theorem transition_stepStmt (s : Stmt) (next : StmtCont) :
    Transition limit scope depth heap console (.exec s next)
      (stepStmt s next scope depth heap console) := by
  cases s with
  | declare mutable name init =>
    cases init with
    | none => exact .declareNil
    | some e => exact .turn .declare
  | block body => exact .block
  | ret keyword value =>
    cases value with
    | none => exact .turn .retNil
    | some e => exact .turn .ret
  | classDecl name superclass methods =>
    cases superclass with
    | none => exact .classDecl
    | some use =>
      simp only [stepStmt, runClass]
      split
      · next h => exact .fails (.superclass h)
      · next h => exact .subclass h
      · next hne h => exact .fails (.notAClass h fun id heq => hne id heq)
  | _ => exact .turn (by constructor)

/-- A call is refused, or entered, or answered. -/
theorem transition_call {c : Control} {callee : Value} {arguments : List Value} {paren : Span}
    {next : ValueCont} (h : c.Calls heap callee arguments paren next) :
    Transition limit scope depth heap console c
      (call limit callee arguments paren next scope depth heap console) := by
  unfold call
  dsimp only
  split
  · next hlt => exact .fails (.tooMany h hlt)
  split
  · next hlt => exact .fails (.notEnough h hlt)
  have harity : arguments.length = (heap.arity? callee).getD 0 := by omega
  split
  · next hle => exact .fails (.callDepth h harity hle)
  have hlimit : depth < limit := by omega
  cases callee with
  | closure callee => exact .enter h harity hlimit
  | classRef id =>
    simp only [invoke, construct]
    split
    · next hc => exact .instance h hc harity hlimit
    · next hc => exact .construct h hc harity hlimit
  | native native =>
    cases native with
    | idle => exact .idle h trivial harity hlimit
    | builtin b =>
      simp only [invoke]
      split
      · next hv => exact .native h harity hlimit hv
      · next hstop => exact .nativeFails h harity hlimit hstop
  | _ => exact .idle h trivial harity hlimit

/-- A property is found, or blamed. -/
theorem transition_getProperty {c : Control} {owner : Value} {name : Text} {blame : Span}
    {next : ValueCont} (h : c.Reads heap owner name blame next) :
    Transition limit scope depth heap console c
      (getProperty owner name blame next scope depth heap console) := by
  unfold getProperty
  split
  · split
    · next hp => exact .property h hp
    · next hp => exact .fails (.undefined h hp)
  · next howner => exact .fails (.notReadable h fun id heq => howner id heq)

theorem transition_setProperty {c : Control} {owner : Value} {name : Text} {blame : Span} {e : Expr}
    {next : ValueCont} (h : c.Writes heap owner name blame e next) :
    Transition limit scope depth heap console c
      (setProperty owner name blame e next scope depth heap console) := by
  unfold setProperty
  split
  · exact .turn (.writes h)
  · next howner => exact .fails (.notWritable h fun id heq => howner id heq)

theorem transition_giveResult {c : Control} {result : Except RuntimeProblem Value} {blame : Span}
    {next : ValueCont} (hok : ∀ v, result = .ok v → Turn scope heap c (.give v next))
    (herror : ∀ problem, result = .error problem →
      Fails limit scope depth heap c (.blame problem blame)) :
    Transition limit scope depth heap console c
      (giveResult result blame next scope depth heap console) := by
  cases result with
  | ok v => exact .turn (hok v rfl)
  | error problem => exact .fails (herror problem rfl)

/-- A value is given to what waits for it. -/
theorem transition_stepValue (v : Value) (next : ValueCont) :
    Transition limit scope depth heap console (.give v next)
      (stepValue limit v next scope depth heap console) := by
  cases next with
  | unary op blame next =>
    exact transition_giveResult (fun _ h => .unaryGiven h) fun _ h => .unary h
  | binaryRight op blame left next =>
    exact transition_giveResult (fun _ h => .binaryGiven h) fun _ h => .binary h
  | index owner blame next => exact transition_giveResult (fun _ h => .item h) fun _ h => .item h
  | logical op right next =>
    simp only [stepValue]
    split
    · next h => exact .turn (.settled h)
    · next h => exact .turn (.unsettled (Bool.eq_false_iff.mpr h))
  | assign use next =>
    simp only [stepValue]
    split
    · next h => exact .assign h
    · next h => exact .fails (.target h)
  | callee arguments paren next =>
    simp only [stepValue]
    split
    · next harity =>
      cases arguments with
      | nil => exact transition_call (.callee harity)
      | cons e rest => exact .turn (.callee harity)
    · next harity => exact .fails (.callee harity)
  | argument callee before rest paren next =>
    cases rest with
    | nil => exact transition_call .argument
    | cons e rest => exact .turn .argument
  | activation next => exact .activation
  | get name next => exact transition_getProperty .get
  | getKey owner paren next => exact transition_getProperty .getKey
  | setObject name e next => exact transition_setProperty .set
  | setKey owner paren e next => exact transition_setProperty .setKey
  | setField id name next => exact .setField
  | setIndex owner blame e next =>
    simp only [stepValue]
    split
    · next h => exact .turn (.assignable h)
    · next h => exact .fails (.notAssignable h)
  | setElement id position blame next =>
    simp only [stepValue]
    split
    · next h => exact .setElement h
    · next h => exact .fails (.position h)
  | field before key rest next =>
    rcases rest with _ | ⟨⟨key', e⟩, rest⟩
    · exact .object .last
    · exact .turn .field
  | element before rest next =>
    cases rest with
    | nil => exact .list .last
    | cons e rest => exact .turn .element
  | print next => exact .print
  | declare mutable name next => exact .declare
  | loopTest loop next =>
    simp only [stepValue]
    split
    · next h => exact .turn (.loopTrue h)
    · next h => exact .turn (.loopFalse (Bool.eq_false_iff.mpr h))
  | _ => exact .turn (by constructor)

/-- A statement has ended in front of what waits for it. -/
theorem transition_stepSignal (signal : Signal) (next : StmtCont) :
    Transition limit scope depth heap console (.finish signal next)
      (stepSignal signal next scope depth heap console) := by
  cases next with
  | done => exact .finished
  | statements rest next =>
    cases signal with
    | normal => exact .turn .statements
    | returned | broke | continued => exact .turn (.skipped Signal.noConfusion)
  | leave outer next => exact .leave
  | loopBody loop next =>
    cases signal with
    | normal => exact .turn .loopNormal
    | continued keyword => exact .turn .loopContinued
    | broke keyword => exact .turn .loopBroke
    | returned keyword v => exact .turn .loopReturned
  | functionBody caller next =>
    cases signal with
    | normal => exact .bodyEnd
    | returned keyword v => exact .bodyReturn
    | broke keyword => exact .fails .broke
    | continued keyword => exact .fails .continued

end Steps

/-- Every step is a transition. -/
theorem transition_step (limit : Nat) (s : State) :
    Transition limit s.scope s.depth s.heap s.console s.control (step limit s) := by
  obtain ⟨control, scope, depth, heap, console⟩ := s
  cases control with
  | eval e next => exact transition_stepExpr e next
  | exec s next => exact transition_stepStmt s next
  | give v next => exact transition_stepValue v next
  | finish signal next => exact transition_stepSignal signal next

/-! ## Every move is a step -/

section Converse

variable {limit : Nat} {scope : ScopeId} {depth : Nat} {heap : Heap} {console : Console}
    {c c' : Control}

/-- A turn is a step. -/
theorem Turn.step_eq (h : Turn scope heap c c') :
    step limit ⟨c, scope, depth, heap, console⟩ = .running ⟨c', scope, depth, heap, console⟩ := by
  cases h with
  | writes h => cases h <;> rfl
  | skipped h =>
    next signal rest k =>
    cases signal with
    | normal => exact absurd rfl h
    | _ => rfl
  | _ => first | rfl | simp only [step, stepExpr, stepValue, readName, giveResult, *] <;> rfl

theorem Control.Calls.step_eq {callee : Value} {arguments : List Value} {paren : Span}
    {next : ValueCont} (h : c.Calls heap callee arguments paren next) :
    step limit ⟨c, scope, depth, heap, console⟩ =
      call limit callee arguments paren next scope depth heap console := by
  cases h with
  | callee harity =>
    simp only [step, stepValue, harity]
    rfl
  | argument => rfl

/-- A call that is not refused is made. -/
theorem Control.Calls.step_eq_invoke {callee : Value} {arguments : List Value} {paren : Span}
    {next : ValueCont} (h : c.Calls heap callee arguments paren next)
    (harity : arguments.length = (heap.arity? callee).getD 0) (hlimit : depth < limit) :
    step limit ⟨c, scope, depth, heap, console⟩ =
      invoke callee arguments paren next scope depth heap console := by
  rw [h.step_eq, call, if_neg (by omega), if_neg (by omega), if_neg (by omega)]

/-- A failure is a step that stops. -/
theorem Fails.step_eq {stop : Stop} (h : Fails limit scope depth heap c stop) :
    step limit ⟨c, scope, depth, heap, console⟩ = .stopped stop heap console := by
  cases h with
  | tooMany h hlt => rw [h.step_eq, call, if_pos hlt]
  | notEnough h hlt => rw [h.step_eq, call, if_neg (by omega), if_pos hlt]
  | callDepth h harity hle => rw [h.step_eq, call, if_neg (by omega), if_neg (by omega), if_pos hle]
  | undefined h hnone => cases h <;> simp only [step, stepValue, getProperty, hnone]
  | @notReadable _ owner _ _ _ h howner =>
    cases h <;> cases owner <;> first | rfl | exact absurd rfl (howner _)
  | @notWritable _ owner _ _ _ _ h howner =>
    cases h <;> cases owner <;> first | rfl | exact absurd rfl (howner _)
  | superMethod h hname hmethod =>
    cases h with
    | intro hsuper =>
      simp only [step, stepExpr, getSuper, hsuper, hmethod, beq_eq_false_iff_ne.mpr hname]; rfl
  | @notAClass _ _ _ _ v h hv =>
    cases v <;> first
      | exact absurd rfl (hv _)
      | simp only [step, stepStmt, runClass, h]
  | broke | continued => rfl
  | _ => simp only [step, stepExpr, stepStmt, stepValue, runClass, readName, giveResult, *]

/-- A transition is the step of a state. -/
theorem Transition.eq_step {next : Next} (h : Transition limit scope depth heap console c next) :
    next = step limit ⟨c, scope, depth, heap, console⟩ := by
  cases h with
  | turn h => exact h.step_eq.symm
  | fails h => exact h.step_eq.symm
  | assign h | subclass h | setElement h => simp only [step, stepStmt, stepValue, runClass, h]
  | object h | list h => cases h <;> rfl
  | property h hp => cases h <;> simp only [step, stepValue, getProperty, hp]
  | superMethod h hm =>
    cases h with
    | intro hsuper =>
      simp only [step, stepExpr, getSuper, hsuper]
      split
      · next hname =>
        rw [if_pos hname] at hm
        simp only [hm]
      · next hname =>
        rw [if_neg hname] at hm
        simp only [hm]
  | superIdle h hname hm =>
    cases h with
    | intro hsuper => simp only [step, stepExpr, getSuper, hsuper, hname, hm, BEq.rfl, if_true]
  | enter h harity hlimit => exact (h.step_eq_invoke harity hlimit).symm
  | construct h hconstructor harity hlimit | «instance» h hconstructor harity hlimit =>
    simp only [h.step_eq_invoke harity hlimit, invoke, Lox.construct, hconstructor]
  | native h harity hlimit hv | nativeFails h harity hlimit hv =>
    simp only [h.step_eq_invoke harity hlimit, invoke, hv]
  | @idle _ callee _ _ _ h hidle harity hlimit =>
    rw [h.step_eq_invoke harity hlimit]
    cases callee with
    | native n =>
      cases n with
      | builtin => cases hidle
      | idle => rfl
    | closure | classRef => cases hidle
    | _ => rfl
  | _ => rfl

end Converse

end Lox
