import Lox.Builtin
import Lox.Heap.Index
import Lox.Machine
import Lox.Value.Operation

/-!
# Steps

A step of the machine looks at one expression, statement, value or signal. It evaluates nothing
inside it: it says what to look at next and what remains afterwards. So a step always ends, and the
order of evaluation can be read off the continuations.

The parts of a call are taken in this order: the callee, whether it can be called, the arguments,
whether their number is right, whether one more call may be active. An assignment to a property
takes the object, its key, whether the object has properties, and then the value; one to an element
takes the object, the index, whether the object is a list, the value, and then whether the index is
right.
-/

namespace Lox

/-! ## Calls -/

/-- The number of arguments that a value takes when it is called, if it can be called. -/
def Heap.arity? (h : Heap) : Value → Option Nat
  | .closure c => some c.arity
  | .native n => some n.arity
  | .classRef id => some (((h.constructor? id).map Closure.arity).getD 0)
  | _ => none

/-- The bindings of parameters to arguments. -/
def argumentBindings (params : List Ident) (arguments : List Value) : Entries Binding :=
  (params.zip arguments).foldl (fun bindings (p, v) => bindings.put p.name ⟨true, v⟩) []

/-- Goes on with a list of statements. -/
def runBody (body : List Stmt) (next : StmtCont) : Control :=
  match body with
  | [] => .finish .normal next
  | s :: rest => .exec s (.statements rest next)

/-- Starts the body of a function in a new scope. -/
def enter (c : Closure) (arguments : List Value) (next : ValueCont) (scope : ScopeId) (depth : Nat)
    (heap : Heap) (console : Console) : Next :=
  let (inner, heap) := heap.fork c.scope (argumentBindings c.function.params arguments)
  .running ⟨runBody c.function.body (.functionBody scope next), inner, depth, heap, console⟩

/-- Makes an instance and starts the constructor of its class. -/
def construct (id : ClassId) (arguments : List Value) (next : ValueCont) (scope : ScopeId)
    (depth : Nat) (heap : Heap) (console : Console) : Next :=
  let (made, heap) := heap.newInstance (some id) []
  match heap.constructor? id with
  | none => .running ⟨.give (.object made) next, scope, depth, heap, console⟩
  | some c =>
    let (bound, heap) := heap.bindMethod made c
    enter bound arguments (.construct made (.activation next)) scope (depth + 1) heap console

/-- Calls a value that can be called, with as many arguments as it takes. -/
def invoke (callee : Value) (arguments : List Value) (paren : Span) (next : ValueCont)
    (scope : ScopeId) (depth : Nat) (heap : Heap) (console : Console) : Next :=
  match callee with
  | .closure c => enter c arguments (.activation next) scope (depth + 1) heap console
  | .classRef id => construct id arguments next scope depth heap console
  | .native (.builtin b) =>
    let answer := b.call arguments paren heap console
    match answer.result with
    | .ok v => .running ⟨.give v next, scope, depth, answer.heap, answer.console⟩
    | .error stop => .stopped stop answer.heap answer.console
  | _ => .running ⟨.give .nil next, scope, depth, heap, console⟩

/-- Calls a value with arguments, given the most calls that may be active. -/
def call (limit : Nat) (callee : Value) (arguments : List Value) (paren : Span) (next : ValueCont)
    (scope : ScopeId) (depth : Nat) (heap : Heap) (console : Console) : Next :=
  let expected := (heap.arity? callee).getD 0
  if expected < arguments.length then
    .stopped (.blame (.tooManyArguments expected arguments.length) paren) heap console
  else if arguments.length < expected then
    .stopped (.blame (.notEnoughArguments expected arguments.length) paren) heap console
  else if limit ≤ depth then .stopped (.blame .callDepth paren) heap console
  else invoke callee arguments paren next scope depth heap console

/-! ## Properties -/

/-- Gives the property of a value, blaming a span if it has none. -/
def getProperty (object : Value) (name : Text) (blame : Span) (next : ValueCont) (scope : ScopeId)
    (depth : Nat) (heap : Heap) (console : Console) : Next :=
  match object with
  | .object id =>
    match heap.property? id name with
    | some property =>
      let (v, heap) := heap.take id property
      .running ⟨.give v next, scope, depth, heap, console⟩
    | none => .stopped (.blame (.undefinedProperty name) blame) heap console
  | v => .stopped (.blame (.noProperties v.kind) blame) heap console

/-- Goes on to the value that a property is to get. -/
def setProperty (object : Value) (name : Text) (blame : Span) (value : Expr) (next : ValueCont)
    (scope : ScopeId) (depth : Nat) (heap : Heap) (console : Console) : Next :=
  match object with
  | .object id => .running ⟨.eval value (.setField id name next), scope, depth, heap, console⟩
  | v => .stopped (.blame (.noProperties v.kind) blame) heap console

/-! ## The superclass -/

/-- The superclass and the receiver that `super` means in a scope. -/
def Heap.superOf (h : Heap) (scope : ScopeId) (distance : Nat) :
    Except Fault (ClassId × InstanceId) :=
  match h.lookup scope distance superName with
  | .error fault => .error fault
  | .ok (.classRef superclass) =>
    match h.lookup scope (distance - 1) thisName with
    | .error fault => .error fault
    | .ok (.object receiver) => .ok (superclass, receiver)
    | .ok _ => .error .notAnInstance
  | .ok _ => .error .notAClass

/-- Gives a method of a superclass with the receiver bound. The constructor is the superclass's own;
one that it does not declare does nothing. -/
def getSuper (superclass : ClassId) (receiver : InstanceId) (method : Ident) (next : ValueCont)
    (scope : ScopeId) (depth : Nat) (heap : Heap) (console : Console) : Next :=
  if method.name == constructorName then
    match heap.constructor? superclass with
    | some c =>
      let (bound, heap) := heap.bindMethod receiver c
      .running ⟨.give (.closure bound) next, scope, depth, heap, console⟩
    | none =>
      let (idle, heap) := heap.newIdle
      .running ⟨.give (.native idle) next, scope, depth, heap, console⟩
  else
    match heap.method? superclass method.name with
    | some c =>
      let (bound, heap) := heap.bindMethod receiver c
      .running ⟨.give (.closure bound) next, scope, depth, heap, console⟩
    | none => .stopped (.blame (.undefinedProperty method.name) method.span) heap console

/-! ## Expressions -/

/-- Goes on to the first of the elements that are left, or makes the list. -/
def runElements (before : List Value) (rest : List Expr) (next : ValueCont) (scope : ScopeId)
    (depth : Nat) (heap : Heap) (console : Console) : Next :=
  match rest with
  | e :: rest => .running ⟨.eval e (.element before rest next), scope, depth, heap, console⟩
  | [] =>
    let (id, heap) := heap.newList before.reverse.toArray
    .running ⟨.give (.list id) next, scope, depth, heap, console⟩

/-- Goes on to the first of the properties that are left, or makes the object. -/
def runFields (before : Entries Value) (rest : List Field) (next : ValueCont) (scope : ScopeId)
    (depth : Nat) (heap : Heap) (console : Console) : Next :=
  match rest with
  | .mk key e :: rest =>
    .running ⟨.eval e (.field before key rest next), scope, depth, heap, console⟩
  | [] =>
    let (id, heap) := heap.newInstance none before
    .running ⟨.give (.object id) next, scope, depth, heap, console⟩

/-- Goes on to the first of the arguments that are left, or calls. -/
def runArguments (limit : Nat) (callee : Value) (before : List Value) (rest : List Expr)
    (paren : Span) (next : ValueCont) (scope : ScopeId) (depth : Nat) (heap : Heap)
    (console : Console) : Next :=
  match rest with
  | e :: rest =>
    .running ⟨.eval e (.argument callee before rest paren next), scope, depth, heap, console⟩
  | [] => call limit callee before.reverse paren next scope depth heap console

/-- Makes a function of a literal, and binds its name if it has one. -/
def runLambda (name : Option Ident) (function : Function) (next : ValueCont) (scope : ScopeId)
    (depth : Nat) (heap : Heap) (console : Console) : Next :=
  let v := Value.closure ⟨function, scope⟩
  match name with
  | none => .running ⟨.give v next, scope, depth, heap, console⟩
  | some name => .running ⟨.give v next, scope, depth, heap.define scope name.name false v, console⟩

/-- Gives the value of a name. -/
def readName (depthSlot : Option Nat) (name : Text) (next : ValueCont) (scope : ScopeId)
    (depth : Nat) (heap : Heap) (console : Console) : Next :=
  match heap.lookup scope (depthSlot.getD 0) name with
  | .ok v => .running ⟨.give v next, scope, depth, heap, console⟩
  | .error fault => .stopped (.fault fault) heap console

/-- Looks at an expression. -/
def stepExpr (e : Expr) (next : ValueCont) (scope : ScopeId) (depth : Nat) (heap : Heap)
    (console : Console) : Next :=
  match e with
  | .literal l => .running ⟨.give (.ofLiteral l) next, scope, depth, heap, console⟩
  | .grouping inner => .running ⟨.eval inner next, scope, depth, heap, console⟩
  | .unary op blame operand =>
    .running ⟨.eval operand (.unary op blame next), scope, depth, heap, console⟩
  | .binary op blame left right =>
    .running ⟨.eval left (.binaryLeft op blame right next), scope, depth, heap, console⟩
  | .logical op left right =>
    .running ⟨.eval left (.logical op right next), scope, depth, heap, console⟩
  | .var use => readName use.depth use.ident.name next scope depth heap console
  | .assign use value => .running ⟨.eval value (.assign use next), scope, depth, heap, console⟩
  | .call callee arguments paren =>
    .running ⟨.eval callee (.callee arguments paren next), scope, depth, heap, console⟩
  | .lambda name function => runLambda name function next scope depth heap console
  | .get object name => .running ⟨.eval object (.get name next), scope, depth, heap, console⟩
  | .getKey object paren key =>
    .running ⟨.eval object (.getKeyObject paren key next), scope, depth, heap, console⟩
  | .index object index blame =>
    .running ⟨.eval object (.indexObject index blame next), scope, depth, heap, console⟩
  | .set object name value =>
    .running ⟨.eval object (.setObject name value next), scope, depth, heap, console⟩
  | .setKey object paren key value =>
    .running ⟨.eval object (.setKeyObject paren key value next), scope, depth, heap, console⟩
  | .setIndex object index blame value =>
    .running ⟨.eval object (.setIndexObject index blame value next), scope, depth, heap, console⟩
  | .thisRef _ slot => readName slot thisName next scope depth heap console
  | .superRef _ method slot =>
    match heap.superOf scope (slot.getD 0) with
    | .ok (superclass, receiver) =>
      getSuper superclass receiver method next scope depth heap console
    | .error fault => .stopped (.fault fault) heap console
  | .object fields => runFields [] fields next scope depth heap console
  | .list elements => runElements [] elements next scope depth heap console

/-! ## Statements -/

/-- Starts a turn of a loop. -/
def runLoop (loop : Loop) (next : StmtCont) : Control :=
  match loop.condition with
  | some condition => .eval condition (.loopTest loop next)
  | none => .exec loop.body (.loopBody loop next)

/-- Ends a turn of a loop. -/
def closeLoop (loop : Loop) (next : StmtCont) : Control :=
  match loop.closer with
  | some closer => .eval closer (.loopCloser loop next)
  | none => runLoop loop next

/-- Goes on with a statement that may be absent. -/
def runBranch (branch : Option Stmt) (next : StmtCont) : Control :=
  match branch with
  | some s => .exec s next
  | none => .finish .normal next

/-- The methods of a class in a scope, without its constructors. The last of two with one name
counts. -/
def methodEntries (scope : ScopeId) (methods : List Method) : Entries Closure :=
  methods.foldl (fun entries (.mk name function) =>
    if name.name == constructorName then entries else entries.put name.name ⟨function, scope⟩) []

/-- The constructor of a class in a scope. The last of several counts. -/
def constructorOf (scope : ScopeId) (methods : List Method) : Option Closure :=
  methods.foldl (fun found (.mk name function) =>
    if name.name == constructorName then some ⟨function, scope⟩ else found) none

/-- Makes a class with its methods in a scope, and binds its name in another. -/
def defineClass (name : Text) (superclass : Option ClassId) (methods : List Method)
    (inner scope : ScopeId) (heap : Heap) : Heap :=
  let (id, heap) :=
    heap.newClass ⟨name, superclass, methodEntries inner methods, constructorOf inner methods⟩
  heap.define scope name false (.classRef id)

/-- Declares a class. The methods of one with a superclass are in a scope that knows it. -/
def runClass (name : Ident) (superclass : Option NameUse) (methods : List Method) (next : StmtCont)
    (scope : ScopeId) (depth : Nat) (heap : Heap) (console : Console) : Next :=
  match superclass with
  | none =>
    .running ⟨.finish .normal next, scope, depth,
      defineClass name.name none methods scope scope heap, console⟩
  | some use =>
    match heap.lookup scope (use.depth.getD 0) use.ident.name with
    | .error fault => .stopped (.fault fault) heap console
    | .ok (.classRef id) =>
      let (inner, heap) := heap.fork scope [(superName, ⟨false, .classRef id⟩)]
      .running ⟨.finish .normal next, scope, depth,
        defineClass name.name (some id) methods inner scope heap, console⟩
    | .ok v => .stopped (.blame (.superclass v.kind) use.ident.span) heap console

/-- Looks at a statement. -/
def stepStmt (s : Stmt) (next : StmtCont) (scope : ScopeId) (depth : Nat) (heap : Heap)
    (console : Console) : Next :=
  match s with
  | .evaluate e => .running ⟨.eval e (.discard next), scope, depth, heap, console⟩
  | .print e => .running ⟨.eval e (.print next), scope, depth, heap, console⟩
  | .declare mutable name (some init) =>
    .running ⟨.eval init (.declare mutable name.name next), scope, depth, heap, console⟩
  | .declare mutable name none =>
    .running ⟨.finish .normal next, scope, depth, heap.define scope name.name mutable .nil, console⟩
  | .block body =>
    let (inner, heap) := heap.fork scope []
    .running ⟨runBody body (.leave scope next), inner, depth, heap, console⟩
  | .branch condition thenBranch elseBranch =>
    .running ⟨.eval condition (.branch thenBranch elseBranch next), scope, depth, heap, console⟩
  | .loop condition body closer =>
    .running ⟨runLoop ⟨condition, body, closer⟩ next, scope, depth, heap, console⟩
  | .ret keyword (some e) => .running ⟨.eval e (.ret keyword next), scope, depth, heap, console⟩
  | .ret keyword none =>
    .running ⟨.finish (.returned keyword .nil) next, scope, depth, heap, console⟩
  | .brk keyword => .running ⟨.finish (.broke keyword) next, scope, depth, heap, console⟩
  | .cont keyword => .running ⟨.finish (.continued keyword) next, scope, depth, heap, console⟩
  | .classDecl name superclass methods =>
    runClass name superclass methods next scope depth heap console

/-! ## Values and signals -/

/-- Gives the result of an operation, or blames a span for its problem. -/
def giveResult (result : Except RuntimeProblem Value) (blame : Span) (next : ValueCont)
    (scope : ScopeId) (depth : Nat) (heap : Heap) (console : Console) : Next :=
  match result with
  | .ok v => .running ⟨.give v next, scope, depth, heap, console⟩
  | .error problem => .stopped (.blame problem blame) heap console

/-- Goes on with the value of an expression. -/
def stepValue (limit : Nat) (v : Value) (next : ValueCont) (scope : ScopeId) (depth : Nat)
    (heap : Heap) (console : Console) : Next :=
  match next with
  | .unary op blame next => giveResult (op.apply v) blame next scope depth heap console
  | .binaryLeft op blame right next =>
    .running ⟨.eval right (.binaryRight op blame v next), scope, depth, heap, console⟩
  | .binaryRight op blame left next =>
    giveResult (op.apply left v) blame next scope depth heap console
  | .logical op right next =>
    if op.settledBy v then .running ⟨.give v next, scope, depth, heap, console⟩
    else .running ⟨.eval right next, scope, depth, heap, console⟩
  | .assign use next =>
    match heap.target scope (use.depth.getD 0) use.ident with
    | .ok outer =>
      .running ⟨.give v next, scope, depth, heap.define outer use.ident.name true v, console⟩
    | .error stop => .stopped stop heap console
  | .callee arguments paren next =>
    match heap.arity? v with
    | some _ => runArguments limit v [] arguments paren next scope depth heap console
    | none => .stopped (.blame (.callee v.kind) paren) heap console
  | .argument callee before rest paren next =>
    runArguments limit callee (v :: before) rest paren next scope depth heap console
  | .activation next => .running ⟨.give v next, scope, depth - 1, heap, console⟩
  | .construct id next => .running ⟨.give (.object id) next, scope, depth, heap, console⟩
  | .get name next => getProperty v name.name name.span next scope depth heap console
  | .getKeyObject paren key next =>
    .running ⟨.eval key (.getKey v paren next), scope, depth, heap, console⟩
  | .getKey object paren next =>
    getProperty object (v.printed heap) paren next scope depth heap console
  | .indexObject index blame next =>
    .running ⟨.eval index (.index v blame next), scope, depth, heap, console⟩
  | .index object blame next => giveResult (heap.item object v) blame next scope depth heap console
  | .setObject name value next =>
    setProperty v name.name name.span value next scope depth heap console
  | .setKeyObject paren key value next =>
    .running ⟨.eval key (.setKey v paren value next), scope, depth, heap, console⟩
  | .setKey object paren value next =>
    setProperty object (v.printed heap) paren value next scope depth heap console
  | .setField id name next =>
    .running ⟨.give v next, scope, depth, heap.setField id name v, console⟩
  | .setIndexObject index blame value next =>
    .running ⟨.eval index (.setIndex v blame value next), scope, depth, heap, console⟩
  | .setIndex object blame value next =>
    match Heap.assignableList object with
    | .ok id => .running ⟨.eval value (.setElement id v blame next), scope, depth, heap, console⟩
    | .error problem => .stopped (.blame problem blame) heap console
  | .setElement id index blame next =>
    match positionOf index (heap.elements id).size with
    | .ok i => .running ⟨.give v next, scope, depth, heap.setElement id i v, console⟩
    | .error problem => .stopped (.blame problem blame) heap console
  | .field before key rest next => runFields (before.put key v) rest next scope depth heap console
  | .element before rest next => runElements (v :: before) rest next scope depth heap console
  | .discard next => .running ⟨.finish .normal next, scope, depth, heap, console⟩
  | .print next =>
    .running ⟨.finish .normal next, scope, depth, heap, console.printLine (v.printed heap)⟩
  | .declare mutable name next =>
    .running ⟨.finish .normal next, scope, depth, heap.define scope name mutable v, console⟩
  | .branch thenBranch elseBranch next =>
    .running ⟨runBranch (if v.isTrue then thenBranch else elseBranch) next, scope, depth,
      heap, console⟩
  | .loopTest loop next =>
    if v.isTrue then .running ⟨.exec loop.body (.loopBody loop next), scope, depth, heap, console⟩
    else .running ⟨.finish .normal next, scope, depth, heap, console⟩
  | .loopCloser loop next => .running ⟨runLoop loop next, scope, depth, heap, console⟩
  | .ret keyword next => .running ⟨.finish (.returned keyword v) next, scope, depth, heap, console⟩

/-- Goes on after a statement. -/
def stepSignal (signal : Signal) (next : StmtCont) (scope : ScopeId) (depth : Nat) (heap : Heap)
    (console : Console) : Next :=
  match next with
  | .done => .finished signal heap console
  | .statements rest next =>
    match signal with
    | .normal => .running ⟨runBody rest next, scope, depth, heap, console⟩
    | signal => .running ⟨.finish signal next, scope, depth, heap, console⟩
  | .leave outer next => .running ⟨.finish signal next, outer, depth, heap, console⟩
  | .loopBody loop next =>
    match signal with
    | .normal | .continued _ => .running ⟨closeLoop loop next, scope, depth, heap, console⟩
    | .broke _ => .running ⟨.finish .normal next, scope, depth, heap, console⟩
    | .returned keyword v =>
      .running ⟨.finish (.returned keyword v) next, scope, depth, heap, console⟩
  | .functionBody caller next =>
    match signal with
    | .normal => .running ⟨.give .nil next, caller, depth, heap, console⟩
    | .returned _ v => .running ⟨.give v next, caller, depth, heap, console⟩
    | .broke keyword => .stopped (.blame .breakOutsideLoop keyword) heap console
    | .continued keyword => .stopped (.blame .continueOutsideLoop keyword) heap console

/-- A step of the machine, given the most calls that may be active. -/
def step (limit : Nat) : State → Next
  | ⟨.eval e next, scope, depth, heap, console⟩ => stepExpr e next scope depth heap console
  | ⟨.exec s next, scope, depth, heap, console⟩ => stepStmt s next scope depth heap console
  | ⟨.give v next, scope, depth, heap, console⟩ => stepValue limit v next scope depth heap console
  | ⟨.finish signal next, scope, depth, heap, console⟩ =>
    stepSignal signal next scope depth heap console

end Lox
