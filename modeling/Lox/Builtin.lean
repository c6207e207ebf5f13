import Lox.Console
import Lox.Heap.Copy
import Lox.Heap.Printed

/-!
# Functions of the root scope

What the functions do that every program finds in its root scope: conversions, collections, numbers,
reading. Each is a function on values and the heap; a problem with an argument is blamed on the
call.
-/

namespace Lox

namespace Builtin

/-- The names of the root scope before a program runs. They may all be bound to something else. -/
def bindings : Entries Binding := all.map fun b => (utf8 b.name, ⟨true, .native (.builtin b)⟩)

/-! ## Conversions -/

/-- The number that a value stands for. A string or character that spells none gives
not-a-number. -/
def toNumber : Value → Except RuntimeProblem Value
  | .number x => .ok (.number x)
  | .string t => .ok (.number ((Numeral.read? t.trim).getD notANumber))
  | .char c =>
    .ok (.number (if '0' ≤ c && c ≤ '9' then Float.ofNat (c.toNat - '0'.toNat) else notANumber))
  | v => .error (.numberArgument v.kind)

/-- The characters that values are, all of them. -/
def charsOf : List Value → Except RuntimeProblem (List Char)
  | [] => .ok []
  | .char c :: rest => (charsOf rest).map (c :: ·)
  | v :: _ => .error (.charArgument v.kind)

/-- The string of a list of characters. -/
def stringOfChars (h : Heap) : Value → Except RuntimeProblem Value
  | .list id => (charsOf (h.elements id).toList).map fun cs => .string (Text.ofChars cs)
  | v => .error (.listArgument 1 v.kind)

/-! ## Collections -/

/-- The number of characters of a string or of elements of a list. -/
def lengthOf (h : Heap) : Value → Except RuntimeProblem Value
  | .string t => .ok (.number (Float.ofNat t.count))
  | .list id => .ok (.number (Float.ofNat (h.elements id).size))
  | v => .error (.lengthArgument v.kind)

/-- The characters of a string or the names of an instance's properties. -/
def parts (h : Heap) : Value → Except RuntimeProblem (List Value)
  | .string t => .ok (t.chars.map Value.char)
  | .object id => .ok ((h.fields id).names.map Value.string)
  | v => .error (.expandArgument v.kind)

/-- The list of the characters of a string or of the names of an instance's properties. -/
def expandValue (h : Heap) (v : Value) : Except RuntimeProblem Value × Heap :=
  match parts h v with
  | .ok elements =>
    let (id, h) := h.newList elements.toArray
    (.ok (.list id), h)
  | .error problem => (.error problem, h)

/-- Puts a value at the end of a list. -/
def pushValue (h : Heap) : Value → Value → Except RuntimeProblem Value × Heap
  | .list id, v => (.ok (.list id), h.pushElement id v)
  | target, _ => (.error (.listArgument 1 target.kind), h)

/-- Puts the elements that a list has now at the end of another, which may be the same one. -/
def extendList (h : Heap) : Value → Value → Except RuntimeProblem Value × Heap
  | .list id, .list other => (.ok (.list id), h.appendElements id (h.elements other))
  | .list _, v => (.error (.listArgument 2 v.kind), h)
  | target, _ => (.error (.listArgument 1 target.kind), h)

/-- Whether an instance has a property of its own that is not `nil`, a list an element, or a string
a part. -/
def hasPart (h : Heap) : Value → Value → Except RuntimeProblem Value
  | .object id, v => .ok (.bool (h.field? id (v.printed h)).isSome)
  | .list id, v => .ok (.bool ((h.elements id).toList.any fun element => element.equals v))
  | .string t, .string part => .ok (.bool (Text.occursIn part t))
  | .string t, .char c => .ok (.bool (t.hasChar c))
  | whole, part => .error (.hasArguments whole.kind part.kind)

/-- Takes a property from an instance and gives the value it had. -/
def unsetField (h : Heap) : Value → Value → Except RuntimeProblem Value × Heap
  | .object id, .string name =>
    match h.field? id name with
    | some old => (.ok old, h.removeField id name)
    | none => (.ok .nil, h)
  | whole, part => (.error (.unsetArguments whole.kind part.kind), h)

/-! ## Numbers -/

/-- Applies a function of numbers. -/
def onNumber (b : Builtin) (f : Float → Value) : Value → Except RuntimeProblem Value
  | .number x => .ok (f x)
  | v => .error (.numericArgument b.name v.kind)

/-! ## Calls -/

/-- What a call of a native leaves behind. -/
structure Answer where
  result : Except Stop Value
  heap : Heap
  console : Console

/-- Prints a prompt unless it is `nil`, and reads a line. -/
def readLine (prompt : Value) (blame : Span) (h : Heap) (console : Console) : Answer :=
  match prompt with
  | .nil => read console
  | prompt =>
    let console := console.print (prompt.printed h)
    match console.printProblem with
    | some problem => ⟨.error (.blame (.console problem) blame), h, console⟩
    | none => read console
where
  read (console : Console) : Answer :=
    match console.readLine with
    | (.ok line, console) => ⟨.ok (.string line), h, console⟩
    | (.error problem, console) => ⟨.error (.blame (.console problem) blame), h, console⟩

/-- Calls a function with as many arguments as it takes. -/
def call (b : Builtin) (arguments : List Value) (blame : Span) (h : Heap) (console : Console) :
    Answer :=
  let first := arguments.getD 0 .nil
  let second := arguments.getD 1 .nil
  match b with
  | str => answer (.ok (.string (first.printed h)), h)
  | typeOf => answer (.ok (.string (utf8 first.kind.name)), h)
  | number => answer (toNumber first, h)
  | fromChars => answer (stringOfChars h first, h)
  | len => answer (lengthOf h first, h)
  | expand => answer (expandValue h first)
  | push => answer (pushValue h first second)
  | extend => answer (extendList h first second)
  | deepCopy =>
    match h.deepCopy first with
    | some (copy, h) => ⟨.ok copy, h, console⟩
    | none => ⟨.error (.fault .endlessCopy), h, console⟩
  | has => answer (hasPart h first second, h)
  | unset => answer (unsetField h first second)
  | isNaN => answer (onNumber b (fun x => .bool x.isNaN) first, h)
  | floor => answer (onNumber b (fun x => .number x.floor) first, h)
  | ceil => answer (onNumber b (fun x => .number x.ceil) first, h)
  | read => readLine first blame h console
where
  answer : Except RuntimeProblem Value × Heap → Answer
    | (result, h) => ⟨result.mapError (Stop.blame · blame), h, console⟩

end Builtin

end Lox
