import Lox.Text.Quoted
import Lox.Number.Numeral

/-!
# Versions

A version has three numbers, of which the last two may be left out, and perhaps a **pre-release**:
dotted identifiers after a hyphen. It may start with `v`, and end with build information, which is
not looked at when versions are compared. A version with a pre-release comes before the one without.
Of two pre-releases the first identifier that differs decides: numbers come before words, and none
before one.
-/

namespace Lox

/-- A version. -/
structure Version where
  major : Nat
  minor : Nat
  patch : Nat
  pre : List Text
  deriving DecidableEq, Repr

namespace Version

/-! ## Parts of a version as it is written -/

/-- A version as it is written. Only the first of its numbers must be there. -/
structure Written where
  major : Text
  minor : Option Text
  patch : Option Text
  pre : Option Text
  deriving DecidableEq, Repr

/-- Whether a byte may stand in an identifier. -/
def isIdentifier (b : UInt8) : Bool :=
  (0x30 ≤ b && b ≤ 0x39) || (0x41 ≤ b && b ≤ 0x5A) || (0x61 ≤ b && b ≤ 0x7A) || b == 0x2D

/-- A mark and then bytes of a class, at least one, if a text starts with them, and the rest. -/
def after (mark : UInt8) (inside : UInt8 → Bool) (t : Text) : Option Text × Text :=
  match t with
  | b :: rest =>
    if b == mark && (rest.head?.any inside)
      then (some (rest.takeWhile inside), rest.dropWhile inside) else (none, t)
  | [] => (none, [])

/-- More identifiers after a text that starts with one, each after a point, and the rest. -/
def moreIdentifiers : Nat → Text → Text × Text
  | 0, t => ([], t)
  | turns + 1, t =>
    match after 0x2E isIdentifier t with
    | (some identifier, rest) =>
      let (more, rest) := moreIdentifiers turns rest
      (0x2E :: identifier ++ more, rest)
    | (none, rest) => ([], rest)

/-- Dotted identifiers after a mark, if a text starts with them, and the rest. -/
def dotted (mark : UInt8) (t : Text) : Option Text × Text :=
  match after mark isIdentifier t with
  | (some first, rest) =>
    let (more, rest) := moreIdentifiers rest.length rest
    (some (first ++ more), rest)
  | (none, rest) => (none, rest)

/-- The version that a text starts with, its numbers written with bytes of a class, and the rest. -/
def take? (number : UInt8 → Bool) (t : Text) : Option (Written × Text) :=
  let t := if t.head? == some 0x76 then t.tail else t
  let major := t.takeWhile number
  if major.isEmpty then none
  else
    let (minor, t) := after 0x2E number (t.dropWhile number)
    let (patch, t) := if minor.isSome then after 0x2E number t else (none, t)
    let (pre, t) := dotted 0x2D t
    let (_, t) := dotted 0x2B t
    some (⟨major, minor, patch, pre⟩, t)

/-! ## Reading -/

/-- What is wrong with a version. -/
inductive Mistake
  | form
  | zero
  | range (number : Text)
  deriving DecidableEq, Repr

/-- The wording of what is wrong with a version. -/
def Mistake.message : Mistake → Text
  | form => utf8 "Invalid Semantic Version"
  | zero => utf8 "Version segment starts with 0"
  | range number =>
    utf8 "Error parsing version segment: strconv.ParseUint: parsing " ++ Quoted.text number ++
      utf8 ": value out of range"

/-- The value of a number of 64 bits. -/
def number (t : Text) : Except Mistake Nat :=
  let n := Numeral.value 10 0 t
  if n < Nat.pow 2 64 then .ok n else .error (.range t)

/-- Whether an identifier is a number with a zero before it. -/
def hasLeadingZero (t : Text) : Bool :=
  t.all Numeral.isDigit && 1 < t.length && t.head? == some 0x30

/-- The version that is written. -/
def ofWritten (w : Written) : Except Mistake Version := do
  let major ← number w.major
  let minor ← number (w.minor.getD [])
  let patch ← number (w.patch.getD [])
  let pre := (w.pre.map (Text.splitOn 0x2E)).getD []
  if pre.any hasLeadingZero then .error .zero else .ok ⟨major, minor, patch, pre⟩

/-- Reads a version. -/
def read (t : Text) : Except Mistake Version :=
  match take? Numeral.isDigit t with
  | some (written, []) => ofWritten written
  | _ => .error .form

/-! ## Order -/

/-- The number of 64 bits that an identifier is, if it is one. -/
def identifierNumber? (t : Text) : Option Nat :=
  if !t.isEmpty && t.all Numeral.isDigit then (number t).toOption else none

/-- The order of two identifiers. -/
def compareIdentifier (a b : Text) : Ordering :=
  if a == b then .eq
  else
    match identifierNumber? a, identifierNumber? b with
    | some m, some n => if n < m then .gt else .lt
    | some _, none => .lt
    | none, some _ => .gt
    | none, none => if Text.le a b then .lt else .gt

/-- The order of two lists of identifiers. -/
def comparePre : List Text → List Text → Ordering
  | [], [] => .eq
  | [], _ :: _ => .lt
  | _ :: _, [] => .gt
  | a :: s, b :: t => (compareIdentifier a b).then (comparePre s t)

/-- The order of two versions. -/
def compare (v w : Version) : Ordering :=
  (Ord.compare v.major w.major).then <| (Ord.compare v.minor w.minor).then <|
    (Ord.compare v.patch w.patch).then <|
    match v.pre, w.pre with
    | [], [] => .eq
    | [], _ :: _ => .gt
    | _ :: _, [] => .lt
    | s, t => comparePre s t

end Version

end Lox
