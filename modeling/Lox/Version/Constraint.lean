import Lox.Version

/-!
# Version constraints

A constraint is one or more alternatives with `||` between them. An alternative is one or more
comparisons, with commas or spaces between them, and a version meets it if it meets them all. In a
comparison the numbers that are left out, or written as `x`, `X` or `*`, are **open**. Two versions
with a hyphen between them, and spaces around it, stand for two comparisons.

A version with a pre-release meets a comparison only if the comparison names a pre-release too,
except that it may differ from a version of which no number is open.
-/

namespace Lox

/-- How a comparison compares. -/
inductive Relation
  | equal
  | notEqual
  | greater
  | less
  | greaterEqual
  | lessEqual
  | tilde
  | caret
  deriving DecidableEq, Repr

/-- Which numbers of a comparison are open, from the first open one on. -/
inductive Openness
  | none
  | patch
  | minor
  | major
  deriving DecidableEq, Repr

/-- A comparison with a version, in which an open number is zero. -/
structure Comparison where
  relation : Relation
  bound : Version
  openness : Openness
  deriving DecidableEq, Repr

/-- Alternatives, each of comparisons that a version must all meet. -/
abbrev Constraint := List (List Comparison)

namespace Constraint

/-! ## Meeting a constraint -/

/-- Whether a version is within the range of a tilde: the same numbers up to the last one that is
given. -/
def withinTilde (c : Comparison) (v : Version) : Bool :=
  v.compare c.bound != .lt &&
    (((c.openness == .none || c.openness == .major) &&
        c.bound.major == 0 && c.bound.minor == 0 && c.bound.patch == 0) ||
      (v.major == c.bound.major && (v.minor == c.bound.minor || c.openness == .minor)))

/-- Whether a version is within the range of a caret: the same numbers up to the first one that is
not zero. -/
def withinCaret (c : Comparison) (v : Version) : Bool :=
  v.compare c.bound != .lt &&
    if 0 < c.bound.major || c.openness == .minor then v.major == c.bound.major
    else if 0 < v.major then false
    else if 0 < c.bound.minor || c.openness == .patch then v.minor == c.bound.minor
    else if 0 < v.minor then false
    else v.patch == c.bound.patch

/-- Whether a version is above a bound with open numbers. -/
def above (c : Comparison) (v : Version) : Bool :=
  match c.openness with
  | .none => v.compare c.bound == .gt
  | openness =>
    if v.major != c.bound.major then c.bound.major < v.major
    else if openness == .minor then false
    else if openness == .patch then c.bound.minor < v.minor
    else v.compare c.bound == .gt

/-- Whether a version is not above a bound with open numbers. -/
def notAbove (c : Comparison) (v : Version) : Bool :=
  match c.openness with
  | .none => v.compare c.bound != .gt
  | openness =>
    v.major < c.bound.major ||
      (v.major == c.bound.major && (v.minor ≤ c.bound.minor || openness == .minor))

/-- Whether a version differs from a bound in a number that is not open. -/
def differs (c : Comparison) (v : Version) : Bool :=
  match c.openness with
  | .none => v.compare c.bound != .eq
  | openness =>
    if v.major != c.bound.major then true
    else if openness == .minor then false
    else if v.minor != c.bound.minor then true
    else if openness == .patch then
      (!v.pre.isEmpty || !c.bound.pre.isEmpty) && Version.comparePre v.pre c.bound.pre != .eq
    else v.compare c.bound != .eq

/-- Whether a version meets a comparison. -/
def meets (c : Comparison) (v : Version) : Bool :=
  if !v.pre.isEmpty && c.bound.pre.isEmpty &&
    !(c.relation == .notEqual && c.openness == .none) then false
  else
    match c.relation with
    | .equal => if c.openness == .none then v.compare c.bound == .eq else withinTilde c v
    | .notEqual => differs c v
    | .greater => above c v
    | .less => v.compare c.bound == .lt
    | .greaterEqual => v.compare c.bound != .lt
    | .lessEqual => notAbove c v
    | .tilde => withinTilde c v
    | .caret => withinCaret c v

/-- Whether a version meets a constraint. -/
def allows (c : Constraint) (v : Version) : Bool :=
  c.any fun alternative => alternative.all fun comparison => meets comparison v

/-! ## Reading -/

/-- Whether a byte separates comparisons as a space does. -/
def isSpace (b : UInt8) : Bool := b == 0x20 || b == 0x09 || b == 0x0A || b == 0x0C || b == 0x0D

/-- Whether a byte may stand in the place of a number. -/
def isNumberPart (b : UInt8) : Bool :=
  Numeral.isDigit b || b == 0x7C || b == 0x78 || b == 0x58 || b == 0x2A

/-- The signs of comparisons. Each stands before those it is the start of. -/
def signs : List (String × Relation) :=
  [("!=", .notEqual), (">=", .greaterEqual), ("=>", .greaterEqual), ("<=", .lessEqual),
    ("=<", .lessEqual), ("~>", .tilde), ("~", .tilde), ("^", .caret), (">", .greater), ("<", .less),
    ("=", .equal)]

/-- The sign that a text starts with, or that of equality, and the rest. -/
def takeSign (t : Text) : Relation × Text :=
  match signs.find? fun s => (utf8 s.1).isPrefixOf t with
  | some (sign, relation) => (relation, t.drop (utf8 sign).length)
  | none => (.equal, t)

/-- What is wrong with a constraint. -/
inductive Mistake
  | improper (part : Text)
  | version
  deriving DecidableEq, Repr

/-- The wording of what is wrong with a constraint. -/
def Mistake.message : Mistake → Text
  | improper part => utf8 "improper constraint: " ++ part
  | version => utf8 "constraint Parser Error"

/-- Whether a number is written as open. -/
def isOpen (number : Text) : Bool := number == utf8 "x" || number == utf8 "X" || number == utf8 "*"

/-- A version that reads back from what a comparison writes, with open numbers as zeros. -/
def bound? (w : Version.Written) : Option Version :=
  let numbers := w.major :: w.minor.toList ++ w.patch.toList
  if numbers.all fun n => n.all Numeral.isDigit then (Version.ofWritten w).toOption else none

/-- The comparison with a version that is written. -/
def comparison (relation : Relation) (w : Version.Written) : Except Mistake Comparison :=
  let zero := some (utf8 "0")
  let (openness, w) : Openness × Version.Written :=
    if isOpen w.major then (.major, ⟨utf8 "0", zero, zero, w.pre⟩)
    else if w.minor.all isOpen then (.minor, ⟨w.major, zero, zero, w.pre⟩)
    else if w.patch.all isOpen then (.patch, ⟨w.major, w.minor, zero, w.pre⟩)
    else (.none, w)
  match bound? w with
  | some bound => .ok ⟨relation, bound, openness⟩
  | none => .error .version

/-- What a sign and a version, with spaces around them, are at the start of a text, and the rest. -/
def takeComparison? (t : Text) : Option ((Relation × Version.Written) × Text) :=
  let (relation, t) := takeSign (t.dropWhile isSpace)
  match Version.take? isNumberPart (t.dropWhile isSpace) with
  | some (written, rest) => some ((relation, written), rest)
  | none => none

/-- The comparisons that follow one, each after a comma or a space. Nothing if something else
follows. -/
def moreComparisons? : Nat → Text → Option (List (Relation × Version.Written))
  | 0, _ => none
  | turns + 1, t =>
    match t.dropWhile isSpace with
    | [] => some []
    | b :: rest =>
      let next := if b == 0x2C then some rest else if t.head?.any isSpace
        then some (b :: rest) else none
      match next.bind takeComparison? with
      | some (found, rest) => (moreComparisons? turns rest).map (found :: ·)
      | none => none

/-- The comparisons of an alternative. -/
def alternative (t : Text) : Except Mistake (List Comparison) :=
  match takeComparison? t with
  | none => .error (.improper t)
  | some (first, rest) =>
    match moreComparisons? (rest.length + 1) rest with
    | none => .error (.improper t)
    | some more => (first :: more).mapM fun (relation, written) => comparison relation written

/-- The texts between the occurrences of `||`. -/
def alternatives : Text → List Text
  | [] => [[]]
  | 0x7C :: 0x7C :: rest => [] :: alternatives rest
  | b :: rest =>
    match alternatives rest with
    | first :: more => (b :: first) :: more
    | [] => [[b]]

/-! ## Ranges -/

/-- Two versions with a hyphen between them at the start of a text: the text of both, how long it is
with the spaces around it, and the rest. -/
structure Range where
  low : Text
  high : Text
  whole : Text
  rest : Text

/-- The range that a text starts with. -/
def range? (t : Text) : Option Range := do
  let start := t.dropWhile isSpace
  let (_, afterLow) ← Version.take? isNumberPart start
  let low := start.take (start.length - afterLow.length)
  let hyphen := afterLow.dropWhile isSpace
  if hyphen.length == afterLow.length then none
  else
    match hyphen with
    | 0x2D :: spaced =>
      let second := spaced.dropWhile isSpace
      if second.length == spaced.length then none
      else
        let (_, afterHigh) ← Version.take? isNumberPart second
        let high := second.take (second.length - afterHigh.length)
        let rest := afterHigh.dropWhile isSpace
        return ⟨low, high, t.take (t.length - rest.length), rest⟩
    | _ => none

/-- The ranges of a text, from left to right. -/
def ranges : Nat → Text → List Range
  | 0, _ => []
  | turns + 1, t =>
    match range? t with
    | some r => r :: ranges turns r.rest
    | none =>
      match t with
      | _ :: rest => ranges turns rest
      | [] => []

/-- A text with the first occurrence of a part replaced. -/
def replaceFirst (part replacement : Text) : Text → Text
  | [] => if part.isEmpty then replacement else []
  | b :: rest =>
    if part.isPrefixOf (b :: rest) then replacement ++ (b :: rest).drop part.length
    else b :: replaceFirst part replacement rest

/-- A text with each range as the two comparisons it stands for. -/
def expandRanges (t : Text) : Text :=
  (ranges (t.length + 1) t).foldl (fun t r =>
    replaceFirst r.whole (utf8 ">= " ++ r.low ++ utf8 ", <= " ++ r.high ++ utf8 " ") t) t

/-- Reads a constraint. -/
def read (t : Text) : Except Mistake Constraint := (alternatives (expandRanges t)).mapM alternative

end Constraint

/-- Why a program cannot run under a version. -/
inductive VersionProblem
  | constraint (requires : Text) (mistake : Constraint.Mistake)
  | version (current : Text) (mistake : Version.Mistake)
  | unmet (requires current : Text)
  deriving DecidableEq, Repr

/-- The wording of why a program cannot run under a version. -/
def VersionProblem.message : VersionProblem → Text
  | constraint requires mistake =>
    utf8 "invalid requires constraint " ++ Quoted.text requires ++ utf8 ": " ++ mistake.message
  | version current mistake =>
    utf8 "invalid interpreter version " ++ Quoted.text current ++ utf8 ": " ++ mistake.message
  | unmet requires current =>
    utf8 "config requires jlox " ++ requires ++ utf8 ", running " ++ current

/-- Checks a version against what is required of it. Nothing is required by the empty text. -/
def checkVersion (requires current : Text) : Option VersionProblem :=
  if requires.isEmpty then none
  else
    match Constraint.read requires with
    | .error mistake => some (.constraint requires mistake)
    | .ok constraint =>
      match Version.read current with
      | .error mistake => some (.version current mistake)
      | .ok v => if constraint.allows v then none else some (.unmet requires current)

end Lox
