import Lox.Number.Remainder
import Lox.Number.Shortest
import Lox.Text.Blank

/-!
# Numerals

How numbers are written and read. A number is **written** with the fewest digits that read back and
never with an exponent (`Numeral.write`). It is **read** in two ways. A literal of a source is
digits, perhaps with a point and more digits (`Numeral.literal?`). A text that a program converts
may also have a sign, an exponent, underscores between digits, hexadecimal digits with a binary
exponent, or be one of the words for infinity and not-a-number (`Numeral.read?`).
-/

namespace Lox.Numeral

/-! ## Writing -/

/-- A decimal without an exponent: zeros are added to the right, or to the left behind a point. -/
def positional (d : Decimal) : List Char :=
  let ds := Nat.toDigits 10 d.digits
  match d.exponent with
  | .ofNat e => ds ++ List.replicate e '0'
  | .negSucc e =>
    let places := e + 1
    let padded := List.replicate (places + 1 - ds.length) '0' ++ ds
    padded.take (padded.length - places) ++ '.' :: padded.drop (padded.length - places)

/-- A decimal without zeros at the end of its digits, given a bound on their number. -/
def trimZeros : Nat → Decimal → Decimal
  | 0, d => d
  | fuel + 1, d =>
    if d.digits % 10 == 0 && d.digits != 0
      then trimZeros fuel ⟨d.digits / 10, d.exponent + 1⟩ else d

/-- The text of a number. -/
def write (x : Float) : Text :=
  match Binary.ofFloat? x with
  | none => utf8 (if x.isNaN then "NaN" else if x < 0 then "-Inf" else "+Inf")
  | some b =>
    let body := if b.mantissa == 0 then ['0'] else positional (trimZeros 17 (Shortest.decimal b))
    Text.ofChars (if b.negative then '-' :: body else body)

/-! ## Reading -/

/-- The value of a digit of base ten or sixteen. -/
def digitValue? (base : Nat) (b : UInt8) : Option Nat :=
  let n := b.toNat
  let v := if 0x30 ≤ n && n ≤ 0x39 then some (n - 0x30)
    else if 0x61 ≤ n && n ≤ 0x66 then some (n - 0x57)
    else if 0x41 ≤ n && n ≤ 0x46 then some (n - 0x37)
    else none
  v.filter (· < base)

/-- Whether a byte is an ASCII digit. -/
def isDigit (b : UInt8) : Bool := (digitValue? 10 b).isSome

/-- The number that digits of a base spell, going on from what stands before them. Other bytes are
passed over. -/
def value (base : Nat) (before : Nat) (digits : Text) : Nat :=
  digits.foldl (fun n b => match digitValue? base b with | some d => n * base + d | none => n)
    before

/-- The number of a literal: digits before and after a point. Nothing if it is too large. -/
def literal? (whole fraction : Text) : Option Float :=
  Binary.nearest? false (value 10 (value 10 0 whole) fraction) (Nat.pow 10 fraction.length)

/-- A letter in lower case; other bytes of ASCII may change, but into no letter. -/
def lowerByte (b : UInt8) : UInt8 := b ||| 0x20

/-- What an underscore may follow: a digit or the mark of a base. -/
inductive Last
  | start
  | digit
  | underscore
  | other
  deriving DecidableEq

/-- Whether each underscore stands between digits, the mark of a base counting as one. -/
def underscoresFit (hex : Bool) : Last → Text → Bool
  | last, [] => last != .underscore
  | last, b :: rest =>
    if (digitValue? (if hex then 16 else 10) b).isSome then underscoresFit hex .digit rest
    else if b == 0x5F then last == .digit && underscoresFit hex .underscore rest
    else last != .underscore && underscoresFit hex .other rest

/-- The mark of base sixteen, which needs a byte after it. -/
def hexBody? : Text → Option Text
  | 0x30 :: x :: b :: rest => if lowerByte x == 0x78 then some (b :: rest) else none
  | _ => none

/-- The digits, underscores and at most one point that a numeral starts with: what stands before the
point, what stands after it, and the rest. -/
def mantissa (base : Nat) (t : Text) : Text × Text × Text :=
  let inside := fun b => b == 0x5F || (digitValue? base b).isSome
  let whole := t.takeWhile inside
  match t.dropWhile inside with
  | 0x2E :: rest => (whole, rest.takeWhile inside, rest.dropWhile inside)
  | rest => (whole, [], rest)

/-- An exponent from its sign on: its value, or nothing if there is no digit or something else
follows. Past ten thousand further digits change nothing. -/
def exponent? (t : Text) : Option Int :=
  let (negative, digits) := match t with
    | 0x2B :: rest => (false, rest)
    | 0x2D :: rest => (true, rest)
    | _ => (false, t)
  let ok := (digits.head?.map isDigit).getD false && digits.all (fun b => b == 0x5F || isDigit b)
  let size := digits.foldl (fun n b =>
    match digitValue? 10 b with | some d => if n < 10000 then n * 10 + d else n | none => n) 0
  if ok then some (if negative then -Int.ofNat size else Int.ofNat size) else none

/-- The double nearest to `m * base ^ e`. -/
def scaled? (negative : Bool) (base m : Nat) : Int → Option Float
  | .ofNat e => Binary.nearest? negative (m * Nat.pow base e) 1
  | .negSucc e => Binary.nearest? negative m (Nat.pow base (e + 1))

/-- A numeral after its sign in a base, whose exponent follows a letter and counts powers of
`power`; a place behind the point is worth `place` of them. -/
def readBase? (negative : Bool) (base power : Nat) (letter : UInt8) (place : Nat)
    (needsExponent : Bool) (t : Text) : Option Float :=
  let (whole, fraction, rest) := mantissa base t
  let digits := fun (s : Text) => s.filter fun b => (digitValue? base b).isSome
  let m := value base (value base 0 whole) fraction
  let places := Int.ofNat ((digits fraction).length * place)
  let e? : Option Int := match rest with
    | [] => if needsExponent then none else some 0
    | b :: more => if lowerByte b == letter then exponent? more else none
  if (digits whole).isEmpty && (digits fraction).isEmpty then none
  else match e? with
    | none => none
    | some e => if m == 0 then scaled? negative power 0 0 else scaled? negative power m (e - places)

/-- A word for infinity or not-a-number, in any case. Not-a-number has no sign. -/
def word? (signed negative : Bool) (t : Text) : Option Float :=
  let w := t.map lowerByte
  if w == utf8 "inf" || w == utf8 "infinity" then some (if negative then -1.0 / 0.0 else 1.0 / 0.0)
  else if w == utf8 "nan" && !signed then some notANumber
  else none

/-- The sign of a numeral: whether there is one, whether it is a minus, and what follows it. -/
def sign : Text → Bool × Bool × Text
  | 0x2B :: rest => (true, false, rest)
  | 0x2D :: rest => (true, true, rest)
  | t => (false, false, t)

/-- The number that a text spells, if it spells one that is not too large. -/
def read? (t : Text) : Option Float :=
  let (signed, negative, body) := sign t
  match word? signed negative body with
  | some x => some x
  | none =>
    match hexBody? body with
    | some digits =>
      if digits.contains 0x5F && !underscoresFit true .digit digits then none
      else readBase? negative 16 2 0x70 4 true digits
    | none =>
      if body.contains 0x5F && !underscoresFit false .start body then none
      else readBase? negative 10 10 0x65 1 false body

end Lox.Numeral
