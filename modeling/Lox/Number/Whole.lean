import Lox.Number.Numeral

/-!
# Whole numbers of 64 bits

A whole number is written in base ten, or in the base that its first characters say: `0b`, `0o` or
`0x`, or a zero alone for base eight. Underscores may stand between digits. Reading goes from left
to right and stops at the first digit that makes the number too large, whatever comes after it.
-/

namespace Lox.Whole

/-- What is wrong with a number. -/
inductive Mistake
  | form
  | range
  deriving DecidableEq, Repr

/-- The value of a digit below thirty-six. -/
def digit? (b : UInt8) : Option Nat :=
  let n := b.toNat
  if 0x30 ≤ n && n ≤ 0x39 then some (n - 0x30)
  else if 0x61 ≤ n && n ≤ 0x7A then some (n - 0x57)
  else if 0x41 ≤ n && n ≤ 0x5A then some (n - 0x37)
  else none

/-- The number that digits of a base spell, going on from what stands before them. -/
def digits (base : Nat) : Nat → Text → Except Mistake Nat
  | n, [] => .ok n
  | n, b :: rest =>
    if b == 0x5F then digits base n rest
    else
      match (digit? b).filter (· < base) with
      | none => .error .form
      | some d =>
        if n * base + d < Nat.pow 2 64 then digits base (n * base + d) rest else .error .range

/-- The base that a number is written in, and its digits. -/
def baseOf (t : Text) : Nat × Text :=
  match t with
  | 0x30 :: x :: d :: rest =>
    let letter := Numeral.lowerByte x
    if letter == 0x62 then (2, d :: rest)
    else if letter == 0x6F then (8, d :: rest)
    else if letter == 0x78 then (16, d :: rest)
    else (8, x :: d :: rest)
  | 0x30 :: rest => (8, rest)
  | _ => (10, t)

/-- Whether each underscore stands between digits, the mark of a base counting as one. -/
def underscoresFit (t : Text) : Bool :=
  match t with
  | 0x30 :: x :: rest =>
    let letter := Numeral.lowerByte x
    if letter == 0x62 || letter == 0x6F || letter == 0x78
      then Numeral.underscoresFit (letter == 0x78) .digit rest
    else Numeral.underscoresFit false .start t
  | _ => Numeral.underscoresFit false .start t

/-- A number without a sign. -/
def natural (t : Text) : Except Mistake Nat :=
  if t.isEmpty then .error .form
  else
    let (base, body) := baseOf t
    match digits base 0 body with
    | .error mistake => .error mistake
    | .ok n => if t.contains 0x5F && !underscoresFit t then .error .form else .ok n

/-- A number without a sign in a base. -/
def naturalIn (base : Nat) (t : Text) : Except Mistake Nat :=
  if t.isEmpty then .error .form else digits base 0 t

/-- A number with a sign, or without one if it is not negative, given how what follows the sign is
read. -/
def withSign (read : Text → Except Mistake Nat) (t : Text) : Except Mistake Int :=
  let (_, negative, body) := Numeral.sign t
  match read body with
  | .error mistake => .error mistake
  | .ok n =>
    if negative then if n ≤ Nat.pow 2 63 then .ok (-Int.ofNat n) else .error .range
    else if n < Nat.pow 2 63 then .ok (Int.ofNat n)
    else .error .range

/-- A number with a sign, or without one if it is not negative. -/
def signed (t : Text) : Except Mistake Int := withSign natural t

/-- A number in a base with a sign, or without one if it is not negative. -/
def signedIn (base : Nat) (t : Text) : Except Mistake Int := withSign (naturalIn base) t

end Lox.Whole
