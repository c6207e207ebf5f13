/-!
# Doubles and exact ratios

A finite double is a whole number times a power of two. `Binary` is that view of it. The way back is
`nearest?`: the double closest to a ratio of naturals, a tie going to the even mantissa, or nothing
where the ratio is too large for a finite one. Both are exact, so numerals are read and remainders
are taken in natural arithmetic.
-/

namespace Lox

/-- The number `mantissa * 2 ^ exponent` with a sign. -/
structure Binary where
  negative : Bool
  mantissa : Nat
  exponent : Int
  deriving DecidableEq, Repr

namespace Binary

/-- The number of mantissas of doubles that share an exponent. -/
def mantissas : Nat := Nat.pow 2 52

/-- The least exponent of a double. -/
def least : Int := -1074

/-- The view of a finite double. -/
def ofFloat? (x : Float) : Option Binary :=
  let bits : Nat := x.toBits.toNat
  let negative := bits / Nat.pow 2 63 == 1
  let exponent : Nat := bits / mantissas % Nat.pow 2 11
  let fraction := bits % mantissas
  if exponent == 2047 then none
  else if exponent == 0 then some ⟨negative, fraction, least⟩
  else some ⟨negative, mantissas + fraction, Int.ofNat exponent - 1 + least⟩

/-- The quotient of two naturals to the nearest natural, a tie going to the even one. -/
def divNearest (p q : Nat) : Nat :=
  let floor := p / q
  let rest := 2 * (p % q)
  if rest < q then floor
  else if q < rest then floor + 1
  else floor + floor % 2

/-- The ratio `p / q` divided by a power of two, again as a ratio. -/
def scale (p q : Nat) : Int → Nat × Nat
  | .ofNat e => (p, q * Nat.pow 2 e)
  | .negSucc e => (p * Nat.pow 2 (e + 1), q)

/-- An exponent with which the mantissa of a positive ratio lies below `2 ^ 53`, as small as the
doubles allow. -/
def exponentOf (p q : Nat) : Int :=
  let guess : Int := max least (Int.ofNat (Nat.log2 p) - Int.ofNat (Nat.log2 q) - 53)
  let (num, den) := scale p q guess
  if num / den < 2 * mantissas then guess else guess + 1

/-- The bits of the double nearest to a ratio, without a sign. Adding the mantissa onto the
exponent's place carries where rounding reaches the next power of two. -/
def nearestBits (p q : Nat) : Nat :=
  if p == 0 then 0
  else
    let e := exponentOf p q
    let (num, den) := scale p q e
    (e - least).toNat * mantissas + divNearest num den

/-- The nearest double to a ratio with a sign, or nothing past the largest finite one. -/
def nearest? (negative : Bool) (p q : Nat) : Option Float :=
  let bits := nearestBits p q
  if bits < 2047 * mantissas then
    some (Float.ofBits (UInt64.ofNat (bits + if negative then Nat.pow 2 63 else 0)))
  else none

/-- The whole number that this is, or nothing if it has a fractional part. -/
def toInt? (b : Binary) : Option Int :=
  let sign : Int := if b.negative then -1 else 1
  match b.exponent with
  | .ofNat e => some (sign * Int.ofNat (b.mantissa * Nat.pow 2 e))
  | .negSucc e =>
    let unit := Nat.pow 2 (e + 1)
    if b.mantissa % unit == 0 then some (sign * Int.ofNat (b.mantissa / unit)) else none

/-- The double with this view. -/
def toFloat? (b : Binary) : Option Float :=
  match b.exponent with
  | .ofNat e => nearest? b.negative (b.mantissa * Nat.pow 2 e) 1
  | .negSucc e => nearest? b.negative b.mantissa (Nat.pow 2 (e + 1))

end Binary

end Lox
