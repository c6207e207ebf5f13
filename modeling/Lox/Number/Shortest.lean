import Lox.Number.Binary

/-!
# The fewest digits that read back

The reals that round to a double form an interval around it. A decimal with few digits that lies in
the interval reads back as the double. For one digit, then two, and so on, `Shortest.decimal` tests
the two neighbours of the double among the decimals with that many digits; the first count with a
hit wins, of two hits the nearer, and of two at the same distance the one whose last digit is even.
Seventeen digits always suffice.
-/

namespace Lox

/-- The number `digits * 10 ^ exponent`. -/
structure Decimal where
  digits : Nat
  exponent : Int
  deriving DecidableEq, Repr

namespace Shortest

/-- The number of decimal digits of a natural number. -/
def digitCount (n : Nat) : Nat := (Nat.toDigits 10 n).length

/-- The exponent of ten of the leading digit of a positive ratio. -/
def magnitude (p q : Nat) : Int :=
  if q ≤ p then Int.ofNat (digitCount (p / q)) - 1
  else
    let places := digitCount q - digitCount p
    if q ≤ p * Nat.pow 10 places then -Int.ofNat places else -Int.ofNat places - 1

/-- The interval of reals that round to a double, in quarters of the double's last place. -/
structure Interval where
  low : Nat
  mid : Nat
  high : Nat
  closed : Bool

/-- The interval of a positive double. Below a power of two the neighbour is half as far. -/
def interval (b : Binary) : Interval :=
  let mid := 4 * b.mantissa
  let low := if b.mantissa == Binary.mantissas && Binary.least < b.exponent then mid - 1
    else mid - 2
  ⟨low, mid, mid + 2, b.mantissa % 2 == 0⟩

/-- Whether `c * den` lies in the interval scaled by `num`. -/
def Interval.has (i : Interval) (num den c : Nat) : Bool :=
  let x := c * den
  if i.closed then i.low * num ≤ x && x ≤ i.high * num else i.low * num < x && x < i.high * num

/-- The better of the two neighbours on a grid, if one lies in the interval: the step of the grid is
`den / num` quarters of the double's last place. -/
def onGrid? (i : Interval) (num den : Nat) : Option Nat :=
  let c := i.mid * num / den
  match i.has num den c, i.has num den (c + 1) with
  | true, false => some c
  | false, true => some (c + 1)
  | true, true =>
    let below := i.mid * num - c * den
    let above := (c + 1) * den - i.mid * num
    if below < above then some c
    else if above < below then some (c + 1)
    else some (c + c % 2)
  | false, false => none

/-- A ratio of quarters to a power of ten, as naturals. -/
def gridRatio (quarter grid : Int) : Nat × Nat :=
  let two := match quarter with
    | .ofNat e => (Nat.pow 2 e, 1)
    | .negSucc e => (1, Nat.pow 2 (e + 1))
  match grid with
  | .ofNat e => (two.1, two.2 * Nat.pow 10 e)
  | .negSucc e => (two.1 * Nat.pow 10 (e + 1), two.2)

/-- Tries the grids from the one with `count` more digits at hand, finer and finer. -/
def search (i : Interval) (quarter : Int) : Nat → Int → Option Decimal
  | 0, _ => none
  | count + 1, grid =>
    let (num, den) := gridRatio quarter grid
    match onGrid? i num den with
    | some c => some ⟨c, grid⟩
    | none => search i quarter count (grid - 1)

/-- The shortest decimal that reads back as a positive finite double. -/
def decimal (b : Binary) : Decimal :=
  let i := interval b
  let quarter := b.exponent - 2
  let (p, q) := Binary.scale i.mid 1 (-quarter)
  (search i quarter 17 (magnitude p q)).getD ⟨0, 0⟩

end Shortest

end Lox
