import Lox.Number.Binary

/-!
# Remainder of doubles

The remainder of a division that is cut towards zero: it has the sign of the dividend and is smaller
than the divisor. It is always a double itself, so it is computed exactly.
-/

namespace Lox

/-- The not-a-number value. -/
def notANumber : Float := 0.0 / 0.0

/-- The remainder of two finite doubles, the second not zero. -/
def Binary.remainder (x y : Binary) : Binary :=
  let e := min x.exponent y.exponent
  let a := x.mantissa * Nat.pow 2 (x.exponent - e).toNat
  let b := y.mantissa * Nat.pow 2 (y.exponent - e).toNat
  ⟨x.negative, a % b, e⟩

/-- The remainder of two doubles. It is not a number if the dividend is infinite, the divisor zero
or one of them not a number, and the dividend itself if only the divisor is infinite. -/
def remainder (x y : Float) : Float :=
  match Binary.ofFloat? x, Binary.ofFloat? y with
  | some a, some b =>
    if b.mantissa == 0 then notANumber else ((Binary.remainder a b).toFloat?).getD notANumber
  | some _, none => if y.isNaN then notANumber else x
  | none, _ => notANumber

end Lox
