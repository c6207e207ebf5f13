/-!
# Classes of characters as ranges

A class of characters is a list of ranges of character numbers, in increasing order and apart from
each other. Looking a number up stops at the first range that lies beyond it.
-/

namespace Lox.Ranges

/-- Whether a number lies in one of the ranges of an increasing list. -/
def has : List (Nat × Nat) → Nat → Bool
  | [], _ => false
  | (lo, hi) :: rest, n => if n < lo then false else n ≤ hi || has rest n

end Lox.Ranges
