import Lox.Number.Remainder
import Lox.Problem
import Lox.Value

/-!
# Operations on values

What the operators do. Equality is defined for all values. The other operators between two operands
take two numbers; `+` also joins two strings.
-/

namespace Lox

/-- Applies an operator to an operand. -/
def UnaryOp.apply : UnaryOp → Value → Except RuntimeProblem Value
  | .negate, .number x => .ok (.number (-x))
  | .not, .bool b => .ok (.bool (!b))
  | op, v => .error (.operand op v.kind)

/-- Applies an operator to two numbers. -/
def BinaryOp.onNumbers (op : BinaryOp) (x y : Float) : Value :=
  match op with
  | .equal => .bool (x == y)
  | .notEqual => .bool (x != y)
  | .greater => .bool (y < x)
  | .greaterEqual => .bool (y ≤ x)
  | .less => .bool (x < y)
  | .lessEqual => .bool (x ≤ y)
  | .add => .number (x + y)
  | .subtract => .number (x - y)
  | .remainder => .number (Lox.remainder x y)
  | .divide => .number (x / y)
  | .multiply => .number (x * y)

/-- Applies an operator that is not an equality to two operands. -/
def BinaryOp.compute (op : BinaryOp) : Value → Value → Except RuntimeProblem Value
  | .number x, .number y => .ok (op.onNumbers x y)
  | .string s, .string t => if op = .add then .ok (.string (s ++ t)) else .error (.strings op)
  | v, w => .error (.operands op v.kind w.kind)

/-- Applies an operator to two operands. -/
def BinaryOp.apply (op : BinaryOp) (v w : Value) : Except RuntimeProblem Value :=
  match op with
  | .equal => .ok (.bool (v.equals w))
  | .notEqual => .ok (.bool (!v.equals w))
  | op => op.compute v w

/-- Whether the left operand settles the value of the whole. -/
def LogicalOp.settledBy : LogicalOp → Value → Bool
  | .or, v => v.isTrue
  | .and, v => !v.isTrue

end Lox
