import Lox.Token

/-!
# Operators

The operators of expressions, each with the mark or word it is written as. Binary operators stand on
**levels**: an operator of a later level binds tighter, and operators of one level group to the
left.
-/

namespace Lox

/-- An operator on one operand. -/
inductive UnaryOp
  | not
  | negate
  deriving DecidableEq, Repr

/-- An operator on two operands that evaluates both. -/
inductive BinaryOp
  | equal
  | notEqual
  | greater
  | greaterEqual
  | less
  | lessEqual
  | add
  | subtract
  | remainder
  | divide
  | multiply
  deriving DecidableEq, Repr

/-- An operator whose right operand is evaluated only if the left one leaves the question open. -/
inductive LogicalOp
  | or
  | and
  deriving DecidableEq, Repr

/-- The kind of the token that an operator is written as. -/
def UnaryOp.kind : UnaryOp → TokenKind
  | not => .bang
  | negate => .minus

/-- The kind of the token that an operator is written as. -/
def BinaryOp.kind : BinaryOp → TokenKind
  | equal => .equalEqual
  | notEqual => .bangEqual
  | greater => .greater
  | greaterEqual => .greaterEqual
  | less => .less
  | lessEqual => .lessEqual
  | add => .plus
  | subtract => .minus
  | remainder => .percent
  | divide => .slash
  | multiply => .star

/-- The kind of the token that an operator is written as. -/
def LogicalOp.kind : LogicalOp → TokenKind
  | or => .orWord
  | and => .andWord

/-- An operator as it is written. -/
def UnaryOp.symbol (op : UnaryOp) : Text := utf8 op.kind.name

/-- An operator as it is written. -/
def BinaryOp.symbol (op : BinaryOp) : Text := utf8 op.kind.name

/-- An operator as it is written. -/
def LogicalOp.symbol (op : LogicalOp) : Text := utf8 op.kind.name

/-- An operator between two operands. -/
inductive InfixOp
  | logical (op : LogicalOp)
  | binary (op : BinaryOp)
  deriving DecidableEq, Repr

/-- The levels of operators between two operands, from the loosest to the tightest. -/
inductive Level
  | disjunction
  | conjunction
  | equality
  | comparison
  | sum
  | product
  deriving DecidableEq, Repr

/-- The level whose expressions are the operands of a level. Operands of the tightest level have no
such operators. -/
def Level.tighter : Level → Option Level
  | disjunction => some conjunction
  | conjunction => some equality
  | equality => some comparison
  | comparison => some sum
  | sum => some product
  | product => none

/-- The operator of a level that a token of a kind is. -/
def Level.operator? : Level → TokenKind → Option InfixOp
  | disjunction, .orWord => some (.logical .or)
  | conjunction, .andWord => some (.logical .and)
  | equality, .equalEqual => some (.binary .equal)
  | equality, .bangEqual => some (.binary .notEqual)
  | comparison, .greater => some (.binary .greater)
  | comparison, .greaterEqual => some (.binary .greaterEqual)
  | comparison, .less => some (.binary .less)
  | comparison, .lessEqual => some (.binary .lessEqual)
  | sum, .plus => some (.binary .add)
  | sum, .minus => some (.binary .subtract)
  | sum, .percent => some (.binary .remainder)
  | product, .slash => some (.binary .divide)
  | product, .star => some (.binary .multiply)
  | _, _ => none

/-- The operator before an operand that a token of a kind is. -/
def UnaryOp.ofKind? : TokenKind → Option UnaryOp
  | .bang => some not
  | .minus => some negate
  | _ => none

end Lox
