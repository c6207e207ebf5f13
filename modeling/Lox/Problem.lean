import Lox.Syntax.Operator
import Lox.Value.Kind

/-!
# Problems

A problem is the cause of a diagnostic, one type for each stage of a run. The wording of all of them
is in the four `message` functions here and nowhere else.
-/

namespace Lox

/-- What is wrong with a lexeme that is no token. -/
inductive ScanProblem
  | unexpected (c : Char)
  | malformedNumber
  | unterminatedString
  | unterminatedChar
  | unclosedChar
  deriving DecidableEq, Repr

/-- The wording of a problem with a lexeme. -/
def ScanProblem.message : ScanProblem → Text
  | unexpected c => utf8 "Unexpected character " ++ Quoted.char c
  | malformedNumber => utf8 "Malformed number literal"
  | unterminatedString => utf8 "Unterminated string literal"
  | unterminatedChar => utf8 "Unterminated char literal"
  | unclosedChar => utf8 "Expected closing ' after char"

/-- The most parameters that a function takes, and the most arguments of a call. -/
def maxParameters : Nat := 255

/-- Why a statement cannot be read on. -/
inductive ParseProblem
  | expected (kind : TokenKind)
  | identifier
  | thenBlock
  | elseBlock
  | loopStart
  | loopBody
  | className
  | methodName
  | parameterName
  | tooManyParameters
  | tooManyArguments
  | property
  | propertyName
  | stringShorthand
  | expression
  | superUse
  | superMethod
  | target (what : String)
  deriving DecidableEq, Repr

/-- The wording of a problem with a statement. -/
def ParseProblem.message : ParseProblem → Text
  | expected kind => kind.expected
  | identifier => utf8 "Expected identifier"
  | thenBlock => utf8 "Expected then block"
  | elseBlock => utf8 "Expected `\x7b` or `if` after `else`"
  | loopStart => utf8 "Expected `let`, `const`, or `;` to omit declaration"
  | loopBody => utf8 "Expected for's body"
  | className => utf8 "Expected class name"
  | methodName => utf8 "Expected method name"
  | parameterName => utf8 "Expected parameter name"
  | tooManyParameters => utf8 "Max number of parameters is " ++ Text.ofNat maxParameters
  | tooManyArguments => utf8 "Max number of arguments is " ++ Text.ofNat maxParameters
  | property => utf8 "Expected identifier or a parenthesized expression to evaluate"
  | propertyName => utf8 "Expected property name"
  | stringShorthand => utf8 "Cannot use short property declaration with string"
  | expression => utf8 "Expected expression"
  | superUse => utf8 "Expected `.` or `(...args)` (constructor call) after `super`"
  | superMethod => utf8 "Expected a superclass method name"
  | target what => utf8 "Invalid l-value. Cannot assign to " ++ utf8 what

/-- What is wrong with a name in its scopes. -/
inductive ResolveProblem
  | undeclared (name : Text)
  | constant (name : Text)
  | selfInheritance
  | thisOutsideMethod
  | superOutsideMethod
  | superWithoutSuperclass
  deriving DecidableEq, Repr

/-- The wording of a problem with a name. -/
def ResolveProblem.message : ResolveProblem → Text
  | undeclared name => utf8 "Undeclared identifier `" ++ name ++ utf8 "`"
  | constant name => utf8 "Cannot assign to a const `" ++ name ++ utf8 "`"
  | selfInheritance => utf8 "A class cannot inherit from itself"
  | thisOutsideMethod => utf8 "Cannot use `this` outside of a method"
  | superOutsideMethod => utf8 "Cannot use `super` outside of a method"
  | superWithoutSuperclass => utf8 "Cannot use `super` in a class with no superclass"

/-- Why a program stops before its end. -/
inductive RuntimeProblem
  | breakOutsideLoop
  | continueOutsideLoop
  | returnOutsideFunction
  | superclass (kind : ValueKind)
  | operand (op : UnaryOp) (kind : ValueKind)
  | operands (op : BinaryOp) (left right : ValueKind)
  | strings (op : BinaryOp)
  | callee (kind : ValueKind)
  | tooManyArguments (expected got : Nat)
  | notEnoughArguments (expected got : Nat)
  | callDepth
  | noProperties (kind : ValueKind)
  | undefinedProperty (name : Text)
  | notIndexable (kind : ValueKind)
  | stringAssignment
  | indexKind (kind : ValueKind)
  | indexFraction (index : Float)
  | indexNegative (index : Float)
  | indexRange (index : Float) (length : Nat)
  | constant (kind : ValueKind) (name : Text)
  | numberArgument (kind : ValueKind)
  | charArgument (kind : ValueKind)
  | listArgument (position : Nat) (kind : ValueKind)
  | lengthArgument (kind : ValueKind)
  | expandArgument (kind : ValueKind)
  | hasArguments (whole part : ValueKind)
  | unsetArguments (whole part : ValueKind)
  | numericArgument (native : String) (kind : ValueKind)
  | console (message : Text)

/-- The wording of a reason to stop. -/
def RuntimeProblem.message : RuntimeProblem → Text
  | breakOutsideLoop => utf8 "Cannot use `break` outside of a loop"
  | continueOutsideLoop => utf8 "Cannot use `continue` outside of a loop"
  | returnOutsideFunction => utf8 "Cannot use `return` outside of a function"
  | superclass kind => utf8 "Cannot inherit from " ++ utf8 kind.name
  | operand op kind => utf8 "Cannot use `" ++ op.symbol ++ utf8 "` on " ++ utf8 kind.name
  | operands op left right =>
    utf8 "Cannot use `" ++ op.symbol ++ utf8 "` on " ++ utf8 left.name ++ utf8 " and " ++
      utf8 right.name
  | strings op => utf8 "You cannot use `" ++ op.symbol ++ utf8 "` on two strings. Did you mean `+`?"
  | callee kind => utf8 "Cannot call " ++ utf8 kind.name
  | tooManyArguments expected got =>
    utf8 "Too many arguments (expected " ++ Text.ofNat expected ++ utf8 ", got " ++
      Text.ofNat got ++ utf8 ")"
  | notEnoughArguments expected got =>
    utf8 "Not enough arguments (expected " ++ Text.ofNat expected ++ utf8 ", got " ++
      Text.ofNat got ++ utf8 ")"
  | callDepth => utf8 "Maximum call depth exceeded"
  | noProperties kind => utf8 "Cannot access properties of " ++ utf8 kind.name
  | undefinedProperty name => utf8 "Undefined property `" ++ name ++ utf8 "`"
  | notIndexable kind => utf8 "Cannot index into " ++ utf8 kind.name
  | stringAssignment => utf8 "Cannot assign into a string, strings are immutable"
  | indexKind kind => utf8 "Index must be a number, got " ++ utf8 kind.name
  | indexFraction index => utf8 "Index must be an integer, got " ++ Numeral.write index
  | indexNegative index => utf8 "Index must not be negative, got " ++ Numeral.write index
  | indexRange index length =>
    utf8 "Index " ++ Numeral.write index ++ utf8 " out of range for length " ++ Text.ofNat length
  | constant kind name =>
    utf8 "Cannot reassign a const " ++ utf8 kind.name ++ utf8 " `" ++ name ++ utf8 "`"
  | numberArgument kind => utf8 "Can't parse " ++ utf8 kind.name ++ utf8 " to number"
  | charArgument kind => utf8 "Cannot convert from " ++ utf8 kind.name ++ utf8 " to char"
  | listArgument position kind =>
    utf8 "Expected a list as argument " ++ Text.ofNat position ++ utf8 ", got " ++ utf8 kind.name
  | lengthArgument kind => utf8 "Can't get length of " ++ utf8 kind.name
  | expandArgument kind => utf8 "Can't use expand on " ++ utf8 kind.name
  | hasArguments whole part =>
    utf8 "Cannot use has with " ++ utf8 whole.name ++ utf8 " and " ++ utf8 part.name
  | unsetArguments whole part =>
    utf8 "Cannot use unset with " ++ utf8 whole.name ++ utf8 " and " ++ utf8 part.name
  | numericArgument native kind =>
    utf8 "Cannot use " ++ utf8 native ++ utf8 " on " ++ utf8 kind.name
  | console message => message

end Lox
