import Mathlib
import Lox.Syntax.Program

/-!
# The grammar

The grammar of programs as a relation between a symbol, the tokens it generates and the tree they
stand for, one rule a constructor. The rules say nothing of how tokens are read: a word of the
grammar is put together from the words of its parts, and nothing is said of what comes next.

Three things depend on the place where they stand. A statement that starts with a brace is a block,
so an expression that is a statement starts with none. The head of a loop without parentheses ends
at the brace of its body, so what the loop evaluates after its body starts with none. And `super` by
itself is only ever called.

A function literal that is a statement may end without a semicolon, and that makes the grammar
ambiguous: before a minus sign the statement may end, or go on as a difference. A **greedy**
derivation takes the sign, and leaves the semicolon after a function literal to be a statement of
its own. The grammar is the relation `Derives false`; greedy derivations are those of `Derives
true`.
-/

namespace Lox

namespace Grammar

/-- A conditional that does something in one of its branches. -/
def branchOf (condition : Expr) : Option Stmt → Option Stmt → Option Stmt
  | none, none => none
  | thenBranch, elseBranch => some (.branch condition thenBranch elseBranch)

/-- A loop that has a body. One that declares a name is a block of the declaration and the loop. -/
def loopOf (init : Option Stmt) (condition closer : Option Expr) : Option Stmt → Option Stmt
  | none => none
  | some body =>
    match init with
    | none => some (.loop condition body closer)
    | some declaration => some (.block [declaration, .loop condition body closer])

/-- The assignment of a value to what can be assigned to: a name, a property or an element. -/
def assignTo : Expr → Expr → Option Expr
  | .var use, value => some (.assign use value)
  | .get object name, value => some (.set object name value)
  | .getKey object paren key, value => some (.setKey object paren key value)
  | .index object index blame, value => some (.setIndex object index blame value)
  | _, _ => none

/-- Whether an expression is a function literal. -/
def isLambda : Expr → Bool
  | .lambda .. => true
  | _ => false

/-- Whether a statement is a function literal. -/
def isFunctionStatement : Option Stmt → Bool
  | some (.evaluate e) => isLambda e
  | _ => false

/-- Whether the first of some tokens is of a kind. -/
def startsWith (kind : TokenKind) (w : List Token) : Bool := w.head?.map Token.kind == some kind

/-- The name that a token spells. -/
def identOf (t : Token) : Ident := ⟨t.lexeme, t.span⟩

/-- The literal that a token of a kind stands for. -/
def literalOf? (t : Token) : Option Literal :=
  match t.kind with
  | .falseWord => some (.bool false)
  | .trueWord => some (.bool true)
  | .nilWord => some .nil
  | .number => some (.number t.numberValue)
  | .string => some (.string t.content)
  | .char => some (.char t.charValue)
  | _ => none

/-- The symbols of the grammar. A function is told apart by the span that it is known by. -/
inductive Symbol
  | statements
  | statement
  | block
  | binding (mutable : Bool)
  | conditional
  | alternative
  | loopStart
  | loopCondition
  | loopCloser
  | extension
  | methods
  | function (keyword : Span)
  | parameters
  | expression
  | level (l : Level)
  | operand (l : Level)
  | unary
  | chain
  | primary
  | expressions
  | fields
  | field

/-- What the words of a symbol stand for. -/
@[reducible] def Symbol.Tree : Symbol → Type
  | statements | block => List Stmt
  | statement | conditional | alternative | loopStart => Option Stmt
  | binding _ => Stmt
  | loopCondition | loopCloser => Option Expr
  | extension => Option NameUse
  | methods => List Method
  | function _ => Function
  | parameters => List Ident
  | expression | level _ | operand _ | unary | chain | primary => Expr
  | expressions => List Expr
  | fields => List Field
  | field => Field

/-- A word of a symbol and the tree that it stands for. -/
inductive Derives (greedy : Bool) : (n : Symbol) → List Token → n.Tree → Prop
  -- Lists of statements.
  | noStatement : Derives greedy .statements [] []
  | statements {w w' : List Token} {s : Option Stmt} {ss : List Stmt} :
      Derives greedy .statement w s → Derives greedy .statements w' ss →
      (greedy → isFunctionStatement s → startsWith .minus w' = false) →
      Derives greedy .statements (w ++ w') (s.toList ++ ss)
  | block {opening closing : Token} {w : List Token} {body : List Stmt} :
      opening.kind = .leftBrace → Derives greedy .statements w body → closing.kind = .rightBrace →
      Derives greedy .block (opening :: (w ++ [closing])) body
  -- Statements.
  | letStatement {word : Token} {w : List Token} {s : Stmt} : word.kind = .letWord →
      Derives greedy (.binding true) w s → Derives greedy .statement (word :: w) (some s)
  | constStatement {word : Token} {w : List Token} {s : Stmt} : word.kind = .constWord →
      Derives greedy (.binding false) w s → Derives greedy .statement (word :: w) (some s)
  | ifStatement {word : Token} {w : List Token} {s : Option Stmt} : word.kind = .ifWord →
      Derives greedy .conditional w s → Derives greedy .statement (word :: w) s
  | forStatement {word : Token} {w₁ w₂ w₃ w₄ : List Token} {init : Option Stmt}
      {condition closer : Option Expr} {body : List Stmt} : word.kind = .forWord →
      Derives greedy .loopStart w₁ init → Derives greedy .loopCondition w₂ condition →
      Derives greedy .loopCloser w₃ closer → startsWith .leftBrace w₃ = false →
      Derives greedy .block w₄ body →
      Derives greedy .statement (word :: (w₁ ++ (w₂ ++ (w₃ ++ w₄))))
      (loopOf init condition closer (blockOf body))
  | parenForStatement {word opening closing : Token} {w₁ w₂ w₃ w₄ : List Token} {init : Option Stmt}
      {condition closer : Option Expr} {body : List Stmt} :
      word.kind = .forWord → opening.kind = .leftParen → Derives greedy .loopStart w₁ init →
      Derives greedy .loopCondition w₂ condition → Derives greedy .loopCloser w₃ closer →
      closing.kind = .rightParen → Derives greedy .block w₄ body →
      Derives greedy .statement (word :: opening :: (w₁ ++ (w₂ ++ (w₃ ++ closing :: w₄))))
        (loopOf init condition closer (blockOf body))
  | printStatement {word semicolon : Token} {w : List Token} {e : Expr} :
      word.kind = .printWord → Derives greedy .expression w e → semicolon.kind = .semicolon →
      Derives greedy .statement (word :: (w ++ [semicolon])) (some (.print e))
  | classStatement {word name opening closing : Token} {w₁ w₂ : List Token}
      {superclass : Option NameUse}
      {methods : List Method} :
      word.kind = .classWord → name.kind = .identifier → Derives greedy .extension w₁ superclass →
      opening.kind = .leftBrace → Derives greedy .methods w₂ methods → closing.kind = .rightBrace →
      Derives greedy .statement (word :: name :: (w₁ ++ opening :: (w₂ ++ [closing])))
        (some (.classDecl (identOf name) superclass methods))
  | blockStatement {w : List Token} {body : List Stmt} :
      Derives greedy .block w body → Derives greedy .statement w (blockOf body)
  | breakStatement {word semicolon : Token} :
      word.kind = .breakWord → semicolon.kind = .semicolon →
      Derives greedy .statement [word, semicolon] (some (.brk word.span))
  | continueStatement {word semicolon : Token} :
      word.kind = .continueWord → semicolon.kind = .semicolon →
      Derives greedy .statement [word, semicolon] (some (.cont word.span))
  | bareReturn {word semicolon : Token} :
      word.kind = .returnWord → semicolon.kind = .semicolon →
      Derives greedy .statement [word, semicolon] (some (.ret word.span none))
  | returnStatement {word semicolon : Token} {w : List Token} {e : Expr} :
      word.kind = .returnWord → Derives greedy .expression w e → semicolon.kind = .semicolon →
      Derives greedy .statement (word :: (w ++ [semicolon])) (some (.ret word.span (some e)))
  | emptyStatement {semicolon : Token} :
      semicolon.kind = .semicolon → Derives greedy .statement [semicolon] none
  | expressionStatement {semicolon : Token} {w : List Token} {e : Expr} :
      Derives greedy .expression w e → startsWith .leftBrace w = false →
      semicolon.kind = .semicolon → (greedy → isLambda e = false) →
      Derives greedy .statement (w ++ [semicolon]) (some (.evaluate e))
  | functionStatement {w : List Token} {e : Expr} :
      Derives greedy .expression w e → isLambda e → Derives greedy .statement w (some (.evaluate e))
  -- Parts of statements.
  | bareBinding {mutable : Bool} {name semicolon : Token} :
      name.kind = .identifier → semicolon.kind = .semicolon →
      Derives greedy (.binding mutable) [name, semicolon] (.declare mutable (identOf name) none)
  | binding {mutable : Bool} {name equal semicolon : Token} {w : List Token} {e : Expr} :
      name.kind = .identifier → equal.kind = .equal → Derives greedy .expression w e →
      semicolon.kind = .semicolon →
      Derives greedy (.binding mutable) (name :: equal :: (w ++ [semicolon]))
      (.declare mutable (identOf name) (some e))
  | conditional {w₁ w₂ w₃ : List Token} {condition : Expr} {body : List Stmt}
      {elseBranch : Option Stmt} : Derives greedy .expression w₁ condition →
      Derives greedy .block w₂ body → Derives greedy .alternative w₃ elseBranch →
      Derives greedy .conditional (w₁ ++ (w₂ ++ w₃)) (branchOf condition (blockOf body) elseBranch)
  | noAlternative : Derives greedy .alternative [] none
  | elseIf {elseWord ifWord : Token} {w : List Token} {s : Option Stmt} :
      elseWord.kind = .elseWord → ifWord.kind = .ifWord → Derives greedy .conditional w s →
      Derives greedy .alternative (elseWord :: ifWord :: w) s
  | elseBlock {elseWord : Token} {w : List Token} {body : List Stmt} :
      elseWord.kind = .elseWord → Derives greedy .block w body →
      Derives greedy .alternative (elseWord :: w) (blockOf body)
  | noLoopStart {semicolon : Token} :
      semicolon.kind = .semicolon → Derives greedy .loopStart [semicolon] none
  | letLoopStart {word : Token} {w : List Token} {s : Stmt} : word.kind = .letWord →
      Derives greedy (.binding true) w s → Derives greedy .loopStart (word :: w) (some s)
  | constLoopStart {word : Token} {w : List Token} {s : Stmt} : word.kind = .constWord →
      Derives greedy (.binding false) w s → Derives greedy .loopStart (word :: w) (some s)
  | noLoopCondition {semicolon : Token} :
      semicolon.kind = .semicolon → Derives greedy .loopCondition [semicolon] none
  | loopCondition {semicolon : Token} {w : List Token} {e : Expr} :
      Derives greedy .expression w e → semicolon.kind = .semicolon →
      Derives greedy .loopCondition (w ++ [semicolon]) (some e)
  | noLoopCloser : Derives greedy .loopCloser [] none
  | loopCloser {w : List Token} {e : Expr} :
      Derives greedy .expression w e → Derives greedy .loopCloser w (some e)
  | noExtension : Derives greedy .extension [] none
  | extension {word name : Token} :
      word.kind = .extendsWord → name.kind = .identifier →
      Derives greedy .extension [word, name] (some ⟨identOf name, none⟩)
  | noMethod : Derives greedy .methods [] []
  | methods {name : Token} {w w' : List Token} {f : Function} {ms : List Method} :
      name.kind = .identifier → Derives greedy (.function name.span) w f →
      Derives greedy .methods w' ms →
      Derives greedy .methods (name :: (w ++ w')) (.mk (identOf name) f :: ms)
  -- Functions.
  | function {keyword : Span} {opening closing : Token} {w₁ w₂ : List Token} {params : List Ident}
      {body : List Stmt} : opening.kind = .leftParen → Derives greedy .parameters w₁ params →
      params.length ≤ maxParameters → closing.kind = .rightParen → Derives greedy .block w₂ body →
      Derives greedy (.function keyword) (opening :: (w₁ ++ closing :: w₂))
      (.mk keyword 0 params body)
  | noParameter : Derives greedy .parameters [] []
  | lastParameter {name : Token} :
      name.kind = .identifier → Derives greedy .parameters [name] [identOf name]
  | parameters {name comma : Token} {w : List Token} {ps : List Ident} :
      name.kind = .identifier → comma.kind = .comma → Derives greedy .parameters w ps →
      Derives greedy .parameters (name :: comma :: w) (identOf name :: ps)
  -- Expressions.
  | plain {w : List Token} {e : Expr} : Derives greedy (.level .disjunction) w e →
      Derives greedy .expression w e
  | assignment {equal : Token} {w w' : List Token} {target value e : Expr} :
      Derives greedy (.level .disjunction) w target → equal.kind = .equal →
      Derives greedy .expression w' value → assignTo target value = some e →
      Derives greedy .expression (w ++ equal :: w') e
  | firstOperand {l : Level} {w : List Token} {e : Expr} :
      Derives greedy (.operand l) w e → Derives greedy (.level l) w e
  | infixOperator {l : Level} {operator : Token} {w w' : List Token} {left right : Expr}
      {op : InfixOp} : Derives greedy (.level l) w left → l.operator? operator.kind = some op →
      Derives greedy (.operand l) w' right →
      Derives greedy (.level l) (w ++ operator :: w') (combine op operator.span left right)
  | tighterOperand {l tighter : Level} {w : List Token} {e : Expr} : l.tighter = some tighter →
      Derives greedy (.level tighter) w e → Derives greedy (.operand l) w e
  | unaryOperand {l : Level} {w : List Token} {e : Expr} :
      l.tighter = none → Derives greedy .unary w e → Derives greedy (.operand l) w e
  | unaryOperator {operator : Token} {w : List Token} {e : Expr} {op : UnaryOp} :
      UnaryOp.ofKind? operator.kind = some op → Derives greedy .unary w e →
      Derives greedy .unary (operator :: w) (.unary op operator.span e)
  | functionLiteral {word : Token} {w : List Token} {f : Function} :
      word.kind = .funWord → Derives greedy (.function word.span) w f →
      Derives greedy .unary (word :: w) (.lambda none f)
  | namedFunctionLiteral {word name : Token} {w : List Token} {f : Function} :
      word.kind = .funWord → name.kind = .identifier → Derives greedy (.function word.span) w f →
      Derives greedy .unary (word :: name :: w) (.lambda (some (identOf name)) f)
  | unaryChain {w : List Token} {e : Expr} : Derives greedy .chain w e → Derives greedy .unary w e
  -- Chains of calls, property accesses and subscripts.
  | chainStart {w : List Token} {e : Expr} : Derives greedy .primary w e → Derives greedy .chain w e
  | superCall {word opening closing : Token} {w : List Token} {arguments : List Expr} :
      word.kind = .superWord → opening.kind = .leftParen → Derives greedy .expressions w arguments →
      arguments.length ≤ maxParameters → closing.kind = .rightParen →
      Derives greedy .chain (word :: opening :: (w ++ [closing]))
        (.call (.superRef word.span ⟨constructorName, word.span⟩ none) arguments closing.span)
  | call {opening closing : Token} {w w' : List Token} {callee : Expr} {arguments : List Expr} :
      Derives greedy .chain w callee → opening.kind = .leftParen →
      Derives greedy .expressions w' arguments → arguments.length ≤ maxParameters →
      closing.kind = .rightParen →
      Derives greedy .chain (w ++ opening :: (w' ++ [closing]))
      (.call callee arguments closing.span)
  | property {dot name : Token} {w : List Token} {object : Expr} :
      Derives greedy .chain w object → dot.kind = .dot → name.kind = .identifier →
      Derives greedy .chain (w ++ [dot, name]) (.get object (identOf name))
  | computedProperty {dot opening closing : Token} {w w' : List Token} {object key : Expr} :
      Derives greedy .chain w object → dot.kind = .dot → opening.kind = .leftParen →
      Derives greedy .expression w' key → closing.kind = .rightParen →
      Derives greedy .chain (w ++ dot :: opening :: (w' ++ [closing]))
      (.getKey object opening.span key)
  | subscript {opening closing : Token} {w w' : List Token} {object index : Expr} :
      Derives greedy .chain w object → opening.kind = .leftBracket →
      Derives greedy .expression w' index → closing.kind = .rightBracket →
      Derives greedy .chain (w ++ opening :: (w' ++ [closing]))
      (.index object index (opening.span.through closing.span))
  -- Primaries.
  | literal {t : Token} {value : Literal} :
      literalOf? t = some value → Derives greedy .primary [t] (.literal value)
  | variableUse {name : Token} :
      name.kind = .identifier → Derives greedy .primary [name] (.var ⟨identOf name, none⟩)
  | grouping {opening closing : Token} {w : List Token} {e : Expr} :
      opening.kind = .leftParen → Derives greedy .expression w e → closing.kind = .rightParen →
      Derives greedy .primary (opening :: (w ++ [closing])) (.grouping e)
  | thisUse {word : Token} :
      word.kind = .thisWord → Derives greedy .primary [word] (.thisRef word.span none)
  | superMethod {word dot name : Token} :
      word.kind = .superWord → dot.kind = .dot → name.kind = .identifier →
      Derives greedy .primary [word, dot, name] (.superRef word.span (identOf name) none)
  | list {opening closing : Token} {w : List Token} {elements : List Expr} :
      opening.kind = .leftBracket → Derives greedy .expressions w elements → closing.kind =
      .rightBracket → Derives greedy .primary (opening :: (w ++ [closing])) (.list elements)
  | object {opening closing : Token} {w : List Token} {fields : List Field} :
      opening.kind = .leftBrace → Derives greedy .fields w fields → closing.kind = .rightBrace →
      Derives greedy .primary (opening :: (w ++ [closing])) (.object fields)
  -- Lists inside brackets. A comma may follow the last member.
  | noExpression : Derives greedy .expressions [] []
  | lastExpression {w : List Token} {e : Expr} :
      Derives greedy .expression w e → Derives greedy .expressions w [e]
  | expressions {comma : Token} {w w' : List Token} {e : Expr} {es : List Expr} :
      Derives greedy .expression w e → comma.kind = .comma → Derives greedy .expressions w' es →
      Derives greedy .expressions (w ++ comma :: w') (e :: es)
  | noField : Derives greedy .fields [] []
  | lastField {w : List Token} {f : Field} :
      Derives greedy .field w f → Derives greedy .fields w [f]
  | fields {comma : Token} {w w' : List Token} {f : Field} {fs : List Field} :
      Derives greedy .field w f → comma.kind = .comma → Derives greedy .fields w' fs →
      Derives greedy .fields (w ++ comma :: w') (f :: fs)
  | namedField {name colon : Token} {w : List Token} {e : Expr} :
      name.kind = .identifier → colon.kind = .colon → Derives greedy .expression w e →
      Derives greedy .field (name :: colon :: w) (.mk name.lexeme e)
  | quotedField {name colon : Token} {w : List Token} {e : Expr} :
      name.kind = .string → colon.kind = .colon → Derives greedy .expression w e →
      Derives greedy .field (name :: colon :: w) (.mk name.content e)
  | shortField {name : Token} : name.kind = .identifier →
      Derives greedy .field [name] (.mk name.lexeme (.var ⟨identOf name, none⟩))

/-- A program of the grammar, and the statements that it stands for. -/
def Generates (ts : List Token) (program : List Stmt) : Prop := Derives false .statements ts program

end Grammar

end Lox
