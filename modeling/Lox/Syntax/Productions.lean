import Lox.Syntax.Parse

/-!
# Productions

The grammar, one production a function. A production that starts with a word or a bracket is called
with that token read. All of them look one token ahead and never go back.

Loosest to tightest, expressions are: assignments, which group to the right; the levels of operators
between operands, which group to the left; operators before an operand; function literals, which
take no call; chains of calls, property accesses and subscripts; primaries.
-/

namespace Lox.Grammar

open Parse

/-- A block that holds statements. An empty one is no statement. -/
def blockOf : List Stmt → Option Stmt
  | [] => none
  | body => some (.block body)

/-- The expression of an operator between two operands. -/
def combine (op : InfixOp) (blame : Span) (left right : Expr) : Expr :=
  match op with
  | .logical o => .logical o left right
  | .binary o => .binary o blame left right

/-- The names of parameters up to the closing parenthesis, of which some have been read. A comma may
follow the last. -/
def parameters : Nat → Nat → Parse (List Ident)
  | 0, _ => exhausted
  | n + 1, count => do
    if ← sees .rightParen then return []
    else if maxParameters ≤ count then failHere .tooManyParameters
    else
      let name ← ident .parameterName
      match ← accept .comma with
      | some _ => return name :: (← parameters n (count + 1))
      | none => return [name]

/-- The closing parenthesis that an opening one asks for. -/
def closeIf : Option Token → Parse Unit
  | none => pure ()
  | some _ => do
    let _ ← mark .rightParen
    return ()

/-- The name after the word that a class extends another with, if the word is there. -/
def extension : Parse (Option NameUse) := do
  match ← accept .extendsWord with
  | none => return none
  | some _ =>
    let name ← ident .identifier
    return some ⟨name, none⟩

mutual

/-- A statement. Nothing stands for one that has no effect: a semicolon alone, an empty block, a
loop with an empty body, a conditional with empty branches. -/
def statement : Nat → Parse (Option Stmt)
  | 0 => exhausted
  | n + 1 => do
    match ← peek with
    | none => expressionStatement n
    | some t =>
      match t.kind with
      | .letWord => skip; return some (← binding n true)
      | .constWord => skip; return some (← binding n false)
      | .ifWord => skip; conditional n
      | .forWord => skip; loop n
      | .printWord =>
        skip
        let e ← expression n
        let _ ← mark .semicolon
        return some (.print e)
      | .classWord => skip; classDeclaration n
      | .leftBrace => skip; return blockOf (← block n)
      | .breakWord =>
        skip
        let _ ← mark .semicolon
        return some (.brk t.span)
      | .continueWord =>
        skip
        let _ ← mark .semicolon
        return some (.cont t.span)
      | .returnWord => skip; returnStatement n t.span
      | .semicolon => skip; return none
      | _ => expressionStatement n

/-- An expression as a statement. A function literal needs no semicolon. -/
def expressionStatement : Nat → Parse (Option Stmt)
  | 0 => exhausted
  | n + 1 => do
    let e ← expression n
    match e with
    | .lambda .. => return some (.evaluate e)
    | _ =>
      let _ ← mark .semicolon
      return some (.evaluate e)

/-- The declaration of a name after its word. -/
def binding : Nat → Bool → Parse Stmt
  | 0, _ => exhausted
  | n + 1, mutable => do
    let name ← ident .identifier
    match ← accept .equal with
    | some _ =>
      let init ← expression n
      let _ ← mark .semicolon
      return .declare mutable name (some init)
    | none =>
      let _ ← mark .semicolon
      return .declare mutable name none

/-- A conditional after its word. -/
def conditional : Nat → Parse (Option Stmt)
  | 0 => exhausted
  | n + 1 => do
    let condition ← expression n
    let _ ← expect .leftBrace .thenBlock
    let thenBranch := blockOf (← block n)
    let elseBranch ← alternative n
    match thenBranch, elseBranch with
    | none, none => return none
    | _, _ => return some (.branch condition thenBranch elseBranch)

/-- The other branch of a conditional, if there is one: a block or another conditional. -/
def alternative : Nat → Parse (Option Stmt)
  | 0 => exhausted
  | n + 1 => do
    match ← accept .elseWord with
    | none => return none
    | some _ =>
      match ← accept .ifWord with
      | some _ => conditional n
      | none =>
        let _ ← expect .leftBrace .elseBlock
        return blockOf (← block n)

/-- A loop after its word, with or without parentheses around its head. One that declares a name is
a block of the declaration and the loop. -/
def loop : Nat → Parse (Option Stmt)
  | 0 => exhausted
  | n + 1 => do
    let parens ← accept .leftParen
    let init ← loopStart n
    let condition ← loopCondition n
    let closer ← loopCloser n (if parens.isSome then .rightParen else .leftBrace)
    closeIf parens
    let _ ← expect .leftBrace .loopBody
    match blockOf (← block n), init with
    | none, _ => return none
    | some body, none => return some (.loop condition body closer)
    | some body, some declaration => return some (.block [declaration, .loop condition body closer])

/-- The declaration of a loop, or the semicolon in its place. -/
def loopStart : Nat → Parse (Option Stmt)
  | 0 => exhausted
  | n + 1 => do
    match (← peek).map Token.kind with
    | some .semicolon => skip; return none
    | some .letWord => skip; return some (← binding n true)
    | some .constWord => skip; return some (← binding n false)
    | _ => failHere .loopStart

/-- The condition of a loop, if there is one, and the semicolon after it. -/
def loopCondition : Nat → Parse (Option Expr)
  | 0 => exhausted
  | n + 1 => do
    match ← accept .semicolon with
    | some _ => return none
    | none =>
      let condition ← expression n
      let _ ← mark .semicolon
      return some condition

/-- What a loop evaluates after its body, unless the token that ends the head comes next. -/
def loopCloser : Nat → TokenKind → Parse (Option Expr)
  | 0, _ => exhausted
  | n + 1, ending => do
    if ← sees ending then return none
    else return some (← expression n)

/-- A return after its word. -/
def returnStatement : Nat → Span → Parse (Option Stmt)
  | 0, _ => exhausted
  | n + 1, keyword => do
    if ← sees .semicolon then
      skip
      return some (.ret keyword none)
    else
      let value ← expression n
      let _ ← mark .semicolon
      return some (.ret keyword (some value))

/-- A class after its word. -/
def classDeclaration : Nat → Parse (Option Stmt)
  | 0 => exhausted
  | n + 1 => do
    let name ← ident .className
    let superclass ← extension
    let _ ← mark .leftBrace
    let methods ← methodList n
    let _ ← mark .rightBrace
    return some (.classDecl name superclass methods)

/-- The methods of a class up to its closing brace. -/
def methodList : Nat → Parse (List Method)
  | 0 => exhausted
  | n + 1 => do
    match (← peek).map Token.kind with
    | none | some .rightBrace => return []
    | some _ =>
      let name ← ident .methodName
      let f ← functionRest n name.span
      return .mk name f :: (← methodList n)

/-- The statements of a block, and its closing brace. -/
def block : Nat → Parse (List Stmt)
  | 0 => exhausted
  | n + 1 => do
    let body ← statements n
    let _ ← mark .rightBrace
    return body

/-- Statements up to a closing brace or the end of input. -/
def statements : Nat → Parse (List Stmt)
  | 0 => exhausted
  | n + 1 => do
    match (← peek).map Token.kind with
    | none | some .rightBrace => return []
    | some _ =>
      let s ← statement n
      let rest ← statements n
      return s.toList ++ rest

/-- An expression: an assignment, or an expression of the loosest level. -/
def expression : Nat → Parse Expr
  | 0 => exhausted
  | n + 1 => do
    let target ← climb n .disjunction
    match ← accept .equal with
    | none => return target
    | some equal =>
      match target with
      | .var use => return .assign use (← expression n)
      | .get object name => return .set object name (← expression n)
      | .getKey object paren key => return .setKey object paren key (← expression n)
      | .index object index blame => return .setIndex object index blame (← expression n)
      | other => failAt (.target other.describe) equal.span

/-- Operands of a level with its operators between them. -/
def climb : Nat → Level → Parse Expr
  | 0, _ => exhausted
  | n + 1, level => do
    let left ← operand n level
    climbRest n level left

/-- More operators of a level and their right operands, after what stands to the left. -/
def climbRest : Nat → Level → Expr → Parse Expr
  | 0, _, _ => exhausted
  | n + 1, level, left => do
    match ← peek with
    | none => return left
    | some t =>
      match level.operator? t.kind with
      | none => return left
      | some op =>
        skip
        let right ← operand n level
        climbRest n level (combine op t.span left right)

/-- An operand of a level: an expression of the next tighter one. -/
def operand : Nat → Level → Parse Expr
  | 0, _ => exhausted
  | n + 1, level =>
    match level.tighter with
    | some tighter => climb n tighter
    | none => unary n

/-- Operators before an operand, a function literal, or a chain. -/
def unary : Nat → Parse Expr
  | 0 => exhausted
  | n + 1 => do
    match ← peek with
    | none => chain n
    | some t =>
      match UnaryOp.ofKind? t.kind with
      | some op =>
        skip
        return .unary op t.span (← unary n)
      | none =>
        if t.kind == .funWord then
          skip
          functionLiteral n t.span
        else chain n

/-- A function literal after its word. -/
def functionLiteral : Nat → Span → Parse Expr
  | 0, _ => exhausted
  | n + 1, keyword => do
    let name ← accept .identifier
    let f ← functionRest n keyword
    return .lambda (name.map fun t => ⟨t.lexeme, t.span⟩) f

/-- Parameters and body of a function. -/
def functionRest : Nat → Span → Parse Function
  | 0, _ => exhausted
  | n + 1, keyword => do
    let _ ← mark .leftParen
    let params ← parameters n 0
    let _ ← mark .rightParen
    let _ ← mark .leftBrace
    let body ← block n
    return .mk keyword 0 params body

/-- A primary with the calls, property accesses and subscripts after it. -/
def chain : Nat → Parse Expr
  | 0 => exhausted
  | n + 1 => do
    let e ← primary n
    links n e

/-- Calls, property accesses and subscripts of what stands to the left. -/
def links : Nat → Expr → Parse Expr
  | 0, _ => exhausted
  | n + 1, e => do
    match ← peek with
    | none => return e
    | some t =>
      match t.kind with
      | .leftParen =>
        skip
        let arguments ← argumentList n 0
        let closing ← mark .rightParen
        links n (.call e arguments closing.span)
      | .dot =>
        skip
        let access ← property n e
        links n access
      | .leftBracket =>
        skip
        let index ← expression n
        let closing ← mark .rightBracket
        links n (.index e index (t.span.through closing.span))
      | _ => return e

/-- A property access after its dot: a name, or an expression in parentheses whose value is printed
to make one. -/
def property : Nat → Expr → Parse Expr
  | 0, _ => exhausted
  | n + 1, object => do
    match ← peek with
    | none => failHere .property
    | some t =>
      match t.kind with
      | .identifier =>
        skip
        return .get object ⟨t.lexeme, t.span⟩
      | .leftParen =>
        skip
        let key ← expression n
        let _ ← mark .rightParen
        return .getKey object t.span key
      | _ => failHere .property

/-- Arguments up to the closing parenthesis, of which some have been read. A comma may follow the
last. -/
def argumentList : Nat → Nat → Parse (List Expr)
  | 0, _ => exhausted
  | n + 1, count => do
    if ← sees .rightParen then return []
    else if maxParameters ≤ count then failHere .tooManyArguments
    else
      let e ← expression n
      match ← accept .comma with
      | some _ => return e :: (← argumentList n (count + 1))
      | none => return [e]

/-- A literal, a name, a parenthesized expression, `this`, `super`, a list or an object. -/
def primary : Nat → Parse Expr
  | 0 => exhausted
  | n + 1 => do
    match ← peek with
    | none => failHere .expression
    | some t =>
      match t.kind with
      | .falseWord => skip; return .literal (.bool false)
      | .trueWord => skip; return .literal (.bool true)
      | .nilWord => skip; return .literal .nil
      | .number => skip; return .literal (.number t.numberValue)
      | .string => skip; return .literal (.string t.content)
      | .char => skip; return .literal (.char t.charValue)
      | .identifier => skip; return .var ⟨⟨t.lexeme, t.span⟩, none⟩
      | .leftParen =>
        skip
        let inner ← expression n
        let _ ← mark .rightParen
        return .grouping inner
      | .thisWord => skip; return .thisRef t.span none
      | .leftBracket =>
        skip
        let elements ← elementList n
        let _ ← mark .rightBracket
        return .list elements
      | .leftBrace =>
        skip
        let fields ← fieldList n
        let _ ← mark .rightBrace
        return .object fields
      | .superWord => skip; superUse n t.span
      | _ => failHere .expression

/-- A use of the superclass after its word: a method, or a call of the constructor, whose
parentheses are left for the chain. -/
def superUse : Nat → Span → Parse Expr
  | 0, _ => exhausted
  | _ + 1, keyword => do
    if ← sees .leftParen then return .superRef keyword ⟨constructorName, keyword⟩ none
    else
      match ← accept .dot with
      | none => failAt .superUse keyword
      | some _ =>
        let method ← ident .superMethod
        return .superRef keyword method none

/-- Elements of a list up to its closing bracket. A comma may follow the last. -/
def elementList : Nat → Parse (List Expr)
  | 0 => exhausted
  | n + 1 => do
    if ← sees .rightBracket then return []
    else
      let e ← expression n
      match ← accept .comma with
      | some _ => return e :: (← elementList n)
      | none => return [e]

/-- Properties of an object up to its closing brace. A comma may follow the last. -/
def fieldList : Nat → Parse (List Field)
  | 0 => exhausted
  | n + 1 => do
    if ← sees .rightBrace then return []
    else
      let f ← field n
      match ← accept .comma with
      | some _ => return f :: (← fieldList n)
      | none => return [f]

/-- A property of an object: a name or a string, and its value after a colon. A name alone is also
its value. -/
def field : Nat → Parse Field
  | 0 => exhausted
  | n + 1 => do
    match ← peek with
    | none => failHere .propertyName
    | some t =>
      match t.kind with
      | .identifier =>
        skip
        match ← accept .colon with
        | some _ => return .mk t.lexeme (← expression n)
        | none => return .mk t.lexeme (.var ⟨⟨t.lexeme, t.span⟩, none⟩)
      | .string =>
        skip
        match ← accept .colon with
        | some _ => return .mk t.content (← expression n)
        | none => failAt .stringShorthand t.span
      | _ => failHere .propertyName

end

end Lox.Grammar
