import Lox.Syntax

/-!
# Outlines of trees

A tree written in prefix form between parentheses, one line for a statement. Blocks are `(scope
...)`, absent statements `()`, absent expressions `nil`.
-/

namespace Lox

/-- Parts between parentheses, a space between neighbours. -/
def paren (parts : List Text) : Text := utf8 "(" ++ Text.join (utf8 " ") parts ++ utf8 ")"

/-- A literal in an outline. -/
def Literal.outline : Literal → Text
  | .nil => utf8 "nil"
  | .bool true => utf8 "true"
  | .bool false => utf8 "false"
  | .number x => Numeral.write x
  | .string t => Quoted.text t
  | .char c => utf8 "'" ++ Text.encode c ++ utf8 "'"

/-- The word that declares a name which may be assigned to, or one which may not. -/
def declarationWord (mutable : Bool) : Text := utf8 (if mutable then "let" else "const")

/-- The names of parameters between parentheses. -/
def paramsOutline (params : List Ident) : Text :=
  utf8 "(" ++ Text.join (utf8 ", ") (params.map Ident.name) ++ utf8 ")"

mutual

/-- An expression in an outline. -/
def Expr.outline : Expr → Text
  | .literal value => value.outline
  | .grouping inner => paren [utf8 "group", inner.outline]
  | .unary op _ operand => paren [op.symbol, operand.outline]
  | .binary op _ left right => paren [op.symbol, left.outline, right.outline]
  | .logical op left right => paren [op.symbol, left.outline, right.outline]
  | .var use => use.ident.name
  | .assign use value => paren [utf8 "=", use.ident.name, value.outline]
  | .call callee arguments _ => paren (utf8 "call" :: callee.outline :: outlineExprs arguments)
  | .lambda name function =>
    function.outline (match name with | some n => n.name | none => utf8 "anonymous")
  | .get object name => paren [utf8 ".", object.outline, name.name]
  | .getKey object _ key => paren [utf8 ".", object.outline, paren [key.outline]]
  | .index object index _ => paren [utf8 "[]", object.outline, index.outline]
  | .set object name value =>
    paren [utf8 "=", paren [utf8 ".", object.outline, name.name], value.outline]
  | .setKey object _ key value =>
    paren [utf8 "=", paren [utf8 ".", object.outline, paren [key.outline]], value.outline]
  | .setIndex object index _ value =>
    paren [utf8 "=", paren [utf8 "[]", object.outline, index.outline], value.outline]
  | .thisRef _ _ => utf8 "this"
  | .superRef _ method _ => paren [utf8 "super", method.name]
  | .object fields => paren (utf8 "\x7b\x7d" :: outlineFields fields)
  | .list elements => paren (utf8 "list" :: outlineExprs elements)

/-- Expressions in an outline. -/
def outlineExprs : List Expr → List Text
  | [] => []
  | e :: rest => e.outline :: outlineExprs rest

/-- Properties of an object literal in an outline. -/
def outlineFields : List Field → List Text
  | [] => []
  | .mk key value :: rest => paren [key, value.outline] :: outlineFields rest

/-- A function in an outline, under a name. -/
def Function.outline : Function → Text → Text
  | .mk _ _ params body, name =>
    paren (utf8 "fn" :: name :: paramsOutline params :: outlineStmts body)

/-- Methods in an outline. -/
def outlineMethods : List Method → List Text
  | [] => []
  | .mk name function :: rest => function.outline name.name :: outlineMethods rest

/-- A statement in an outline. -/
def Stmt.outline : Stmt → Text
  | .evaluate e => e.outline
  | .print e => paren [utf8 "print", e.outline]
  | .declare mutable name init =>
    paren [declarationWord mutable, name.name,
      match init with | some e => e.outline | none => utf8 "nil"]
  | .block body => paren (utf8 "scope" :: outlineStmts body)
  | .branch condition thenBranch elseBranch =>
    paren (utf8 "if" :: condition.outline ::
      (match thenBranch with | some s => s.outline | none => utf8 "()") ::
      (match elseBranch with | some s => [s.outline] | none => []))
  | .loop condition body closer =>
    paren [utf8 "for", match condition with | some e => e.outline | none => utf8 "nil",
      match closer with | some e => e.outline | none => utf8 "()", body.outline]
  | .ret _ value => paren (utf8 "return" :: match value with | some e => [e.outline] | none => [])
  | .brk _ => utf8 "(break)"
  | .cont _ => utf8 "(continue)"
  | .classDecl name superclass methods =>
    paren (utf8 "class" :: name.name ::
      (match superclass with | some use => [utf8 "<", use.ident.name] | none => []) ++
      outlineMethods methods)

/-- Statements in an outline. -/
def outlineStmts : List Stmt → List Text
  | [] => []
  | s :: rest => s.outline :: outlineStmts rest

end

/-- The outline of a program, a line for each statement. -/
def outline (program : List Stmt) : Text := Text.join (utf8 "\n") (outlineStmts program)

end Lox
