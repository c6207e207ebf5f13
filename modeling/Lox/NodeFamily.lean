import Lox.Text.Blank
import Lox.Text.Lowercase

/-!
# Families of tree nodes

The declarations of a family of tree nodes are written out from a table with a line for each kind of
node: its name, a colon, and its fields with commas between them. A family has an interface that all
of its nodes meet, and a visitor with one method for each kind of node.

They are written in two ways. **Raw**, each part is followed by an empty line. **Aligned**, the
types of the fields of a node stand below each other, and nothing follows the last part.
-/

namespace Lox

/-- A kind of node: its name and its fields, each a name and a type. -/
structure NodeKind where
  name : Text
  fields : List Text
  deriving DecidableEq, Repr

namespace NodeKind

/-- The kind of node on a line of a table. Nothing without a name or without a colon; a second colon
ends the line. -/
def read? (line : Text) : Option NodeKind :=
  match Text.splitOn 0x3A line with
  | name :: fields :: _ =>
    if name.trim.isEmpty then none
      else some ⟨name.trim, (Text.splitOn 0x2C fields.trim).map Text.trim⟩
  | _ => none

/-- The name of the type of a node: the first byte stands for the character with its number, in
lower case. -/
def typeName (family : Text) (k : NodeKind) : Text :=
  match k.name with
  | [] => family
  | first :: rest => Text.encode (lowerChar (Char.ofNat first.toNat)) ++ rest ++ family

/-- The name of the visitor's method. -/
def visitName (family : Text) (k : NodeKind) : Text := utf8 "visit" ++ k.name ++ family

/-- The longest name of a field. -/
def widest (k : NodeKind) : Nat :=
  (k.fields.map fun f => (f.takeWhile (· != 0x20)).length).foldl max 0

/-- A field with its type in the column after the longest name. -/
def alignField (width : Nat) (field : Text) : Text :=
  let name := field.takeWhile (· != 0x20)
  match field.dropWhile (· != 0x20) with
  | [] => name
  | _ :: type => name ++ List.replicate (width + 1 - name.length) 0x20 ++ type

/-- The fields as they are written. -/
def written (aligned : Bool) (k : NodeKind) : List Text :=
  if aligned then k.fields.map (alignField k.widest) else k.fields

end NodeKind

/-- A family of nodes. -/
structure NodeFamily where
  name : Text
  kinds : List NodeKind
  deriving DecidableEq, Repr

namespace NodeFamily

/-- The family with a name and the lines of a table. Nothing if a line says no kind of node. -/
def read? (name : Text) (lines : List Text) : Option NodeFamily :=
  (lines.mapM NodeKind.read?).map (NodeFamily.mk name)

/-- The name of the interface. -/
def interfaceName (f : NodeFamily) : Text := f.name.lower

/-- The name of the visitor. -/
def visitorName (f : NodeFamily) : Text := f.interfaceName ++ utf8 "Visitor"

/-- A part with lines between braces. -/
def braced (head : Text) (lines : List Text) : Text :=
  head ++ utf8 " \x7b\n" ++
    lines.flatMap (fun line => utf8 "\t" ++ line ++ utf8 "\n") ++ utf8 "\x7d"

/-- The interface. -/
def interfacePart (f : NodeFamily) : Text :=
  braced (utf8 "type " ++ f.interfaceName ++ utf8 " interface")
    [utf8 "accept(" ++ f.visitorName ++ utf8 ") (R, error)"]

/-- The visitor. -/
def visitorPart (f : NodeFamily) : Text :=
  braced (utf8 "type " ++ f.visitorName ++ utf8 " interface") (f.kinds.map fun k =>
    k.visitName f.name ++ utf8 "(" ++ f.interfaceName ++ utf8 " *" ++ k.typeName f.name ++
      utf8 ") (R, error)")

/-- The type of a kind of node, and its method. -/
def kindParts (f : NodeFamily) (aligned : Bool) (k : NodeKind) : List Text :=
  [braced (utf8 "type " ++ k.typeName f.name ++ utf8 " struct") (k.written aligned),
    braced (utf8 "func (s *" ++ k.typeName f.name ++ utf8 ") accept(visitor " ++ f.visitorName ++
      utf8 ") (R, error)")
      [utf8 "return visitor." ++ k.visitName f.name ++ utf8 "(s)"]]

/-- The parts of the text. -/
def parts (f : NodeFamily) (aligned : Bool) : List Text :=
  utf8 "// Code generated by cmd/ast; DO NOT EDIT." :: utf8 "package internal" :: f.interfacePart ::
    f.visitorPart :: f.kinds.flatMap (f.kindParts aligned)

/-- The declarations, raw. -/
def raw (f : NodeFamily) : Text := (f.parts false).flatMap fun part => part ++ utf8 "\n\n"

/-- The declarations, aligned. -/
def aligned (f : NodeFamily) : Text := Text.join (utf8 "\n\n") (f.parts true) ++ utf8 "\n"

/-! ## The families of the interpreter's trees -/

/-- The table of expressions. -/
def exprTable : List String :=
  ["Literal: value interface\x7b\x7d",
    "Grouping: expression expr",
    "Unary: operator *token, right expr",
    "Binary: left expr, operator *token, right expr",
    "Logical: left expr, operator *token, right expr",
    "Variable: name *token, depth int",
    "Assign: name *token, value expr, depth int",
    "Call: callee expr, paren *token, arguments []expr",
    "Function: keyword *token, name *token, params []*token, body []stmt",
    "Get: object expr, name *token, key expr",
    "Access: object expr, brace *token, index expr",
    "Set: target expr, equal *token, value expr",
    "This: keyword *token, depth int",
    "Super: keyword *token, method *token, depth int",
    "Object: brace *token, keys []string, values []expr",
    "List: brace *token, elements []expr"]

/-- The table of statements. -/
def stmtTable : List String :=
  ["Expr: expression expr",
    "Print: keyword *token, expression expr",
    "Let: name *token, initializer expr, mutable bool",
    "Block: stmts []stmt",
    "If: keyword *token, condition expr, thenBranch stmt, elseBranch stmt",
    "For: keyword *token, condition expr, body stmt, closer stmt",
    "Return: keyword *token, value expr",
    "Break: keyword *token",
    "Continue: keyword *token",
    "Class: name *token, superclass *variableExpr, methods []*functionExpr"]

/-- The table of the family with a name. -/
def table? (name : Text) : Option (List Text) :=
  if name == utf8 "Expr" then some (exprTable.map utf8)
  else if name == utf8 "Stmt" then some (stmtTable.map utf8)
  else none

/-- The family with a name, from its own table. -/
def ofName? (name : Text) : Option NodeFamily := (table? name).bind (read? name)

end NodeFamily

end Lox
