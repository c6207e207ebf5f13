import Lox.Span
import Lox.Text.Quoted
import Lox.Number.Numeral

/-!
# Tokens

A token is a lexeme of a source with its kind and its place. Everything else about it follows from
kind and lexeme: the content of a string, the character of a character literal, the number of a
number literal. The end of input is no token; listings add a line for it.
-/

namespace Lox

/-- The kinds of tokens: marks, names and literals, words. -/
inductive TokenKind
  | leftParen
  | rightParen
  | leftBrace
  | rightBrace
  | leftBracket
  | rightBracket
  | comma
  | dot
  | minus
  | plus
  | percent
  | semicolon
  | colon
  | slash
  | star
  | bang
  | bangEqual
  | equal
  | equalEqual
  | greater
  | greaterEqual
  | less
  | lessEqual
  | identifier
  | string
  | char
  | number
  | andWord
  | classWord
  | elseWord
  | falseWord
  | forWord
  | funWord
  | ifWord
  | nilWord
  | orWord
  | printWord
  | returnWord
  | superWord
  | thisWord
  | trueWord
  | letWord
  | constWord
  | breakWord
  | continueWord
  | extendsWord
  deriving DecidableEq, Repr

namespace TokenKind

/-- The name of a kind: the mark or word itself, or what a name or literal is called. -/
def name : TokenKind → String
  | leftParen => "("
  | rightParen => ")"
  | leftBrace => "\x7b"
  | rightBrace => "\x7d"
  | leftBracket => "["
  | rightBracket => "]"
  | comma => ","
  | dot => "."
  | minus => "-"
  | plus => "+"
  | percent => "%"
  | semicolon => ";"
  | colon => ":"
  | slash => "/"
  | star => "*"
  | bang => "!"
  | bangEqual => "!="
  | equal => "="
  | equalEqual => "=="
  | greater => ">"
  | greaterEqual => ">="
  | less => "<"
  | lessEqual => "<="
  | identifier => "identifier"
  | string => "string"
  | char => "char"
  | number => "number"
  | andWord => "and"
  | classWord => "class"
  | elseWord => "else"
  | falseWord => "false"
  | forWord => "for"
  | funWord => "fun"
  | ifWord => "if"
  | nilWord => "nil"
  | orWord => "or"
  | printWord => "print"
  | returnWord => "return"
  | superWord => "super"
  | thisWord => "this"
  | trueWord => "true"
  | letWord => "let"
  | constWord => "const"
  | breakWord => "break"
  | continueWord => "continue"
  | extendsWord => "extends"

/-- The reserved words. -/
def words : List TokenKind :=
  [andWord, classWord, elseWord, falseWord, forWord, funWord, ifWord, nilWord, orWord, printWord,
    returnWord, superWord, thisWord, trueWord, letWord, constWord, breakWord, continueWord,
    extendsWord]

/-- The kinds that have a code, in the order of their codes from zero. -/
def coded : List TokenKind :=
  [leftParen, rightParen, leftBrace, rightBrace, leftBracket, rightBracket, comma, dot, minus, plus,
    percent, semicolon, colon, slash, star, bang, bangEqual, equal, equalEqual, greater,
    greaterEqual, less, lessEqual, identifier, string, char, number] ++ words

/-- The kind of a lexeme that is spelled like a name: a reserved word or an identifier. -/
def ofName (lexeme : Text) : TokenKind :=
  (words.find? fun k => utf8 k.name == lexeme).getD identifier

/-- Whether a listing shows the lexeme beside the kind. -/
def showsLexeme (k : TokenKind) : Bool := [identifier, string, char, number].contains k

end TokenKind

/-- A lexeme of a source with its kind and its place. -/
structure Token where
  kind : TokenKind
  lexeme : Text
  span : Span
  deriving DecidableEq

namespace Token

/-- What stands between the delimiters of a literal, which are one byte each. -/
def content (t : Token) : Text := (t.lexeme.drop 1).dropLast

/-- The character of a character literal. -/
def charValue (t : Token) : Char := (t.content.chars.head?).getD Scalar.replacement

/-- The number of a number literal, if it is in range. -/
def numberValue? (lexeme : Text) : Option Float :=
  Numeral.literal? (lexeme.takeWhile (· != 0x2E)) ((lexeme.dropWhile (· != 0x2E)).drop 1)

/-- The number of a number literal. -/
def numberValue (t : Token) : Float := (numberValue? t.lexeme).getD 0

/-- The text of the value that a literal stands for. -/
def literal? (t : Token) : Option Text :=
  match t.kind with
  | .number => some (Numeral.write t.numberValue)
  | .string => some t.content
  | .char => some (Text.encode t.charValue)
  | _ => none

end Token

/-! ## Listings -/

/-- One line of a listing: what the token is, and the offsets of its first byte and of the byte
after its last. -/
def listingLine (what : Text) (span : Span) : Text :=
  what ++ utf8 "\tfrom: " ++ Text.ofNat span.offset ++ utf8 "\tto: " ++ Text.ofNat span.stop

/-- What a listing calls a token of a kind. -/
def TokenKind.describe (k : TokenKind) (lexeme : Text) : Text :=
  if k.showsLexeme then utf8 k.name ++ utf8 " " ++ Quoted.text lexeme else utf8 k.name

/-- The line of a token in a listing. -/
def Token.line (t : Token) : Text := listingLine (t.kind.describe t.lexeme) t.span

/-- What a listing calls the end of a source. -/
def endOfInput : Text := utf8 "end of input"

/-! ## Codes

Kinds are numbered from zero in the order of `TokenKind.coded`, and the end of input is minus
one. -/

/-- The kind with a code, if there is one. -/
def TokenKind.ofCode? : Int → Option TokenKind
  | .ofNat n => TokenKind.coded[n]?
  | .negSucc _ => none

/-- What a code stands for. A code of no kind shows itself. -/
def codeName (code : Int) : Text :=
  match TokenKind.ofCode? code with
  | some k => utf8 k.name
  | none => if code == -1 then endOfInput else utf8 "token(" ++ Text.ofInt code ++ utf8 ")"

/-- The line of a listing for a lexeme whose kind is given by a code. -/
def codeLine (code : Int) (lexeme : Text) (span : Span) : Text :=
  match TokenKind.ofCode? code with
  | some k => listingLine (k.describe lexeme) span
  | none => listingLine (codeName code) span

/-- The message that one of some things was expected. There is none for no things. -/
def expectedOneOf : List Text → Option Text
  | [] => none
  | [name] => some (utf8 "Expected: `" ++ name ++ utf8 "`")
  | names =>
    some (utf8 "Expected one of: " ++
      Text.join (utf8 ", ") (names.map fun n => utf8 "`" ++ n ++ utf8 "`"))

/-- The message that a token of a kind was expected. -/
def TokenKind.expected (k : TokenKind) : Text := utf8 "Expected: `" ++ utf8 k.name ++ utf8 "`"

end Lox
