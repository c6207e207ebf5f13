import Lox.Diagnostic
import Lox.Text.Letter
import Lox.Text.Digit

/-!
# Cutting a source into pieces

A source is cut into **pieces** from left to right: tokens, white space, comments, and lexemes that
are refused. Each piece takes as much as its kind allows and every scalar belongs to one piece, so
the pieces put together are the source. Scanning keeps the tokens, and a diagnostic for each refused
lexeme.

`piece` reads the piece that a list of scalars starts with. `piecesAfter` goes over the list once,
passing over the scalars of the piece that it has just read.
-/

namespace Lox

/-- What a piece of a source is. -/
inductive PieceKind
  | token (kind : TokenKind)
  | blank
  | comment
  | refused (problem : ScanProblem)
  deriving DecidableEq, Repr

/-- A run of scalars of a source with what it is. -/
structure Piece where
  kind : PieceKind
  scalars : List Scalar

namespace Piece

/-- The bytes of a piece. -/
def text (p : Piece) : Text := Scalar.text p.scalars

/-- The marks of one character that start no longer mark. -/
def mark? : Char → Option TokenKind
  | '(' => some .leftParen
  | ')' => some .rightParen
  | '{' => some .leftBrace
  | '}' => some .rightBrace
  | '[' => some .leftBracket
  | ']' => some .rightBracket
  | ',' => some .comma
  | '.' => some .dot
  | '-' => some .minus
  | '+' => some .plus
  | '%' => some .percent
  | ';' => some .semicolon
  | ':' => some .colon
  | '*' => some .star
  | _ => none

/-- The marks that an equals sign may extend: alone, and with it. -/
def extensible? : Char → Option (TokenKind × TokenKind)
  | '!' => some (.bang, .bangEqual)
  | '=' => some (.equal, .equalEqual)
  | '<' => some (.less, .lessEqual)
  | '>' => some (.greater, .greaterEqual)
  | _ => none

/-- Whether a scalar is an ASCII digit. -/
def isDigit (s : Scalar) : Bool := s.char.isDigit

/-- Whether a character may start a name. -/
def startsName (c : Char) : Bool := isLetter c || c == '_'

/-- Whether a character may go on with a name. -/
def continuesName (c : Char) : Bool := startsName c || isDecimalDigit c

/-- Whether a list of scalars starts with a character. -/
def startsWith (c : Char) : List Scalar → Bool
  | [] => false
  | s :: _ => s.char == c

/-- A string from its opening quote on. -/
def string (quote : Scalar) (rest : List Scalar) : Piece :=
  let body := rest.takeWhile fun s => s.char != '"'
  match rest.dropWhile fun s => s.char != '"' with
  | [] => ⟨.refused .unterminatedString, quote :: body⟩
  | closing :: _ => ⟨.token .string, quote :: body ++ [closing]⟩

/-- A character literal from its opening quote on. One that holds no character or more than one is
refused up to its closing quote. -/
def character (quote : Scalar) : List Scalar → Piece
  | [] => ⟨.refused .unterminatedChar, [quote]⟩
  | c :: rest =>
    if c.char == '\'' then ⟨.refused .unclosedChar, [quote, c]⟩
    else
      let body := rest.takeWhile fun s => s.char != '\''
      match body, rest.dropWhile fun s => s.char != '\'' with
      | _, [] => ⟨.refused .unterminatedChar, quote :: c :: body⟩
      | [], closing :: _ => ⟨.token .char, [quote, c, closing]⟩
      | _, closing :: _ => ⟨.refused .unclosedChar, quote :: c :: body ++ [closing]⟩

/-- A point and the digits after it, if there are any. -/
def fraction : List Scalar → List Scalar
  | point :: digit :: rest =>
    if point.char == '.' && isDigit digit then point :: digit :: rest.takeWhile isDigit else []
  | _ => []

/-- A number from its first digit on. A second point with digits after it spoils the number,
together with all digits and points that follow. -/
def number (first : Scalar) (rest : List Scalar) : Piece :=
  let digits := first :: rest.takeWhile isDigit
  let afterDigits := rest.dropWhile isDigit
  let whole := digits ++ fraction afterDigits
  let after := afterDigits.drop (fraction afterDigits).length
  if (fraction after).isEmpty then
    if (Token.numberValue? (Scalar.text whole)).isSome then ⟨.token .number, whole⟩
    else ⟨.refused .malformedNumber, whole⟩
  else ⟨.refused .malformedNumber, whole ++ after.takeWhile fun s => s.char == '.' || isDigit s⟩

/-- A name or a reserved word from its first character on. -/
def name (first : Scalar) (rest : List Scalar) : Piece :=
  let scalars := first :: rest.takeWhile fun s => continuesName s.char
  ⟨.token (.ofName (Scalar.text scalars)), scalars⟩

end Piece

/-- The piece that a list of scalars starts with, given its first scalar and the rest. -/
def piece (s : Scalar) (rest : List Scalar) : Piece :=
  match Piece.mark? s.char, Piece.extensible? s.char with
  | some kind, _ => ⟨.token kind, [s]⟩
  | none, some (short, long) =>
    match rest with
    | next :: _ => if next.char == '=' then ⟨.token long, [s, next]⟩ else ⟨.token short, [s]⟩
    | [] => ⟨.token short, [s]⟩
  | none, none =>
    if s.char == '/' then
      if Piece.startsWith '/' rest then ⟨.comment, s :: rest.takeWhile fun c => c.char != '\n'⟩
      else ⟨.token .slash, [s]⟩
    else if s.char == '"' then Piece.string s rest
    else if s.char == '\'' then Piece.character s rest
    else if isBlank s.char then ⟨.blank, [s]⟩
    else if Piece.isDigit s then Piece.number s rest
    else if Piece.startsName s.char then Piece.name s rest
    else ⟨.refused (.unexpected s.char), [s]⟩

/-- The pieces of a list of scalars whose first members, as many as the number says, belong to a
piece already read. -/
def piecesAfter : Nat → List Scalar → List Piece
  | _, [] => []
  | skip + 1, _ :: rest => piecesAfter skip rest
  | 0, s :: rest =>
    let p := piece s rest
    p :: piecesAfter (p.scalars.length - 1) rest

/-- The pieces of a source. -/
def pieces (source : Text) : List Piece := piecesAfter 0 source.decode

/-! ## Scanning -/

/-- What scanning finds: the tokens, the diagnostics of refused lexemes, and the offset at which the
source ends. -/
structure Scanned where
  tokens : List Token
  diagnostics : List Diagnostic
  size : Nat

/-- The span that a refused lexeme is blamed on: all of it, or its opening quote. -/
def ScanProblem.blame (p : ScanProblem) (offset length : Nat) : Span :=
  match p with
  | unexpected _ | malformedNumber => ⟨offset, length⟩
  | unterminatedString | unterminatedChar | unclosedChar => ⟨offset, 1⟩

/-- The tokens and diagnostics of pieces that start at an offset. -/
def scanPieces : Nat → List Piece → Scanned
  | offset, [] => ⟨[], [], offset⟩
  | offset, p :: rest =>
    let length := p.text.length
    let after := scanPieces (offset + length) rest
    match p.kind with
    | .token kind => { after with tokens := ⟨kind, p.text, ⟨offset, length⟩⟩ :: after.tokens }
    | .refused problem =>
      { after with
        diagnostics := ⟨.scan problem, problem.blame offset length⟩ :: after.diagnostics }
    | .blank | .comment => after

/-- The tokens and diagnostics of a source. -/
def scan (source : Text) : Scanned := scanPieces 0 (pieces source)

/-- A listing of the tokens, with a last line for the end of input. -/
def Scanned.listing (s : Scanned) : List Text :=
  s.tokens.map Token.line ++ [listingLine endOfInput (.emptyAt s.size)]

end Lox
