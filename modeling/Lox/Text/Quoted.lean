import Lox.Text.Scalar
import Lox.Text.Printable

/-!
# Quoted text

A text between double quotes, or a character between single quotes, written so that every byte can
be told: printable characters as they are, the usual letters for the seven control characters that
have one, and numbers for the rest. A byte that forms no character is written as its own two digits.
-/

namespace Lox.Quoted

/-- The byte of a hexadecimal digit, in lower case. -/
def hexDigit (n : Nat) : UInt8 := if n < 10 then UInt8.ofNat (0x30 + n) else UInt8.ofNat (0x57 + n)

/-- The last digits of a number in base sixteen, as many as the first argument says. -/
def hex : Nat → Nat → Text
  | 0, _ => []
  | width + 1, n => hex width (n / 16) ++ [hexDigit (n % 16)]

/-- The letter after the backslash of a control character that has one. -/
def letter? (c : Char) : Option Char :=
  match c.toNat with
  | 7 => some 'a'
  | 8 => some 'b'
  | 12 => some 'f'
  | 10 => some 'n'
  | 13 => some 'r'
  | 9 => some 't'
  | 11 => some 'v'
  | _ => none

/-- A character between quotes of a kind. -/
def escape (quote c : Char) : Text :=
  if c == quote || c == '\\' then utf8 "\\" ++ Text.encode c
  else if isPrintable c then Text.encode c
  else match letter? c with
    | some l => utf8 "\\" ++ Text.encode l
    | none =>
      if c.toNat < 0x20 || c.toNat == 0x7F then utf8 "\\x" ++ hex 2 c.toNat
      else if c.toNat < 0x10000 then utf8 "\\u" ++ hex 4 c.toNat
      else utf8 "\\U" ++ hex 8 c.toNat

/-- A scalar between quotes of a kind. -/
def escapeScalar (quote : Char) (s : Scalar) : Text :=
  if s.isBad then utf8 "\\x" ++ s.bytes.flatMap (fun b => hex 2 b.toNat) else escape quote s.char

/-- A text in double quotes. -/
def text (t : Text) : Text := utf8 "\"" ++ t.decode.flatMap (escapeScalar '"') ++ utf8 "\""

/-- A character in single quotes. -/
def char (c : Char) : Text := utf8 "'" ++ escape '\'' c ++ utf8 "'"

end Lox.Quoted
