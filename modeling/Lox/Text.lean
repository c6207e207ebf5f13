/-!
# Text as bytes

Sources, strings and printed output are byte sequences: nothing promises that they decode. A
**text** is the list of its bytes, and everything measured in a text (offsets, lengths, widths) is
measured in bytes.

The file holds the encoder of characters (`encode`), the way strings written in this library become
texts (`utf8`), and the few list operations on bytes that the rest of the library shares: numerals,
joining, splitting, searching and the order of bytes.
-/

namespace Lox

/-- A text is the list of its bytes. -/
abbrev Text := List UInt8

namespace Text

/-- The continuation byte that holds six bits of a character's number. -/
def tailByte (n : Nat) : UInt8 := UInt8.ofNat (0x80 + n % 64)

/-- The UTF-8 bytes of a character, one to four of them. -/
def encode (c : Char) : Text :=
  let n := c.toNat
  if n < 0x80 then [UInt8.ofNat n]
  else if n < 0x800 then [UInt8.ofNat (0xC0 + n / 64), tailByte n]
  else if n < 0x10000 then [UInt8.ofNat (0xE0 + n / 4096), tailByte (n / 64), tailByte n]
  else [UInt8.ofNat (0xF0 + n / 262144), tailByte (n / 4096), tailByte (n / 64), tailByte n]

/-- The text of a list of characters. -/
def ofChars (cs : List Char) : Text := cs.flatMap encode

/-- The decimal numeral of a natural number. -/
def ofNat (n : Nat) : Text := ofChars (Nat.toDigits 10 n)

/-- The decimal numeral of an integer, with a minus sign below zero. -/
def ofInt : Int → Text
  | .ofNat n => ofNat n
  | .negSucc n => 0x2D :: ofNat (n + 1)

/-- Texts one after another with a separator between neighbours. -/
def join (sep : Text) : List Text → Text
  | [] => []
  | [t] => t
  | t :: rest => t ++ sep ++ join sep rest

/-- Each text followed by a line feed. -/
def lines : List Text → Text
  | [] => []
  | t :: rest => t ++ 0x0A :: lines rest

/-- The pieces between the occurrences of a byte. There is always one more piece than there are
occurrences. -/
def splitOn (sep : UInt8) : Text → List Text
  | [] => [[]]
  | b :: rest =>
    match b == sep, splitOn sep rest with
    | true, pieces => [] :: pieces
    | false, [] => [[b]]
    | false, piece :: pieces => (b :: piece) :: pieces

/-- Whether a text occurs in another as a run of adjacent bytes. -/
def occursIn (needle : Text) : Text → Bool
  | [] => needle.isEmpty
  | b :: rest => needle.isPrefixOf (b :: rest) || occursIn needle rest

/-- The order of texts by their bytes. A proper beginning comes first. -/
def le : Text → Text → Bool
  | [], _ => true
  | _ :: _, [] => false
  | a :: s, b :: t => a < b || (a == b && le s t)

end Text

/-- The bytes of a string that this library writes. -/
def utf8 (s : String) : Text := Text.ofChars s.toList

end Lox
