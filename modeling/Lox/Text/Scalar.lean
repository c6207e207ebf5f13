import Lox.Text

/-!
# Decoding bytes, total on every text

A **scalar** is a character together with the bytes it was read from. Decoding cuts a text into
scalars and loses no byte: where the bytes form no character, one byte is taken and stands for the
replacement character. So every text decodes, the widths of its scalars add up to its length, and an
offset in bytes is a sum of widths.

`decode` is one pass over the bytes: having read a scalar of `n` bytes it skips the `n - 1` that
follow the first. `count` and `nth?` answer the two questions that need no list of scalars.
-/

namespace Lox

/-- A character and the bytes it was read from. -/
structure Scalar where
  char : Char
  bytes : Text
  deriving DecidableEq

namespace Scalar

/-- What a byte stands for that begins no character. -/
def replacement : Char := Char.ofNat 0xFFFD

/-- A byte that continues a character, and carries six bits of its number. -/
def isTail (b : UInt8) : Bool := 0x80 ≤ b && b ≤ 0xBF

/-- The six bits of a continuation byte. -/
def tailBits (b : UInt8) : Nat := b.toNat - 0x80

/-- A character of one byte. -/
def one? (a : UInt8) : Option Scalar :=
  if a < 0x80 then some ⟨Char.ofNat a.toNat, [a]⟩ else none

/-- A character of two bytes. The leads `C0` and `C1` would spell one-byte characters and begin
none. -/
def two? (a : UInt8) : Text → Option Scalar
  | b :: _ =>
    if 0xC2 ≤ a && a ≤ 0xDF && isTail b then
      some ⟨Char.ofNat ((a.toNat - 0xC0) * 64 + tailBits b), [a, b]⟩
    else none
  | _ => none

/-- The second byte of a three-byte character, by its lead: no overlong spelling and no
surrogate. -/
def isThreeLead (a b : UInt8) : Bool :=
  if a == 0xE0 then 0xA0 ≤ b && b ≤ 0xBF
  else if a == 0xED then 0x80 ≤ b && b ≤ 0x9F
  else 0xE1 ≤ a && a ≤ 0xEF && isTail b

/-- A character of three bytes. -/
def three? (a : UInt8) : Text → Option Scalar
  | b :: c :: _ =>
    if isThreeLead a b && isTail c then
      some ⟨Char.ofNat ((a.toNat - 0xE0) * 4096 + tailBits b * 64 + tailBits c), [a, b, c]⟩
    else none
  | _ => none

/-- The second byte of a four-byte character, by its lead: no overlong spelling and nothing past the
last character. -/
def isFourLead (a b : UInt8) : Bool :=
  if a == 0xF0 then 0x90 ≤ b && b ≤ 0xBF
  else if a == 0xF4 then 0x80 ≤ b && b ≤ 0x8F
  else 0xF1 ≤ a && a ≤ 0xF3 && isTail b

/-- A character of four bytes. -/
def four? (a : UInt8) : Text → Option Scalar
  | b :: c :: d :: _ =>
    if isFourLead a b && isTail c && isTail d then
      some ⟨Char.ofNat ((a.toNat - 0xF0) * 262144 + tailBits b * 4096 + tailBits c * 64 +
        tailBits d), [a, b, c, d]⟩
    else none
  | _ => none

/-- The scalar that a text starts with, given its first byte and the rest. -/
def first (a : UInt8) (rest : Text) : Scalar :=
  (one? a <|> two? a rest <|> three? a rest <|> four? a rest).getD ⟨replacement, [a]⟩

/-- The number of bytes. -/
def width (s : Scalar) : Nat := s.bytes.length

/-- Whether the scalar is one byte that forms no character. -/
def isBad (s : Scalar) : Bool := s.char == replacement && s.width == 1

/-- The bytes of a list of scalars. -/
def text (ss : List Scalar) : Text := ss.flatMap Scalar.bytes

/-- The characters of a list of scalars. -/
def chars (ss : List Scalar) : List Char := ss.map Scalar.char

/-- The scalar of a character. -/
def ofChar (c : Char) : Scalar := ⟨c, Text.encode c⟩

end Scalar

namespace Text

/-- The scalars of a text whose first bytes, as many as the number says, belong to a scalar already
read. -/
def decodeAfter : Nat → Text → List Scalar
  | _, [] => []
  | skip + 1, _ :: rest => decodeAfter skip rest
  | 0, a :: rest =>
    let s := Scalar.first a rest
    s :: decodeAfter (s.width - 1) rest

/-- The scalars of a text. -/
def decode (t : Text) : List Scalar := decodeAfter 0 t

/-- The characters of a text. -/
def chars (t : Text) : List Char := Scalar.chars t.decode

/-- The number of scalars after the first bytes, as many as the number says. -/
def countAfter : Nat → Text → Nat
  | _, [] => 0
  | skip + 1, _ :: rest => countAfter skip rest
  | 0, a :: rest => 1 + countAfter ((Scalar.first a rest).width - 1) rest

/-- The number of characters of a text. -/
def count (t : Text) : Nat := countAfter 0 t

/-- The character at an index, counted after the first bytes, as many as the number says. -/
def nthAfter? : Nat → Text → Nat → Option Char
  | _, [], _ => none
  | skip + 1, _ :: rest, i => nthAfter? skip rest i
  | 0, a :: rest, i =>
    let s := Scalar.first a rest
    match i with
    | 0 => some s.char
    | i + 1 => nthAfter? (s.width - 1) rest i

/-- The character at an index of a text, counted in characters. -/
def nth? (t : Text) (i : Nat) : Option Char := nthAfter? 0 t i

/-- Whether a character occurs in a text. Its own bytes are searched for. The replacement character
has more than one spelling, as every byte that forms no character stands for it, and is searched for
among the decoded characters. -/
def hasChar (t : Text) (c : Char) : Bool :=
  if c == Scalar.replacement then t.chars.contains c else occursIn (encode c) t

/-- Whether every byte belongs to a character. -/
def isValid (t : Text) : Bool := t.decode.all fun s => !s.isBad

end Text

end Lox
