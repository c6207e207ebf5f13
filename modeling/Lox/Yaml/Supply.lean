import Lox.Text.Scalar
import Lox.Yaml.Mistake

/-!
# The characters of a settings file

A settings file is UTF-8, or UTF-16 if it starts with a byte order mark that says so. Only some
control characters may stand in it.

Its bytes are decoded in **batches**: the window of a batch starts at the first byte that is not
decoded yet, and a character that does not fit into the window is left for the next one. So a
mistake in the bytes of a file is met only when a character of its batch, or of a later one, is
asked for.
-/

namespace Lox.Yaml

/-- How characters are written as bytes. UTF-16 has either byte of a unit first. -/
inductive Encoding
  | octets
  | units (lowFirst : Bool)
  deriving DecidableEq, Repr

/-- What the next bytes of a window are. -/
inductive Decoded
  | char (c : Char) (width : Nat)
  | unfinished
  | bad (mistake : Mistake)

/-- Whether a character may stand in a file. -/
def isAllowed (c : Char) : Bool :=
  let n := c.toNat
  n == 0x09 || n == 0x0A || n == 0x0D || (0x20 ≤ n && n ≤ 0x7E) || n == 0x85 ||
    (0xA0 ≤ n && n ≤ 0xFFFD) || 0x10000 ≤ n

/-- A character with a number, if it may stand in a file. -/
def Decoded.ofNumber (n width : Nat) : Decoded :=
  if isAllowed (Char.ofNat n) then .char (Char.ofNat n) width else .bad .control

/-! ## Octets -/

/-- The number of octets that an octet is the first of. -/
def octetWidth? (lead : UInt8) : Option Nat :=
  if lead < 0x80 then some 1
  else if lead < 0xC0 then none
  else if lead < 0xE0 then some 2
  else if lead < 0xF0 then some 3
  else if lead < 0xF8 then some 4
  else none

/-- The bits of a character's number in the first of its octets. -/
def leadBits (width : Nat) (lead : UInt8) : Nat :=
  if width == 1 then lead.toNat else lead.toNat % Nat.pow 2 (7 - width)

/-- The least number that takes so many octets. -/
def leastNumber (width : Nat) : Nat :=
  if width == 1 then 0 else if width == 2 then 0x80 else if width == 3 then 0x800 else 0x10000

/-- The character at the start of octets. -/
def octetChar : Text → Decoded
  | [] => .unfinished
  | lead :: rest =>
    match octetWidth? lead with
    | none => .bad .leadOctet
    | some width =>
      let tail := rest.take (width - 1)
      if tail.length < width - 1 then .unfinished
      else if !tail.all Scalar.isTail then .bad .tailOctet
      else
        let n := tail.foldl (fun n b => n * 64 + Scalar.tailBits b) (leadBits width lead)
        if n < leastNumber width then .bad .octetLength
        else if !Nat.isValidChar n then .bad .scalarRange
        else .ofNumber n width

/-! ## Units -/

/-- The number of a unit of two bytes. -/
def unitNumber (lowFirst : Bool) (a b : UInt8) : Nat :=
  if lowFirst then a.toNat + b.toNat * 256 else b.toNat + a.toNat * 256

/-- Whether a unit is the first of a pair. -/
def isHigh (n : Nat) : Bool := 0xD800 ≤ n && n < 0xDC00

/-- Whether a unit is the second of a pair. -/
def isLow (n : Nat) : Bool := 0xDC00 ≤ n && n < 0xE000

/-- The character at the start of units. -/
def unitChar (lowFirst : Bool) : Text → Decoded
  | a :: b :: rest =>
    let n := unitNumber lowFirst a b
    if isLow n then .bad .unexpectedLow
    else if isHigh n then
      match rest with
      | c :: d :: _ =>
        let m := unitNumber lowFirst c d
        if isLow m then .ofNumber (0x10000 + (n - 0xD800) * 1024 + (m - 0xDC00)) 4
          else .bad .expectedLow
      | _ => .unfinished
    else .ofNumber n 2
  | _ => .unfinished

/-! ## Batches -/

namespace Encoding

/-- The encoding of a file, and the length of the mark that says so. -/
def ofFile : Text → Encoding × Nat
  | 0xFF :: 0xFE :: _ => (units true, 2)
  | 0xFE :: 0xFF :: _ => (units false, 2)
  | 0xEF :: 0xBB :: 0xBF :: _ => (octets, 3)
  | _ => (octets, 0)

/-- The character at the start of bytes. -/
def charOf : Encoding → Text → Decoded
  | octets => octetChar
  | units lowFirst => unitChar lowFirst

/-- What is wrong with a file that ends within a character. -/
def incomplete : Encoding → Text → Mistake
  | octets, _ => .incompleteOctets
  | units _, rest => if rest.length < 2 then .incompleteUnit else .incompletePair

/-- The characters of a window, the number of bytes that they take, and the mistake after them if
there is one. -/
def charsIn (e : Encoding) : Nat → Text → List Char × Nat × Option Mistake
  | 0, _ => ([], 0, none)
  | turns + 1, bytes =>
    if bytes.isEmpty then ([], 0, none)
    else
      match e.charOf bytes with
      | .char c width =>
        let (cs, size, mistake) := charsIn e turns (bytes.drop width)
        (c :: cs, width + size, mistake)
      | .unfinished => ([], 0, none)
      | .bad mistake => ([], 0, some mistake)

end Encoding

/-- The characters of a file up to the first mistake in its bytes, the numbers of characters in its
faultless batches, and the mistake. -/
structure Supply where
  chars : List Char
  batches : List Nat
  fault : Option Mistake

namespace Supply

/-- The size of a window in bytes. -/
def window : Nat := 512

/-- The characters of bytes, the first window of which has a size. A turn takes at least one byte or
is the last. -/
def ofBytes (e : Encoding) : Nat → Nat → Text → Supply
  | 0, _, _ => ⟨[], [], none⟩
  | turns + 1, size, bytes =>
    if bytes.isEmpty then ⟨[], [], none⟩
    else
      match e.charsIn size (bytes.take size) with
      | (cs, _, some mistake) => ⟨cs, [], some mistake⟩
      | (_, 0, none) => ⟨[], [], some (e.incomplete bytes)⟩
      | (cs, taken, none) =>
        let later := ofBytes e turns window (bytes.drop taken)
        ⟨cs ++ later.chars, cs.length :: later.batches, later.fault⟩

/-- The characters of a file. A byte order mark at its start is not one of them. -/
def ofFile (file : Text) : Supply :=
  let (e, mark) := Encoding.ofFile file
  ofBytes e (file.length + 1) (window - mark) (file.drop mark)

end Supply

end Lox.Yaml
