import Lox.Text

/-!
# Bytes in base 64

Four characters stand for three bytes. The last group may stand for one or two: then it is filled up
with equals signs. Line ends between the characters mean nothing, and neither do bits that are left
over.
-/

namespace Lox.Base64

/-- The number that a character stands for. -/
def digit? (b : UInt8) : Option Nat :=
  let n := b.toNat
  if 0x41 ≤ n && n ≤ 0x5A then some (n - 0x41)
  else if 0x61 ≤ n && n ≤ 0x7A then some (n - 0x61 + 26)
  else if 0x30 ≤ n && n ≤ 0x39 then some (n - 0x30 + 52)
  else if n == 0x2B then some 62
  else if n == 0x2F then some 63
  else none

/-- The bytes of a group of characters. -/
def group? (a b c d : UInt8) : Option Text := do
  let n := (((← digit? a) * 64 + (← digit? b)) * 64 + (← digit? c)) * 64 + (← digit? d)
  return [UInt8.ofNat (n / 65536), UInt8.ofNat (n / 256), UInt8.ofNat n]

/-- The bytes of the last group of characters. -/
def last? (a b c d : UInt8) : Option Text :=
  match c == 0x3D, d == 0x3D with
  | true, true => (group? a b 0x41 0x41).map (·.take 1)
  | false, true => (group? a b c 0x41).map (·.take 2)
  | _, false => group? a b c d

/-- The bytes of groups of characters. -/
def groups? : Text → Option Text
  | [] => some []
  | [a, b, c, d] => last? a b c d
  | a :: b :: c :: d :: rest => do return (← group? a b c d) ++ (← groups? rest)
  | _ => none

/-- The bytes that a text stands for. -/
def decode? (t : Text) : Option Text := groups? (t.filter fun b => b != 0x0A && b != 0x0D)

end Lox.Base64
