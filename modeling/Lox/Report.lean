import Lox.Diagnostic
import Lox.Text.Blank

/-!
# Reports

A diagnostic is reported against its source: where it is, in lines and characters from one, what it
says, the line of the source, and carets under the bytes it is blamed on. The carets stand below the
characters of the line: what is before them is blank, except that a tab stays a tab.
-/

namespace Lox

/-- A place in a source: its line, its column in characters, and the text of the line. -/
structure Place where
  line : Nat
  column : Nat
  text : Text
  deriving DecidableEq, Repr

/-- The part of a text after its last line feed. -/
def afterLastBreak (t : Text) : Text := (t.reverse.takeWhile (· != 0x0A)).reverse

/-- The place of an offset. One past the end of the source counts as its end. Carriage returns at
the end of the line do not belong to its text. -/
def placeOf (source : Text) (offset : Nat) : Place :=
  let before := source.take offset
  let start := afterLastBreak before
  let line := start ++ (source.drop offset).takeWhile (· != 0x0A)
  ⟨List.count 0x0A before + 1, Text.count start + 1, Text.dropEndWhile (· == 0x0D) line⟩

/-- The last position up to a number, other than zero, at which a text has a byte that continues no
character. Zero if there is none. -/
def boundaryUpTo (t : Text) : Nat → Nat
  | 0 => 0
  | n + 1 => if Scalar.isTail (t.getD (n + 1) 0) then boundaryUpTo t n else n + 1

/-- At most a number of bytes from the start of a text, without a part of a character at their
end. -/
def truncate (t : Text) (n : Nat) : Text := if t.length ≤ n then t else t.take (boundaryUpTo t n)

/-- What stands below a character before the carets. -/
def blankBelow (s : Scalar) : UInt8 := if s.char == '\t' then 0x09 else 0x20

/-- The carets below a number of bytes of a line from a column on, and what is before them. There is
always one. A column that the line does not have is after its end. -/
def underline (text : Text) (column : Int) (length : Nat) : Text :=
  let scalars := text.decode
  let before := if column ≤ 0 then scalars.length else (column - 1).toNat
  let below := truncate (Scalar.text (scalars.drop before)) length
  (scalars.take before).map blankBelow ++ List.replicate (max 1 (Text.count below)) 0x5E

/-! ## Colour -/

/-- How parts of a report are set off in a terminal. -/
inductive Emphasis
  | bold
  | red
  | yellow
  deriving DecidableEq, Repr

/-- The number of an emphasis in an escape sequence. -/
def Emphasis.code : Emphasis → Nat
  | bold => 1
  | red => 31
  | yellow => 33

/-- A text set off, if there is colour. -/
def Emphasis.apply (e : Emphasis) (color : Bool) (t : Text) : Text :=
  if color then escape e.code ++ t ++ escape 0 else t
where
  escape (n : Nat) : Text := 0x1B :: utf8 "[" ++ Text.ofNat n ++ utf8 "m"

/-- A notice reported against its source, on three lines. -/
def Notice.report (color : Bool) (source : Text) (n : Notice) : Text :=
  let place := placeOf source n.span.offset
  let position :=
    utf8 "[" ++ Text.ofNat place.line ++ utf8 ":" ++ Text.ofNat place.column ++ utf8 "]"
  let wording := utf8 (Stage.nameOf n.stage) ++ utf8 " error: " ++ n.message
  let carets := underline place.text (Int.ofNat place.column) n.span.length
  Emphasis.bold.apply color position ++ utf8 " " ++ Emphasis.red.apply color wording ++
    utf8 "\n    " ++ place.text ++ utf8 "\n    " ++ Emphasis.yellow.apply color carets

/-- Diagnostics reported against their source, one after another. -/
def reportAll (color : Bool) (source : Text) (ds : List Diagnostic) : Text :=
  Text.lines (ds.map fun d => d.notice.report color source)

end Lox
