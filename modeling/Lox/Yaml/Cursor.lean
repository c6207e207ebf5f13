import Lox.Yaml.Supply

/-!
# Reading a settings file by characters

A **cursor** is what is left of a file, the place where that starts, and what is known of the
batches it comes in. Lines end with a line feed, a carriage return, both together, or one of three
rarer characters.

Before characters are looked at they are **required**: batches are fetched until there are as many.
That fails if a batch has a mistake in it. Where characters are only **glanced** at, the mistake is
noted instead, and counts when the part that is being read is complete.

The end of the file counts as a character that can be required, one more each time.
-/

namespace Lox.Yaml

/-! ## Classes of characters -/

/-- Whether a character is a space or a tab. -/
def isSpace (c : Char) : Bool := c == ' ' || c == '\t'

/-- Whether a character ends a line. -/
def isBreak (c : Char) : Bool :=
  c == '\n' || c == '\r' || c.toNat == 0x85 || c.toNat == 0x2028 || c.toNat == 0x2029

/-- Whether a character ends a line and is written with a single byte. -/
def isByteBreak (c : Char) : Bool := c == '\n' || c == '\r'

/-- Whether a character is a byte order mark. -/
def isByteOrderMark (c : Char) : Bool := c.toNat == 0xFEFF

/-- Whether a character may stand in the name of an anchor. -/
def isNameChar (c : Char) : Bool := c.isAlphanum || c == '_' || c == '-'

/-- Whether what follows is the end of the line or of the file. -/
def isLineEnd : List Char → Bool
  | [] => true
  | c :: _ => isBreak c

/-- Whether what follows is a space, a tab, the end of the line or the end of the file. -/
def isGap : List Char → Bool
  | [] => true
  | c :: _ => isSpace c || isBreak c

/-- Whether what follows is a mark between documents: three hyphens or three points, and then a
gap. -/
def isIndicator (mark : Char) : List Char → Bool
  | a :: b :: c :: rest => a == mark && b == mark && c == mark && isGap rest
  | _ => false

/-- The value of a hexadecimal digit. -/
def hexDigit? (c : Char) : Option Nat :=
  if '0' ≤ c && c ≤ '9' then some (c.toNat - '0'.toNat)
  else if 'a' ≤ c && c ≤ 'f' then some (c.toNat - 'a'.toNat + 10)
  else if 'A' ≤ c && c ≤ 'F' then some (c.toNat - 'A'.toNat + 10)
  else none

/-! ## Cursors -/

/-- What is left of a file, and the size of the whole. Line ends are counted since the last
character that is no blank. Of the characters that are held, the oldest may be a byte order mark. -/
structure Cursor where
  size : Nat
  rest : List Char
  mark : Mark
  lineEnds : Nat
  fetched : Nat
  batches : List Nat
  fault : Option Mistake
  marked : Bool
  noted : Option Mistake

namespace Cursor

/-- The start of a file. -/
def ofSupply (s : Supply) : Cursor :=
  ⟨s.chars.length, s.chars, .origin, 0, 0, s.batches, s.fault, false, none⟩

/-- As many turns as reading by characters takes at most. -/
def turns (c : Cursor) : Nat := c.size + 1

/-- Whether the next character satisfies a test. -/
def nextIs (c : Cursor) (test : Char → Bool) : Bool := c.rest.head?.any test

/-- Whether a mark between documents is next, at the start of a line. -/
def atIndicator (c : Cursor) : Bool :=
  c.mark.column == 0 && (isIndicator '-' c.rest || isIndicator '.' c.rest)

/-- Counts batches until there are as many characters as wanted. -/
def pour (wanted : Nat) : List Nat → Nat → Nat × List Nat
  | [], fetched => (fetched, [])
  | batch :: later, fetched =>
    if wanted ≤ fetched then (fetched, batch :: later) else pour wanted later (fetched + batch)

/-- Fetches batches until a number of characters is there, and gives the mistake that prevents it.
What is already there is then held from the next character on. -/
def fetch (n : Nat) (c : Cursor) : Cursor × Option Mistake :=
  let wanted := c.mark.index + n
  if wanted ≤ c.fetched then (c, none)
  else
    let (fetched, batches) := pour wanted c.batches c.fetched
    let c := { c with fetched := fetched, batches := batches, marked := c.nextIs isByteOrderMark }
    if wanted ≤ fetched then (c, none)
    else
      match c.fault with
      | none => ({ c with fetched := fetched + 1 }, none)
      | some mistake => ({ c with fetched := c.mark.index + c.rest.length }, some mistake)

/-- Passes over a character of a line. -/
def pass (c : Cursor) : Cursor :=
  { c with
    rest := c.rest.tail
    mark := ⟨c.mark.index + 1, c.mark.line, c.mark.column + 1⟩
    lineEnds := if c.nextIs isSpace then c.lineEnds else 0 }

/-- Passes over the end of a line, and gives it in its usual form. -/
def passBreak (c : Cursor) : List Char × Cursor :=
  let after (rest : List Char) (width : Nat) : Cursor :=
    { c with
      rest := rest, mark := ⟨c.mark.index + width, c.mark.line + 1, 0⟩,
      lineEnds := c.lineEnds + 1 }
  match c.rest with
  | '\r' :: '\n' :: rest => (['\n'], after rest 2)
  | b :: rest =>
    if isBreak b then ([if b == '\r' || b.toNat == 0x85 then '\n' else b], after rest 1)
      else ([], c)
  | [] => ([], c)

end Cursor

/-! ## Scanning -/

/-- Reading characters: it fails, or gives a result and the cursor after it. -/
abbrev Scan := StateT Cursor (Except Failure)

namespace Scan

/-- Fetches a number of characters. -/
def require (n : Nat) : Scan Unit := do
  match (← get).fetch n with
  | (c, none) => set c
  | (_, some mistake) => throw (.bare mistake)

/-- Fetches a number of characters, and says whether that was possible. -/
def glance (n : Nat) : Scan Bool := do
  match (← get).fetch n with
  | (c, none) =>
    set c
    return true
  | (c, some mistake) =>
    set { c with noted := some mistake }
    return false

/-- What is left. -/
def rest : Scan (List Char) := return (← get).rest

/-- As many turns as reading by characters takes at most. -/
def turns : Scan Nat := return (← get).turns

/-- The place. -/
def mark : Scan Mark := return (← get).mark

/-- Whether the next character satisfies a test. -/
def nextIs (test : Char → Bool) : Scan Bool := return (← get).nextIs test

/-- Passes over a character. -/
def skip : Scan Unit := modify Cursor.pass

/-- Passes over a number of characters. -/
def skips : Nat → Scan Unit
  | 0 => return ()
  | n + 1 => do
    skip
    skips n

/-- Passes over the end of a line, and gives it in its usual form. -/
def skipBreak : Scan (List Char) := modifyGet Cursor.passBreak

/-- Fails with a mistake in a part that started at a place. -/
def fail {α : Type} (mistake : Mistake) (start : Mark) : Scan α := do
  throw (.ofScan mistake start (← mark))

/-- Reads characters while they satisfy a test, in a number of turns. -/
def readWhile (test : Char → Bool) : Nat → Scan (List Char)
  | 0 => return []
  | turns + 1 => do
    require 1
    match ← rest with
    | c :: _ =>
      if test c then
        skip
        return c :: (← readWhile test turns)
      else return []
    | [] => return []

/-- Reads characters while they satisfy a test. -/
def takeWhile (test : Char → Bool) : Scan (List Char) := do
  readWhile test (← turns)

/-- Passes over spaces and tabs. -/
def skipSpaces : Scan Unit := discard (takeWhile isSpace)

end Scan

end Lox.Yaml
