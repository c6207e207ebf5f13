import Lox.Yaml.Comment

/-!
# Scalars of a settings file

A scalar is written plain, in quotes, or as an indented block. Within a plain or quoted scalar a
**gap** of blanks and line ends is folded: one line end is a space, and more than one stand for
themselves less the first.

Each reader goes on for as many turns as its argument says. A turn reads at least one character or
is the last, so the number of characters that are left, and one more, is enough.
-/

namespace Lox.Yaml

open Scan

/-! ## Gaps -/

/-- Blanks and line ends between two parts of a scalar. -/
structure Gap where
  spaces : List Char
  first : List Char
  more : List Char
  broken : Bool

namespace Gap

/-- A gap of nothing. -/
def empty : Gap := ⟨[], [], [], false⟩

/-- What a gap stands for in the scalar. -/
def folded (g : Gap) : List Char :=
  if g.broken then
    match g.first with
    | '\n' :: _ => if g.more.isEmpty then [' '] else g.more
    | first => first ++ g.more
  else g.spaces

/-- A gap with a blank after it. At the start of a line it stands for nothing. -/
def addSpace (g : Gap) (b : Char) : Gap :=
  if g.broken then g else { g with spaces := g.spaces ++ [b] }

/-- A gap with a line end after it. -/
def addBreak (g : Gap) (ending : List Char) : Gap :=
  if g.broken then { g with more := g.more ++ ending } else ⟨[], ending, g.more, true⟩

/-- Reads a gap in a scalar that started at a place. Where a least column is given, a tab before it
at the start of a line is a mistake. -/
def read (least : Option Int) (start : Mark) : Nat → Gap → Scan Gap
  | 0, g => return g
  | turns + 1, g => do
    require 1
    match ← rest with
    | b :: _ =>
      if isSpace b then
        let column := (← mark).column
        if g.broken && b == '\t' && least.any (Int.ofNat column < ·) then fail .tabInPlain start
        else
          skip
          read least start turns (g.addSpace b)
      else if isBreak b then
        require 2
        let ending ← skipBreak
        read least start turns (g.addBreak ending)
      else return g
    | [] => return g

end Gap

/-! ## Plain scalars -/

/-- Whether what follows ends a plain scalar, in brackets or not. -/
def endsPlain (flow : Bool) : List Char → Bool
  | [] => true
  | c :: rest => (c == ':' && isGap rest) || (flow && ",?[]\x7b\x7d".toList.contains c)

/-- Reads a plain scalar up to a gap or to what ends it. -/
def plainRun (flow : Bool) : Nat → Scan (List Char)
  | 0 => return []
  | turns + 1 => do
    match ← rest with
    | c :: after =>
      if isGap (c :: after) || endsPlain flow (c :: after) then return []
      else
        skip
        require 2
        return c :: (← plainRun flow turns)
    | [] => return []

/-- Reads a plain scalar that started at a place, of which some is read and a gap follows. Its lines
are indented at least as far as given. Says whether it ends after a line end. -/
def plain (flow : Bool) (indent : Int) (start : Mark) :
    Nat → List Char → Gap → Scan (List Char × Bool)
  | 0, value, gap => return (value, gap.broken)
  | turns + 1, value, gap => do
    require 4
    let here ← get
    if here.atIndicator || here.nextIs (· == '#') then return (value, gap.broken)
    else
      let run ← plainRun flow here.turns
      let (value, gap) := if run.isEmpty then (value, gap)
        else (value ++ gap.folded ++ run, Gap.empty)
      if ← nextIs fun b => isSpace b || isBreak b then
        let gap ← gap.read (some indent) start here.turns
        if !flow && Int.ofNat (← mark).column < indent then return (value, gap.broken)
        else plain flow indent start turns value gap
      else return (value, gap.broken)

/-! ## Quoted scalars -/

/-- The character that an escape of one letter stands for. -/
def escaped? : Char → Option Char
  | '0' => some (Char.ofNat 0)
  | 'a' => some (Char.ofNat 7)
  | 'b' => some (Char.ofNat 8)
  | 't' | '\t' => some '\t'
  | 'n' => some '\n'
  | 'v' => some (Char.ofNat 11)
  | 'f' => some (Char.ofNat 12)
  | 'r' => some '\r'
  | 'e' => some (Char.ofNat 27)
  | ' ' => some ' '
  | '"' => some '"'
  | '\'' => some '\''
  | '\\' => some '\\'
  | 'N' => some (Char.ofNat 0x85)
  | '_' => some (Char.ofNat 0xA0)
  | 'L' => some (Char.ofNat 0x2028)
  | 'P' => some (Char.ofNat 0x2029)
  | _ => none

/-- The number of hexadecimal digits after an escape letter. -/
def escapeWidth? : Char → Option Nat
  | 'x' => some 2
  | 'u' => some 4
  | 'U' => some 8
  | _ => none

/-- The number that hexadecimal digits spell, as many as given. -/
def hexNumber? (digits : List Char) (width : Nat) : Option Nat :=
  if digits.length < width then none
  else (digits.take width).foldl (fun n c => do return (← n) * 16 + (← hexDigit? c)) (some 0)

/-- Reads an escape that starts with its backslash. -/
def escape (start : Mark) : Scan Char := do
  match (← rest).tail with
  | [] => fail .unknownEscape start
  | letter :: _ =>
    match escaped? letter, escapeWidth? letter with
    | some c, _ =>
      skips 2
      return c
    | none, none => fail .unknownEscape start
    | none, some width =>
      skips 2
      require width
      match hexNumber? (← rest) width with
      | none => fail .hexNumber start
      | some n =>
        if Nat.isValidChar n then
          skips width
          return Char.ofNat n
        else fail .escapeCode start

/-- What comes next between quotes. -/
inductive QuotedPart
  | stop
  | joint
  | char (c : Char)

/-- Reads what comes next between single quotes. Two quotes stand for one. -/
def singlePart : Scan QuotedPart := do
  match ← rest with
  | '\'' :: '\'' :: _ =>
    skips 2
    return .char '\''
  | c :: after =>
    if c == '\'' || isGap (c :: after) then return .stop
    else
      skip
      return .char c
  | [] => return .stop

/-- Reads what comes next between double quotes. A backslash takes the end of its line with it. -/
def doublePart (start : Mark) : Scan QuotedPart := do
  match ← rest with
  | '\\' :: after =>
    if after.head?.any isBreak then
      require 3
      skip
      discard skipBreak
      return .joint
    else return .char (← escape start)
  | c :: after =>
    if c == '"' || isGap (c :: after) then return .stop
    else
      skip
      return .char c
  | [] => return .stop

/-- Reads a quoted scalar up to a gap or its end, and says whether a line end was taken by a
backslash. -/
def quotedRun (quote : Char) (start : Mark) : Nat → Scan (List Char × Bool)
  | 0 => return ([], false)
  | turns + 1 => do
    match ← if quote == '\'' then singlePart else doublePart start with
    | .stop => return ([], false)
    | .joint => return ([], true)
    | .char c =>
      require 2
      let (more, joined) ← quotedRun quote start turns
      return (c :: more, joined)

/-- Reads a quoted scalar that started at a place, of which some is read. -/
def quoted (quote : Char) (start : Mark) : Nat → List Char → Scan (List Char)
  | 0, _ => fail .unexpectedEnd start
  | turns + 1, value => do
    require 4
    let here ← get
    if here.atIndicator then fail .unexpectedIndicator start
    else if here.rest.isEmpty then fail .unexpectedEnd start
    else
      let (run, joined) ← quotedRun quote start here.turns
      require 1
      if ← nextIs (· == quote) then
        skip
        return value ++ run
      else
        let gap ← Gap.read none start here.turns { Gap.empty with broken := joined }
        quoted quote start turns (value ++ run ++ gap.folded)

/-! ## Blocks -/

/-- What to do with the line ends at the end of a block. -/
inductive Chomping
  | strip
  | clip
  | keep
  deriving DecidableEq, Repr

/-- Reads the sign in the head of a block. -/
def blockSign : Scan (Option Chomping) := do
  require 1
  match ← rest with
  | '+' :: _ =>
    skip
    return some .keep
  | '-' :: _ =>
    skip
    return some .strip
  | _ => return none

/-- Reads the digit in the head of a block, zero if there is none. -/
def blockDigit (start : Mark) : Scan Nat := do
  require 1
  match ← rest with
  | c :: _ =>
    if c == '0' then fail .blockIndent start
    else if c.isDigit then
      skip
      return c.toNat - '0'.toNat
    else return 0
  | [] => return 0

/-- Reads the sign and the digit in the head of a block, in either order. -/
def blockHead (start : Mark) : Scan (Chomping × Nat) := do
  match ← blockSign with
  | some chomping => return (chomping, ← blockDigit start)
  | none =>
    let digit ← blockDigit start
    if digit == 0 then return (.clip, 0) else return ((← blockSign).getD .clip, digit)

/-- Passes over spaces up to a column, in a number of turns. There is no such column if it is
zero. -/
def skipIndent (indent : Nat) : Nat → Scan Unit
  | 0 => return ()
  | turns + 1 => do
    require 1
    let column := (← mark).column
    if (indent == 0 || column < indent) && (← nextIs (· == ' ')) then
      skip
      skipIndent indent turns

/-- Reads the line ends and the indentation before the next line of a block that is not empty. Gives
the line ends and the widest indentation. -/
def blockBreaks (indent : Nat) (start : Mark) : Nat → List Char → Nat → Scan (List Char × Nat)
  | 0, breaks, widest => return (breaks, widest)
  | turns + 1, breaks, widest => do
    skipIndent indent (← get).turns
    let column := (← mark).column
    let widest := max widest column
    if (indent == 0 || column < indent) && (← nextIs (· == '\t')) then fail .tabInBlock start
    else if ← nextIs isBreak then
      require 2
      let ending ← skipBreak
      blockBreaks indent start turns (breaks ++ ending) widest
    else return (breaks, widest)

/-- What has been read of a block: its lines, the end of the last, the empty lines after that, and
whether the last line started with a blank. -/
structure BlockText where
  value : List Char
  first : List Char
  more : List Char
  blank : Bool

namespace BlockText

/-- What stands between the last line of a block and the next one. Lines are joined if the block is
folded, unless one of them starts with a blank. -/
def joint (t : BlockText) (literal blank : Bool) : List Char :=
  if !literal && !t.blank && !blank && t.first.head? == some '\n' then
    if t.more.isEmpty then [' '] else t.more
  else t.first ++ t.more

/-- A block without the line ends at its end that are not kept. -/
def chomped (t : BlockText) : Chomping → List Char
  | .strip => t.value
  | .clip => t.value ++ t.first
  | .keep => t.value ++ t.first ++ t.more

end BlockText

/-- Reads the lines that are left of a block. -/
def blockLines (literal : Bool) (indent : Nat) (start : Mark) : Nat → BlockText → Scan BlockText
  | 0, t => return t
  | turns + 1, t => do
    let here ← get
    if here.mark.column == indent && !here.rest.isEmpty then
      let blank := here.nextIs isSpace
      let line ← takeWhile fun b => !isBreak b
      require 2
      let first ← skipBreak
      let (more, _) ← blockBreaks indent start here.turns [] 0
      blockLines literal indent start turns
        ⟨t.value ++ t.joint literal blank ++ line, first, more, blank⟩
    else return t

/-- Reads a block that starts with its mark, inside parts indented as far as given. -/
def block (literal : Bool) (outer : Int) : Scan (List Char) := do
  let start ← mark
  skip
  let (chomping, digit) ← blockHead start
  skipSpaces
  if ← nextIs (· == '#') then
    lineComment
    discard (takeWhile fun b => !isBreak b)
  if !isLineEnd (← rest) then fail .lineRest start
  else
    if ← nextIs isBreak then
      require 2
      discard skipBreak
    let given := if digit == 0 then 0 else if outer < 0 then digit else outer.toNat + digit
    let turns := (← get).turns
    let (breaks, widest) ← blockBreaks given start turns [] 0
    let indent := if given == 0 then max (max widest (outer + 1).toNat) 1 else given
    require 1
    return (← blockLines literal indent start turns ⟨[], [], breaks, false⟩).chomped chomping

end Lox.Yaml
