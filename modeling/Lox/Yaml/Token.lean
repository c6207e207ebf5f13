import Lox.Yaml.Scalar
import Lox.Yaml.Tag

/-!
# Tokens of a settings file

A settings file is cut into tokens. Most are written in the file. The start and end of a block are
not: they follow from the columns that lines start at. That a scalar is a key is seen only at the
colon after it, so the tokens before a key are put in where the key started; a place where that may
happen is a **candidate**. A candidate must be followed by a colon on its own line and not too far
off, and at the column of a block there must be one.

Tokens are cut only as they are needed. A token is ready when two more are known after it and it is
settled whether a key starts with it (`isReady`).
-/

namespace Lox.Yaml

/-- A token. -/
inductive Lexeme
  | directive (d : Directive)
  | documentStart
  | documentEnd
  | streamEnd
  | sequenceStart
  | mappingStart
  | blockEnd
  | flowOpen (sequence : Bool)
  | flowClose (sequence : Bool)
  | entry
  | comma
  | key
  | value
  | anchor (name : Text)
  | reference (name : Text)
  | tag (handle suffix : Text)
  | scalar (plain : Bool) (value : Text)
  deriving DecidableEq, Repr

/-- A token and where it starts. -/
structure Token where
  lexeme : Lexeme
  mark : Mark
  deriving DecidableEq, Repr

/-- A place where a key may have started: whether it still may, whether it has to, and the number of
the token it starts with. -/
structure Candidate where
  possible : Bool
  required : Bool
  number : Nat
  mark : Mark

/-- What is known while a file is cut into tokens: the tokens that are not taken yet, the number of
those that are, the candidates here and in enclosing brackets, innermost first, and for the number
of a token the depth of brackets at which it may start a key. -/
structure Scanner where
  cursor : Cursor
  queue : List Token
  taken : Nat
  candidate : Candidate
  outer : List Candidate
  awaited : List (Nat × Nat)
  indent : Int
  indents : List Int
  keyAllowed : Bool

/-- Cutting tokens: it fails, or gives a result and what is known after it. -/
abbrev Tokenize := StateT Scanner (Except Failure)

namespace Scanner

/-- The state at the start of a file. -/
def ofFile (file : Text) : Scanner :=
  ⟨.ofSupply (.ofFile file), [], 0, ⟨false, false, 0, .origin⟩, [], [], -1, [], true⟩

/-- Whether the place is between brackets. -/
def inFlow (s : Scanner) : Bool := !s.outer.isEmpty

/-- The number of the next token. -/
def number (s : Scanner) : Nat := s.taken + s.queue.length

/-- Adds a token that starts at a place. -/
def emitAt (s : Scanner) (lexeme : Lexeme) (mark : Mark) : Scanner :=
  { s with queue := s.queue ++ [⟨lexeme, mark⟩] }

/-- Puts a token in before the one with a number. If that is taken already the token is added at the
end. -/
def insert (s : Scanner) (number : Nat) (lexeme : Lexeme) (mark : Mark) : Scanner :=
  if number < s.taken then s.emitAt lexeme mark
  else
    let position := number - s.taken
    { s with queue := s.queue.take position ++ ⟨lexeme, mark⟩ :: s.queue.drop position }

/-- Without what is known of a token with a number. -/
def forget (s : Scanner) (number : Nat) : Scanner :=
  { s with awaited := s.awaited.filter (·.1 != number) }

/-- The candidate at a depth of brackets. -/
def candidateAt? (s : Scanner) (depth : Nat) : Option Candidate :=
  let enclosing := s.outer.length
  if enclosing < depth then none else (s.candidate :: s.outer)[enclosing - depth]?

/-- With the candidate at a depth of brackets given up. -/
def giveUp (s : Scanner) (depth : Nat) : Scanner :=
  if depth == s.outer.length then { s with candidate := { s.candidate with possible := false } }
  else
    let given := s.outer.reverse.modify depth fun c => { c with possible := false }
    { s with outer := given.reverse }

end Scanner

namespace Tokenize

/-- Reads characters. -/
def reading {α : Type} (p : Scan α) : Tokenize α := fun s => do
  let (a, cursor) ← p s.cursor
  return (a, { s with cursor := cursor })

/-- Fails with a mistake at a place that was noticed here. -/
def fail {α : Type} (mistake : Mistake) (start : Mark) : Tokenize α :=
  reading (Scan.fail mistake start)

/-- Fails with a mistake that is here. -/
def failHere {α : Type} (mistake : Mistake) : Tokenize α := do fail mistake (← get).cursor.mark

/-- Whether a key may start here. -/
def allowKey (allowed : Bool) : Tokenize Unit := modify fun s => { s with keyAllowed := allowed }

/-- Adds a token that is written here with so many characters. -/
def emit (lexeme : Lexeme) (width : Nat) : Tokenize Unit := do
  modify fun s => s.emitAt lexeme s.cursor.mark
  reading (Scan.skips width)

/-! ## Blocks -/

/-- The most blocks, and the most brackets, that may stand within each other. -/
def depthLimit : Nat := 10000

/-- Ends the blocks that are indented further than a column, at a place, in a number of turns. -/
def endBlocks (column : Int) (mark : Mark) : Nat → Tokenize Unit
  | 0 => return ()
  | turns + 1 => do
    let s ← get
    match s.indents with
    | outer :: rest =>
      if column < s.indent then
        set { s.emitAt .blockEnd mark with indent := outer, indents := rest }
        endBlocks column mark turns
    | [] => return ()

/-- Ends the blocks that are indented further than a column, unless the place is between
brackets. -/
def unroll (column : Int) (mark : Mark) : Tokenize Unit := do
  let s ← get
  if !s.inFlow then endBlocks column mark s.indents.length

/-- Starts a block at the column of a place, unless there is one, with its token before the one with
a number. -/
def roll (mark : Mark) (number : Nat) (lexeme : Lexeme) : Tokenize Unit := do
  let s ← get
  if !s.inFlow && s.indent < Int.ofNat mark.column then
    if depthLimit ≤ s.indents.length then fail (.tooDeep depthLimit) s.candidate.mark
    else set { s.insert number lexeme mark with
      indent := Int.ofNat mark.column, indents := s.indent :: s.indents }

/-! ## Candidates -/

/-- How many characters may stand between the start of a key and its colon. -/
def keyLimit : Nat := 1024

/-- Whether a key may start at the candidate at a depth of brackets. One that is too far back is
given up, and is a mistake if it had to be a key. -/
def isLive (depth : Nat) : Tokenize Bool := do
  let s ← get
  let here := s.cursor.mark
  match (s.candidateAt? depth).filter Candidate.possible with
  | none => return false
  | some candidate =>
    if candidate.mark.line < here.line || candidate.mark.index + keyLimit < here.index then
      if candidate.required then fail .noColon candidate.mark
      else
        set (s.giveUp depth)
        return false
    else return true

/-- Gives up the candidate. One that has to be a key is a mistake. -/
def dropCandidate : Tokenize Unit := do
  let s ← get
  if s.candidate.possible then
    if s.candidate.required then fail .noColon s.candidate.mark
    else set ((s.giveUp s.outer.length).forget s.candidate.number)

/-- Takes the place for a candidate if a key may start there. -/
def saveCandidate : Tokenize Unit := do
  let s ← get
  if s.keyAllowed then
    let required := !s.inFlow && s.indent == Int.ofNat s.cursor.mark.column
    dropCandidate
    modify fun s => { s.forget s.number with
      candidate := ⟨true, required, s.number, s.cursor.mark⟩
      awaited := (s.number, s.outer.length) :: (s.forget s.number).awaited }

/-! ## Gaps between tokens -/

/-- Passes over blanks, comments and line ends, in a number of turns. Outside of brackets a key may
start on a new line, and where one may a tab is no blank. At the start of a line a character is
passed over while the oldest that is held is a byte order mark. -/
def skipGap : Nat → Tokenize Unit
  | 0 => return ()
  | turns + 1 => do
    reading (Scan.require 1)
    let s ← get
    if s.cursor.mark.column == 0 && s.cursor.marked then reading Scan.skip
    let tabs := s.inFlow || !s.keyAllowed
    discard (reading (Scan.takeWhile fun c => c == ' ' || (tabs && c == '\t')))
    if (← get).cursor.nextIs (· == '#') then reading comments
    if (← get).cursor.nextIs isBreak then
      reading (Scan.require 2)
      discard (reading Scan.skipBreak)
      if !s.inFlow then allowKey true
      skipGap turns

/-! ## Tokens one by one -/

/-- Ends the file. What is left of the last line counts as a line. -/
def endStream : Tokenize Unit := do
  modify fun s =>
    let mark := s.cursor.mark
    let mark := if mark.column == 0 then mark else ⟨mark.index, mark.line + 1, 0⟩
    { s with cursor := { s.cursor with mark := mark } }
  unroll (-1) (← get).cursor.mark
  dropCandidate
  allowKey false
  emit .streamEnd 0

/-- Adds a directive. -/
def addDirective : Tokenize Unit := do
  let start := (← get).cursor.mark
  unroll (-1) start
  dropCandidate
  allowKey false
  let found ← reading directive
  modify fun s => s.emitAt (.directive found) start

/-- Adds a mark between documents. -/
def addIndicator (lexeme : Lexeme) : Tokenize Unit := do
  unroll (-1) (← get).cursor.mark
  dropCandidate
  allowKey false
  emit lexeme 3

/-- Opens brackets. -/
def openFlow (sequence : Bool) : Tokenize Unit := do
  saveCandidate
  let s ← get
  if depthLimit ≤ s.outer.length then fail (.tooDeep depthLimit) s.cursor.mark
  else
    set { s with
      candidate := ⟨false, false, s.number, s.cursor.mark⟩
      outer := s.candidate :: s.outer
      keyAllowed := true }
    emit (.flowOpen sequence) 1

/-- Closes brackets. -/
def closeFlow (sequence : Bool) : Tokenize Unit := do
  dropCandidate
  modify fun s =>
    match s.outer with
    | candidate :: outer =>
      { s.forget s.candidate.number with candidate := candidate, outer := outer }
    | [] => s
  allowKey false
  emit (.flowClose sequence) 1

/-- Adds a comma. -/
def addComma : Tokenize Unit := do
  dropCandidate
  allowKey true
  emit .comma 1

/-- Adds a hyphen, which starts an entry of a sequence. -/
def addEntry : Tokenize Unit := do
  let s ← get
  if !s.inFlow && !s.keyAllowed then failHere .entryNotAllowed
  else
    roll s.cursor.mark s.number .sequenceStart
    dropCandidate
    allowKey true
    emit .entry 1

/-- Adds a question mark, which starts a key. -/
def addKey : Tokenize Unit := do
  let s ← get
  if !s.inFlow && !s.keyAllowed then failHere .keyNotAllowed
  else
    roll s.cursor.mark s.number .mappingStart
    dropCandidate
    allowKey (!s.inFlow)
    emit .key 1

/-- Adds a colon, which starts a value. -/
def addValue : Tokenize Unit := do
  if ← isLive (← get).outer.length then
    let candidate := (← get).candidate
    modify fun s => s.insert candidate.number .key candidate.mark
    roll candidate.mark candidate.number .mappingStart
    modify fun s => (s.giveUp s.outer.length).forget candidate.number
    allowKey false
    emit .value 1
  else
    let s ← get
    if !s.inFlow && !s.keyAllowed then failHere .valueNotAllowed
    else
      roll s.cursor.mark s.number .mappingStart
      allowKey (!s.inFlow)
      emit .value 1

/-- Adds a token that may start a key, and after which none may start unless that is said. -/
def addStart (read : Scan (Lexeme × Bool)) : Tokenize Unit := do
  saveCandidate
  let start := (← get).cursor.mark
  allowKey false
  let (lexeme, allowed) ← reading read
  modify fun s => s.emitAt lexeme start
  if allowed then allowKey true

/-- Adds an anchor, or a reference to one. -/
def addAnchor (lexeme : Text → Lexeme) : Tokenize Unit := addStart do
  return (lexeme (← anchorName), false)

/-- Adds a tag. -/
def addTag : Tokenize Unit := addStart do
  let (handle, suffix) ← tagParts
  return (.tag handle suffix, false)

/-- Adds a quoted scalar. -/
def addQuoted (quote : Char) : Tokenize Unit := addStart do
  let start ← Scan.mark
  Scan.skip
  let value ← quoted quote start (← Scan.turns) []
  return (.scalar false (Text.ofChars value), false)

/-- Adds a plain scalar. A key may start after one that ends after a line end. -/
def addPlain : Tokenize Unit := do
  let s ← get
  addStart do
    let (value, broken) ← plain s.inFlow (s.indent + 1) (← Scan.mark) (← Scan.turns) [] .empty
    return (.scalar true (Text.ofChars value), broken)

/-- Adds a block scalar. -/
def addBlock (literal : Bool) : Tokenize Unit := do
  dropCandidate
  allowKey true
  let s ← get
  let value ← reading (block literal s.indent)
  modify fun t => t.emitAt (.scalar false (Text.ofChars value)) s.cursor.mark

/-- Whether a plain scalar may start with a character before others. -/
def startsPlain (flow : Bool) (c : Char) (rest : List Char) : Bool :=
  if c == '-' then !rest.head?.any isSpace
  else if c == '?' || c == ':' then !flow && !isGap rest
  else !(isSpace c || isBreak c || ",[]\x7b\x7d#&*!|>'\"%@`".toList.contains c)

/-- Adds a token within a document that starts with a character before others. -/
def addToken (c : Char) (rest : List Char) : Tokenize Unit := do
  let flow := (← get).inFlow
  if c == '[' then openFlow true
  else if c == '\x7b' then openFlow false
  else if c == ']' then closeFlow true
  else if c == '\x7d' then closeFlow false
  else if c == ',' then addComma
  else if c == '-' && isGap rest then addEntry
  else if c == '?' && (flow || isGap rest) then addKey
  else if c == ':' && (flow || isGap rest) then addValue
  else if c == '*' then addAnchor .reference
  else if c == '&' then addAnchor .anchor
  else if c == '!' then addTag
  else if c == '|' && !flow then addBlock true
  else if c == '>' && !flow then addBlock false
  else if c == '\'' || c == '"' then addQuoted c
  else if startsPlain flow c rest then addPlain
  else failHere .noToken

/-- Adds the next token, with the comment after it on its line, or ends the file. After a hyphen
there is no such comment: it belongs to what follows. -/
def next : Tokenize Unit := do
  reading (Scan.require 1)
  let before := (← get).cursor.mark
  skipGap ((← get).cursor.turns + 1)
  unroll (Int.ofNat (← get).cursor.mark.column) before
  reading (Scan.require 4)
  let here := (← get).cursor
  match here.rest with
  | [] => endStream
  | c :: rest =>
    if here.mark.column == 0 && c == '%' then addDirective
    else if here.atIndicator then addIndicator (if c == '-' then .documentStart else .documentEnd)
    else
      addToken c rest
      if !(c == '-' && isGap rest) then reading lineComment

/-- Whether the first token that is not taken is ready. -/
def isReady : Tokenize Bool := do
  let s ← get
  if s.queue.length ≤ 2 then return false
  else
    match s.awaited.find? (·.1 == s.taken) with
    | none => return true
    | some (_, depth) => return !(← isLive depth)

/-- Adds tokens until the first that is not taken is ready, in a number of turns. -/
def prepare : Nat → Tokenize Unit
  | 0 => return ()
  | turns + 1 => do
    if !(← isReady) then
      next
      prepare turns

end Tokenize

end Lox.Yaml
