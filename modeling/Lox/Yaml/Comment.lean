import Lox.Yaml.Cursor

/-!
# Comments of a settings file

A comment goes from a number sign to the end of its line. Two kinds of place are looked at for one.

* After a token, on the same line (`lineComment`). Such a comment is read alone.
* Before a token (`comments`). Such a comment is read with all that follow it, and between them
  there may be blanks, tabs among them, and empty lines.

Looking for a comment goes only so far (`reach`).
-/

namespace Lox.Yaml

open Scan

/-- How many characters are looked at for a comment. -/
def reach : Nat := 512

/-- Reads up to the end of the line that a comment is on, which starts at a place further on. -/
def readComment (comment : Nat) : Nat → Scan Unit
  | 0 => return ()
  | turns + 1 => do
    require 1
    let here ← get
    match here.rest with
    | c :: _ =>
      if isBreak c then
        if here.mark.index < comment then
          require 2
          discard skipBreak
          readComment comment turns
      else
        skip
        readComment comment turns
    | [] => return ()

/-- Reads a comment after so many characters. -/
def commentAfter (distance : Nat) : Scan Unit := do
  readComment ((← mark).index + distance) (← turns)

/-! ## After a token -/

/-- The distance to a comment on this line, if there is one, from so many characters on. -/
def lineCommentAt? : Nat → Nat → Scan (Option Nat)
  | 0, _ => return none
  | turns + 1, distance => do
    if ← glance (distance + 1) then
      match (← rest).drop distance with
      | c :: _ =>
        if isSpace c then lineCommentAt? turns (distance + 1)
        else return if c == '#' then some distance else none
      | [] => return none
    else return none

/-- Reads the comment on this line, if there is one and the line has not just started. -/
def lineComment : Scan Unit := do
  if (← get).lineEnds == 0 then
    match ← lineCommentAt? reach 0 with
    | some distance => commentAfter distance
    | none => return ()

/-! ## Before a token -/

/-- The distance to the next comment, if there is nothing but blanks and line ends before it, from
so many characters on. A line end of more than one byte is as far as is looked. -/
def commentAt? : Nat → Nat → Scan (Option Nat)
  | 0, _ => return none
  | turns + 1, distance => do
    if ← glance (distance + 1) then
      match (← rest).drop distance with
      | c :: _ =>
        if isSpace c || isByteBreak c then commentAt? turns (distance + 1)
        else if c == '#' then return some distance
        else
          if isBreak c && turns != 0 then discard (glance (distance + 2))
          return none
      | [] => return none
    else return none

/-- Reads comments, one after another. -/
def moreComments : Nat → Scan Unit
  | 0 => return ()
  | turns + 1 => do
    match ← rest with
    | c :: _ =>
      if isByteBreak c then
        match ← commentAt? (reach - 1) 1 with
        | some distance =>
          commentAfter distance
          moreComments turns
        | none => return ()
      else discard (glance 2)
    | [] => discard (glance 2)

/-- Reads a comment that starts here and all that follow it. -/
def comments : Scan Unit := do
  discard (glance 1)
  commentAfter 0
  moreComments (← turns)

end Lox.Yaml
