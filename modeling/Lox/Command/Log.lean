import Lox.Session
import Lox.Text.Lowercase

/-!
# The log

The log is lines of keys and values, each line with a level. A line is written if the level that is
set is at least as detailed as its own. Values that hold anything but letters, digits and a few
marks are quoted.
-/

namespace Lox

/-- The levels of the log, from the coarsest to the most detailed. -/
inductive LogLevel
  | panic
  | fatal
  | error
  | warn
  | info
  | debug
  | trace
  deriving DecidableEq, Repr

namespace LogLevel

/-- How detailed a level is. -/
def rank : LogLevel → Nat
  | panic => 0
  | fatal => 1
  | error => 2
  | warn => 3
  | info => 4
  | debug => 5
  | trace => 6

/-- The name of a level in a line. -/
def name : LogLevel → String
  | panic => "panic"
  | fatal => "fatal"
  | error => "error"
  | warn => "warning"
  | info => "info"
  | debug => "debug"
  | trace => "trace"

/-- The level that a word means, in any case. -/
def read? (word : Text) : Option LogLevel :=
  let word := word.lower
  if word == utf8 "warn" then some warn
  else [panic, fatal, error, warn, info, debug, trace].find? fun l => utf8 l.name == word

/-- Whether lines of a level are written when another is set. -/
def writes (set line : LogLevel) : Bool := line.rank ≤ set.rank

end LogLevel

/-- A line of the log. -/
structure LogLine where
  level : LogLevel
  message : Text
  fields : List (Text × Text)

namespace LogLine

/-- Whether a byte may stand in a value that is not quoted. -/
def isBare (b : UInt8) : Bool :=
  (0x61 ≤ b && b ≤ 0x7A) || (0x41 ≤ b && b ≤ 0x5A) || (0x30 ≤ b && b ≤ 0x39) ||
    (utf8 "-._/@^+").contains b

/-- A value, quoted if it has to be. -/
def value (t : Text) : Text := if t.all isBare then t else Quoted.text t

/-- A line with its fields by name. -/
def text (l : LogLine) : Text :=
  let fields := (utf8 "level", utf8 l.level.name) :: (utf8 "msg", l.message) ::
    l.fields.mergeSort fun a b => Text.le a.1 b.1
  Text.join (utf8 " ") (fields.map fun f => f.1 ++ utf8 "=" ++ value f.2) ++ utf8 "\n"

/-- The line about a stage that has finished, given how long it took. -/
def ofStage (elapsed : Text) (r : StageRecord) : LogLine :=
  ⟨.debug, utf8 "stage finished",
    [(utf8 "stage", utf8 r.stage.name), (utf8 "tokens", Text.ofNat r.tokens),
      (utf8 "statements", Text.ofNat r.statements), (utf8 "diagnostics", Text.ofNat r.diagnostics),
      (utf8 "elapsed", elapsed)]⟩

/-- The line about a script that is run. -/
def running (script : Text) : LogLine := ⟨.debug, utf8 "running", [(utf8 "script", script)]⟩

/-- The line about a script that has changed. -/
def scriptChanged (event : Text) : LogLine :=
  ⟨.debug, utf8 "script changed", [(utf8 "event", event)]⟩

/-- The line about a history that cannot be saved. -/
def historyNotSaved (problem : Text) : LogLine :=
  ⟨.warn, utf8 "cannot save history", [(utf8 "error", problem)]⟩

end LogLine

/-- The lines that are written when a level is set. -/
def LogLevel.write (set : LogLevel) (lines : List LogLine) : Text :=
  (lines.filter fun l => set.writes l.level).flatMap LogLine.text

end Lox
