import Lox.Command.Log
import Lox.History
import Lox.Report

/-!
# The prompt

The prompt runs one line after another in one session. A line needs no semicolon at its end: one is
added, and a second one is an empty statement. Blank lines are passed over, and the line `:quit`
ends the prompt before the input does.

What a line reports is rendered against that line.
-/

namespace Lox

/-- How reports and the log are written: with colour or not, down to what level, and how a duration
reads. -/
structure Reporting where
  color : Bool
  level : LogLevel
  elapsed : Text

/-- What is written about a run of a source: the log of its stages, and its diagnostics. -/
def Reporting.ofRun (r : Reporting) (source : Text) (report : RunReport) : Text :=
  r.level.write (report.log.map (LogLine.ofStage r.elapsed)) ++
    match report.ending with
    | .diagnosed ds => reportAll r.color source ds
    | .faulted _ | .exhausted => []

/-- How a command ends that does not end by itself. -/
inductive Crash
  | faulted (f : Fault)
  | exhausted

/-- How an ending crashes the command, if it does. -/
def Ending.crash? : Ending → Option Crash
  | .diagnosed _ => none
  | .faulted f => some (.faulted f)
  | .exhausted => some .exhausted

/-- A line that is entered. -/
inductive Entry
  | blank
  | quit
  | source (t : Text)
  deriving DecidableEq, Repr

namespace Entry

/-- The word that ends the prompt. -/
def quitWord : Text := utf8 ":quit"

/-- What a line is. -/
def ofLine (line : Text) : Entry :=
  let trimmed := line.trim
  if trimmed.isEmpty then blank else if trimmed == quitWord then quit else source (line ++ utf8 ";")

end Entry

/-- A session with the lines that were entered in it. -/
structure Prompt where
  session : Session
  history : History

/-- How the prompt ended. -/
inductive PromptEnd
  | endOfInput
  | quit
  | crashed (c : Crash)

/-- How the prompt ended, with the sources that it ran and their reports. -/
structure Prompted where
  ended : PromptEnd
  prompt : Prompt
  reports : List (Text × RunReport)

/-- What is written about the lines, each rendered against its own source. -/
def Prompted.errors (r : Reporting) (p : Prompted) : Text :=
  (p.reports.map fun ran => r.ofRun ran.1 ran.2).flatten

namespace Prompt

/-- Runs a line and keeps it. -/
def enter (budget : Nat) (p : Prompt) (line source : Text) : RunReport × Prompt :=
  let (report, session) := p.session.run budget source
  (report, ⟨session, p.history.add line⟩)

/-- Runs lines, in order, up to the one that ends the prompt. -/
def run (budget : Nat) (p : Prompt) : List Text → Prompted
  | [] => ⟨.endOfInput, p, []⟩
  | line :: rest =>
    match Entry.ofLine line with
    | .blank => run budget p rest
    | .quit => ⟨.quit, p, []⟩
    | .source source =>
      let (report, p) := p.enter budget line source
      match report.ending.crash? with
      | some crash => ⟨.crashed crash, p, [(source, report)]⟩
      | none =>
        let later := run budget p rest
        { later with reports := (source, report) :: later.reports }

end Prompt

end Lox
