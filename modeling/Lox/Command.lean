import Lox.Command.Flags
import Lox.Command.Prompt
import Lox.Files
import Lox.Settings
import Lox.Listing
import Lox.Version.Constraint

/-!
# The command line

The command runs a script, lists its tokens or its tree, or prompts for lines if there is no script.
Flags come before settings from a file. Everything that can be wrong is looked at in this order: the
flags, the number of scripts, the settings, the required version, the level of the log, the script.
-/

namespace Lox

/-- How the command exits. -/
inductive ExitCode
  | ok
  | usage
  | dataError
  | noInput
  | config
  deriving DecidableEq, Repr

/-- The number of a way to exit. -/
def ExitCode.number : ExitCode → Nat
  | ok => 0
  | usage => 64
  | dataError => 65
  | noInput => 66
  | config => 78

namespace Command

/-- The version of the interpreter. -/
def version : Text := utf8 "1.0.0"

/-- What the prompt starts with. -/
def banner : Text := utf8 "jlox " ++ version ++ utf8 ", :quit to exit\n"

/-! ## What to do -/

/-- What a command line asks for. -/
inductive Job
  | prompt
  | tokens (script : Text)
  | tree (script : Text)
  | watch (script : Text)
  | run (script : Text)

/-- Why there is nothing to do: what is written about it, and how the command exits. -/
structure Refusal where
  errors : Text
  code : ExitCode

/-- What a command line asks for, with its flags. Tokens come before a tree, and both before
watching. -/
def jobOf (arguments : List Text) : Except Refusal (Flags × Job) :=
  match Flags.parse arguments with
  | .help => .error ⟨Flags.usage, .ok⟩
  | .mistaken mistake => .error ⟨mistake.message ++ utf8 "\n" ++ Flags.usage, .usage⟩
  | .given flags [] =>
    if flags.tokens || flags.tree || flags.watch then .error ⟨Flags.usage, .usage⟩
      else .ok (flags, .prompt)
  | .given flags [script] =>
    .ok (flags, if flags.tokens then .tokens script else if flags.tree then .tree script
      else if flags.watch then .watch script else .run script)
  | .given _ (_ :: _ :: _) => .error ⟨Flags.usage, .usage⟩

/-! ## Settings -/

/-- The path of the settings. -/
def configPath (flags : Flags) : Text := flags.config.getD Flags.defaultConfig

/-- The settings of a file as it was found. Only a file that a flag names has to be there. -/
def readSettings (flags : Flags) : Except FileProblem Text → Except Text Settings
  | .ok file => (Settings.read file).mapError (Settings.Problem.message (configPath flags))
  | .error .missing =>
    if flags.config.isSome then .error (Settings.Problem.missing.message (configPath flags))
      else .ok .default
  | .error .directory => .error (Settings.Problem.directory.message (configPath flags))
  | .error problem =>
    .error (utf8 "opening config: open " ++ configPath flags ++ utf8 ": " ++ problem.message)

/-- Settings with what flags say in place of what they hold. -/
def override (flags : Flags) (s : Settings) : Settings :=
  { s with
    logLevel := if flags.logLevel.isEmpty then s.logLevel else flags.logLevel
    maxCallDepth := if 0 < flags.maxDepth then flags.maxDepth else s.maxCallDepth
    color := if flags.noColor then some false else s.color }

/-- The settings that the command runs with, and the level of its log. -/
def configure (flags : Flags) (file : Except FileProblem Text) :
    Except Text (Settings × LogLevel) :=
  do
  let settings := override flags (← readSettings flags file)
  match checkVersion settings.requires version with
  | some problem => .error problem.message
  | none =>
    match LogLevel.read? settings.logLevel with
    | none =>
      .error (utf8 "invalid log level: not a valid logrus Level: " ++ Quoted.text settings.logLevel)
    | some level => .ok (settings, level)

/-- A session under settings. -/
def session (settings : Settings) (input : Text) : Session :=
  .fresh ⟨[], input, none, none⟩ (callLimit settings.maxCallDepth)

/-- What is written about a script that cannot be read. -/
def unreadable (script : Text) (problem : FileProblem) : Text :=
  let verb := if problem == .directory then utf8 "read " else utf8 "open "
  utf8 "reading script: " ++ verb ++ script ++ utf8 ": " ++ problem.message ++ utf8 "\n"

/-- What is written about a script whose directory cannot be watched. -/
def unwatchable (script : Text) (problem : FileProblem) : Text :=
  utf8 "watching " ++ script ++ utf8 ": " ++ problem.message ++ utf8 "\n"

/-- What is written before a script that has changed runs again. -/
def changed (script : Text) : Text := utf8 "--- " ++ script ++ utf8 " changed, running again\n"

/-! ## A command on given files -/

/-- What a command starts from. -/
structure Invocation where
  arguments : List Text
  input : Text
  lines : Text
  files : Files
  home : Option Text
  terminal : Bool
  elapsed : Text

/-- How a command ended. -/
inductive Exit
  | code (c : ExitCode)
  | crashed (c : Crash)

/-- How a command ended, what it wrote, and the files it wrote. -/
structure Result where
  exit : Exit
  output : Text
  errors : Text
  written : Files

/-- A command that writes no files. -/
def Result.plain (exit : Exit) (output errors : Text) : Result := ⟨exit, output, errors, []⟩

/-- What a command does with a source that was run in a session of its own. -/
def ofRun (r : Reporting) (source : Text) (report : RunReport) (s : Session) : Result :=
  let exit : Exit := match report.ending with
    | .diagnosed [] => .code .ok
    | .diagnosed _ => .code .dataError
    | .faulted f => .crashed (.faulted f)
    | .exhausted => .crashed .exhausted
  .plain exit s.console.output (r.ofRun source report)

/-- Runs a source in a session of its own. -/
def runSource (budget : Nat) (r : Reporting) (s : Session) (source : Text) : Result :=
  let (report, s) := s.run budget source
  ofRun r source report s

/-- Shows the tokens of a source, one on a line. -/
def showTokens (r : Reporting) (source : Text) : Result :=
  match listTokens source with
  | .ok lines => .plain (.code .ok) (Text.lines lines) []
  | .error ds => .plain (.code .dataError) [] (reportAll r.color source ds)

/-- Shows the tree of a source. -/
def showTree (r : Reporting) (source : Text) : Result :=
  match listTree source with
  | .ok tree => .plain (.code .ok) (if tree.isEmpty then [] else tree ++ utf8 "\n") []
  | .error ds => .plain (.code .dataError) [] (reportAll r.color source ds)

/-- Runs a script. -/
def runScript (budget : Nat) (r : Reporting) (s : Session) (script source : Text) : Result :=
  let result := runSource budget r s source
  { result with errors := r.level.write [.running script] ++ result.errors }

/-- What is written about a history that cannot be saved. -/
def unsaved (r : Reporting) (path : Text) (problem : FileProblem) : Text :=
  r.level.write [.historyNotSaved (utf8 "open " ++ path ++ utf8 ": " ++ problem.message)]

/-- What is done with the history when the prompt ends: the file that is written in the directory,
and what is written about one that cannot be. Nothing is done if the history has no path. -/
def saveHistory (r : Reporting) (files : Files) (path : Text) (h : History) : Files × Text :=
  if path.isEmpty then ([], [])
  else
    match files.make path with
    | .ok place => (if place.isInside then [(place.path, h.toFile)] else [], [])
    | .error problem => ([], unsaved r path problem)

/-- The history in the file at a path, if it can be read. -/
def loadHistory (files : Files) (path : Text) : History :=
  match files.read path with
  | .ok file => .ofFile file
  | .error _ => []

/-- Prompts for lines, and gets these. -/
def runPrompt (budget : Nat) (i : Invocation) (r : Reporting) (settings : Settings)
    (lines : List Text) : Result :=
  let path := History.path i.home settings.historyFile
  let start : Prompt := ⟨session settings i.input, loadHistory i.files path⟩
  let prompted := start.run budget lines
  let (written, complaint) := saveHistory r i.files path prompted.prompt.history
  let output := banner ++ prompted.prompt.session.console.output
  let errors := prompted.errors r ++ complaint
  match prompted.ended with
  | .endOfInput => ⟨.code .ok, output ++ utf8 "\n", errors, written⟩
  | .quit => ⟨.code .ok, output, errors, written⟩
  | .crashed crash => ⟨.crashed crash, output, errors, written⟩

/-- Does something with the source of a script, if it can be read. -/
def withScript (files : Files) (script : Text) (act : Text → Result) : Result :=
  match files.read script with
  | .ok source => act source
  | .error problem => .plain (.code .noInput) [] (unreadable script problem)

/-- Runs a script that is watched, as often as it changes while nothing changes it: once. -/
def runWatched (budget : Nat) (i : Invocation) (r : Reporting) (settings : Settings)
    (script : Text) : Result :=
  match i.files.notDirectory? (Path.parent (Path.clean script)) with
  | none =>
    let result := withScript i.files script (runScript budget r (session settings i.input) script)
    match result.exit with
    | .code _ => { result with exit := .code .ok }
    | .crashed _ => result
  | some problem => .plain (.code .noInput) [] (unwatchable script problem)

/-- Does what a command line asks for, with the lines that a prompt gets. -/
def perform (budget : Nat) (i : Invocation) (r : Reporting) (settings : Settings)
    (lines : List Text) : Job → Result
  | .prompt => runPrompt budget i r settings lines
  | .tokens script => withScript i.files script (showTokens r)
  | .tree script => withScript i.files script (showTree r)
  | .watch script => runWatched budget i r settings script
  | .run script => withScript i.files script (runScript budget r (session settings i.input) script)

/-- Runs a command, with a budget of steps for each statement that it runs, and with the lines that
a prompt gets. -/
def runEntering (budget : Nat) (i : Invocation) (lines : List Text) : Result :=
  match jobOf i.arguments with
  | .error refusal => .plain (.code refusal.code) [] refusal.errors
  | .ok (flags, job) =>
    match configure flags (i.files.read (configPath flags)) with
    | .error problem => .plain (.code .config) [] (problem ++ utf8 "\n")
    | .ok (settings, level) =>
      perform budget i ⟨settings.colorEnabled && i.terminal, level, i.elapsed⟩ settings lines job

/-- Runs a command whose prompt gets the lines of a text, as they are read without a terminal. -/
def run (budget : Nat) (i : Invocation) : Result :=
  runEntering budget i (i.lines.readLines.map Line.bytes)

end Command

end Lox
