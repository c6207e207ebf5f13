import Lox.Command

/-!
# The program

The command line with real files and streams. What the command does is decided elsewhere; here texts
are read and written. A program prints as it runs, and a line is read from the input only when a
program asks for one: a run that has used up its steps, or asks for a line that was not typed yet,
starts again with more of them, and what it prints is written as far as it has not been.
-/

namespace Lox.Program

/-! ## Streams and files -/

/-- A text as the name of a file. -/
def nameOf (path : Text) : String := String.ofList path.chars

/-- Writes a text at once. -/
def write (stream : IO.FS.Stream) (t : Text) : IO Unit := do
  stream.write ⟨t.toArray⟩
  stream.flush

/-- Reads a line with its line feed, or what is left before the end. -/
partial def readLine (stream : IO.FS.Stream) : IO Text := do
  let bytes := (← stream.read 1).toList
  match bytes with
  | [] => return []
  | b :: _ => if b == 0x0A then return [b] else return b :: (← readLine stream)

/-- Reads a file. -/
def readFile (path : Text) : IO (Except FileProblem Text) := do
  try
    return .ok (← IO.FS.readBinFile (nameOf path)).toList
  catch
    | .noFileOrDirectory .. => return .error .missing
    | .inappropriateType .. => return .error .directory
    | _ => return .error .missing

/-- Writes a file, and says what went wrong if it cannot be. -/
def writeFile (path contents : Text) : IO (Option FileProblem) := do
  try
    IO.FS.writeBinFile (nameOf path) ⟨contents.toArray⟩
    return none
  catch _ => return some .missing

/-- Whether there is something at a path. -/
def isThere (path : Text) : IO Bool := do
  try
    discard (IO.FS.realPath (nameOf path))
    return true
  catch _ => return false

/-! ## Evaluation -/

/-- What can be run on a console with a budget of steps: what a run leads to, the console that it
leaves, and whether it has used up its budget. -/
structure Task (α : Type) where
  attempt : Nat → Console → α
  console : α → Console
  exhausted : α → Bool

/-- Does a task until it ends, from a budget and what was typed, and writes what it prints after
what was written. -/
partial def settle {α : Type} (task : Task α) (budget : Nat) (typed : Text) (atEnd : Bool)
    (written : Nat) : IO α := do
  let console : Console := if atEnd then ⟨[], typed, none, none⟩ else .pending typed
  let reached := task.attempt budget console
  let output := (task.console reached).output
  write (← IO.getStdout) (output.drop written)
  if !atEnd && (task.console reached).wantsMore then
    match ← readLine (← IO.getStdin) with
    | [] => settle task budget typed true output.length
    | line => settle task budget (typed ++ line) false output.length
  else if task.exhausted reached then settle task (2 * budget) typed atEnd output.length
  else return reached

/-- Does a task until it ends, and tells how long it took. -/
def timed {α : Type} (task : Task α) : IO (α × Text) := do
  let started ← IO.monoMsNow
  let reached ← settle task 65536 [] false 0
  return (reached, Text.ofNat ((← IO.monoMsNow) - started) ++ utf8 "ms")

/-- The run of a source in a session. -/
def sourceTask (s : Session) (source : Text) : Task (RunReport × Session) where
  attempt budget console := { s with console := console }.run budget source
  console reached := reached.2.console
  exhausted reached := reached.1.ending matches .exhausted

/-- The run of a line at the prompt. -/
def lineTask (p : Prompt) (line : Text) : Task Prompted where
  attempt budget console :=
    { p with session := { p.session with console := console } }.run budget [line]
  console reached := reached.prompt.session.console
  exhausted reached := reached.ended matches .crashed .exhausted

/-- How the command exits. -/
def exitCode : Command.Exit → IO UInt32
  | .code c => return UInt32.ofNat c.number
  | .crashed (.faulted f) => do
    write (← IO.getStderr) (f.message?.getD [] ++ utf8 "\n")
    return 2
  | .crashed .exhausted => return 2

/-! ## Jobs -/

/-- Does something with the source of a script, if it can be read. -/
def withScript (script : Text) (act : Text → IO UInt32) : IO UInt32 := do
  match ← readFile script with
  | .ok source => act source
  | .error problem =>
    write (← IO.getStderr) (Command.unreadable script problem)
    return UInt32.ofNat ExitCode.noInput.number

/-- Writes what a command has written. -/
def emit (result : Command.Result) : IO UInt32 := do
  write (← IO.getStdout) result.output
  write (← IO.getStderr) result.errors
  exitCode result.exit

/-- Runs a script. -/
def runScript (r : Reporting) (settings : Settings) (script source : Text) : IO UInt32 := do
  write (← IO.getStderr) (r.level.write [.running script])
  let ((report, s), elapsed) ← timed (sourceTask (Command.session settings []) source)
  let result := Command.ofRun { r with elapsed := elapsed } source report s
  write (← IO.getStderr) result.errors
  exitCode result.exit

/-- Runs a script again each time its text changes. -/
partial def rerun (r : Reporting) (settings : Settings) (script last : Text) : IO UInt32 := do
  IO.sleep 200
  match ← readFile script with
  | .error _ => rerun r settings script last
  | .ok source =>
    if source == last then rerun r settings script last
    else
      write (← IO.getStderr) (r.level.write [.scriptChanged (utf8 "WRITE")])
      write (← IO.getStdout) (Command.changed script)
      discard (runScript r settings script source)
      rerun r settings script source

/-- Runs a script, and runs it again after every change. -/
def watch (r : Reporting) (settings : Settings) (script : Text) : IO UInt32 := do
  if ← isThere (Path.parent (Path.clean script)) then
    let source := (← readFile script).toOption.getD []
    discard (withScript script (runScript r settings script))
    rerun r settings script source
  else
    write (← IO.getStderr) (Command.unwatchable script .missing)
    return UInt32.ofNat ExitCode.noInput.number

/-- Enters lines that have been read, and prompts for more until one of them or the input ends the
prompt. Gives the history. -/
partial def promptLoop (r : Reporting) (p : Prompt) : List Text → IO (History × UInt32)
  | [] => do
    if ← (← IO.getStdin).isTty then write (← IO.getStdout) (utf8 "> ")
    match (← readLine (← IO.getStdin)) with
    | [] =>
      write (← IO.getStdout) (utf8 "\n")
      return (p.history, 0)
    | entered => promptLoop r p (entered.readLines.map Line.bytes)
  | line :: rest => do
    let (prompted, elapsed) ← timed (lineTask p line)
    write (← IO.getStderr) (prompted.errors { r with elapsed := elapsed })
    match prompted.ended with
    | .endOfInput => promptLoop r prompted.prompt rest
    | .quit => return (prompted.prompt.history, 0)
    | .crashed crash => return (prompted.prompt.history, ← exitCode (.crashed crash))

/-- Prompts for lines, with the history of earlier sessions. -/
def prompt (r : Reporting) (settings : Settings) : IO UInt32 := do
  let path := History.path ((← IO.getEnv "HOME").map utf8) settings.historyFile
  let history := match ← readFile path with
    | .ok file => History.ofFile file
    | .error _ => []
  write (← IO.getStdout) Command.banner
  let (history, code) ← promptLoop r ⟨Command.session settings [], history⟩ []
  if !path.isEmpty then
    match ← writeFile path history.toFile with
    | none => pure ()
    | some problem => write (← IO.getStderr) (Command.unsaved r path problem)
  return code

/-- Does what a command line asks for. -/
def perform (r : Reporting) (settings : Settings) : Command.Job → IO UInt32
  | .prompt => prompt r settings
  | .tokens script => withScript script fun source => emit (Command.showTokens r source)
  | .tree script => withScript script fun source => emit (Command.showTree r source)
  | .watch script => watch r settings script
  | .run script => withScript script (runScript r settings script)

end Lox.Program

open Lox Lox.Program in
/-- Runs the command. -/
def main (arguments : List String) : IO UInt32 := do
  match Command.jobOf (arguments.map utf8) with
  | .error refusal =>
    write (← IO.getStderr) refusal.errors
    return UInt32.ofNat refusal.code.number
  | .ok (flags, job) =>
    match Command.configure flags (← readFile (Command.configPath flags)) with
    | .error problem =>
      write (← IO.getStderr) (problem ++ utf8 "\n")
      return UInt32.ofNat ExitCode.config.number
    | .ok (settings, level) =>
      let terminal ← (← IO.getStderr).isTty
      perform ⟨settings.colorEnabled && terminal, level, []⟩ settings job
