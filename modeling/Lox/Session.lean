import Lox.Machine.Run
import Lox.Resolution
import Lox.Syntax.Program
import Lox.Token.Piece

/-!
# Sessions

A session runs sources one after another against one root scope, so that a source can build on
earlier ones. A run goes through its stages in order, and a stage that reports anything is the last:
the program runs only if it was scanned, parsed and resolved without a report.

The names that resolution starts from are those bound in the root scope at that moment. A run that
stops early leaves the bindings it has made, and no others.
-/

namespace Lox

/-- The most calls that may be active unless said otherwise. -/
def defaultCallLimit : Nat := 10000

/-- The call limit that a number asks for. One that is not positive asks for the usual limit. -/
def callLimit (requested : Int) : Nat := if 0 < requested then requested.toNat else defaultCallLimit

/-- What is logged about a stage that has finished. -/
structure StageRecord where
  stage : Stage
  tokens : Nat
  statements : Nat
  diagnostics : Nat
  deriving DecidableEq, Repr

/-- What the stages before evaluation make of a source: a resolved program or reports, and the log
of the stages. -/
structure Analysis where
  result : Except (List Diagnostic) (List Stmt)
  tokens : Nat
  log : List StageRecord

/-- Takes a source through the stages before evaluation, against the names of the root scope. The
end of the input counts as a token. -/
def analyse (run : Nat) (root : StaticScope) (source : Text) : Analysis :=
  let scanned := scan source
  let tokens := scanned.tokens.length + 1
  let scanLog : StageRecord := ⟨.scan, tokens, 0, scanned.diagnostics.length⟩
  if scanned.diagnostics.isEmpty then
    let parsed := parse scanned.tokens scanned.size
    let statements := parsed.stmts.length
    let parseLog : StageRecord := ⟨.parse, tokens, statements, parsed.diagnostics.length⟩
    if parsed.diagnostics.isEmpty then
      let resolved := resolveProgram run root parsed.stmts
      let resolveLog : StageRecord := ⟨.resolve, tokens, statements, resolved.diagnostics.length⟩
      let result := if resolved.diagnostics.isEmpty then .ok resolved.value
        else .error resolved.diagnostics
      ⟨result, tokens, [scanLog, parseLog, resolveLog]⟩
    else ⟨.error parsed.diagnostics, tokens, [scanLog, parseLog]⟩
  else ⟨.error scanned.diagnostics, tokens, [scanLog]⟩

/-- How a run ended: with diagnostics, none if all went well, or without blaming the source. -/
inductive Ending
  | diagnosed (diagnostics : List Diagnostic)
  | faulted (fault : Fault)
  | exhausted

/-- How a run ended, and the log of its stages. -/
structure RunReport where
  ending : Ending
  log : List StageRecord

/-- A root scope in its heap, the console, the number of runs so far, and the call limit. -/
structure Session where
  heap : Heap
  console : Console
  runs : Nat
  limit : Nat

namespace Session

/-- A session that has run nothing. -/
def fresh (console : Console) (limit : Nat) : Session :=
  ⟨.ofBindings Builtin.bindings, console, 0, limit⟩

/-- The names of the root scope. -/
def rootNames (s : Session) : StaticScope :=
  (s.heap.bindings Heap.root).map fun (name, b) => (name, b.mutable)

/-- How a run ended that got as far as evaluation. -/
def endingOf : Outcome → Ending
  | .completed => .diagnosed []
  | .stopped (.blame p site) => .diagnosed [⟨.runtime p, site.blamed⟩]
  | .stopped (.fault fault) => .faulted fault
  | .exhausted => .exhausted

/-- What is logged about evaluation: nothing unless it ends in the usual way. -/
def runtimeLog (tokens statements : Nat) : Ending → List StageRecord
  | .diagnosed ds => [⟨.runtime, tokens, statements, ds.length⟩]
  | .faulted _ | .exhausted => []

/-- The report of a run that got as far as evaluation, and the session after it. -/
def conclude (runs limit : Nat) (analysis : Analysis) (program : List Stmt) (ended : Ended) :
    RunReport × Session :=
  let ending := endingOf ended.outcome
  (⟨ending, analysis.log ++ runtimeLog analysis.tokens program.length ending⟩,
    ⟨ended.heap, ended.console, runs + 1, limit⟩)

/-- Runs a source, with a budget of steps for each of its statements. No call is active at the
start. -/
def run (budget : Nat) (s : Session) (source : Text) : RunReport × Session :=
  let analysis := analyse s.runs s.rootNames source
  match analysis.result with
  | .error ds => (⟨.diagnosed ds, analysis.log⟩, { s with runs := s.runs + 1 })
  | .ok program =>
    let ⟨heap, console, runs, limit⟩ := s
    conclude runs limit analysis program (execute limit budget program 0 heap console).1

/-- A binding of the root scope that is worth listing. -/
structure Global where
  name : Text
  mutable : Bool
  kind : ValueKind
  text : Text

/-- Whether a value is a native bound under the name it has by itself. -/
def isOwnNative (name : Text) : Value → Bool
  | .native n => n.name == name
  | _ => false

/-- The bindings of the root scope by name, without natives that are bound under their own names. -/
def globals (s : Session) : List Global :=
  let listed := (s.heap.bindings Heap.root).filter fun (name, b) => !isOwnNative name b.value
  (listed.mergeSort fun a b => Text.le a.1 b.1).map fun (name, b) =>
    ⟨name, b.mutable, b.value.kind, b.value.printed s.heap⟩

end Session

/-- The budget of steps for a statement where a program is to run until it ends. -/
def ampleBudget : Nat := Nat.pow 10 18

end Lox
