import Lox.Problem

/-!
# Diagnostics

A diagnostic is a problem with the place it is blamed on. The stage that found the problem follows
from the problem. A **notice** is what is left of a diagnostic once it is put into words.
-/

namespace Lox

/-- The stages of a run, in the order in which they happen. -/
inductive Stage
  | scan
  | parse
  | resolve
  | runtime
  deriving DecidableEq, Repr

namespace Stage

/-- The name of a stage. -/
def name : Stage → String
  | scan => "Scan"
  | parse => "Parse"
  | resolve => "Resolve"
  | runtime => "Runtime"

/-- The name of a stage that may be none of the four. -/
def nameOf : Option Stage → String
  | some s => s.name
  | none => "Unknown"

/-- The stage with a number, counted from zero. -/
def ofNumber? : Int → Option Stage
  | 0 => some scan
  | 1 => some parse
  | 2 => some resolve
  | 3 => some runtime
  | _ => none

end Stage

/-- The cause of a diagnostic. -/
inductive Problem
  | scan (p : ScanProblem)
  | parse (p : ParseProblem)
  | resolve (p : ResolveProblem)
  | runtime (p : RuntimeProblem)

/-- The stage that finds a problem. -/
def Problem.stage : Problem → Stage
  | scan _ => .scan
  | parse _ => .parse
  | resolve _ => .resolve
  | runtime _ => .runtime

/-- The wording of a problem. -/
def Problem.message : Problem → Text
  | scan p => p.message
  | parse p => p.message
  | resolve p => p.message
  | runtime p => p.message

/-- A problem and the bytes of the source it is blamed on. -/
structure Diagnostic where
  problem : Problem
  span : Span

namespace Diagnostic

/-- The stage that found the problem. -/
def stage (d : Diagnostic) : Stage := d.problem.stage

/-- The wording of the problem. -/
def message (d : Diagnostic) : Text := d.problem.message

end Diagnostic

/-- A diagnostic in words. The stage may be none of the four. -/
structure Notice where
  stage : Option Stage
  span : Span
  message : Text
  deriving DecidableEq

/-- A diagnostic in words. -/
def Diagnostic.notice (d : Diagnostic) : Notice := ⟨some d.stage, d.span, d.message⟩

/-- A notice on one line, with the offset it is about. -/
def Notice.line (n : Notice) : Text :=
  utf8 (Stage.nameOf n.stage) ++ utf8 " error at " ++ Text.ofNat n.span.offset ++
    utf8 ": " ++ n.message

/-- Diagnostics one on a line. -/
def Diagnostic.summary (ds : List Diagnostic) : Text :=
  Text.join (utf8 "\n") (ds.map fun d => d.notice.line)

/-- The stage of the first diagnostic, or the first stage if there is none. -/
def Diagnostic.stageOf : List Diagnostic → Stage
  | [] => .scan
  | d :: _ => d.stage

end Lox
