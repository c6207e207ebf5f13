import Lox.Diagnostic
import Lox.Syntax.Productions

/-!
# Programs

A program is read statement by statement. The tokens that one statement takes are a **segment**. A
segment that fails gives one diagnostic and no statement: what is left when the failure arises is
passed over up to a word that starts a statement, or up to and with a semicolon, and reading goes on
there. Every segment has at least one token, so reading ends, and no token is read twice.
-/

namespace Lox

/-- A bound on the nesting of productions that a list of tokens never meets: fewer productions than
the factor can follow each other without reading a token. -/
def nestingBound (ts : List Token) : Nat := 24 * (ts.length + 1)

/-- Whether a token of a kind ends the tokens that recovery passes over. -/
def TokenKind.resumes (k : TokenKind) : Bool :=
  [.classWord, .funWord, .letWord, .constWord, .forWord, .ifWord, .printWord,
    .returnWord].contains k

/-- What is left after the tokens that recovery passes over. -/
def resume : List Token → List Token
  | [] => []
  | t :: rest =>
    if t.kind.resumes then t :: rest
    else if t.kind == .semicolon then rest
    else resume rest

/-- Where reading goes on after a failure in a segment that started with the given tokens. A failure
that has read nothing gives up the first token. -/
def Failure.recover (f : Failure) (start : List Token) : List Token :=
  resume (if f.rest.length == start.length then f.rest.drop 1 else f.rest)

/-- What one statement took, and what it gave. -/
structure Segment where
  tokens : List Token
  outcome : Except Failure (Option Stmt)

/-- The tokens of a list before what is left of it. -/
def consumed (ts rest : List Token) : List Token := ts.take (ts.length - rest.length)

/-- The segments of a list of tokens, at most as many as the bound. -/
def segmentsWithin : Nat → List Token → List Segment
  | 0, _ => []
  | _ + 1, [] => []
  | n + 1, t :: ts =>
    match Grammar.statement (nestingBound (t :: ts)) (t :: ts) with
    | .done s rest => ⟨consumed (t :: ts) rest, .ok s⟩ :: segmentsWithin n rest
    | .failed f =>
      let rest := f.recover (t :: ts)
      ⟨consumed (t :: ts) rest, .error f⟩ :: segmentsWithin n rest
    | .exhausted => []

/-- The segments of a list of tokens. -/
def segments (ts : List Token) : List Segment := segmentsWithin ts.length ts

/-- The statement of a segment, if it has one. -/
def Segment.stmt? (s : Segment) : Option Stmt :=
  match s.outcome with
  | .ok stmt? => stmt?
  | .error _ => none

/-- The diagnostic of a failure in a source of a size. -/
def Failure.diagnostic (f : Failure) (size : Nat) : Diagnostic :=
  ⟨.parse f.problem, (f.site.getD (.emptyAt size)).blamed⟩

/-- The diagnostic of a segment, if it failed. -/
def Segment.diagnostic? (s : Segment) (size : Nat) : Option Diagnostic :=
  match s.outcome with
  | .ok _ => none
  | .error f => some (f.diagnostic size)

/-- What parsing finds: the statements that were read and the diagnostics of those that failed. -/
structure Parsed where
  stmts : List Stmt
  diagnostics : List Diagnostic

/-- The statements and diagnostics of the tokens of a source of a size. -/
def parse (ts : List Token) (size : Nat) : Parsed :=
  let ss := segments ts
  ⟨ss.filterMap Segment.stmt?, ss.filterMap (·.diagnostic? size)⟩

end Lox
