import Lox.Syntax
import Lox.Problem

/-!
# Reading tokens

A **parse** reads from the front of a list of tokens and gives what it read with the tokens that are
left, or fails. A failure tells the problem, the token it is blamed on, and the tokens that were
left when it arose: recovery goes on from there. The end of input is an empty list, and is blamed as
such.

Productions take a bound on their nesting. A parse that meets the bound is **exhausted**; the bound
that a program is read with is never met.
-/

namespace Lox

/-- Why and where a parse failed. -/
structure Failure where
  problem : ParseProblem
  /-- The span of the token to blame, or nothing for the end of input. -/
  site : Option Span
  /-- The tokens that were left. -/
  rest : List Token

/-- What a parse gives. -/
inductive Reply (α : Type)
  | done (value : α) (rest : List Token)
  | failed (failure : Failure)
  | exhausted

/-- A reader of tokens. -/
def Parse (α : Type) : Type := List Token → Reply α

namespace Parse

/-- Reads nothing. -/
def result {α : Type} (a : α) : Parse α := fun ts => .done a ts

/-- Goes on with what is left after a first parse. -/
def andThen {α β : Type} (p : Parse α) (f : α → Parse β) : Parse β := fun ts =>
  match p ts with
  | .done a rest => f a rest
  | .failed failure => .failed failure
  | .exhausted => .exhausted

instance : Monad Parse where
  pure := result
  bind := andThen

/-- Gives up at the bound on nesting. -/
def exhausted {α : Type} : Parse α := fun _ => .exhausted

/-- The next token, which is not read. -/
def peek : Parse (Option Token) := fun ts => .done ts.head? ts

/-- Reads one token. -/
def skip : Parse Unit := fun ts => .done () ts.tail

/-- Fails, blaming a span. -/
def failAt {α : Type} (problem : ParseProblem) (site : Span) : Parse α :=
  fun ts => .failed ⟨problem, some site, ts⟩

/-- Fails, blaming the next token or the end of input. -/
def failHere {α : Type} (problem : ParseProblem) : Parse α := fun ts =>
  .failed ⟨problem, ts.head?.map Token.span, ts⟩

/-- Whether the next token is of a kind. -/
def sees (kind : TokenKind) : Parse Bool :=
  fun ts => .done (ts.head?.map Token.kind == some kind) ts

/-- Reads the next token if it is of a kind. -/
def accept (kind : TokenKind) : Parse (Option Token) := fun ts =>
  match ts with
  | [] => .done none []
  | t :: rest => if t.kind == kind then .done (some t) rest else .done none (t :: rest)

/-- Reads a token of a kind, or fails with a problem. -/
def expect (kind : TokenKind) (problem : ParseProblem) : Parse Token := fun ts =>
  match ts with
  | [] => failHere problem []
  | t :: rest => if t.kind == kind then .done t rest else failHere problem (t :: rest)

/-- Reads a token of a kind, or fails saying that it was expected. -/
def mark (kind : TokenKind) : Parse Token := expect kind (.expected kind)

/-- Reads a name, or fails with a problem. -/
def ident (problem : ParseProblem) : Parse Ident := do
  let t ← expect .identifier problem
  pure ⟨t.lexeme, t.span⟩

end Parse

end Lox
