import Lox.Syntax.Outline
import Lox.Syntax.Program
import Lox.Token.Piece

/-!
# Listings of a source

What can be shown of a source that is not run: its tokens, or its tree. A listing goes through the
stages that it needs and gives up at the first that reports anything.
-/

namespace Lox

/-- The tokens of a source, a line for each, or the reports of scanning. -/
def listTokens (source : Text) : Except (List Diagnostic) (List Text) :=
  let scanned := scan source
  if scanned.diagnostics.isEmpty then .ok scanned.listing else .error scanned.diagnostics

/-- The outline of a source, or the reports of scanning or parsing. -/
def listTree (source : Text) : Except (List Diagnostic) Text :=
  let scanned := scan source
  if scanned.diagnostics.isEmpty then
    let parsed := parse scanned.tokens scanned.size
    if parsed.diagnostics.isEmpty then .ok (outline parsed.stmts) else .error parsed.diagnostics
  else .error scanned.diagnostics

end Lox
