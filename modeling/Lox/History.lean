import Lox.Path
import Lox.Text.Line
import Lox.Text.Scalar

/-!
# The history of the prompt

Lines that were entered are kept in a file between sessions: the one that is set, or one in the home
directory. A path that starts with `~/` is in the home directory if there is one.

A line is kept unless it is the last one again, and only the latest thousand lines are kept.
-/

namespace Lox

/-- The lines that were entered, the latest last. -/
abbrev History := List Text

namespace History

/-- The name of the file in the home directory. -/
def fileName : Text := utf8 ".jlox_history"

/-- The path of the history. It is empty if there is neither a setting nor a home directory. An
empty home counts as none. -/
def path (home : Option Text) (setting : Text) : Text :=
  match home.filter (!·.isEmpty) with
  | none => setting
  | some home =>
    if setting.isEmpty then Path.join home fileName
    else if (utf8 "~/").isPrefixOf setting then Path.join home (setting.drop 2)
    else setting

/-- The most lines that are kept. -/
def limit : Nat := 1000

/-- The latest lines, as many as are kept. -/
def latest (h : History) : History := h.drop (h.length - limit)

/-- Adds a line. -/
def add (h : History) (line : Text) : History :=
  if h.getLast? == some line then h else latest (h ++ [line])

/-- The history in a file, up to the first line that is too long or does not decode. -/
def ofFile (file : Text) : History :=
  latest ((file.readLines.takeWhile fun line => line.whole && line.bytes.isValid).map Line.bytes)

/-- The file that holds a history. -/
def toFile (h : History) : Text := Text.lines h

end History

end Lox
