import Lox.Path

/-!
# Changes of a script

A watched directory reports what happens to its files. A script has changed if it was written or
made anew; that it was removed, renamed or given other rights is no change to run it again for.
-/

namespace Lox

/-- What happened to a file. Several things may have happened at once. -/
structure FileEvent where
  created : Bool
  written : Bool
  removed : Bool
  renamed : Bool
  modeChanged : Bool
  deriving DecidableEq, Repr

namespace FileEvent

/-- The event with a number, of which each binary digit stands for one thing. -/
def ofNumber (n : Nat) : FileEvent :=
  ⟨n.testBit 0, n.testBit 1, n.testBit 2, n.testBit 3, n.testBit 4⟩

/-- Whether an event of a file with a name changes the script with a path. -/
def changes (event : FileEvent) (name script : Text) : Bool :=
  Path.clean name == script && (event.written || event.created)

end FileEvent

end Lox
