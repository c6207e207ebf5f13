import Lox.Text

/-!
# Paths

A path is names with slashes between them. Its **clean** form has no empty name, no `.`, and no `..`
after a name: each such `..` takes the name before it away, and at the root there is nothing to take
away.
-/

namespace Lox.Path

/-- The slash. -/
def slash : UInt8 := 0x2F

/-- The name of the directory itself. -/
def here : Text := utf8 "."

/-- The name of the directory around. -/
def up : Text := utf8 ".."

/-- Adds a name to clean names, of which the last is first. -/
def extend (rooted : Bool) (names : List Text) (name : Text) : List Text :=
  if name.isEmpty || name == here then names
  else if name == up then
    match names with
    | [] => if rooted then [] else [up]
    | last :: rest => if last == up then up :: names else rest
  else name :: names

/-- The path of clean names, of which the last is first. -/
def ofNames (rooted : Bool) (names : List Text) : Text :=
  let body := Text.join [slash] names.reverse
  if rooted then slash :: body else if body.isEmpty then here else body

/-- The clean form of a path. -/
def clean (path : Text) : Text :=
  let rooted := path.head? == some slash
  ofNames rooted ((Text.splitOn slash path).foldl (extend rooted) [])

/-- A path after another, in clean form. One that is empty does not count. -/
def join (first second : Text) : Text :=
  if !first.isEmpty then clean (first ++ slash :: second)
  else if !second.isEmpty then clean second
  else []

/-- The directory that a path lies in, in clean form. -/
def parent (path : Text) : Text := clean (path.reverse.dropWhile (· != slash)).reverse

end Lox.Path
