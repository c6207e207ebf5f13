import Lox.Path

/-!
# Files

The files of a directory by their paths, as they are before a command runs. A path that another path
goes through is a directory. Of what is around the directory little is known: the directories that
lead to it are there, and so are a directory for temporary files and a file that is always empty.

A path is **walked** name by name, and every name but the last has to lead to a directory. So a path
can lead nowhere though its clean form leads somewhere.
-/

namespace Lox

/-- Why a file cannot be opened or read. -/
inductive FileProblem
  | missing
  | notDirectory
  | directory
  | invalid
  | tooLong
  deriving DecidableEq, Repr

/-- The wording of why a file cannot be opened or read. -/
def FileProblem.message : FileProblem → Text
  | missing => utf8 "no such file or directory"
  | notDirectory => utf8 "not a directory"
  | directory => utf8 "is a directory"
  | invalid => utf8 "invalid argument"
  | tooLong => utf8 "file name too long"

/-- The contents of files by their clean paths. -/
abbrev Files := List (Text × Text)

/-- A place that a path leads to: from the root or not, and the names on the way, the last first. -/
structure Location where
  rooted : Bool
  names : List Text
  deriving DecidableEq, Repr

namespace Location

/-- Where a path starts. -/
def start (path : Text) : Location := ⟨path.head? == some Path.slash, []⟩

/-- The place that a name leads to. -/
def enter (p : Location) (name : Text) : Location := ⟨p.rooted, Path.extend p.rooted p.names name⟩

/-- The clean path of a place. -/
def path (p : Location) : Text := Path.ofNames p.rooted p.names

/-- Whether a place is in the directory, or is the directory itself. -/
def isInside (p : Location) : Bool := !p.rooted && p.names.getLast? != some Path.up

end Location

/-- What is at a place. -/
inductive Found
  | file (contents : Text)
  | directory
  deriving DecidableEq, Repr

namespace Files

/-- The directories that are known to be around the directory. -/
def knownDirectories : List Text := [utf8 "/", utf8 "/dev", utf8 "/tmp"]

/-- The file that is always empty. -/
def emptyFile : Text := utf8 "/dev/null"

/-- What is at a place. -/
def found? (files : Files) (p : Location) : Option Found :=
  let path := p.path
  if p.names.all (· == Path.up) || knownDirectories.contains path then some .directory
  else if path == emptyFile then some (.file [])
  else
    match files.lookup path with
    | some contents => some (.file contents)
    | none =>
      if files.any fun f => (path ++ [Path.slash]).isPrefixOf f.1 then some .directory else none

/-- The most bytes of a name. -/
def nameLimit : Nat := 255

/-- The most bytes of a path. -/
def pathLimit : Nat := 4095

/-- What is wrong with a path wherever it leads. -/
def malformed? (path : Text) : Option FileProblem :=
  if path.contains 0 then some .invalid
  else if path.isEmpty then some .missing
  else if pathLimit < path.length then some .tooLong
  else none

/-- The place that names lead to from a place. -/
def walk (files : Files) (p : Location) : List Text → Except FileProblem Location
  | [] => .ok p
  | name :: rest =>
    match files.found? p with
    | some .directory =>
      if nameLimit < name.length then .error .tooLong else walk files (p.enter name) rest
    | some (.file _) => .error .notDirectory
    | none => .error .missing

/-- The place that a path leads to. -/
def locate (files : Files) (path : Text) : Except FileProblem Location :=
  match malformed? path with
  | some problem => .error problem
  | none => files.walk (.start path) (Text.splitOn Path.slash path)

/-- The contents of the file at a path. -/
def read (files : Files) (path : Text) : Except FileProblem Text := do
  match files.found? (← files.locate path) with
  | some (.file contents) => return contents
  | some .directory => .error .directory
  | none => .error .missing

/-- Why a path leads to no directory, if it does not. -/
def notDirectory? (files : Files) (path : Text) : Option FileProblem :=
  match files.locate (path ++ [Path.slash]) with
  | .ok _ => none
  | .error problem => some problem

/-- The place where a path makes a file, or why it cannot. A path that ends with a slash or a name
for a directory makes none. -/
def make (files : Files) (path : Text) : Except FileProblem Location :=
  match malformed? path with
  | some problem => .error problem
  | none => do
    let names := Text.splitOn Path.slash (path.reverse.dropWhile (· == Path.slash)).reverse
    let last := names.getLastD []
    let parent ← files.walk (.start path) (names.dropLast ++ [Path.here])
    let place := parent.enter last
    if path.getLast? == some Path.slash || last == Path.here || last == Path.up
      then .error .directory
    else if nameLimit < last.length then .error .tooLong
    else if files.found? place == some .directory then .error .directory
    else return place

end Files

end Lox
