import Lox.Text

/-!
# The console

What a program prints to and reads from. Printing keeps what was printed; the console may still
report that every print failed. Reading takes a line from the input, and once the input is used up
either ends or reports a failure.
-/

namespace Lox

/-- Printed texts, the latest first, and the input that is left. -/
structure Console where
  printed : List Text
  input : Text
  inputProblem : Option Text
  printProblem : Option Text

namespace Console

/-- Everything printed. -/
def output (c : Console) : Text := c.printed.reverse.flatten

/-- Prints a text. -/
def print (c : Console) (t : Text) : Console := { c with printed := t :: c.printed }

/-- Prints a text and ends the line. -/
def printLine (c : Console) (t : Text) : Console := c.print (t ++ [0x0A])

/-- A text cut after its first line feed, if it has one. -/
def cutLine? : Text → Option (Text × Text)
  | [] => none
  | b :: rest =>
    if b == 0x0A then some ([b], rest)
      else (cutLine? rest).map fun (line, rest) => (b :: line, rest)

/-- Takes a line with its line feed from the input, or what is left of it. What is left is lost
where the end of the input is a failure. -/
def readLine (c : Console) : Except Text Text × Console :=
  match cutLine? c.input with
  | some (line, rest) => (.ok line, { c with input := rest })
  | none =>
    match c.inputProblem with
    | none => (.ok c.input, { c with input := [] })
    | some problem => (.error problem, { c with input := [] })

/-! ## Input that is not all there yet -/

/-- A console with lines that were typed, after which more may come. A mark at the end of its input,
which no line feed ends, is there until more is asked for than was typed. -/
def pending (typed : Text) : Console := ⟨[], typed ++ [0], some [], none⟩

/-- Whether more was asked for than was typed. -/
def wantsMore (c : Console) : Bool := c.input.isEmpty

end Console

end Lox
