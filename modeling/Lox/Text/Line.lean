import Lox.Text

/-!
# Lines of a text

Lines are read through a window of fixed size. A line that ends inside the window is **whole**: it
loses its line feed and a carriage return before that. So is what is left of the text if it does not
fill the window. A longer line comes in **parts** of the size of the window; a carriage return at
the end of a part is left for the next one, where the line feed that may follow it takes it away.

Reading a line leaves less than there was (`length_nextLine_lt`), so all lines can be read.
-/

namespace Lox

/-- What is read at once: a line, or a part of one that is too long. -/
structure Line where
  bytes : Text
  whole : Bool
  deriving DecidableEq, Repr

namespace Text

/-- The size of the window that lines are read through. -/
def window : Nat := 4096

/-- A line without the carriage return at its end. -/
def withoutReturn (line : Text) : Text := if line.getLast? == some 0x0D then line.dropLast else line

/-- The next line of a text, or a part of it, and what is left. -/
def nextLine (t : Text) : Line × Text :=
  let seen := t.take window
  let line := seen.takeWhile (· != 0x0A)
  if line.length < seen.length then (⟨withoutReturn line, true⟩, t.drop (line.length + 1))
  else if seen.length < window then (⟨seen, true⟩, [])
  else if seen.getLast? == some 0x0D then (⟨seen.dropLast, false⟩, t.drop (window - 1))
  else (⟨seen, false⟩, t.drop window)

/-- Reading a line leaves less than there was. -/
theorem length_nextLine_lt {t : Text} (h : t ≠ []) : (nextLine t).2.length < t.length := by
  have pos : 0 < t.length := List.length_pos_iff.mpr h
  have size : 2 ≤ window := by decide
  unfold nextLine
  dsimp only
  by_cases ended : ((t.take window).takeWhile (· != 0x0A)).length < (t.take window).length
  · rw [if_pos ended]
    simp only [List.length_drop]
    omega
  · rw [if_neg ended]
    by_cases last : (t.take window).length < window
    · rw [if_pos last]
      exact pos
    · rw [if_neg last]
      by_cases held : ((t.take window).getLast? == some 0x0D) = true
      · rw [if_pos held]
        simp only [List.length_drop]
        omega
      · rw [if_neg held]
        simp only [List.length_drop]
        omega

/-- The lines of a text, long ones in parts. What follows the last line feed is a line if there is
anything. -/
def readLines (t : Text) : List Line :=
  if h : t = [] then []
  else
    let next := nextLine t
    have := length_nextLine_lt h
    next.1 :: readLines next.2
termination_by t.length

end Text

end Lox
