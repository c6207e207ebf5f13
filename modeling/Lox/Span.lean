/-!
# Spans

A span is a run of bytes of a source: where it starts and how long it is.
-/

namespace Lox

/-- A run of bytes of a source. -/
structure Span where
  offset : Nat
  length : Nat
  deriving DecidableEq, Repr

namespace Span

/-- The offset after the last byte. -/
def stop (s : Span) : Nat := s.offset + s.length

/-- The span from the start of one to the end of another. -/
def through (first last : Span) : Span := ⟨first.offset, last.stop - first.offset⟩

/-- The empty place at an offset. -/
def emptyAt (offset : Nat) : Span := ⟨offset, 0⟩

/-- A span as it is blamed: one with no bytes, as at the end of a source, counts as one byte
long. -/
def blamed (s : Span) : Span := ⟨s.offset, if s.length == 0 then 1 else s.length⟩

end Span

end Lox
