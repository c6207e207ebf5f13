import Lox.Proofs.Resolution.Marks
import Lox.Proofs.Syntax.Moving
import Lox.Proofs.Token.Partition

/-!
# Sites

The **sites** of a source are the spans that a tree can have from its tokens: those of single
tokens, and those from an opening bracket to a closing one. With the end of the input they are all
that can be blamed.

That nothing else is blamed needs no look at what parsing and resolution do with spans. Neither can
tell a span from another, so both commute with a map of places; and a map that keeps the sites where
they are and takes every other span to a site leaves the tokens as they are. What is reported about
them must then be reported at a site.
-/

namespace Lox

/-- The spans that tokens of a source of a size give rise to. -/
inductive IsSite (ts : List Token) (size : Nat) : Span → Prop
  | token {t : Token} : t ∈ ts → IsSite ts size t.span
  | brackets {opening closing : Token} : opening ∈ ts → closing ∈ ts → opening.kind = .leftBracket →
      closing.kind = .rightBracket → IsSite ts size (opening.span.through closing.span)
  | ending : IsSite ts size (.emptyAt size)

/-! ## Places that keep the sites -/

/-- A map of places keeps the sites of tokens where they are. -/
def Keeps (place : Span → Span) (ts : List Token) (size : Nat) : Prop :=
  ∀ s, IsSite ts size s → place s = s

section Keeps

variable {place : Span → Span} {ts : List Token} {size : Nat} (h : Keeps place ts size)

include h

theorem Keeps.map_tokens : ts.map (Token.mapSpan place) = ts := by
  calc ts.map (Token.mapSpan place) = ts.map id := List.map_congr_left fun t ht => by
        rw [Token.mapSpan, h _ (.token ht), id]
    _ = ts := List.map_id ts

/-- Sites that stay make a move. -/
def Keeps.move : Move ts where
  place := place
  through opening hopening closing hclosing hkind hkind' := by
    rw [h _ (.brackets hopening hclosing hkind hkind'), h _ (.token hopening),
      h _ (.token hclosing)]

theorem Keeps.markStmts_parse :
    markStmts (.moving place) (parse ts size).stmts = (parse ts size).stmts := by
  have hmoved := stmts_parse_map h.move size size
  change (parse (ts.map (Token.mapSpan place)) size).stmts =
    markStmts (.moving place) (parse ts size).stmts at hmoved
  rw [← hmoved, h.map_tokens]

/-- The resolved program stays as it is, too. -/
theorem Keeps.markStmts_resolveProgram (run : Nat) (root : StaticScope) :
    markStmts (.into run place) (resolveProgram run root (parse ts size).stmts).value =
      (resolveProgram run root (parse ts size).stmts).value := by
  have hmatch := (matches_resolveStmts place run run .none (parse ts size).stmts [root] [root]
    (.cons (.refl root) .nil)).1
  rw [h.markStmts_parse] at hmatch
  exact hmatch.symm

/-- What parsing reports is reported at a place that some span goes to. -/
theorem Keeps.blamed_of_mem_parse {d : Diagnostic} (hd : d ∈ (parse ts size).diagnostics) :
    ∃ site : Span, d.span = (place site).blamed := by
  have hmoved := diagnostics_parse_map h.move (h _ .ending)
  change List.Forall₂ (Diagnostic.Moved .parse place) _
    (parse (ts.map (Token.mapSpan place)) size).diagnostics at hmoved
  rw [h.map_tokens, List.forall₂_same] at hmoved
  obtain ⟨site, _, hspan⟩ := (hmoved d hd).span
  exact ⟨site, hspan⟩

/-- What resolution reports is reported at a place that some span goes to. -/
theorem Keeps.blamed_of_mem_resolve {run : Nat} {root : StaticScope} {d : Diagnostic}
    (hd : d ∈ (resolveProgram run root (parse ts size).stmts).diagnostics) :
    ∃ site : Span, d.span = (place site).blamed := by
  have hmoved := (matches_resolveStmts place run run .none (parse ts size).stmts [root] [root]
    (.cons (.refl root) .nil)).2.2
  rw [h.markStmts_parse, List.forall₂_same] at hmoved
  obtain ⟨site, _, hspan⟩ := (hmoved d hd).span
  exact ⟨site, hspan⟩

end Keeps

/-! ## Places in a set of spans -/

section Onto

variable {P : Span → Prop} {base : Span}

open Classical in
/-- Spans of a set stay, and every other goes to one of the set: to one that is blamed alike if
there is one. -/
noncomputable def Span.onto (P : Span → Prop) (base : Span) (s : Span) : Span :=
  if P s then s else if h : ∃ site, P site ∧ site.blamed = s.blamed then h.choose else base

theorem Span.onto_of_mem {s : Span} (h : P s) : Span.onto P base s = s := if_pos h

theorem Span.onto_mem (hbase : P base) (s : Span) : P (Span.onto P base s) := by
  unfold Span.onto
  split_ifs with hs hblamed
  · exact hs
  · exact hblamed.choose_spec.1
  · exact hbase

theorem Span.blamed_onto {s : Span} (h : ∃ site, P site ∧ site.blamed = s.blamed) :
    (Span.onto P base s).blamed = s.blamed := by
  unfold Span.onto
  split_ifs with hs
  · rfl
  · exact h.choose_spec.2

theorem keeps_onto {ts : List Token} {size : Nat} (h : ∀ s, IsSite ts size s → P s) :
    Keeps (Span.onto P base) ts size :=
  fun s hs => Span.onto_of_mem (h s hs)

end Onto

/-- Every span that parsing blames is that of a site. -/
theorem exists_site_of_mem_parse {ts : List Token} {size : Nat} {d : Diagnostic}
    (h : d ∈ (parse ts size).diagnostics) : ∃ site, IsSite ts size site ∧ d.span = site.blamed := by
  have hkeeps : Keeps (Span.onto (IsSite ts size) (.emptyAt size)) ts size :=
    keeps_onto fun _ hs => hs
  obtain ⟨site, hspan⟩ := hkeeps.blamed_of_mem_parse h
  exact ⟨_, Span.onto_mem .ending site, hspan⟩

/-- Every span that resolution blames is that of a site. -/
theorem exists_site_of_mem_resolve {ts : List Token} {size run : Nat} {root : StaticScope}
    {d : Diagnostic} (h : d ∈ (resolveProgram run root (parse ts size).stmts).diagnostics) :
    ∃ site, IsSite ts size site ∧ d.span = site.blamed := by
  have hkeeps : Keeps (Span.onto (IsSite ts size) (.emptyAt size)) ts size :=
    keeps_onto fun _ hs => hs
  obtain ⟨site, hspan⟩ := hkeeps.blamed_of_mem_resolve h
  exact ⟨_, Span.onto_mem .ending site, hspan⟩

/-! ## Sites of a source -/

/-- A token of a source has a byte and lies in the source. -/
theorem token_in_source {source : Text} {t : Token} (h : t ∈ (scan source).tokens) :
    0 < t.span.length ∧ t.span.stop ≤ source.length := by
  rw [scan_eq] at h
  obtain ⟨p, hp, htoken⟩ := List.mem_filterMap.mp h
  rw [(Placed.token?_span htoken).1]
  exact ⟨(lies_of_mem_placed hp).length_pos, (lies_of_mem_placed hp).text_eq.1⟩

/-- A site of a source starts at a byte of the source and ends in it, or is its end. -/
theorem IsSite.in_source {source : Text} {s : Span}
    (h : IsSite (scan source).tokens (scan source).size s) :
    s.offset < source.length ∧ s.stop ≤ source.length ∨ s = .emptyAt source.length := by
  cases h with
  | token ht =>
    obtain ⟨hpos, hstop⟩ := token_in_source ht
    simp only [Span.stop] at hstop ⊢
    omega
  | brackets hopening hclosing =>
    obtain ⟨hpos, hstop⟩ := token_in_source hopening
    obtain ⟨hpos', hstop'⟩ := token_in_source hclosing
    simp only [Span.through, Span.stop] at hstop hstop' ⊢
    omega
  | ending => exact .inr (by rw [size_scan])

end Lox
