import Lox.Proofs.Syntax.Acceptance
import Lox.Proofs.Syntax.Moving

/-!
# Programs one after another

Two programs one after another are a program of the statements of both, unless the first ends with a
function literal that is a statement and the second starts with a minus sign: then the sign goes on
from the literal (`Derives.join`).
-/

namespace Lox

namespace Grammar

/-- The last of some segments is a function literal that is a statement. -/
def EndsInFunction (ss : List Segment) : Prop :=
  ∃ segment ∈ ss.getLast?, ∃ s, segment.outcome = .ok s ∧ isFunctionStatement s

/-- A list of statements and the program after it are a program, unless the one ends with a function
literal and the other starts with a minus sign. Nothing is said of words that are no programs. -/
def Joins (w' : List Token) (program' : List Stmt) : (n : Symbol) → List Token → n.Tree → Prop
  | .statements, w, program => ∀ m, w.length ≤ m →
      (EndsInFunction (segmentsWithin m w) → startsWith .minus w' = false) →
      Derives true .statements (w ++ w') (program ++ program')
  | _, _, _ => True

theorem Derives.joins {n : Symbol} {w : List Token} {tree : n.Tree} (h : Derives true n w tree)
    {w' : List Token} {program' : List Stmt} (h' : Derives true .statements w' program') :
    Joins w' program' n w tree := by
  induction h with
  | noStatement => exact fun _ _ _ => h'
  | @statements w rest s program hs hrest hminus _ ih =>
    intro m hm hsign
    obtain ⟨t, _, hw, _⟩ := cons_of_opensWith hs.opens
    have hpos : 0 < w.length := hw ▸ Nat.succ_pos _
    rw [List.length_append] at hm
    obtain ⟨m, rfl⟩ : ∃ k, m = k + 1 := ⟨m - 1, by omega⟩
    rw [segmentsWithin_statements hs hrest (hminus rfl)] at hsign
    rw [List.append_assoc, List.append_assoc]
    refine .statements hs (ih m (by omega) fun ⟨segment, hlast, hfunction⟩ => hsign ?_)
      fun _ hfunction => ?_
    · exact ⟨segment, List.mem_getLast?_cons hlast, hfunction⟩
    · -- The literal is followed by a statement of its own program, or is the last.
      cases rest with
      | nil =>
        have hlast : segmentsWithin m [] = [] := by cases m <;> rfl
        rw [hlast] at hsign
        exact hsign ⟨_, rfl, s, rfl, hfunction⟩
      | cons t rest => exact hminus rfl hfunction
  | _ => trivial

theorem startsWith_map (place : Span → Span) (kind : TokenKind) (w : List Token) :
    startsWith kind (w.map (Token.mapSpan place)) = startsWith kind w := by
  cases w <;> rfl

/-- Two lists of tokens that parse without a diagnostic, the second some bytes later, parse as one
to the statements of both. -/
theorem parse_join {ts ts' : List Token} {size size' : Nat} (distance : Nat)
    (h : (parse ts size).diagnostics = []) (h' : (parse ts' size').diagnostics = [])
    (hsign : EndsInFunction (segments ts) → startsWith .minus ts' = false) (whole : Nat) :
    parse (ts ++ ts'.map (Token.mapSpan (Span.shift distance))) whole =
      ⟨(parse ts size).stmts ++ markStmts (.moving (Span.shift distance)) (parse ts' size').stmts,
        []⟩ := by
  have hend : Span.shift distance (.emptyAt size') = .emptyAt (size' + distance) := rfl
  have hclean := diagnostics_parse_map (.shift distance ts') hend
  rw [h', List.forall₂_nil_left_iff] at hclean
  have hsecond := derives_of_parse hclean
  rw [stmts_parse_map (.shift distance ts') size'] at hsecond
  have hjoined := (derives_of_parse h).joins hsecond ts.length (le_refl _)
  exact (hjoined fun hfunction => (startsWith_map _ _ ts').trans (hsign hfunction)).parse_eq whole

end Grammar

end Lox
