import Lox.Proofs.Syntax.Replies

/-!
# Parsing accepts the grammar

A list of tokens is parsed without a diagnostic exactly if the grammar generates it. The statements
that are found are then those of a derivation, and of the only greedy one.
-/

namespace Lox

namespace Grammar

open Parse

/-- The segments of a list of tokens are all statements, and these are a program. -/
structure Segmented (ss : List Segment) (program : List Stmt) : Prop where
  stmts : ss.filterMap Segment.stmt? = program
  clean (size : Nat) : ss.filterMap (·.diagnostic? size) = []

theorem segmented_nil : Segmented [] [] := ⟨rfl, fun _ => rfl⟩

theorem Segmented.cons {ss : List Segment} {program : List Stmt} {ts : List Token} {s : Option Stmt}
    (h : Segmented ss program) : Segmented (⟨ts, .ok s⟩ :: ss) (s.toList ++ program) := by
  refine ⟨?_, fun size => h.clean size⟩
  cases s with
  | none => exact h.stmts
  | some s => exact congrArg (s :: ·) h.stmts

/-- What is read without a diagnostic is a word of the grammar. -/
theorem derives_of_segmentsWithin {m size : Nat} {ts : List Token} (hm : ts.length ≤ m)
    (h : (segmentsWithin m ts).filterMap (·.diagnostic? size) = []) :
    Derives false .statements ts ((segmentsWithin m ts).filterMap Segment.stmt?) := by
  induction m generalizing ts with
  | zero =>
    obtain rfl := List.eq_nil_of_length_eq_zero (Nat.le_zero.mp hm)
    exact .noStatement
  | succ m ih =>
    cases ts with
    | nil => exact .noStatement
    | cons t ts =>
      rw [segmentsWithin] at h ⊢
      cases hreply : Grammar.statement (nestingBound (t :: ts)) (t :: ts) with
      | done s rest =>
        rw [hreply] at h
        have hlen := length_of_statement hreply
        obtain ⟨w, hsplit, hw⟩ := (sound _).statement hreply
        rw [List.length_cons] at hlen hm
        have hrest := Derives.statements hw (ih (by omega) h) nofun
        rw [← hsplit] at hrest
        cases s <;> exact hrest
      | failed failure =>
        rw [hreply] at h
        cases h
      | exhausted => exact absurd hreply (statement_ne_exhausted _)

/-- The first of some statements is read, and then the others. -/
theorem segmentsWithin_statements {w w' : List Token} {s : Option Stmt} {program : List Stmt}
    (hs : Derives true .statement w s) (hrest : Derives true .statements w' program)
    (hminus : isFunctionStatement s → startsWith .minus w' = false) (m : Nat) :
    segmentsWithin (m + 1) (w ++ w') = ⟨consumed (w ++ w') w', .ok s⟩ :: segmentsWithin m w' := by
  have hends : EndsStatement s w' := by
    rcases hrest.opens with rfl | hopens
    · exact endsStatement_of_endsList (.inl rfl)
    · exact endsStatement_of_opens hopens hminus
  have hdone : Grammar.statement (nestingBound (w ++ w')) (w ++ w') = .done s w' :=
    (hs.reads _ w' hends).resolve_left (statement_ne_exhausted _)
  obtain ⟨t, w, rfl, _⟩ := cons_of_opensWith hs.opens
  rw [List.cons_append] at hdone ⊢
  rw [segmentsWithin, hdone]

/-- A list of statements is read statement by statement. Nothing is said of other words. -/
def IsSegmented : (n : Symbol) → List Token → n.Tree → Prop
  | .statements, w, program => ∀ m, w.length ≤ m → Segmented (segmentsWithin m w) program
  | _, _, _ => True

theorem Derives.isSegmented {n : Symbol} {w : List Token} {tree : n.Tree}
    (h : Derives true n w tree) : IsSegmented n w tree := by
  induction h with
  | noStatement =>
    intro m _
    cases m <;> exact segmented_nil
  | @statements w w' s program hs hrest hminus _ ih =>
    intro m hm
    obtain ⟨t, _, hw, _⟩ := cons_of_opensWith hs.opens
    have hpos : 0 < w.length := hw ▸ Nat.succ_pos _
    rw [List.length_append] at hm
    cases m with
    | zero => omega
    | succ m =>
      rw [segmentsWithin_statements hs hrest (hminus rfl)]
      exact (ih m (by omega)).cons
  | _ => trivial

/-- The tree of a greedy derivation is what parsing finds. -/
theorem Derives.parse_eq {ts : List Token} {program : List Stmt}
    (h : Derives true .statements ts program) (size : Nat) : parse ts size = ⟨program, []⟩ := by
  have hsegmented := h.isSegmented ts.length (le_refl _)
  exact congr (congrArg Parsed.mk hsegmented.stmts) (hsegmented.clean size)

/-- What is parsed without a diagnostic has a greedy derivation. -/
theorem derives_of_parse {ts : List Token} {size : Nat} (h : (parse ts size).diagnostics = []) :
    Derives true .statements ts (parse ts size).stmts := by
  obtain ⟨program, hgreedy⟩ := (derives_of_segmentsWithin (le_refl _) h).hasGreedy
  rwa [hgreedy.parse_eq]

/-- A list of tokens is parsed without a diagnostic exactly if it is a program of the grammar. The
statements found are then a tree of it, and the tree of its greedy derivation, of which there is no
other. -/
theorem parse_accepts_iff_generates (ts : List Token) (size : Nat) :
    ((parse ts size).diagnostics = [] ↔ ∃ program, Generates ts program) ∧
      ((parse ts size).diagnostics = [] → Generates ts (parse ts size).stmts) ∧
      ∀ program, Derives true .statements ts program ↔
        (parse ts size).diagnostics = [] ∧ (parse ts size).stmts = program := by
  have hsound : (parse ts size).diagnostics = [] → Generates ts (parse ts size).stmts :=
    derives_of_segmentsWithin (le_refl _)
  refine ⟨⟨fun h => ⟨_, hsound h⟩, fun ⟨_, h⟩ => ?_⟩, hsound, fun program => ⟨fun h => ?_, ?_⟩⟩
  · obtain ⟨program, hgreedy⟩ := h.hasGreedy
    rw [hgreedy.parse_eq]
  · rw [h.parse_eq]
    exact ⟨rfl, rfl⟩
  · rintro ⟨hdiagnostics, rfl⟩
    exact derives_of_parse hdiagnostics

end Grammar

end Lox
