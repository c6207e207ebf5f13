import Lox.Proofs.Text.Decoding
import Lox.Proofs.Token.Lexeme

/-!
# Scanning partitions the source

The pieces of a source stand one after another from its first byte to its last. So every byte
belongs to exactly one of them, and what scanning finds is what they are: a token for each piece
that is one, a diagnostic for each lexeme that is refused, and nothing else.

`Partition` says this of a list of placed pieces and of what was scanned, and `scan_partition`
proves it for every source.
-/

namespace Lox

/-- A piece of a source and the offset of its first byte. -/
structure Placed where
  offset : Nat
  piece : Piece

namespace Placed

/-- The bytes of the source that the piece takes. -/
def span (p : Placed) : Span := ⟨p.offset, p.piece.text.length⟩

/-- Whether the byte at an offset belongs to the piece. -/
def Covers (p : Placed) (i : Nat) : Prop := p.offset ≤ i ∧ i < p.span.stop

/-- The token that the piece is, if it is one. -/
def token? (p : Placed) : Option Token :=
  match p.piece.kind with
  | .token kind => some ⟨kind, p.piece.text, p.span⟩
  | _ => none

/-- The problem with the piece, if it is a lexeme that is refused. -/
def problem? (p : Placed) : Option ScanProblem :=
  match p.piece.kind with
  | .refused problem => some problem
  | _ => none

/-- The diagnostic of the piece, if it is a lexeme that is refused. -/
def diagnostic? (p : Placed) : Option Diagnostic :=
  p.problem?.map fun problem => ⟨.scan problem, problem.blame p.offset p.span.length⟩

/-- The scalars of the piece stand in the source at its offset, and are a lexeme there. -/
def LiesIn (p : Placed) (source : Text) : Prop :=
  ∃ before after, source.decode = before ++ p.piece.scalars ++ after ∧ (Scalar.text before).length =
    p.offset ∧ Lexeme p.piece.kind p.piece.scalars after

end Placed

/-- Pieces one after another from an offset on. -/
def place : Nat → List Piece → List Placed
  | _, [] => []
  | offset, p :: rest => ⟨offset, p⟩ :: place (offset + p.text.length) rest

/-- The pieces of a source at their places. -/
def placed (source : Text) : List Placed := place 0 (pieces source)

/-- What it means that a source is cut into pieces, and that scanning finds just what they are. -/
structure Partition (source : Text) (cut : List Placed) (found : Scanned) : Prop where
  /-- Every piece is a token, one white-space character, a comment up to the end of its line, or a
  refused lexeme. -/
  lies : ∀ p ∈ cut, p.LiesIn source
  /-- Every byte belongs to exactly one piece. -/
  covered : ∀ i < source.length, ∃! p, p ∈ cut ∧ p.Covers i
  /-- The tokens are the pieces that are tokens, in order. -/
  tokens : found.tokens = cut.filterMap Placed.token?
  /-- A token has a byte, lies in the source, and its lexeme is what the source has there. -/
  lexemes : ∀ t ∈ found.tokens, 0 < t.span.length ∧ t.span.stop ≤ source.length ∧
    t.lexeme = (source.drop t.span.offset).take t.span.length
  /-- Tokens come in order and do not overlap. -/
  ordered : found.tokens.Pairwise fun t u => t.span.offset < u.span.offset ∧
    t.span.stop ≤ u.span.offset
  /-- The input ends where the source does, and only the last line of a listing says so. -/
  ending : found.size = source.length ∧
    found.listing = found.tokens.map Token.line ++ [listingLine endOfInput ⟨source.length, 0⟩]
  /-- There is one diagnostic for each refused lexeme, in order, and no other. -/
  diagnostics : found.diagnostics = cut.filterMap Placed.diagnostic?
  /-- The diagnostic of a refused lexeme is blamed on its first byte, and on no byte after it. -/
  blamed : ∀ p ∈ cut, ∀ d ∈ p.diagnostic?, d.stage = .scan ∧ d.span.offset = p.offset ∧
    0 < d.span.length ∧ d.span.stop ≤ p.span.stop
  /-- The offsets of the diagnostics increase. -/
  increasing : found.diagnostics.Pairwise fun d e => d.span.offset < e.span.offset

/-! ## Placed pieces -/

/-- The tokens and diagnostics that scanning keeps are those of the placed pieces. -/
theorem scanPieces_eq (offset : Nat) (ps : List Piece) :
    scanPieces offset ps =
      ⟨(place offset ps).filterMap Placed.token?, (place offset ps).filterMap Placed.diagnostic?,
      offset + (ps.flatMap Piece.text).length⟩ := by
  induction ps generalizing offset with
  | nil => rfl
  | cons p ps ih =>
    have hsize : offset + p.text.length + (ps.flatMap Piece.text).length =
        offset + ((p :: ps).flatMap Piece.text).length := by
      rw [List.flatMap_cons, List.length_append, Nat.add_assoc]
    rw [scanPieces, ih, hsize, place]
    cases hk : p.kind with
    | token kind => simp [Placed.token?, Placed.diagnostic?, Placed.problem?, Placed.span, hk]
    | refused problem => simp [Placed.token?, Placed.diagnostic?, Placed.problem?, Placed.span, hk]
    | blank => simp [Placed.token?, Placed.diagnostic?, Placed.problem?, hk]
    | comment => simp [Placed.token?, Placed.diagnostic?, Placed.problem?, hk]

theorem le_offset_of_mem_place {offset : Nat} {ps : List Piece} {p : Placed}
    (h : p ∈ place offset ps) : offset ≤ p.offset := by
  induction ps generalizing offset with
  | nil => cases h
  | cons q ps ih =>
    rcases List.mem_cons.mp h with rfl | h
    · exact Nat.le_refl offset
    · exact Nat.le_trans (Nat.le_add_right _ _) (ih h)

/-- Of two placed pieces the earlier ends before the later starts. -/
theorem place_pairwise (offset : Nat) (ps : List Piece) :
    (place offset ps).Pairwise fun p q => p.span.stop ≤ q.offset := by
  induction ps generalizing offset with
  | nil => exact .nil
  | cons p ps ih => exact .cons (fun q hq => le_offset_of_mem_place hq) (ih _)

/-- A byte of the text of pieces belongs to exactly one of them. -/
theorem place_covers {ps : List Piece} {offset i : Nat} (hlow : offset ≤ i)
    (hhigh : i < offset + (ps.flatMap Piece.text).length) :
    ∃! p, p ∈ place offset ps ∧ p.Covers i := by
  induction ps generalizing offset with
  | nil => simp at hhigh; omega
  | cons p ps ih =>
    by_cases hi : i < offset + p.text.length
    · refine ⟨⟨offset, p⟩, ⟨List.mem_cons_self, hlow, hi⟩, ?_⟩
      rintro q ⟨hq, hcover⟩
      rcases List.mem_cons.mp hq with rfl | hq
      · rfl
      · have := le_offset_of_mem_place hq
        have := hcover.1
        omega
    · rw [List.flatMap_cons, List.length_append] at hhigh
      obtain ⟨q, ⟨hq, hcover⟩, hunique⟩ := ih (Nat.le_of_not_lt hi) (by omega)
      refine ⟨q, ⟨List.mem_cons_of_mem _ hq, hcover⟩, ?_⟩
      rintro r ⟨hr, hcover'⟩
      rcases List.mem_cons.mp hr with rfl | hr
      · exact absurd hcover'.2 hi
      · exact hunique r ⟨hr, hcover'⟩

/-- A placed piece of lexemes has lexemes before it and is one itself. -/
theorem lies_of_lexed {ps : List Piece} {ss : List Scalar} (h : Lexed ps ss) (before : List Scalar)
    {p : Placed} (hp : p ∈ place (Scalar.text before).length ps) :
    ∃ before' after, before ++ ss = before' ++ p.piece.scalars ++ after ∧
      (Scalar.text before').length = p.offset ∧ Lexeme p.piece.kind p.piece.scalars after := by
  induction h generalizing before with
  | nil => cases hp
  | @cons q ps after hne hlex _ ih =>
    rcases List.mem_cons.mp hp with rfl | hp
    · exact ⟨before, after, by rw [List.append_assoc], rfl, hlex⟩
    · have hlen : (Scalar.text before).length + q.text.length =
          (Scalar.text (before ++ q.scalars)).length := by
        rw [Scalar.text_append, List.length_append]
        rfl
      rw [hlen] at hp
      obtain ⟨before', after', hsplit, hrest⟩ := ih _ hp
      exact ⟨before', after', by rw [← hsplit, List.append_assoc], hrest⟩

theorem lies_of_mem_placed {source : Text} {p : Placed} (h : p ∈ placed source) :
    p.LiesIn source := by
  obtain ⟨before, after, hsplit, hrest⟩ := lies_of_lexed (pieces_lexed source) [] h
  exact ⟨before, after, hsplit, hrest⟩

/-- The pieces put together are the source. -/
theorem text_pieces (source : Text) : (pieces source).flatMap Piece.text = source := by
  have htext : ∀ {ps ss}, Lexed ps ss → ps.flatMap Piece.text = Scalar.text ss := by
    intro ps ss h
    induction h with
    | nil => rfl
    | cons _ _ _ ih => rw [List.flatMap_cons, ih, Scalar.text_append]; rfl
  rw [htext (pieces_lexed source), Text.text_decode]

namespace Placed

variable {p : Placed} {source : Text}

/-- A piece of a source has a byte. -/
theorem LiesIn.length_pos (h : p.LiesIn source) : 0 < p.span.length := by
  obtain ⟨before, after, hsplit, _, hlex⟩ := h
  obtain ⟨s, more, hscalars⟩ := List.exists_cons_of_ne_nil hlex.ne_nil
  have hs : 0 < s.width := by
    apply Text.width_pos_of_mem_decode source s
    rw [hsplit, hscalars]
    simp
  have hlen : p.span.length = s.width + (Scalar.text more).length := by
    rw [span, Piece.text, hscalars, Scalar.text_cons, List.length_append]
    rfl
  omega

/-- The bytes of a piece are what the source has at its place. -/
theorem LiesIn.text_eq (h : p.LiesIn source) :
    p.span.stop ≤ source.length ∧ p.piece.text = (source.drop p.offset).take p.span.length := by
  obtain ⟨before, after, hsplit, hoffset, _⟩ := h
  have hsource : source = Scalar.text before ++ (p.piece.text ++ Scalar.text after) := by
    rw [← Text.text_decode source, hsplit, Scalar.text_append, Scalar.text_append,
      List.append_assoc]
    rfl
  constructor
  · rw [hsource, List.length_append, List.length_append, Span.stop, span, hoffset]
    dsimp only
    omega
  · rw [hsource, ← hoffset, List.drop_left, span, List.take_left]

/-- The diagnostic of a refused lexeme starts where the lexeme does and ends within it. -/
theorem LiesIn.blamed (h : p.LiesIn source) {d : Diagnostic} (hd : d ∈ p.diagnostic?) :
    d.stage = .scan ∧ d.span.offset = p.offset ∧ 0 < d.span.length ∧ d.span.stop ≤ p.span.stop := by
  obtain ⟨problem, _, rfl⟩ := Option.map_eq_some_iff.mp hd
  have hpos := h.length_pos
  have hstop : p.span.stop = p.offset + p.span.length := rfl
  cases problem <;> refine ⟨rfl, rfl, ?_, ?_⟩ <;>
    simp only [ScanProblem.blame, Span.stop] at * <;> omega

theorem token?_span {t : Token} (h : t ∈ p.token?) : t.span = p.span ∧ t.lexeme = p.piece.text := by
  unfold token? at h
  split at h
  · cases h; exact ⟨rfl, rfl⟩
  · cases h

end Placed

/-! ## The partition -/

/-- What scanning finds is what the placed pieces are. -/
theorem scan_eq (source : Text) :
    scan source =
    ⟨(placed source).filterMap Placed.token?, (placed source).filterMap Placed.diagnostic?,
      source.length⟩ := by
  rw [scan, scanPieces_eq, text_pieces, Nat.zero_add]
  rfl

/-- The input ends where the source does. -/
theorem size_scan (source : Text) : (scan source).size = source.length := by
  rw [scan_eq]

/-- Scanning partitions every source, whatever its bytes. -/
theorem scan_partition (source : Text) : Partition source (placed source) (scan source) := by
  have hplaced : (placed source).Pairwise fun p q => p.span.stop ≤ q.offset :=
    place_pairwise 0 (pieces source)
  have hlies : ∀ p ∈ placed source, p.LiesIn source := fun p hp => lies_of_mem_placed hp
  rw [scan_eq]
  refine ⟨hlies, ?_, rfl, ?_, ?_, ⟨rfl, rfl⟩, rfl, fun p hp d hd => (hlies p hp).blamed hd, ?_⟩
  · intro i hi
    apply place_covers (Nat.zero_le i)
    rw [text_pieces]
    omega
  · intro t ht
    obtain ⟨p, hp, htoken⟩ := List.mem_filterMap.mp ht
    obtain ⟨hspan, hlexeme⟩ := Placed.token?_span htoken
    obtain ⟨hstop, htext⟩ := (hlies p hp).text_eq
    rw [hspan, hlexeme]
    exact ⟨(hlies p hp).length_pos, hstop, htext⟩
  · rw [List.pairwise_filterMap]
    refine hplaced.imp_of_mem ?_
    intro p q hp hq hpq t ht u hu
    rw [(Placed.token?_span ht).1, (Placed.token?_span hu).1]
    have hpos := (hlies p hp).length_pos
    have hstop : p.span.stop = p.span.offset + p.span.length := rfl
    have hoffset : q.span.offset = q.offset := rfl
    omega
  · rw [List.pairwise_filterMap]
    refine hplaced.imp_of_mem ?_
    intro p q hp hq hpq d hd e he
    have hpos := (hlies p hp).length_pos
    have hstop : p.span.stop = p.offset + p.span.length := rfl
    rw [((hlies p hp).blamed hd).2.1, ((hlies q hq).blamed he).2.1]
    omega

end Lox
