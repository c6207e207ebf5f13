import Lox.Proofs.Token.Partition

/-!
# Sources one after another

What follows a source goes on from its last lexeme or stands by itself. A character that is no part
of a name, a number or a longer mark goes on from a literal that is not closed, and from a comment
unless it is a line feed; from anything else it stands **apart** (`piecesAfter_join`). So a source
with its literals closed, a line feed and any other source scan to what the two scan to by
themselves, the second moved by the bytes before it (`scan_join`). In `scan_line_break` this is said
of the diagnostics of the first source: whatever else it reports, it may not report such a literal.
-/

namespace Lox

/-! ## Moving -/

/-- A span that starts a number of bytes later. -/
def Span.shift (distance : Nat) (s : Span) : Span := ⟨s.offset + distance, s.length⟩

/-- A token at another place. -/
def Token.mapSpan (place : Span → Span) (t : Token) : Token := { t with span := place t.span }

/-- A diagnostic at another place. -/
def Diagnostic.mapSpan (place : Span → Span) (d : Diagnostic) : Diagnostic :=
  { d with span := place d.span }

theorem Token.mapSpan_shift (distance : Nat) :
    Token.mapSpan (Span.shift distance) ∘ Token.mapSpan (Span.shift 1) =
      Token.mapSpan (Span.shift (distance + 1)) := by
  funext t
  simp only [mapSpan, Span.shift, Function.comp_apply, Nat.add_assoc, Nat.add_comm 1]

theorem Diagnostic.mapSpan_shift (distance : Nat) :
    Diagnostic.mapSpan (Span.shift distance) ∘ Diagnostic.mapSpan (Span.shift 1) =
      Diagnostic.mapSpan (Span.shift (distance + 1)) := by
  funext d
  simp only [mapSpan, Span.shift, Function.comp_apply, Nat.add_assoc, Nat.add_comm 1]

/-! ## Cutting -/

namespace Scalar

/-- The character that ends a line. -/
def lineFeed : Scalar := ⟨'\n', [0x0A]⟩

/-- A character goes on from no name, no number and no mark. -/
structure Apart (c : Scalar) : Prop where
  name : Piece.continuesName c.char = false
  digit : Piece.isDigit c = false
  point : c.char ≠ '.'
  slash : c.char ≠ '/'
  equal : c.char ≠ '='

/-- A line feed goes on from no piece but a comment or a blank. -/
theorem apart_lineFeed : lineFeed.Apart :=
  ⟨by decide +kernel, by decide, by decide, by decide, by decide⟩

end Scalar

section Runs

variable {p : Scalar → Bool} {c : Scalar} {ss more : List Scalar}

/-- A test that fails for a character stops a run there at the latest. -/
theorem takeWhile_join (h : p c = false) : (ss ++ c :: more).takeWhile p = ss.takeWhile p := by
  induction ss with
  | nil => simp [h]
  | cons s ss ih => simp only [List.cons_append, List.takeWhile_cons, ih]

/-- What a piece leaves ends before the joint. -/
theorem dropWhile_join (h : p c = false) :
    (ss ++ c :: more).dropWhile p = ss.dropWhile p ++ c :: more := by
  induction ss with
  | nil => simp [h]
  | cons s ss ih =>
    simp only [List.cons_append, List.dropWhile_cons, ih]
    split <;> rfl

/-- A run that ends in a list ends there whatever comes after the list. -/
theorem run_append {s : Scalar} {after : List Scalar} (h : ss.dropWhile p = s :: after)
    (more : List Scalar) :
    (ss ++ more).takeWhile p = ss.takeWhile p ∧ (ss ++ more).dropWhile p =
      s :: (after ++ more) := by
  induction ss with
  | nil => cases h
  | cons c ss ih =>
    simp only [List.cons_append, List.takeWhile_cons, List.dropWhile_cons] at h ⊢
    split at h
    · next hc =>
      obtain ⟨htake, hdrop⟩ := ih h
      simp [hc, htake, hdrop]
    · next hc =>
      obtain ⟨rfl, rfl⟩ := List.cons.inj h
      simp [hc]

end Runs

namespace Piece

/-- A literal that is not closed before the source ends. -/
def isOpen (p : Piece) : Bool :=
  p.kind == .refused .unterminatedString || p.kind == .refused .unterminatedChar

variable {s c : Scalar} {rest more : List Scalar}

/-- A closed string is read the same before anything. -/
theorem string_join (h : (string s rest).isOpen = false) :
    string s (rest ++ c :: more) = string s rest := by
  cases hdrop : rest.dropWhile fun s => s.char != '"' with
  | nil => simp [string, hdrop, isOpen] at h
  | cons closing after =>
    obtain ⟨htake', hdrop'⟩ := run_append hdrop (c :: more)
    simp only [string, htake', hdrop', hdrop]

theorem character_join (h : (character s rest).isOpen = false) :
    character s (rest ++ c :: more) = character s rest := by
  cases rest with
  | nil => simp [character, isOpen] at h
  | cons first rest =>
    by_cases hc : first.char == '\''
    · simp only [List.cons_append, character, hc, if_true]
    · cases hdrop : rest.dropWhile fun s => s.char != '\'' with
      | nil => simp [character, hc, hdrop, isOpen] at h
      | cons closing after =>
        obtain ⟨htake', hdrop'⟩ := run_append hdrop (c :: more)
        simp only [List.cons_append, character, htake', hdrop', hdrop, hc]
        cases rest.takeWhile fun s => s.char != '\'' <;> rfl

theorem length_fraction_le (ss : List Scalar) : (fraction ss).length ≤ ss.length := by
  rcases fraction_cases ss with hnone | ⟨_, _, _, _, _, _, hsplit, _⟩
  · simp [hnone]
  · calc (fraction ss).length ≤ (fraction ss ++ ss.drop (fraction ss).length).length := by simp
      _ = ss.length := by rw [← hsplit]

section Apart

variable (hc : c.Apart)

include hc

theorem fraction_join (ss : List Scalar) : fraction (ss ++ c :: more) = fraction ss := by
  match ss with
  | [] => cases more <;> simp [fraction, hc.point]
  | [point] => simp [fraction, hc.digit]
  | point :: digit :: rest =>
    simp only [List.cons_append, fraction]
    rw [takeWhile_join hc.digit]

/-- So is a number before what is no part of it. -/
theorem number_join : number s (rest ++ c :: more) = number s rest := by
  have hrun : (c.char == '.' || isDigit c) = false := by simp [hc.point, hc.digit]
  simp only [number, takeWhile_join hc.digit, dropWhile_join hc.digit, fraction_join hc,
    List.drop_append_of_le_length (length_fraction_le _)]
  rw [takeWhile_join hrun]

/-- So is a name. -/
theorem name_join : name s (rest ++ c :: more) = name s rest := by
  simp only [name]
  rw [takeWhile_join hc.name]

end Apart

theorem startsWith_join {d : Char} (hd : c.char ≠ d) :
    startsWith d (rest ++ c :: more) = startsWith d rest := by
  cases rest with
  | nil => simpa [startsWith] using hd
  | cons => rfl

/-- Two slashes start a comment, which goes up to a line feed or takes all that is left. -/
theorem comment_eq (hs : s.char = '/') (hrest : startsWith '/' rest = true) :
    piece s rest = ⟨.comment, s :: rest.takeWhile fun d => d.char != '\n'⟩ := by
  simp [piece, hs, hrest, mark?, extensible?]

/-- A comment starts with two slashes. -/
theorem starts_of_comment (h : (piece s rest).kind = .comment) :
    s.char = '/' ∧ startsWith '/' rest = true := by
  obtain ⟨after, hsplit, hlexeme⟩ := piece_lexeme s rest
  rw [h] at hlexeme
  generalize (piece s rest).scalars = scalars at hsplit hlexeme
  cases hlexeme with
  | comment hs hnext =>
    obtain ⟨rfl, rfl⟩ := List.cons.inj hsplit
    exact ⟨hs, by simp [startsWith, hnext]⟩

end Piece

/-- What is left of a list of scalars after the piece at its front. -/
def afterPiece (s : Scalar) (rest : List Scalar) : List Scalar :=
  rest.drop ((piece s rest).scalars.length - 1)

theorem piecesAfter_cons (s : Scalar) (rest : List Scalar) :
    piecesAfter 0 (s :: rest) = piece s rest :: piecesAfter 0 (afterPiece s rest) := by
  rw [piecesAfter, piecesAfter_eq, afterPiece]

/-- A piece reads at least one character. -/
theorem length_afterPiece_lt (s : Scalar) (rest : List Scalar) :
    (afterPiece s rest).length < (s :: rest).length := by
  rw [afterPiece, List.length_drop, List.length_cons]
  omega

theorem afterPiece_comment {s : Scalar} {rest : List Scalar} (h : (piece s rest).kind = .comment) :
    afterPiece s rest = rest.dropWhile fun d => d.char != '\n' := by
  obtain ⟨hs, hrest⟩ := Piece.starts_of_comment h
  rw [afterPiece, Piece.comment_eq hs hrest, List.length_cons, Nat.add_sub_cancel]
  nth_rewrite 2 [← List.takeWhile_append_dropWhile (p := fun d : Scalar => d.char != '\n')
    (l := rest)]
  exact List.drop_left

/-- The piece at the front of a list of scalars stays what it is before a character that stands
apart, if it is no literal that is left open, nor a comment that the character goes on from. -/
theorem piece_join {s c : Scalar} {rest : List Scalar} (hc : c.Apart) (more : List Scalar)
    (h : (piece s rest).isOpen = false)
    (hcomment : (piece s rest).kind = .comment → c.char = '\n' ∨ afterPiece s rest ≠ []) :
    piece s (rest ++ c :: more) = piece s rest := by
  have hends : (piece s rest).kind = .comment →
      c.char = '\n' ∨ (rest.dropWhile fun d => d.char != '\n') ≠ [] := fun hkind =>
    afterPiece_comment hkind ▸ hcomment hkind
  unfold piece at h hends ⊢
  cases hmark : Piece.mark? s.char with
  | some kind => rfl
  | none =>
    cases hext : Piece.extensible? s.char with
    | some kinds =>
      cases rest with
      | nil => simp [hc.equal]
      | cons => rfl
    | none =>
      simp only [hmark, hext, Piece.startsWith_join hc.slash] at h hends ⊢
      split_ifs at h hends ⊢ with hslash hstart hquote happos hblank hdigit hname
      · rcases hends rfl with hfeed | hne
        · rw [takeWhile_join (by simp [hfeed])]
        · obtain ⟨feed, after, hdrop⟩ := List.exists_cons_of_ne_nil hne
          rw [(run_append hdrop (c :: more)).1]
      · rfl
      · exact Piece.string_join h
      · exact Piece.character_join h
      · rfl
      · exact Piece.number_join hc
      · exact Piece.name_join hc
      · rfl

/-- The first piece of a list of scalars with more after it. -/
theorem piecesAfter_cons_join {s c : Scalar} {rest : List Scalar} (hc : c.Apart)
    (more : List Scalar) (h : (piece s rest).isOpen = false)
    (hcomment : (piece s rest).kind = .comment → c.char = '\n' ∨ afterPiece s rest ≠ []) :
    piecesAfter 0 (s :: rest ++ c :: more) =
      piece s rest :: piecesAfter 0 (afterPiece s rest ++ c :: more) := by
  have hlength : (piece s rest).scalars.length - 1 ≤ rest.length := by
    obtain ⟨after, hsplit, -⟩ := piece_lexeme s rest
    have hsum := congrArg List.length hsplit
    rw [List.length_append, List.length_cons] at hsum
    omega
  rw [List.cons_append, piecesAfter_cons, afterPiece, piece_join hc more h hcomment,
    List.drop_append_of_le_length hlength, afterPiece]

/-- Whether the last of some pieces is a comment. -/
def endsInComment (ps : List Piece) : Bool := ps.getLast?.any fun p => p.kind == .comment

theorem piecesAfter_ne_nil {ss : List Scalar} (h : ss ≠ []) : piecesAfter 0 ss ≠ [] := by
  obtain ⟨s, rest, rfl⟩ := List.exists_cons_of_ne_nil h
  simp [piecesAfter_cons]

/-- Only the last piece of a list of scalars decides whether it ends in a comment. -/
theorem endsInComment_cons {s : Scalar} {rest : List Scalar} (h : afterPiece s rest ≠ []) :
    endsInComment (piecesAfter 0 (s :: rest)) =
      endsInComment (piecesAfter 0 (afterPiece s rest)) := by
  obtain ⟨p, ps, hps⟩ := List.exists_cons_of_ne_nil (piecesAfter_ne_nil h)
  rw [piecesAfter_cons, hps, endsInComment, endsInComment, List.getLast?_cons_cons]

/-- What comes after scalars whose literals are closed is cut by itself, if it starts with a
character that stands apart and does not go on from a comment. -/
theorem piecesAfter_join {c : Scalar} (hc : c.Apart) (ss more : List Scalar)
    (h : ∀ p ∈ piecesAfter 0 ss, p.isOpen = false)
    (hend : c.char = '\n' ∨ endsInComment (piecesAfter 0 ss) = false) :
    piecesAfter 0 (ss ++ c :: more) = piecesAfter 0 ss ++ piecesAfter 0 (c :: more) := by
  induction hn : ss.length using Nat.strongRecOn generalizing ss with
  | ind n ih =>
    cases ss with
    | nil => rfl
    | cons s rest =>
      have hcomment : (piece s rest).kind = .comment → c.char = '\n' ∨ afterPiece s rest ≠ [] := by
        refine fun hkind => hend.imp_right fun hlast hnil => ?_
        rw [piecesAfter_cons, hnil] at hlast
        simp [endsInComment, piecesAfter, hkind] at hlast
      have hlater : c.char = '\n' ∨ endsInComment (piecesAfter 0 (afterPiece s rest)) = false := by
        refine hend.imp_right fun hlast => ?_
        by_cases hnil : afterPiece s rest = []
        · rw [hnil]
          rfl
        · rwa [← endsInComment_cons hnil]
      rw [piecesAfter_cons] at h
      obtain ⟨hfirst, hrest⟩ := List.forall_mem_cons.mp h
      rw [piecesAfter_cons_join hc more hfirst hcomment, piecesAfter_cons,
        ih _ (hn ▸ length_afterPiece_lt s rest) _ hrest hlater rfl, List.cons_append]

/-- A character that does not end the line goes on from a comment. -/
theorem piecesAfter_comment {c : Scalar} (hc : c.Apart) (hfeed : c.char ≠ '\n') (ss : List Scalar)
    (h : ∀ p ∈ piecesAfter 0 ss, p.isOpen = false)
    (hend : endsInComment (piecesAfter 0 ss) = true) :
    ∃ before body, piecesAfter 0 ss = before ++ [⟨.comment, body⟩] ∧
      piecesAfter 0 (ss ++ [c]) = before ++ [⟨.comment, body ++ [c]⟩] := by
  induction hn : ss.length using Nat.strongRecOn generalizing ss with
  | ind n ih =>
    cases ss with
    | nil => cases hend
    | cons s rest =>
      obtain ⟨hfirst, hrest⟩ := List.forall_mem_cons.mp (piecesAfter_cons s rest ▸ h)
      by_cases hnil : afterPiece s rest = []
      · -- The comment is the only piece, and it takes all there is.
        have hkind : (piece s rest).kind = .comment := by
          rw [piecesAfter_cons, hnil] at hend
          simpa [endsInComment, piecesAfter] using hend
        obtain ⟨hs, hslash⟩ := Piece.starts_of_comment hkind
        have hall : ∀ d ∈ rest, (d.char != '\n') = true := by
          rw [afterPiece_comment hkind] at hnil
          exact List.dropWhile_eq_nil_iff.mp hnil
        have hwhole : piece s rest = ⟨.comment, s :: rest⟩ := by
          rw [Piece.comment_eq hs hslash, List.takeWhile_eq_self_iff.mpr hall]
        have hlonger : piece s (rest ++ [c]) = ⟨.comment, s :: rest ++ [c]⟩ := by
          rw [Piece.comment_eq hs ((Piece.startsWith_join hc.slash).trans hslash),
            List.takeWhile_eq_self_iff.mpr]
          · rfl
          · exact List.forall_mem_append.mpr ⟨hall, by simpa using hfeed⟩
        refine ⟨[], s :: rest, ?_, ?_⟩
        · rw [piecesAfter_cons, hnil, hwhole]
          rfl
        · rw [List.cons_append, piecesAfter_cons, afterPiece, hlonger]
          simp [piecesAfter]
      · rw [endsInComment_cons hnil] at hend
        obtain ⟨before, body, hpieces, hjoined⟩ :=
          ih _ (hn ▸ length_afterPiece_lt s rest) _ hrest hend rfl
        refine ⟨piece s rest :: before, body, ?_, ?_⟩
        · rw [piecesAfter_cons, hpieces, List.cons_append]
        · rw [piecesAfter_cons_join hc [] hfirst fun _ => .inr hnil, hjoined, List.cons_append]

/-! ## Scanning -/

theorem place_append (offset : Nat) (ps qs : List Piece) :
    place offset (ps ++ qs) =
      place offset ps ++ place (offset + (ps.flatMap Piece.text).length) qs := by
  induction ps generalizing offset with
  | nil => rfl
  | cons p ps ih => simp [place, ih, Nat.add_assoc]

/-- A piece that stands a number of bytes later. -/
def Placed.shift (distance : Nat) (p : Placed) : Placed := { p with offset := p.offset + distance }

theorem place_shift (distance offset : Nat) (ps : List Piece) :
    place (offset + distance) ps = (place offset ps).map (Placed.shift distance) := by
  induction ps generalizing offset with
  | nil => rfl
  | cons p ps ih =>
    have hmoved : offset + distance + p.text.length = offset + p.text.length + distance := by omega
    rw [place, place, hmoved, ih]
    rfl

theorem Placed.token?_shift (distance : Nat) (p : Placed) :
    (p.shift distance).token? = p.token?.map (Token.mapSpan (Span.shift distance)) := by
  simp only [token?, shift]
  cases p.piece.kind <;> rfl

theorem Placed.diagnostic?_shift (distance : Nat) (p : Placed) :
    (p.shift distance).diagnostic? =
      p.diagnostic?.map (Diagnostic.mapSpan (Span.shift distance)) := by
  have hproblem : (p.shift distance).problem? = p.problem? := rfl
  rw [diagnostic?, diagnostic?, hproblem]
  cases p.problem? with
  | none => rfl
  | some problem => cases problem <;> rfl

/-- Two sources one after the other scan to what they scan to by themselves, if they are cut by
themselves. -/
theorem scan_append {source more : Text}
    (h : pieces (source ++ more) = pieces source ++ pieces more) :
    scan (source ++ more) =
      ⟨(scan source).tokens ++ (scan more).tokens.map (Token.mapSpan (Span.shift source.length)),
        (scan source).diagnostics ++
          (scan more).diagnostics.map (Diagnostic.mapSpan (Span.shift source.length)),
        source.length + more.length⟩ := by
  have hplaced : placed (source ++ more) =
      placed source ++ (placed more).map (Placed.shift source.length) := by
    rw [placed, h, place_append, text_pieces, place_shift]
    rfl
  have htokens : ((placed more).map (Placed.shift source.length)).filterMap Placed.token? =
      ((placed more).filterMap Placed.token?).map (Token.mapSpan (Span.shift source.length)) := by
    rw [List.filterMap_map, List.map_filterMap]
    exact List.filterMap_congr fun p _ => p.token?_shift _
  have hdiagnostics :
      ((placed more).map (Placed.shift source.length)).filterMap Placed.diagnostic? =
      ((placed more).filterMap Placed.diagnostic?).map
      (Diagnostic.mapSpan (Span.shift source.length)) := by
    rw [List.filterMap_map, List.map_filterMap]
    exact List.filterMap_congr fun p _ => p.diagnostic?_shift _
  rw [scan_eq, scan_eq source, scan_eq more, hplaced, List.filterMap_append, List.filterMap_append,
    htokens, hdiagnostics, List.length_append]

theorem pieces_lineFeed (more : Text) :
    pieces (0x0A :: more) = ⟨.blank, [Scalar.lineFeed]⟩ :: pieces more := by
  rw [pieces, Text.decode_cons]
  rfl

/-- A line feed before a source moves it. -/
theorem scan_lineFeed (more : Text) :
    scan (0x0A :: more) = ⟨(scan more).tokens.map (Token.mapSpan (Span.shift 1)),
      (scan more).diagnostics.map (Diagnostic.mapSpan (Span.shift 1)), 1 + more.length⟩ :=
  @scan_append [0x0A] more (pieces_lineFeed more)

/-- Two sources with a line feed between them scan to what they scan to by themselves, one after the
other, unless the first ends in a literal that is not closed. -/
theorem scan_join {source : Text} (more : Text) (h : ∀ p ∈ pieces source, p.isOpen = false) :
    scan (source ++ 0x0A :: more) =
      ⟨(scan source).tokens ++
        (scan more).tokens.map (Token.mapSpan (Span.shift (source.length + 1))),
        (scan source).diagnostics ++
          (scan more).diagnostics.map (Diagnostic.mapSpan (Span.shift (source.length + 1))),
        source.length + 1 + more.length⟩ := by
  have hpieces : pieces (source ++ 0x0A :: more) = pieces source ++ pieces (0x0A :: more) := by
    rw [pieces, Text.decode_append (Scalar.isTail_of_lt (by decide)), pieces_lineFeed, pieces,
      Text.decode_cons]
    exact piecesAfter_join Scalar.apart_lineFeed _ _ h (.inl rfl)
  rw [scan_append hpieces, scan_lineFeed, List.map_map, List.map_map, Token.mapSpan_shift,
    Diagnostic.mapSpan_shift, List.length_cons, Nat.add_right_comm, Nat.add_assoc]

/-! ## Literals that are closed -/

theorem exists_placed {p : Piece} {ps : List Piece} (h : p ∈ ps) (offset : Nat) :
    ∃ q ∈ place offset ps, q.piece = p := by
  induction ps generalizing offset with
  | nil => cases h
  | cons q ps ih =>
    rcases List.mem_cons.mp h with rfl | h
    · exact ⟨_, List.mem_cons_self, rfl⟩
    · obtain ⟨r, hr, heq⟩ := ih h (offset + q.text.length)
      exact ⟨r, List.mem_cons_of_mem _ hr, heq⟩

/-- A piece that is refused is reported. -/
theorem exists_diagnostic {source : Text} {p : Piece} {problem : ScanProblem}
    (h : p ∈ pieces source) (hkind : p.kind = .refused problem) :
    ∃ d ∈ (scan source).diagnostics, d.problem = .scan problem := by
  obtain ⟨q, hq, rfl⟩ := exists_placed h 0
  refine ⟨⟨.scan problem, problem.blame q.offset q.span.length⟩, ?_, rfl⟩
  rw [scan_eq]
  refine List.mem_filterMap.mpr ⟨q, hq, ?_⟩
  simp [Placed.diagnostic?, Placed.problem?, hkind]

/-- A problem with a literal that is not closed before the source ends. -/
def Problem.isOpenLiteral : Problem → Bool
  | .scan .unterminatedString | .scan .unterminatedChar => true
  | _ => false

/-- A source that reports no literal that is not closed has none. -/
theorem closed_of_reports {source : Text}
    (h : ∀ d ∈ (scan source).diagnostics, d.problem.isOpenLiteral = false) :
    ∀ p ∈ pieces source, p.isOpen = false := by
  intro p hp
  cases hkind : p.kind with
  | refused problem =>
    obtain ⟨d, hd, hproblem⟩ := exists_diagnostic hp hkind
    have hclosed := h d hd
    rw [hproblem] at hclosed
    cases problem with
    | unterminatedString | unterminatedChar => cases hclosed
    | _ => simp [Piece.isOpen, hkind]
  | _ => simp [Piece.isOpen, hkind]

/-- A source that scans without a diagnostic has all its literals closed. -/
theorem closed_of_scan {source : Text} (h : (scan source).diagnostics = []) :
    ∀ p ∈ pieces source, p.isOpen = false :=
  closed_of_reports (by simp [h])

/-- Scanning goes line by line. A source that reports no literal that is not closed, whatever else
it reports, and any other source with a line feed between them scan to the tokens and the
diagnostics of the first and to those of the second, moved past the line feed, and the input ends
where the second does. -/
theorem scan_line_break (source more : Text)
    (h : ∀ d ∈ (scan source).diagnostics, d.problem.isOpenLiteral = false) :
    scan (source ++ 0x0A :: more) =
      ⟨(scan source).tokens ++
        (scan more).tokens.map (Token.mapSpan (Span.shift (source.length + 1))),
        (scan source).diagnostics ++
          (scan more).diagnostics.map (Diagnostic.mapSpan (Span.shift (source.length + 1))),
        (scan more).size + (source.length + 1)⟩ := by
  rw [scan_join more (closed_of_reports h), size_scan, Nat.add_comm more.length]

/-- The first source ends in a comment with a quote in it, after a number with two points, an empty
character literal and two bytes of a character that has three. -/
theorem scan_line_break_refused :
    let source := utf8 "x = 1.2.3 + ''; " ++ [0xE2, 0x82] ++ utf8 " // \""
    let more := utf8 "y\" open"
    (∀ d ∈ (scan source).diagnostics, d.problem.isOpenLiteral = false) ∧
      (scan source).diagnostics.length = 4 ∧ (scan more).diagnostics.length = 1 ∧
      scan (source ++ 0x0A :: more) =
        ⟨(scan source).tokens ++
          (scan more).tokens.map (Token.mapSpan (Span.shift (source.length + 1))),
          (scan source).diagnostics ++
            (scan more).diagnostics.map (Diagnostic.mapSpan (Span.shift (source.length + 1))),
          (scan more).size + (source.length + 1)⟩ := by
  intro source more
  have hclosed : ∀ d ∈ (scan source).diagnostics, d.problem.isOpenLiteral = false := by
    decide +kernel
  exact ⟨hclosed, by decide +kernel, by decide +kernel, scan_line_break source more hclosed⟩

end Lox
