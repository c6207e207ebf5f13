import Lox.Proofs.Token.Partition
import Lox.Syntax

/-!
# Tokens written with spaces between them

A lexeme that stands for a token is read as this token wherever it stands, if nothing but a space or
the end of the text follows it: a space goes on from no lexeme of a token, and what a lexeme looked
at beyond its end only told that it ends there (`piece_tail`). So a source without diagnostics can
be written anew from its lexemes with one space between neighbours, and scans to the same tokens
(`scan_respaced`).

Bytes that form no character stand in literals only. They are read one by one there as well, as a
lexeme is cut from its source between two scalars.
-/

namespace Lox

/-! ## Lexemes before a space -/

/-- Scalars that a space comes first of, if there are any. -/
def Parted (after : List Scalar) : Prop := ∀ s ∈ after.head?, s.char = ' '

theorem Parted.ends {after : List Scalar} (h : Parted after) {p : Char → Bool}
    (hp : p ' ' = false) : Ends (fun s => p s.char) after :=
  fun s hs => (congrArg p (h s hs)).trans hp

/-- A run goes up to where it ends. -/
theorem run_eq {p : Scalar → Bool} {run after : List Scalar} (hrun : ∀ s ∈ run, p s = true)
    (hend : Ends p after) :
    (run ++ after).takeWhile p = run ∧ (run ++ after).dropWhile p = after := by
  rw [List.takeWhile_append_of_pos hrun, List.dropWhile_append_of_pos hrun]
  cases after with
  | nil => simp
  | cons s after => simp [ends_cons hend]

namespace Piece

variable {s : Scalar} {rest after : List Scalar} {kind : TokenKind}

/-- A string is read the same before anything else. -/
theorem string_tail (h : (string s rest).kind = .token kind) (after : List Scalar) :
    string s ((string s rest).scalars.tail ++ after) = string s rest := by
  cases hdrop : rest.dropWhile fun s => s.char != '"' with
  | nil => simp [string, hdrop] at h
  | cons closing more =>
    have hend : Ends (fun s => s.char != '"') (closing :: after) := by
      intro c hc
      cases hc
      simp [char_of_dropWhile hdrop]
    have hbody : ∀ c ∈ rest.takeWhile fun s => s.char != '"', (c.char != '"') = true :=
      fun c hc => by
      simpa using ne_of_mem_takeWhile hc
    obtain ⟨htake, hdrop'⟩ := run_eq hbody hend
    simp only [string, hdrop, List.cons_append, List.tail_cons, List.append_assoc, List.nil_append,
      htake, hdrop']

theorem character_tail (h : (character s rest).kind = .token kind) (after : List Scalar) :
    character s ((character s rest).scalars.tail ++ after) = character s rest := by
  cases rest with
  | nil => simp [character] at h
  | cons c rest =>
    by_cases hc : c.char == '\''
    · simp [character, hc] at h
    · cases hdrop : rest.dropWhile fun s => s.char != '\'' with
      | nil => simp [character, hc, hdrop] at h
      | cons closing more =>
        cases htake : rest.takeWhile fun s => s.char != '\'' with
        | cons d body => simp [character, hc, hdrop, htake] at h
        | nil =>
          have hclosing : (closing.char != '\'') = false := by simp [char_of_dropWhile hdrop]
          simp [character, hc, hdrop, htake, hclosing]

theorem name_tail (hafter : Parted after) :
    name s ((name s rest).scalars.tail ++ after) = name s rest := by
  have hbody : ∀ c ∈ rest.takeWhile fun s => continuesName s.char, continuesName c.char = true :=
    fun c hc =>
    List.mem_takeWhile_imp (p := fun s : Scalar => continuesName s.char) hc
  have htake := (run_eq hbody (hafter.ends (by decide +kernel : continuesName ' ' = false))).1
  simp only [name, List.tail_cons, htake]

theorem fraction_eq_nil (hafter : Parted after) : fraction after = [] := by
  match after with
  | [] | [_] => rfl
  | point :: digit :: rest => simp [fraction, hafter point rfl]

/-- A fraction is the fraction of itself. -/
theorem fraction_append (ss : List Scalar) (hafter : Parted after) :
    fraction (fraction ss ++ after) = fraction ss := by
  rcases fraction_cases ss with hnone | ⟨point, digits, hsome, hpoint, hne, hdigits, -⟩
  · rw [hnone, List.nil_append, fraction_eq_nil hafter]
  · obtain ⟨digit, digits, rfl⟩ := List.exists_cons_of_ne_nil hne
    obtain ⟨hdigit, hdigits⟩ := List.forall_mem_cons.mp hdigits
    have htake := (run_eq hdigits (hafter.ends (by decide : Char.isDigit ' ' = false))).1
    rw [hsome, List.cons_append, List.cons_append, fraction, if_pos (by simp [hpoint, hdigit])]
    exact congrArg (point :: digit :: ·) htake

/-- So is a number before a blank. -/
theorem number_tail (h : (number s rest).kind = .token kind) (hafter : Parted after) :
    number s ((number s rest).scalars.tail ++ after) = number s rest := by
  have hends : ∀ ss, Ends isDigit (fraction ss ++ after) := by
    intro ss
    rcases fraction_cases ss with hnone | ⟨point, digits, hsome, hpoint, -⟩
    · rw [hnone, List.nil_append]
      exact hafter.ends (by decide : Char.isDigit ' ' = false)
    · rw [hsome]
      intro c hc
      cases hc
      simp [isDigit, hpoint]
  have hdigits : ∀ c ∈ rest.takeWhile isDigit, isDigit c = true :=
    fun c hc => List.mem_takeWhile_imp hc
  obtain ⟨htake, hdrop⟩ := run_eq hdigits (hends (rest.dropWhile isDigit))
  have hnumber : number s rest =
      ⟨.token .number, s :: (rest.takeWhile isDigit ++ fraction (rest.dropWhile isDigit))⟩ ∧
      (Token.numberValue?
        (Scalar.text
        (s :: (rest.takeWhile isDigit ++ fraction (rest.dropWhile isDigit))))).isSome := by
    unfold number at h ⊢
    dsimp only at h ⊢
    split_ifs at h ⊢ with hplain hvalue
    exact ⟨rfl, hvalue⟩
  rw [hnumber.1, List.tail_cons, List.append_assoc, number]
  simp only [htake, hdrop, fraction_append _ hafter, List.drop_left, fraction_eq_nil hafter,
    List.isEmpty_nil, if_true, List.cons_append, hnumber.2]

end Piece

/-- A piece that is a token is read again from its scalars, with a space or the end after them. -/
theorem piece_tail {s : Scalar} {rest after : List Scalar} {kind : TokenKind}
    (h : (piece s rest).kind = .token kind) (hafter : Parted after) :
    piece s ((piece s rest).scalars.tail ++ after) = piece s rest := by
  have hnext : ∀ c, c ≠ ' ' → Piece.startsWith c after = false := by
    intro c hc
    cases after with
    | nil => rfl
    | cons next more => simpa [Piece.startsWith, hafter next rfl] using hc.symm
  unfold piece at h ⊢
  cases hmark : Piece.mark? s.char with
  | some kind => rfl
  | none =>
    cases hext : Piece.extensible? s.char with
    | some kinds =>
      obtain ⟨short, long⟩ := kinds
      simp only [hmark, hext] at h ⊢
      have hshort : ∀ c more, after = c :: more → ¬ c.char = '=' := by
        rintro c more rfl
        simpa [Piece.startsWith] using hnext '=' (by decide)
      cases rest with
      | nil =>
        cases after with
        | nil => rfl
        | cons c more => simp [hshort c more rfl]
      | cons next rest =>
        by_cases hlong : next.char = '='
        · simp [hlong]
        · cases after with
          | nil => simp [hlong]
          | cons c more => simp [hlong, hshort c more rfl]
    | none =>
      simp only [hmark, hext] at h ⊢
      split_ifs at h ⊢ with hslash hcomment hquote happos hblank hdigit hname
      · simp [hnext '/' (by decide)] at hquote
      · rfl
      · exact Piece.string_tail h after
      · exact Piece.character_tail h after
      · exact Piece.number_tail h hafter
      · exact Piece.name_tail hafter

/-! ## Pieces of a source -/

/-- A piece of a list of scalars is read where it stands. -/
theorem mem_piecesAfter {ss : List Scalar} {p : Piece} (h : p ∈ piecesAfter 0 ss) :
    ∃ before s rest, ss = before ++ s :: rest ∧ p = piece s rest := by
  induction hn : ss.length using Nat.strongRecOn generalizing ss with
  | ind n ih =>
    cases ss with
    | nil => cases h
    | cons s rest =>
      rw [piecesAfter, piecesAfter_eq] at h
      rcases List.mem_cons.mp h with rfl | h
      · exact ⟨[], s, rest, rfl, rfl⟩
      · obtain ⟨before, c, after, hsplit, rfl⟩ :=
          ih _ (by rw [← hn, List.length_drop, List.length_cons]; omega) h rfl
        refine ⟨s :: (rest.take ((piece s rest).scalars.length - 1) ++ before), c, after, ?_, rfl⟩
        rw [List.cons_append, List.append_assoc, ← hsplit, List.take_append_drop]

namespace Piece

/-- A piece that is a token, and is read again from its own bytes. -/
structure Steady (p : Piece) : Prop where
  isToken : ∃ kind, p.kind = .token kind
  decoded : p.text.decode = p.scalars
  read : ∃ s body, p.scalars = s :: body ∧ ∀ after, Parted after → piece s (body ++ after) = p

/-- The tokens of a source are read the same wherever they stand. -/
theorem steady_of_mem {source : Text} {p : Piece} {kind : TokenKind} (h : p ∈ pieces source)
    (hkind : p.kind = .token kind) : p.Steady := by
  obtain ⟨before, s, rest, hsplit, rfl⟩ := mem_piecesAfter h
  obtain ⟨after, hafter, hlexeme⟩ := piece_lexeme s rest
  obtain ⟨first, body, hscalars⟩ := List.exists_cons_of_ne_nil hlexeme.ne_nil
  have hfirst : s = first := by
    rw [hscalars] at hafter
    exact (List.cons.inj hafter).1
  rw [hafter] at hsplit
  refine ⟨⟨kind, hkind⟩, Text.decode_text hsplit, s, body, by rw [hscalars, hfirst],
    fun more hmore => ?_⟩
  have hread := piece_tail hkind hmore
  rwa [hscalars, List.tail_cons] at hread

/-- A space between tokens. -/
def space : Piece := ⟨.blank, [⟨' ', [0x20]⟩]⟩

theorem Steady.piecesAfter_append {p : Piece} (h : p.Steady) {after : List Scalar}
    (hafter : Parted after) : piecesAfter 0 (p.scalars ++ after) = p :: piecesAfter 0 after := by
  obtain ⟨s, body, hscalars, hread⟩ := h.read
  rw [hscalars, List.cons_append, piecesAfter, piecesAfter_eq, hread after hafter, hscalars,
    List.length_cons, Nat.add_sub_cancel, List.drop_left]

end Piece

/-- The bytes of tokens with spaces between them are cut into the tokens and the spaces. -/
theorem pieces_join {ps : List Piece} (h : ∀ p ∈ ps, p.Steady) :
    pieces (Text.join (utf8 " ") (ps.map Piece.text)) = ps.intersperse Piece.space := by
  induction ps with
  | nil => rfl
  | cons p ps ih =>
    obtain ⟨hp, hps⟩ := List.forall_mem_cons.mp h
    cases ps with
    | nil =>
      have hlast := hp.piecesAfter_append (show Parted [] by simp [Parted])
      rw [List.append_nil] at hlast
      exact (congrArg (piecesAfter 0) hp.decoded).trans hlast
    | cons q ps =>
      have hdecode : (Text.join (utf8 " ") ((p :: q :: ps).map Piece.text)).decode =
          p.scalars ++ ⟨' ', [0x20]⟩ ::
          (Text.join (utf8 " ") ((q :: ps).map Piece.text)).decode := by
        have hjoin : Text.join (utf8 " ") ((p :: q :: ps).map Piece.text) =
            p.text ++ 0x20 :: Text.join (utf8 " ") ((q :: ps).map Piece.text) :=
          List.append_assoc p.text [0x20] _
        rw [hjoin, Text.decode_append (by decide), hp.decoded, Text.decode_cons]
        rfl
      rw [pieces, hdecode, hp.piecesAfter_append
        (show Parted (_ :: _) from fun s hs => by cases hs; rfl)]
      exact congrArg (p :: Piece.space :: ·) (ih hps)

/-! ## Tokens of a source -/

/-- The value that a token writes out, if it is a literal. -/
def Token.value? (t : Token) : Option Literal :=
  match t.kind with
  | .number => some (.number t.numberValue)
  | .string => some (.string t.content)
  | .char => some (.char t.charValue)
  | _ => none

/-- What is read from a token, whatever its place: its kind, its lexeme and the value that it writes
out. -/
def Token.reading (t : Token) : TokenKind × Text × Option Literal := (t.kind, t.lexeme, t.value?)

/-- What is read from a piece if it is a token. -/
def Piece.reading? (p : Piece) : Option (TokenKind × Text × Option Literal) :=
  match p.kind with
  | .token kind => some (Token.reading ⟨kind, p.text, .emptyAt 0⟩)
  | _ => none

theorem readings_scanPieces (offset : Nat) (ps : List Piece) :
    (scanPieces offset ps).tokens.map Token.reading = ps.filterMap Piece.reading? := by
  induction ps generalizing offset with
  | nil => rfl
  | cons p ps ih =>
    rw [scanPieces, List.filterMap_cons]
    cases hkind : p.kind with
    | token kind =>
      simp only [Piece.reading?, hkind, List.map_cons, ih]
      rfl
    | _ => simp only [Piece.reading?, hkind, ih]

/-- Spaces between pieces are read as nothing. -/
theorem readings_intersperse (ps : List Piece) :
    (ps.intersperse Piece.space).filterMap Piece.reading? = ps.filterMap Piece.reading? := by
  induction ps with
  | nil => rfl
  | cons p ps ih =>
    cases ps with
    | nil => rfl
    | cons q ps =>
      have hspaced : (p :: q :: ps).intersperse Piece.space =
          p :: Piece.space :: (q :: ps).intersperse Piece.space := rfl
      rw [hspaced, List.filterMap_cons, List.filterMap_cons, ih, List.filterMap_cons]
      rfl

/-- Nothing is refused of tokens with spaces between them. -/
theorem diagnostics_intersperse {ps : List Piece} (h : ∀ p ∈ ps, p.Steady) (offset : Nat) :
    (scanPieces offset (ps.intersperse Piece.space)).diagnostics = [] := by
  induction ps generalizing offset with
  | nil => rfl
  | cons p ps ih =>
    obtain ⟨hp, hps⟩ := List.forall_mem_cons.mp h
    obtain ⟨kind, hkind⟩ := hp.isToken
    cases ps with
    | nil => simp only [List.intersperse, scanPieces, hkind]
    | cons q ps =>
      have hspaced : (p :: q :: ps).intersperse Piece.space =
          p :: Piece.space :: (q :: ps).intersperse Piece.space := rfl
      rw [hspaced, scanPieces, scanPieces]
      simp only [hkind, Piece.space]
      exact ih hps _

/-- The lexemes of the tokens of any source, written with single spaces between them, scan without a
diagnostic to tokens of the same kinds, with the same lexemes and the same values, in the same
order. -/
theorem scan_respaced (source : Text) :
    let respaced := scan (Text.join (utf8 " ") ((scan source).tokens.map Token.lexeme))
    respaced.diagnostics = [] ∧ respaced.tokens.map Token.reading =
      (scan source).tokens.map Token.reading := by
  obtain ⟨ps, hps⟩ : ∃ ps, ps = (pieces source).filter fun p => p.reading?.isSome := ⟨_, rfl⟩
  have hsteady : ∀ p ∈ ps, p.Steady := by
    intro p hp
    obtain ⟨hmem, htoken⟩ := List.mem_filter.mp (hps ▸ hp)
    cases hkind : p.kind with
    | token kind => exact Piece.steady_of_mem hmem hkind
    | _ => simp [Piece.reading?, hkind] at htoken
  have hreadings : (scan source).tokens.map Token.reading = ps.filterMap Piece.reading? := by
    rw [scan, readings_scanPieces, hps, List.filterMap_filter]
    refine List.filterMap_congr fun p _ => ?_
    cases p.reading? <;> rfl
  have hlexemes : (scan source).tokens.map Token.lexeme = ps.map Piece.text := by
    have hread : (scan source).tokens.map Token.lexeme = (ps.filterMap Piece.reading?).map
        fun r => r.2.1 := by
      rw [← hreadings, List.map_map]
      rfl
    rw [hread, List.map_filterMap, ← List.filterMap_eq_map]
    refine List.filterMap_congr fun p hp => ?_
    obtain ⟨kind, hkind⟩ := (hsteady p hp).isToken
    simp only [Piece.reading?, hkind]
    rfl
  intro respaced
  have hscan : respaced = scanPieces 0 (ps.intersperse Piece.space) := by
    rw [← pieces_join hsteady, ← hlexemes]
    rfl
  rw [hscan, readings_scanPieces, readings_intersperse, hreadings]
  exact ⟨diagnostics_intersperse hsteady 0, rfl⟩

end Lox
