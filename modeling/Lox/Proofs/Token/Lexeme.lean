import Mathlib
import Lox.Token.Piece

/-!
# Lexemes

What each kind of piece looks like, said without the functions that read it. A lexeme is a run of
scalars with its kind and with what follows it: a piece takes as much as its kind allows, and only
what follows can tell that it ends there.

`piece_lexeme` says that the piece read from the front of a list of scalars is a lexeme there, and
`pieces_lexed` that a whole source is cut into lexemes, one after another, with nothing between
them.
-/

namespace Lox

/-- A run that a test carries on ends here: nothing follows, or a scalar that fails the test. -/
def Ends (p : Scalar → Bool) (after : List Scalar) : Prop := ∀ s ∈ after.head?, p s = false

/-- Digits, and perhaps a point with more digits after it. -/
def IsNumeral (ss : List Scalar) : Prop :=
  ∃ whole part, ss = whole ++ part ∧ whole ≠ [] ∧ (∀ d ∈ whole, Piece.isDigit d) ∧
    (part = [] ∨ ∃ point digits, part = point :: digits ∧ point.char = '.' ∧ digits ≠ [] ∧
      ∀ d ∈ digits, Piece.isDigit d)

/-- A character that starts no token, no comment and no white space. -/
structure StartsNothing (s : Scalar) : Prop where
  mark : Piece.mark? s.char = none
  extensible : Piece.extensible? s.char = none
  slash : s.char ≠ '/'
  quote : s.char ≠ '"'
  apostrophe : s.char ≠ '\''
  blank : isBlank s.char = false
  digit : Piece.isDigit s = false
  name : Piece.startsName s.char = false

/-- A lexeme: its kind, its scalars, and the scalars after it. -/
inductive Lexeme : PieceKind → List Scalar → List Scalar → Prop
  | mark {s : Scalar} {kind : TokenKind} {after : List Scalar} :
      Piece.mark? s.char = some kind → Lexeme (.token kind) [s] after
  | long {s next : Scalar} {short long : TokenKind} {after : List Scalar} :
      Piece.extensible? s.char = some (short, long) → next.char = '=' →
      Lexeme (.token long) [s, next] after
  | short {s : Scalar} {short long : TokenKind} {after : List Scalar} :
      Piece.extensible? s.char = some (short, long) → Ends (fun c => c.char == '=') after →
      Lexeme (.token short) [s] after
  | slash {s : Scalar} {after : List Scalar} :
      s.char = '/' → Ends (fun c => c.char == '/') after → Lexeme (.token .slash) [s] after
  | comment {s next : Scalar} {body after : List Scalar} :
      s.char = '/' → next.char = '/' → (∀ c ∈ body, c.char ≠ '\n') →
      Ends (fun c => c.char != '\n') after → Lexeme .comment (s :: next :: body) after
  | string {opening closing : Scalar} {body after : List Scalar} :
      opening.char = '"' → (∀ c ∈ body, c.char ≠ '"') → closing.char = '"' →
      Lexeme (.token .string) (opening :: body ++ [closing]) after
  | openString {opening : Scalar} {body : List Scalar} : opening.char = '"' →
      (∀ c ∈ body, c.char ≠ '"') → Lexeme (.refused .unterminatedString) (opening :: body) []
  | char {opening c closing : Scalar} {after : List Scalar} : opening.char = '\'' → c.char ≠ '\'' →
      closing.char = '\'' → Lexeme (.token .char) [opening, c, closing] after
  | emptyChar {opening closing : Scalar} {after : List Scalar} : opening.char = '\'' →
      closing.char = '\'' → Lexeme (.refused .unclosedChar) [opening, closing] after
  | longChar {opening closing : Scalar} {body after : List Scalar} :
      opening.char = '\'' → 2 ≤ body.length → (∀ c ∈ body, c.char ≠ '\'') → closing.char = '\'' →
      Lexeme (.refused .unclosedChar) (opening :: body ++ [closing]) after
  | openChar {opening : Scalar} {body : List Scalar} : opening.char = '\'' →
      (∀ c ∈ body, c.char ≠ '\'') → Lexeme (.refused .unterminatedChar) (opening :: body) []
  | blank {s : Scalar} {after : List Scalar} : isBlank s.char → Lexeme .blank [s] after
  | number {ss after : List Scalar} :
      IsNumeral ss → Ends Piece.isDigit after → Piece.fraction after = [] →
      (Token.numberValue? (Scalar.text ss)).isSome → Lexeme (.token .number) ss after
  | hugeNumber {ss after : List Scalar} :
      IsNumeral ss → Ends Piece.isDigit after → Piece.fraction after = [] →
      Token.numberValue? (Scalar.text ss) = none → Lexeme (.refused .malformedNumber) ss after
  | pointedNumber {ss more after : List Scalar} :
      IsNumeral ss → Piece.fraction more ≠ [] → (∀ c ∈ more, c.char = '.' ∨ Piece.isDigit c) →
      Ends (fun c => c.char == '.' || Piece.isDigit c) after →
      Lexeme (.refused .malformedNumber) (ss ++ more) after
  | name {s : Scalar} {more after : List Scalar} :
      Piece.startsName s.char → (∀ c ∈ more, Piece.continuesName c.char) →
      Ends (fun c => Piece.continuesName c.char) after →
      Lexeme (.token (.ofName (Scalar.text (s :: more)))) (s :: more) after
  | unexpected {s : Scalar} {after : List Scalar} :
      StartsNothing s → Lexeme (.refused (.unexpected s.char)) [s] after

/-- A piece that is a lexeme where it stands at the front of a list of scalars. -/
def Piece.StartsOff (p : Piece) (ss : List Scalar) : Prop :=
  ∃ after, ss = p.scalars ++ after ∧ Lexeme p.kind p.scalars after

/-! ## Runs of scalars -/

theorem ends_dropWhile (p : Scalar → Bool) (ss : List Scalar) : Ends p (ss.dropWhile p) := by
  intro s hs
  have h := List.head?_dropWhile_not p ss
  rw [Option.mem_def.mp hs] at h
  simpa using h

theorem ends_cons {p : Scalar → Bool} {s : Scalar} {ss : List Scalar} (h : Ends p (s :: ss)) :
    p s = false :=
  h s rfl

/-- What a test that excludes a character passes over does not hold the character. -/
theorem ne_of_mem_takeWhile {c : Char} {ss : List Scalar} {s : Scalar}
    (h : s ∈ ss.takeWhile fun x => x.char != c) : s.char ≠ c := by
  simpa using List.mem_takeWhile_imp h

/-- Where passing over everything but a character stops, the character stands. -/
theorem char_of_dropWhile {c : Char} {ss after : List Scalar} {s : Scalar}
    (h : (ss.dropWhile fun x => x.char != c) = s :: after) : s.char = c := by
  have hend := ends_dropWhile (fun x => x.char != c) ss
  rw [h] at hend
  simpa using ends_cons hend

/-! ## The readers of pieces -/

namespace Piece

theorem string_startsOff {opening : Scalar} (h : opening.char = '"') (rest : List Scalar) :
    (string opening rest).StartsOff (opening :: rest) := by
  have hsplit :=
    (List.takeWhile_append_dropWhile (p := fun s : Scalar => s.char != '"') (l := rest)).symm
  have hbody : ∀ c ∈ rest.takeWhile fun s => s.char != '"', c.char ≠ '"' :=
    fun c hc => ne_of_mem_takeWhile hc
  unfold string
  split
  next hend =>
    rw [hend, List.append_nil] at hsplit
    exact ⟨[], by rw [List.append_nil]; exact congrArg _ hsplit, .openString h hbody⟩
  next closing after hend =>
    refine ⟨after, ?_, .string h hbody (char_of_dropWhile hend)⟩
    rw [hend] at hsplit
    simpa using hsplit

theorem character_startsOff {opening : Scalar} (h : opening.char = '\'') (rest : List Scalar) :
    (character opening rest).StartsOff (opening :: rest) := by
  cases rest with
  | nil => exact ⟨[], rfl, .openChar h (by simp)⟩
  | cons c rest =>
    rw [character]
    split
    next hc => exact ⟨rest, rfl, .emptyChar h (by simpa using hc)⟩
    next hc =>
      have hc : c.char ≠ '\'' := by simpa using hc
      have hsplit :=
        (List.takeWhile_append_dropWhile (p := fun s : Scalar => s.char != '\'') (l := rest)).symm
      have hbody : ∀ x ∈ c :: rest.takeWhile fun s => s.char != '\'', x.char ≠ '\'' := by
        intro x hx
        rcases List.mem_cons.mp hx with rfl | hx
        · exact hc
        · exact ne_of_mem_takeWhile hx
      -- The literal is one character long exactly when nothing stands before the next quote.
      dsimp only
      split
      next hend =>
        rw [hend, List.append_nil] at hsplit
        exact ⟨[], by rw [List.append_nil, ← hsplit], .openChar h hbody⟩
      next closing after hnone hend =>
        rw [hend, hnone] at hsplit
        exact ⟨after, by rw [hsplit]; rfl, .char h hc (char_of_dropWhile hend)⟩
      next closing after hend hsome =>
        refine ⟨after, ?_, .longChar h ?_ hbody (char_of_dropWhile hend)⟩
        · rw [hend] at hsplit
          simpa using hsplit
        · have hpos : 0 < (rest.takeWhile fun s => s.char != '\'').length :=
            List.length_pos_iff.mpr hsome
          rw [List.length_cons]
          omega

/-- A fraction is taken from the front, and is a point with all the digits after it. -/
theorem fraction_cases (ss : List Scalar) :
    fraction ss = [] ∨ ∃ point digits, fraction ss = point :: digits ∧ point.char = '.' ∧
      digits ≠ [] ∧
      (∀ d ∈ digits, isDigit d) ∧ ss = fraction ss ++ ss.drop (fraction ss).length ∧
      Ends isDigit (ss.drop (fraction ss).length) := by
  match ss with
  | [] => exact .inl rfl
  | [_] => exact .inl rfl
  | point :: digit :: rest =>
    simp only [fraction]
    split
    next h =>
      simp only [Bool.and_eq_true, beq_iff_eq] at h
      have hdrop : (point :: digit :: rest).drop (point :: digit :: rest.takeWhile isDigit).length =
          rest.dropWhile isDigit := by
        rw [List.length_cons, List.length_cons, List.drop_succ_cons, List.drop_succ_cons]
        nth_rewrite 2 [← List.takeWhile_append_dropWhile (p := isDigit) (l := rest)]
        exact List.drop_left
      refine .inr ⟨point, digit :: rest.takeWhile isDigit, rfl, h.1, by simp, ?_, ?_, ?_⟩
      · intro d hd
        rcases List.mem_cons.mp hd with rfl | hd
        · exact h.2
        · exact List.mem_takeWhile_imp hd
      · rw [hdrop, List.cons_append, List.cons_append, List.takeWhile_append_dropWhile]
      · rw [hdrop]
        exact ends_dropWhile isDigit rest
    next h => exact .inl rfl

/-- Digits with the fraction after them are a numeral. What follows does not start with a digit. -/
theorem isNumeral_fraction {first : Scalar} (h : isDigit first) (rest : List Scalar) :
    let after := rest.dropWhile isDigit
    IsNumeral (first :: rest.takeWhile isDigit ++ fraction after) ∧
      Ends isDigit (after.drop (fraction after).length) ∧
      rest = rest.takeWhile isDigit ++ fraction after ++ after.drop (fraction after).length := by
  intro after
  have hwhole : ∀ d ∈ first :: rest.takeWhile isDigit, isDigit d := by
    intro d hd
    rcases List.mem_cons.mp hd with rfl | hd
    · exact h
    · exact List.mem_takeWhile_imp hd
  have hsplit : rest = rest.takeWhile isDigit ++ after := List.takeWhile_append_dropWhile.symm
  rcases fraction_cases after with hnone | ⟨point, digits, hsome, hpoint, hne, hdigits, happ, hend⟩
  · rw [hnone, List.append_nil, List.append_nil]
    refine ⟨⟨first :: rest.takeWhile isDigit, [], by simp, by simp, hwhole, .inl rfl⟩, ?_, hsplit⟩
    exact ends_dropWhile isDigit rest
  · refine ⟨⟨first :: rest.takeWhile isDigit, _, rfl, by simp, hwhole,
      .inr ⟨point, digits, hsome, hpoint, hne, hdigits⟩⟩, hend, ?_⟩
    rw [List.append_assoc, ← happ]
    exact hsplit

/-- Passing over points and digits does not cut a fraction that comes first. -/
theorem fraction_takeWhile (ss : List Scalar) :
    fraction (ss.takeWhile fun c => c.char == '.' || isDigit c) = fraction ss := by
  match ss with
  | [] => rfl
  | [point] =>
    rw [List.takeWhile_cons]
    split <;> rfl
  | point :: digit :: rest =>
    rw [List.takeWhile_cons, List.takeWhile_cons]
    by_cases h : point.char == '.' && isDigit digit
    · have h' := Bool.and_eq_true_iff.mp h
      have hmore : (rest.takeWhile fun c => c.char == '.' || isDigit c).takeWhile isDigit =
          rest.takeWhile isDigit := by
        rw [List.takeWhile_takeWhile]
        congr 1
        funext c
        cases isDigit c <;> simp
      simp only [h'.1, h'.2, Bool.true_or, Bool.or_true, if_true, fraction, Bool.true_and, hmore]
    · -- No fraction comes first here, whatever is passed over.
      have hnone : ∀ more, fraction (point :: digit :: more) = [] := fun more => if_neg h
      rw [hnone rest]
      split
      · split
        · exact hnone _
        · rfl
      · rfl

theorem number_startsOff {first : Scalar} (h : isDigit first) (rest : List Scalar) :
    (number first rest).StartsOff (first :: rest) := by
  obtain ⟨hnumeral, hend, hsplit⟩ := isNumeral_fraction h rest
  unfold number
  set part := fraction (rest.dropWhile isDigit)
  set after := (rest.dropWhile isDigit).drop part.length
  have hwhole : first :: rest = (first :: rest.takeWhile isDigit ++ part) ++ after :=
    congrArg _ hsplit
  dsimp only
  split
  next hnone =>
    have hnone : fraction after = [] := List.isEmpty_iff.mp hnone
    split
    next hvalue => exact ⟨after, hwhole, .number hnumeral hend hnone hvalue⟩
    next hvalue => exact ⟨after, hwhole, .hugeNumber hnumeral hend hnone (by simpa using hvalue)⟩
  next hsome =>
    refine ⟨after.dropWhile fun c => c.char == '.' || isDigit c, ?_,
      .pointedNumber hnumeral ?_ ?_ (ends_dropWhile _ _)⟩
    · rw [List.append_assoc, List.takeWhile_append_dropWhile]
      exact hwhole
    · rw [fraction_takeWhile]
      exact fun hnil => hsome (List.isEmpty_iff.mpr hnil)
    · intro c hc
      simpa using List.mem_takeWhile_imp hc

theorem name_startsOff {first : Scalar} (h : startsName first.char) (rest : List Scalar) :
    (name first rest).StartsOff (first :: rest) := by
  refine ⟨rest.dropWhile fun s => continuesName s.char, ?_, .name h ?_ (ends_dropWhile _ _)⟩
  · exact congrArg _ List.takeWhile_append_dropWhile.symm
  · intro c hc
    exact List.mem_takeWhile_imp (p := fun s : Scalar => continuesName s.char) hc

end Piece

/-- The piece at the front of a list of scalars is a lexeme there. -/
theorem piece_lexeme (s : Scalar) (rest : List Scalar) : (piece s rest).StartsOff (s :: rest) := by
  unfold piece
  split
  next hmark => exact ⟨rest, rfl, .mark hmark⟩
  next short long hmark hext =>
    split
    next next after =>
      split
      next heq => exact ⟨after, rfl, .long hext (by simpa using heq)⟩
      next hne =>
        refine ⟨next :: after, rfl, .short hext ?_⟩
        intro c hc
        cases hc
        simpa using hne
    next => exact ⟨[], rfl, .short hext (by intro c hc; cases hc)⟩
  next hmark hext =>
    split_ifs with hslash hcomment hquote happos hblank hdigit hname
    · -- Two slashes: the comment goes up to the end of the line.
      cases rest with
      | nil => cases hcomment
      | cons next rest =>
        have hnext : next.char = '/' := by simpa [Piece.startsWith] using hcomment
        have hpass : ((next :: rest).takeWhile fun c => c.char != '\n') =
            next :: rest.takeWhile fun c => c.char != '\n' := by
          rw [List.takeWhile_cons, if_pos (by rw [hnext]; decide)]
        refine ⟨rest.dropWhile fun c => c.char != '\n', ?_, ?_⟩
        · dsimp only
          rw [hpass, List.cons_append, List.cons_append, List.takeWhile_append_dropWhile]
        · dsimp only
          rw [hpass]
          exact .comment (by simpa using hslash) hnext (fun c hc => ne_of_mem_takeWhile hc)
            (ends_dropWhile _ _)
    · refine ⟨rest, rfl, .slash (by simpa using hslash) ?_⟩
      intro c hc
      cases rest with
      | nil => cases hc
      | cons next rest =>
        cases hc
        simpa [Piece.startsWith] using hcomment
    · exact Piece.string_startsOff (by simpa using hquote) rest
    · exact Piece.character_startsOff (by simpa using happos) rest
    · exact ⟨rest, rfl, .blank hblank⟩
    · exact Piece.number_startsOff hdigit rest
    · exact Piece.name_startsOff hname rest
    · refine ⟨rest, rfl, .unexpected ⟨hmark, hext, ?_, ?_, ?_, ?_, ?_, ?_⟩⟩
      · simpa using hslash
      · simpa using hquote
      · simpa using happos
      · simpa using hblank
      · simpa using hdigit
      · simpa using hname

/-! ## All of a source -/

/-- Scalars cut into lexemes. -/
inductive Lexed : List Piece → List Scalar → Prop
  | nil : Lexed [] []
  | cons {p : Piece} {ps : List Piece} {after : List Scalar} :
      p.scalars ≠ [] → Lexeme p.kind p.scalars after → Lexed ps after →
      Lexed (p :: ps) (p.scalars ++ after)

/-- A lexeme has a scalar. -/
theorem Lexeme.ne_nil {kind : PieceKind} {ss after : List Scalar} (h : Lexeme kind ss after) :
    ss ≠ [] := by
  cases h with
  | number hn | hugeNumber hn =>
    obtain ⟨whole, part, rfl, hwhole, _⟩ := hn
    simp [hwhole]
  | pointedNumber hn =>
    obtain ⟨whole, part, rfl, hwhole, _⟩ := hn
    simp [hwhole]
  | _ => simp

/-- Passing over scalars that belong to a piece is cutting what is left without them. -/
theorem piecesAfter_eq (skip : Nat) (ss : List Scalar) :
    piecesAfter skip ss = piecesAfter 0 (ss.drop skip) := by
  induction ss generalizing skip with
  | nil => simp [piecesAfter]
  | cons s rest ih =>
    cases skip with
    | zero => rfl
    | succ skip =>
      rw [piecesAfter, ih skip]
      rfl

/-- Cutting goes from lexeme to lexeme. -/
theorem piecesAfter_lexed (ss : List Scalar) : Lexed (piecesAfter 0 ss) ss := by
  induction hn : ss.length using Nat.strongRecOn generalizing ss with
  | ind n ih =>
    cases ss with
    | nil => exact .nil
    | cons s rest =>
      obtain ⟨after, hsplit, hlex⟩ := piece_lexeme s rest
      obtain ⟨first, more, hscalars⟩ := List.exists_cons_of_ne_nil hlex.ne_nil
      have hrest : rest = more ++ after := by
        rw [hscalars, List.cons_append, List.cons.injEq] at hsplit
        exact hsplit.2
      have hdrop : rest.drop ((piece s rest).scalars.length - 1) = after := by
        rw [hscalars, List.length_cons, Nat.add_sub_cancel, hrest]
        exact List.drop_left
      have hshort : after.length < n := by
        rw [← hn, hrest, List.length_cons, List.length_append]
        omega
      have htail := ih _ hshort after rfl
      rw [piecesAfter, piecesAfter_eq, hdrop, hsplit]
      exact .cons hlex.ne_nil hlex htail

/-- A source is cut into lexemes. -/
theorem pieces_lexed (source : Text) : Lexed (pieces source) source.decode :=
  piecesAfter_lexed source.decode

end Lox
