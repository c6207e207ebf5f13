import Lox.Command.Prompt
import Lox.Proofs.Session.Staging
import Lox.Proofs.Syntax.Joining

/-!
# The semicolon at the end of a line

The prompt adds a semicolon to every line that it runs. The semicolon is a token after the tokens of
the line, and an empty statement where the line needs none, so a line that is a program with or
without it is run as one.

The exception is a line that ends in a comment. The semicolon goes on from the comment there and is
no token, so such a line must be a program by itself (`semicolon_in_comment`). The main theorem is
`semicolon_optional`.
-/

namespace Lox

/-! ## Scanning -/

namespace Scalar

/-- The character that the prompt adds. -/
def semicolon : Scalar := ⟨';', [0x3B]⟩

theorem apart_semicolon : semicolon.Apart :=
  ⟨by decide +kernel, by decide, by decide, by decide, by decide⟩

end Scalar

/-- The semicolon after a line, as a token. -/
def Token.addedTo (line : Text) : Token := ⟨.semicolon, utf8 ";", ⟨line.length, 1⟩⟩

section Scanning

variable {line : Text} (h : (scan line).diagnostics = [])

theorem decode_semicolon (line : Text) :
    (line ++ utf8 ";").decode = line.decode ++ [Scalar.semicolon] :=
  Text.decode_append (Scalar.isTail_of_lt (by decide)) line []

include h

theorem scan_semicolon (hend : endsInComment (pieces line) = false) :
    scan (line ++ utf8 ";") =
      ⟨(scan line).tokens ++ [Token.addedTo line], [], line.length + 1⟩ := by
  have hpieces : pieces (line ++ utf8 ";") = pieces line ++ pieces (utf8 ";") := by
    rw [pieces, decode_semicolon]
    exact piecesAfter_join Scalar.apart_semicolon _ [] (closed_of_scan h) (.inr hend)
  have hadded : scan (utf8 ";") = ⟨[Token.addedTo []], [], 1⟩ := rfl
  have hmoved : Token.mapSpan (Span.shift line.length) (Token.addedTo []) = Token.addedTo line := by
    simp [Token.mapSpan, Span.shift, Token.addedTo]
  rw [scan_append hpieces, hadded, h, List.map_singleton, hmoved]
  rfl

theorem scan_semicolon_comment (hend : endsInComment (pieces line) = true) :
    scan (line ++ utf8 ";") = ⟨(scan line).tokens, [], line.length + 1⟩ := by
  obtain ⟨before, body, hpieces, hlonger⟩ :=
    piecesAfter_comment Scalar.apart_semicolon (by decide) line.decode (closed_of_scan h) hend
  rw [← decode_semicolon] at hlonger
  -- A comment is read as nothing, however long it is.
  have hcomment : ∀ source body, pieces source = before ++ [⟨.comment, body⟩] →
      scan source =
        ⟨(place 0 before).filterMap Placed.token?, (place 0 before).filterMap Placed.diagnostic?,
        source.length⟩ := by
    intro source body hsource
    rw [scan_eq, placed, hsource, place_append, List.filterMap_append, List.filterMap_append]
    simp [place, Placed.token?, Placed.diagnostic?, Placed.problem?]
  rw [hcomment line body hpieces] at h ⊢
  rw [hcomment _ _ hlonger, List.length_append]
  exact congrArg (Scanned.mk _ · _) h

end Scanning

/-! ## Parsing -/

/-- A program with a semicolon after it is the same program. -/
theorem parse_semicolon {line : Text} {ts : List Token} {size : Nat}
    (h : (parse ts size).diagnostics = []) (whole : Nat) :
    parse (ts ++ [Token.addedTo line]) whole = ⟨(parse ts size).stmts, []⟩ := by
  have hempty : parse [Token.addedTo []] 1 = ⟨[], []⟩ := rfl
  have hmoved : [Token.addedTo []].map (Token.mapSpan (Span.shift line.length)) =
      [Token.addedTo line] := by
    simp [Token.mapSpan, Span.shift, Token.addedTo]
  have hjoined :=
    Grammar.parse_join line.length h (congrArg Parsed.diagnostics hempty) (fun _ => rfl) whole
  rw [hmoved, hempty] at hjoined
  rw [hjoined]
  simp [markStmts]

/-! ## Running -/

/-- A source that is scanned and parsed without a diagnostic has reports of the later stages
only. -/
theorem Session.later_stage {s : Session} {budget : Nat} {source : Text} {ds : List Diagnostic}
    {d : Diagnostic} (hscan : (scan source).diagnostics = [])
    (hparse : (parse (scan source).tokens (scan source).size).diagnostics = [])
    (hending : (s.run budget source).1.ending = .diagnosed ds) (hd : d ∈ ds) :
    d.stage = .resolve ∨ d.stage = .runtime := by
  have hresult := result_analyse s.runs s.rootNames source
  simp only [hscan, hparse, List.isEmpty_nil, if_true] at hresult
  split at hresult
  · simp only [run, hresult, conclude] at hending
    exact .inr (stage_of_mem_endingOf hending hd)
  · rw [run_of_error budget hresult] at hending
    cases hending
    exact .inl (stage_of_mem_resolve hd)

namespace Entry

/-- A line that scans without a diagnostic is run without one of scanning, and without one of
parsing if its tokens are a program. The semicolon that is added is one more token, which may be
what makes them a program; at the end of a comment it is none. -/
theorem semicolon_optional {line source : Text} (hentry : ofLine line = .source source)
    (hscan : (scan line).diagnostics = []) :
    let own := (scan line).tokens
    let added := if endsInComment (pieces line) then own else own ++ [Token.addedTo line]
    scan source = ⟨added, [], line.length + 1⟩ ∧
      ((parse own (scan line).size).diagnostics = [] →
        parse added (line.length + 1) = ⟨(parse own (scan line).size).stmts, []⟩) ∧
      ∀ (s : Session) (budget : Nat) (ds : List Diagnostic), (s.run budget source).1.ending =
        .diagnosed ds →
        (parse own (scan line).size).diagnostics = [] ∨
          (parse added (line.length + 1)).diagnostics = [] →
        ∀ d ∈ ds, d.stage = .resolve ∨ d.stage = .runtime := by
  intro own added
  have hsource : source = line ++ utf8 ";" := by
    simp only [ofLine] at hentry
    split_ifs at hentry
    exact (Entry.source.inj hentry).symm
  have hadded : scan source = ⟨added, [], line.length + 1⟩ := by
    rw [hsource]
    cases hend : endsInComment (pieces line) with
    | true => simpa [added, hend] using scan_semicolon_comment hscan hend
    | false => simpa [added, hend] using scan_semicolon hscan hend
  have hparse : (parse own (scan line).size).diagnostics = [] →
      parse added (line.length + 1) = ⟨(parse own (scan line).size).stmts, []⟩ := by
    intro hown
    cases hend : endsInComment (pieces line) with
    | true => simpa [added, hend] using (Grammar.derives_of_parse hown).parse_eq (line.length + 1)
    | false => simpa [added, hend] using parse_semicolon hown _
  refine ⟨hadded, hparse, fun s budget ds hending hclean d hd => ?_⟩
  refine Session.later_stage (s := s) (by rw [hadded]) ?_ hending hd
  rw [hadded]
  rcases hclean with hown | hclean
  · rw [hparse hown]
  · exact hclean

/-- The slashes stand in a string here, so the semicolon that the line needs is added to it. -/
theorem semicolon_optional_slashes :
    let line := utf8 "print \"a // b\""
    let source := line ++ utf8 ";"
    ofLine line = .source source ∧ (scan line).diagnostics = [] ∧
      (parse (scan line).tokens (scan line).size).diagnostics ≠ [] ∧
      scan source = ⟨(scan line).tokens ++ [Token.addedTo line], [], line.length + 1⟩ ∧
      (parse (scan source).tokens (scan source).size).diagnostics = [] := by
  intro line source
  have hentry : ofLine line = .source source := by decide +kernel
  have hscan : (scan line).diagnostics = [] := by decide +kernel
  have hend : endsInComment (pieces line) = false := by decide +kernel
  have hscanned := (semicolon_optional hentry hscan).1
  rw [hend] at hscanned
  exact ⟨hentry, hscan, by decide +kernel, hscanned, by decide +kernel⟩

/-- At the end of a comment the semicolon is no token, and a line that needs it is reported. -/
theorem semicolon_in_comment :
    let line := utf8 "print 1 // one"
    let source := line ++ utf8 ";"
    ofLine line = .source source ∧ (scan line).diagnostics = [] ∧
      (parse ((scan line).tokens ++ [Token.addedTo line]) (line.length + 1)).diagnostics = [] ∧
      (scan source).tokens.length = (scan line).tokens.length ∧
      ((parse (scan source).tokens (scan source).size).diagnostics.map Diagnostic.stage) =
        [.parse] := by
  decide +kernel

end Entry

end Lox
