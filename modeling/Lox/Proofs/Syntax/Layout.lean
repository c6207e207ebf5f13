import Lox.Proofs.Syntax.Sites
import Lox.Syntax.Outline

/-!
# Tokens laid out in two ways

Two sources that differ in white space and comments only have tokens that are **alike** one by one:
of the same kinds and with the same lexemes. Their sites correspond, token for token and bracket for
bracket, and a site of the one has just one that corresponds to it in the other. So there is a move
that takes the tokens of the one to those of the other, and what parsing and resolution make of the
two is the same but for places that correspond.
-/

namespace Lox

/-- Two tokens that may stand at different places. -/
def Token.Alike (t t' : Token) : Prop := t.kind = t'.kind ∧ t.lexeme = t'.lexeme

/-- Tokens that have bytes, come one after another and end within a size. -/
structure Ordered (ts : List Token) (size : Nat) : Prop where
  apart : ts.Pairwise fun t u => t.span.stop ≤ u.span.offset
  within : ∀ t ∈ ts, 0 < t.span.length ∧ t.span.stop ≤ size

/-- The tokens of a source are apart and in order. -/
theorem ordered_scan (source : Text) : Ordered (scan source).tokens (scan source).size where
  apart := by
    rw [scan_eq, List.pairwise_filterMap]
    refine (place_pairwise 0 (pieces source)).imp fun {p q} hpq t ht u hu => ?_
    rw [(Placed.token?_span ht).1, (Placed.token?_span hu).1]
    exact hpq
  within t ht := by
    rw [size_scan]
    exact token_in_source ht

/-- Two lists of tokens that are alike one by one, each in order. -/
structure LaidOut (ts : List Token) (size : Nat) (ts' : List Token) (size' : Nat) : Prop where
  alike : List.Forall₂ Token.Alike ts ts'
  ordered : Ordered ts size
  ordered' : Ordered ts' size'

/-- Sites that correspond: of tokens with the same index, of brackets with the same indices, or the
ends. -/
inductive SameSite (ts : List Token) (size : Nat) (ts' : List Token) (size' : Nat) :
    Span → Span → Prop
  | token {t t' : Token} : (t, t') ∈ ts.zip ts' → SameSite ts size ts' size' t.span t'.span
  | brackets {opening opening' closing closing' : Token} :
      (opening, opening') ∈ ts.zip ts' → (closing, closing') ∈ ts.zip ts' →
      opening.kind = .leftBracket → closing.kind = .rightBracket →
      SameSite ts size ts' size' (opening.span.through closing.span)
      (opening'.span.through closing'.span)
  | ending : SameSite ts size ts' size' (.emptyAt size) (.emptyAt size')

/-- Two places at which sites that correspond are blamed. -/
def SamePlace (ts : List Token) (size : Nat) (ts' : List Token) (size' : Nat) (s s' : Span) :
    Prop :=
  ∃ site site', SameSite ts size ts' size' site site' ∧ s = site.blamed ∧ s' = site'.blamed

/-- A site starts where a token starts, and the site that corresponds to it where the counterpart
does; or both are the ends. -/
theorem SameSite.starts {ts ts' : List Token} {size size' : Nat} {s s' : Span}
    (hs : SameSite ts size ts' size' s s') :
    (∃ t t', (t, t') ∈ ts.zip ts' ∧ s.offset = t.span.offset ∧ s'.offset = t'.span.offset) ∨
      s = .emptyAt size ∧ s' = .emptyAt size' := by
  cases hs with
  | @token t t' ht => exact .inl ⟨t, t', ht, rfl, rfl⟩
  | @brackets opening opening' _ _ hopening => exact .inl ⟨opening, opening', hopening, rfl, rfl⟩
  | ending => exact .inr ⟨rfl, rfl⟩

namespace LaidOut

variable {ts ts' : List Token} {size size' : Nat} (h : LaidOut ts size ts' size')

include h

/-! ## Sites that correspond -/

/-- A token and its counterpart have bytes and end within their sources. -/
theorem bounds {t t' : Token} (ht : (t, t') ∈ ts.zip ts') :
    (t.span.offset < t.span.stop ∧ t.span.stop ≤ size) ∧ t'.span.offset < t'.span.stop ∧
      t'.span.stop ≤ size' := by
  obtain ⟨hpos, hstop⟩ := h.ordered.within t (List.of_mem_zip ht).1
  obtain ⟨hpos', hstop'⟩ := h.ordered'.within t' (List.of_mem_zip ht).2
  simp only [Span.stop] at hstop hstop' ⊢
  omega

/-- Tokens come in the same order as their counterparts. -/
theorem trichotomy {p q : Token × Token} (hp : p ∈ ts.zip ts') (hq : q ∈ ts.zip ts') :
    p = q ∨ p.1.span.stop ≤ q.1.span.offset ∧ p.2.span.stop ≤ q.2.span.offset ∨
      q.1.span.stop ≤ p.1.span.offset ∧ q.2.span.stop ≤ p.2.span.offset := by
  have hfirst : (ts.zip ts').Pairwise fun p q => p.1.span.stop ≤ q.1.span.offset := by
    have hapart := h.ordered.apart
    rwa [← List.map_fst_zip h.alike.length_eq.le, List.pairwise_map] at hapart
  have hsecond : (ts.zip ts').Pairwise fun p q => p.2.span.stop ≤ q.2.span.offset := by
    have hapart := h.ordered'.apart
    rwa [← List.map_snd_zip h.alike.length_eq.ge, List.pairwise_map] at hapart
  obtain ⟨i, hi, rfl⟩ := List.getElem_of_mem hp
  obtain ⟨j, hj, rfl⟩ := List.getElem_of_mem hq
  rcases Nat.lt_trichotomy i j with hij | rfl | hji
  · exact .inr (.inl (List.pairwise_iff_getElem.mp (hfirst.and hsecond) i j hi hj hij))
  · exact .inl rfl
  · exact .inr (.inr (List.pairwise_iff_getElem.mp (hfirst.and hsecond) j i hj hi hji))

/-- Tokens that start at one offset, or end at one, are one token. -/
theorem eq_of_meet {t t' u u' : Token} (ht : (t, t') ∈ ts.zip ts') (hu : (u, u') ∈ ts.zip ts')
    (hmeet : t.span.offset = u.span.offset ∨ t.span.stop = u.span.stop) : t = u ∧ t' = u' := by
  have hbounds := h.bounds ht
  have hbounds' := h.bounds hu
  rcases h.trichotomy ht hu with hsame | ⟨hbefore, -⟩ | ⟨hafter, -⟩
  · exact Prod.mk.inj hsame
  · dsimp only at hbefore
    omega
  · dsimp only at hafter
    omega

/-- Sites start together just where the sites that correspond to them do. -/
theorem offset_iff {s s' u u' : Span} (hs : SameSite ts size ts' size' s s')
    (hu : SameSite ts size ts' size' u u') : s'.offset = u'.offset ↔ s.offset = u.offset := by
  rcases hs.starts with ⟨t, t', ht, hstart, hstart'⟩ | ⟨rfl, rfl⟩
  · have hbounds := h.bounds ht
    rcases hu.starts with ⟨v, v', hv, hstop, hstop'⟩ | ⟨rfl, rfl⟩
    · have hbounds' := h.bounds hv
      rw [hstart, hstart', hstop, hstop']
      rcases h.trichotomy ht hv with hsame | hbefore | hafter
      · obtain ⟨rfl, rfl⟩ := Prod.mk.inj hsame
        simp
      · dsimp only at hbefore
        omega
      · dsimp only at hafter
        omega
    · simp only [Span.emptyAt]
      omega
  · rcases hu.starts with ⟨v, v', hv, hstop, hstop'⟩ | ⟨rfl, rfl⟩
    · have hbounds' := h.bounds hv
      simp only [Span.emptyAt]
      omega
    · simp

/-- The span of a token is not that of a pair of brackets. -/
theorem token_ne_brackets {t t' opening opening' closing closing' : Token}
    (ht : (t, t') ∈ ts.zip ts') (hopening : (opening, opening') ∈ ts.zip ts')
    (hclosing : (closing, closing') ∈ ts.zip ts') (hkind : opening.kind = .leftBracket)
    (hkind' : closing.kind = .rightBracket) : t.span ≠ opening.span.through closing.span := by
  intro hspan
  have hoffset : t.span.offset = opening.span.offset := by rw [hspan, Span.through]
  have hlength : t.span.length = closing.span.stop - opening.span.offset := by
    rw [hspan, Span.through]
  obtain ⟨rfl, rfl⟩ := h.eq_of_meet ht hopening (.inl hoffset)
  have hbounds := h.bounds hclosing
  rcases h.trichotomy ht hclosing with hsame | ⟨hbefore, -⟩ | ⟨hafter, -⟩
  · rw [← (Prod.mk.inj hsame).1, hkind] at hkind'
    cases hkind'
  · simp only [Span.stop] at hbefore hlength hbounds
    omega
  · have hpos := h.bounds ht
    simp only [Span.stop] at hafter hlength hpos
    omega

/-- A token ends before another starts just where their counterparts do so. -/
theorem stop_le_iff {t t' u u' : Token} (ht : (t, t') ∈ ts.zip ts') (hu : (u, u') ∈ ts.zip ts') :
    t'.span.stop ≤ u'.span.offset ↔ t.span.stop ≤ u.span.offset := by
  have hbounds := h.bounds ht
  have hbounds' := h.bounds hu
  rcases h.trichotomy ht hu with hsame | ⟨hbefore, hbefore'⟩ | ⟨hafter, hafter'⟩
  · obtain ⟨rfl, rfl⟩ := Prod.mk.inj hsame
    omega
  · exact ⟨fun _ => hbefore, fun _ => hbefore'⟩
  · dsimp only at hafter hafter'
    omega

/-- Brackets with one span have counterparts with one span. That holds of those, too, that close
before they open: they are empty, as their counterparts are. -/
theorem brackets_unique {opening opening' closing closing' other other' : Token}
    (hopening : (opening, opening') ∈ ts.zip ts') (hclosing : (closing, closing') ∈ ts.zip ts')
    (hother : (other, other') ∈ ts.zip ts')
    (hspan : opening.span.through closing.span = opening.span.through other.span) :
    opening'.span.through closing'.span = opening'.span.through other'.span := by
  have hlength : closing.span.stop - opening.span.offset = other.span.stop - opening.span.offset :=
    congrArg Span.length hspan
  by_cases hclosed : closing.span.stop ≤ opening.span.offset
  · have hclosed' := (h.stop_le_iff hclosing hopening).mpr hclosed
    have hother' := (h.stop_le_iff hother hopening).mpr (by omega)
    simp only [Span.through, Nat.sub_eq_zero_of_le hclosed', Nat.sub_eq_zero_of_le hother']
  · have hsame := h.eq_of_meet hclosing hother (by omega)
    rw [hsame.2]

/-- A site has one site that corresponds to it. -/
theorem unique {s s₁ s₂ : Span} (h₁ : SameSite ts size ts' size' s s₁)
    (h₂ : SameSite ts size ts' size' s s₂) : s₁ = s₂ := by
  generalize hs : s = u at h₂
  cases h₁ with
  | token ht =>
    cases h₂ with
    | token hu => rw [(h.eq_of_meet ht hu (.inl (congrArg Span.offset hs))).2]
    | brackets hopening hclosing hkind hkind' =>
      exact absurd hs (h.token_ne_brackets ht hopening hclosing hkind hkind')
    | ending =>
      have hbounds := h.bounds ht
      rw [hs] at hbounds
      exact absurd hbounds.1.1 (Nat.lt_irrefl size)
  | brackets hopening hclosing hkind hkind' =>
    cases h₂ with
    | token hu => exact absurd hs.symm (h.token_ne_brackets hu hopening hclosing hkind hkind')
    | brackets hopening₂ hclosing₂ =>
      obtain ⟨rfl, rfl⟩ := h.eq_of_meet hopening hopening₂ (.inl (congrArg Span.offset hs :))
      exact h.brackets_unique hopening hclosing hclosing₂ hs
    | ending =>
      have hbounds := h.bounds hopening
      have hoffset := congrArg Span.offset hs
      simp only [Span.through, Span.emptyAt] at hoffset
      omega
  | ending =>
    cases h₂ with
    | token hu =>
      have hbounds := h.bounds hu
      rw [← hs] at hbounds
      exact absurd hbounds.1.1 (Nat.lt_irrefl size)
    | brackets hopening =>
      have hbounds := h.bounds hopening
      have hoffset := congrArg Span.offset hs
      simp only [Span.through, Span.emptyAt] at hoffset
      omega
    | ending => rfl

/-! ## The move -/

theorem exists_pair {t : Token} (ht : t ∈ ts) : ∃ t', (t, t') ∈ ts.zip ts' := by
  rw [← List.map_fst_zip h.alike.length_eq.le] at ht
  obtain ⟨⟨_, t'⟩, hmem, rfl⟩ := List.mem_map.mp ht
  exact ⟨t', hmem⟩

/-- Every site has its counterpart. -/
theorem exists_sameSite {s : Span} (hs : IsSite ts size s) :
    ∃ s', SameSite ts size ts' size' s s' := by
  cases hs with
  | token ht =>
    obtain ⟨t', hmem⟩ := h.exists_pair ht
    exact ⟨_, .token hmem⟩
  | brackets hopening hclosing hkind hkind' =>
    obtain ⟨opening', hmem⟩ := h.exists_pair hopening
    obtain ⟨closing', hmem'⟩ := h.exists_pair hclosing
    exact ⟨_, .brackets hmem hmem' hkind hkind'⟩
  | ending => exact ⟨_, .ending⟩

omit h in
theorem isSite_of_sameSite {s s' : Span} (hs : SameSite ts size ts' size' s s') :
    IsSite ts size s := by
  cases hs with
  | token ht => exact .token (List.of_mem_zip ht).1
  | brackets hopening hclosing hkind hkind' =>
    exact .brackets (List.of_mem_zip hopening).1 (List.of_mem_zip hclosing).1 hkind hkind'
  | ending => exact .ending

/-- The site of the one list of tokens that a span is next to. -/
noncomputable def snap (_ : LaidOut ts size ts' size') : Span → Span :=
  Span.onto (IsSite ts size) (.emptyAt size)

theorem snap_mem (s : Span) : IsSite ts size (h.snap s) := Span.onto_mem .ending s

theorem snap_of_mem {s : Span} (hs : IsSite ts size s) : h.snap s = s := Span.onto_of_mem hs

/-- Spans go to the site that corresponds to the one they are next to. -/
noncomputable def place (s : Span) : Span := (h.exists_sameSite (h.snap_mem s)).choose

/-- Places are mapped to the counterparts of sites. -/
theorem sameSite_place (s : Span) : SameSite ts size ts' size' (h.snap s) (h.place s) :=
  (h.exists_sameSite (h.snap_mem s)).choose_spec

/-- A site is mapped to its counterpart. -/
theorem place_eq {s s' : Span} (hs : SameSite ts size ts' size' s s') : h.place s = s' := by
  have hplace := h.sameSite_place s
  rw [h.snap_of_mem (isSite_of_sameSite hs)] at hplace
  exact h.unique hplace hs

/-- The move from the one list of tokens to the other. -/
noncomputable def move : Move ts where
  place := h.place
  through opening hopening closing hclosing hkind hkind' := by
    obtain ⟨opening', hmem⟩ := h.exists_pair hopening
    obtain ⟨closing', hmem'⟩ := h.exists_pair hclosing
    rw [h.place_eq (.token hmem), h.place_eq (.token hmem'),
      h.place_eq (.brackets hmem hmem' hkind hkind')]

/-- So the tokens are mapped to the others. -/
theorem map_tokens : ts.map (Token.mapSpan h.place) = ts' := by
  have hmoved : List.Forall₂ (fun t t' => Token.mapSpan h.place t = t') ts ts' := by
    refine List.forall₂_iff_zip.mpr ⟨h.alike.length_eq, fun {t t'} ht => ?_⟩
    obtain ⟨hkind, hlexeme⟩ := List.forall₂_zip h.alike ht
    rw [Token.mapSpan, h.place_eq (.token ht), hkind, hlexeme]
  rwa [← List.forall₂_map_left_iff, List.forall₂_eq_eq_eq] at hmoved

/-! ## What parsing and resolution make of both -/

/-- A diagnostic that blames a site agrees with the one that it is moved to. -/
theorem agrees_of_moved {stage : Stage} {d d' : Diagnostic}
    (hsite : ∃ site, IsSite ts size site ∧ d.span = site.blamed)
    (hmoved : Diagnostic.Moved stage h.place d d') :
    Diagnostic.Agrees (SamePlace ts size ts' size') d d' := by
  obtain ⟨known, hknown, hblamed⟩ := hsite
  obtain ⟨site, hspan, hspan'⟩ := hmoved.span
  -- The site that the stage has looked at need not be the known one, but is blamed alike.
  have hsnap : (h.snap site).blamed = site.blamed :=
    Span.blamed_onto ⟨known, hknown, by rw [← hblamed, hspan]⟩
  exact ⟨hmoved.problem, h.snap site, h.place site, h.sameSite_place site,
    by rw [hsnap, hspan], hspan'⟩

theorem forall_agrees {stage : Stage} {ds ds' : List Diagnostic}
    (hsites : ∀ d ∈ ds, ∃ site, IsSite ts size site ∧ d.span = site.blamed)
    (hmoved : List.Forall₂ (Diagnostic.Moved stage h.place) ds ds') :
    List.Forall₂ (Diagnostic.Agrees (SamePlace ts size ts' size')) ds ds' :=
  ((List.forall₂_and_left ds ds').mpr ⟨hsites, hmoved⟩).imp fun _ _ hd =>
    h.agrees_of_moved hd.1 hd.2

/-- The trees are the same with other marks. -/
theorem stmts_parse :
    (parse ts' size').stmts = markStmts (.moving h.place) (parse ts size).stmts := by
  have hmoved := stmts_parse_map h.move size size'
  rwa [show h.move.place = h.place from rfl, h.map_tokens] at hmoved

/-- The reports of parsing agree. -/
theorem diagnostics_parse :
    List.Forall₂ (Diagnostic.Agrees (SamePlace ts size ts' size')) (parse ts size).diagnostics
      (parse ts' size').diagnostics := by
  have hmoved := diagnostics_parse_map h.move (h.place_eq .ending)
  rw [show h.move.place = h.place from rfl, h.map_tokens] at hmoved
  exact h.forall_agrees (fun d hd => exists_site_of_mem_parse hd) hmoved

/-- Resolution gives the same program with other marks, for every run and every root scope. -/
theorem value_resolveProgram (run : Nat) (root : StaticScope) :
    (resolveProgram run root (parse ts' size').stmts).value =
      markStmts (.into run h.place) (resolveProgram run root (parse ts size).stmts).value := by
  rw [h.stmts_parse]
  exact (matches_resolveStmts h.place run run .none (parse ts size).stmts [root] [root]
    (.cons (.refl root) .nil)).1

/-- So do those of resolution. -/
theorem diagnostics_resolveProgram (run : Nat) (root : StaticScope) :
    List.Forall₂ (Diagnostic.Agrees (SamePlace ts size ts' size'))
      (resolveProgram run root (parse ts size).stmts).diagnostics
      (resolveProgram run root (parse ts' size').stmts).diagnostics := by
  have hmoved :=
    (matches_resolveStmts h.place run run .none (parse ts size).stmts [root] [root]
      (.cons (.refl root) .nil)).2.2
  rw [h.stmts_parse]
  exact h.forall_agrees (fun d hd => exists_site_of_mem_resolve hd) hmoved

end LaidOut

/-! ## Outlines -/

section Outline

variable (m : Marks)

theorem paramsOutline_mark (params : List Ident) :
    paramsOutline (params.map (Ident.mark m)) = paramsOutline params := by
  simp only [paramsOutline, List.map_map]
  rfl

mutual

/-- Marks are not seen in the outline of an expression. -/
theorem Expr.outline_mark : (e : Expr) → (e.mark m).outline = e.outline
  | .literal _ | .var _ | .thisRef _ _ | .superRef _ _ _ => rfl
  | .grouping e | .unary _ _ e | .assign _ e | .get e _ => by
    simp only [Expr.mark, Expr.outline, e.outline_mark, NameUse.mark, Ident.mark]
  | .binary _ _ a b | .logical _ a b | .getKey a _ b | .index a b _ | .set a _ b => by
    simp only [Expr.mark, Expr.outline, a.outline_mark, b.outline_mark, Ident.mark]
  | .setKey a _ b c | .setIndex a b _ c => by
    simp only [Expr.mark, Expr.outline, a.outline_mark, b.outline_mark, c.outline_mark]
  | .call callee arguments _ => by
    simp only [Expr.mark, Expr.outline, callee.outline_mark, outlineExprs_mark arguments]
  | .lambda none f => by simp only [Expr.mark, Expr.outline, f.outline_mark, Option.map_none]
  | .lambda (some _) f => by
    simp only [Expr.mark, Expr.outline, f.outline_mark, Option.map_some, Ident.mark]
  | .object fields => by simp only [Expr.mark, Expr.outline, outlineFields_mark fields]
  | .list elements => by simp only [Expr.mark, Expr.outline, outlineExprs_mark elements]

theorem outlineExprs_mark : (es : List Expr) → outlineExprs (markExprs m es) = outlineExprs es
  | [] => rfl
  | e :: rest => by simp only [markExprs, outlineExprs, e.outline_mark, outlineExprs_mark rest]

theorem outlineFields_mark : (fs : List Field) → outlineFields (markFields m fs) = outlineFields fs
  | [] => rfl
  | .mk _ value :: rest => by
    simp only [markFields, outlineFields, value.outline_mark, outlineFields_mark rest]

theorem Function.outline_mark : (f : Function) → (f.mark m).outline = f.outline
  | .mk _ _ params body => by
    funext name
    simp only [Function.mark, Function.outline, paramsOutline_mark, outlineStmts_mark body]

theorem outlineMethods_mark :
    (ms : List Method) → outlineMethods (markMethods m ms) = outlineMethods ms
  | [] => rfl
  | .mk _ f :: rest => by
    simp only [markMethods, outlineMethods, f.outline_mark, outlineMethods_mark rest, Ident.mark]

/-- Nor in that of a statement. -/
theorem Stmt.outline_mark : (s : Stmt) → (s.mark m).outline = s.outline
  | .evaluate e | .print e => by simp only [Stmt.mark, Stmt.outline, e.outline_mark]
  | .declare _ _ none => rfl
  | .declare _ _ (some e) => by
    simp only [Stmt.mark, Stmt.outline, markExpr?, e.outline_mark, Ident.mark]
  | .block body => by simp only [Stmt.mark, Stmt.outline, outlineStmts_mark body]
  | .branch condition none none => by
    simp only [Stmt.mark, Stmt.outline, condition.outline_mark, markStmt?]
  | .branch condition (some s) none => by
    simp only [Stmt.mark, Stmt.outline, condition.outline_mark, markStmt?, s.outline_mark]
  | .branch condition none (some s) => by
    simp only [Stmt.mark, Stmt.outline, condition.outline_mark, markStmt?, s.outline_mark]
  | .branch condition (some s) (some s') => by
    simp only [Stmt.mark, Stmt.outline, condition.outline_mark, markStmt?, s.outline_mark,
      s'.outline_mark]
  | .loop none body none => by simp only [Stmt.mark, Stmt.outline, markExpr?, body.outline_mark]
  | .loop (some e) body none => by
    simp only [Stmt.mark, Stmt.outline, markExpr?, body.outline_mark, e.outline_mark]
  | .loop none body (some e) => by
    simp only [Stmt.mark, Stmt.outline, markExpr?, body.outline_mark, e.outline_mark]
  | .loop (some e) body (some e') => by
    simp only [Stmt.mark, Stmt.outline, markExpr?, body.outline_mark, e.outline_mark,
      e'.outline_mark]
  | .ret _ none => rfl
  | .ret _ (some e) => by simp only [Stmt.mark, Stmt.outline, markExpr?, e.outline_mark]
  | .brk _ | .cont _ => rfl
  | .classDecl _ none methods => by
    simp only [Stmt.mark, Stmt.outline, outlineMethods_mark methods, Option.map_none, Ident.mark]
  | .classDecl _ (some _) methods => by
    simp only [Stmt.mark, Stmt.outline, outlineMethods_mark methods, Option.map_some, Ident.mark,
      NameUse.mark]

theorem outlineStmts_mark : (ss : List Stmt) → outlineStmts (markStmts m ss) = outlineStmts ss
  | [] => rfl
  | s :: rest => by simp only [markStmts, outlineStmts, s.outline_mark, outlineStmts_mark rest]

end

/-- An outline shows no places. -/
theorem outline_markStmts (program : List Stmt) :
    outline (markStmts m program) = outline program := by
  rw [outline, outline, outlineStmts_mark]

end Outline

end Lox
