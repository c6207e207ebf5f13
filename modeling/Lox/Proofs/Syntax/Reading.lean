import Lox.Proofs.Syntax.Derivation

/-!
# What is read is a word of the grammar

A production that succeeds has read a word of its symbol from the front of the tokens, and gives the
tree of that word. The productions call each other with a smaller bound, so all of them are shown to
read words together, by induction on the bound: `Sound` collects one statement for each, and `sound`
proves them for every bound.

Two productions go on from what stands to the left, `climbRest` and `links`. What they read makes a
longer word of the same symbol. A `super` that is called is not yet a word when its links are read:
`LinkStart` says what links may follow.
-/

namespace Lox

/-! ## Reading in steps -/

namespace Parse

variable {α β : Type} {ts rest : List Token}

/-- Two readers are done when the first is done and then the second. -/
theorem bind_done_iff {p : Parse α} {f : α → Parse β} {b : β} :
    (p >>= f) ts = .done b rest ↔ ∃ a mid, p ts = .done a mid ∧ f a mid = .done b rest := by
  change andThen p f ts = _ ↔ _
  unfold andThen
  cases p ts with
  | done a mid => simp
  | failed failure => simp
  | exhausted => simp

/-- Looking at the next token reads nothing. -/
theorem peek_bind (f : Option Token → Parse β) : (peek >>= f) ts = f ts.head? ts := rfl

theorem skip_bind (f : Unit → Parse β) (t : Token) : (skip >>= f) (t :: ts) = f () ts := rfl

theorem sees_bind (kind : TokenKind) (f : Bool → Parse β) :
    (sees kind >>= f) ts = f (Grammar.startsWith kind ts) ts := rfl

/-- A value that is given reads nothing. -/
theorem pure_done_iff {a b : α} : (pure a : Parse α) ts = .done b rest ↔ b = a ∧ rest = ts := by
  change Reply.done a ts = _ ↔ _
  rw [Reply.done.injEq, eq_comm, @eq_comm _ ts]

theorem failAt_done_iff {problem : ParseProblem} {site : Span} {a : α} :
    failAt problem site ts = .done a rest ↔ False := ⟨nofun, nofun⟩

/-- A token that may be there was read. -/
theorem accept_some_iff {kind : TokenKind} {t : Token} :
    accept kind ts = .done (some t) rest ↔ ts = t :: rest ∧ t.kind = kind := by
  cases ts with
  | nil => simp [accept]
  | cons u ts =>
    unfold accept
    by_cases h : u.kind = kind
    · subst h
      simp only [beq_self_eq_true, if_true, Reply.done.injEq, Option.some.injEq, List.cons.injEq]
      constructor
      · rintro ⟨rfl, rfl⟩
        exact ⟨⟨rfl, rfl⟩, rfl⟩
      · rintro ⟨⟨rfl, rfl⟩, _⟩
        exact ⟨rfl, rfl⟩
    · simp only [beq_iff_eq, h, if_false, Reply.done.injEq, reduceCtorEq, false_and,
        List.cons.injEq, false_iff]
      rintro ⟨⟨rfl, _⟩, hk⟩
      exact h hk

/-- A token that may be there was not. -/
theorem accept_none_iff {kind : TokenKind} :
    accept kind ts = .done none rest ↔ rest = ts ∧ Grammar.startsWith kind ts = false := by
  cases ts with
  | nil => exact ⟨fun h => by cases h; exact ⟨rfl, rfl⟩, fun h => by rw [h.1]; rfl⟩
  | cons u ts =>
    by_cases h : u.kind = kind
    · simp [accept, h, Grammar.startsWith]
    · have hnot : Grammar.startsWith kind (u :: ts) = false := by simp [Grammar.startsWith, h]
      have hpass : accept kind (u :: ts) = .done none (u :: ts) := if_neg (by simpa using h)
      rw [hnot, hpass]
      constructor
      · rintro ⟨⟩
        exact ⟨rfl, rfl⟩
      · rintro ⟨rfl, _⟩
        rfl

/-- A token that has to be there was read. -/
theorem expect_done_iff {kind : TokenKind} {problem : ParseProblem} {t : Token} :
    expect kind problem ts = .done t rest ↔ ts = t :: rest ∧ t.kind = kind := by
  cases ts with
  | nil => simp [expect, failHere]
  | cons u ts =>
    unfold expect
    by_cases h : u.kind = kind
    · subst h
      simp only [beq_self_eq_true, if_true, Reply.done.injEq, List.cons.injEq]
      constructor
      · rintro ⟨rfl, rfl⟩
        exact ⟨⟨rfl, rfl⟩, rfl⟩
      · rintro ⟨⟨rfl, rfl⟩, _⟩
        exact ⟨rfl, rfl⟩
    · simp only [beq_iff_eq, h, if_false, failHere, reduceCtorEq, List.cons.injEq, false_iff]
      rintro ⟨⟨rfl, _⟩, hk⟩
      exact h hk

theorem mark_done_iff {kind : TokenKind} {t : Token} :
    mark kind ts = .done t rest ↔ ts = t :: rest ∧ t.kind = kind := expect_done_iff

/-- A name was read from an identifier. -/
theorem ident_done_iff {problem : ParseProblem} {i : Ident} :
    ident problem ts = .done i rest ↔
      ∃ t, ts = t :: rest ∧ t.kind = .identifier ∧ i = Grammar.identOf t := by
  unfold ident
  simp only [bind_done_iff, expect_done_iff, pure_done_iff]
  constructor
  · rintro ⟨t, mid, ⟨rfl, hk⟩, rfl, rfl⟩
    exact ⟨t, rfl, hk, rfl⟩
  · rintro ⟨t, rfl, hk, rfl⟩
    exact ⟨t, rest, ⟨rfl, hk⟩, rfl, rfl⟩

end Parse

namespace Grammar

open Parse

/-- A word of a symbol at the front of tokens, with its tree and what is left. -/
def Word (n : Symbol) (ts : List Token) (t : n.Tree) (rest : List Token) : Prop :=
  ∃ w, ts = w ++ rest ∧ Derives false n w t

/-- What links may follow: a chain, or the word `super` where its call comes next. -/
def LinkStart (greedy : Bool) (w : List Token) (e : Expr) (ts : List Token) : Prop :=
  Derives greedy .chain w e ∨
    ∃ t : Token, w = [t] ∧ t.kind = .superWord ∧
      e = .superRef t.span ⟨constructorName, t.span⟩ none ∧
      startsWith .leftParen ts

/-- Every production that succeeds within a bound reads a word of its symbol. -/
structure Sound (n : Nat) : Prop where
  statement {ts s rest} : Grammar.statement n ts = .done s rest → Word .statement ts s rest
  expressionStatement {ts s rest} : Grammar.expressionStatement n ts = .done s rest →
    startsWith .leftBrace ts = false → Word .statement ts s rest
  binding {mutable ts s rest} : Grammar.binding n mutable ts = .done s rest →
    Word (.binding mutable) ts s rest
  conditional {ts s rest} : Grammar.conditional n ts = .done s rest → Word .conditional ts s rest
  alternative {ts s rest} : Grammar.alternative n ts = .done s rest → Word .alternative ts s rest
  loop {word ts s rest} : Grammar.loop n ts = .done s rest → word.kind = .forWord →
    Word .statement (word :: ts) s rest
  loopStart {ts s rest} : Grammar.loopStart n ts = .done s rest → Word .loopStart ts s rest
  loopCondition {ts e rest} : Grammar.loopCondition n ts = .done e rest →
    Word .loopCondition ts e rest
  loopCloser {ending ts e rest} : Grammar.loopCloser n ending ts = .done e rest →
    ∃ w, ts = w ++ rest ∧ Derives false .loopCloser w e ∧ startsWith ending w = false
  returnStatement {word ts s rest} : Grammar.returnStatement n word.span ts = .done s rest →
    word.kind = .returnWord → Word .statement (word :: ts) s rest
  classDeclaration {word ts s rest} : Grammar.classDeclaration n ts = .done s rest →
    word.kind = .classWord → Word .statement (word :: ts) s rest
  methodList {ts ms rest} : Grammar.methodList n ts = .done ms rest → Word .methods ts ms rest
  block {opening ts ss rest} : Grammar.block n ts = .done ss rest → opening.kind = .leftBrace →
    Word .block (opening :: ts) ss rest
  statements {ts ss rest} : Grammar.statements n ts = .done ss rest → Word .statements ts ss rest
  expression {ts e rest} : Grammar.expression n ts = .done e rest → Word .expression ts e rest
  climb {l ts e rest} : Grammar.climb n l ts = .done e rest → Word (.level l) ts e rest
  climbRest {l left ts e rest} : Grammar.climbRest n l left ts = .done e rest →
    ∃ w, ts = w ++ rest ∧ ∀ w₀, Derives false (.level l) w₀ left →
    Derives false (.level l) (w₀ ++ w) e
  operand {l ts e rest} : Grammar.operand n l ts = .done e rest → Word (.operand l) ts e rest
  unary {ts e rest} : Grammar.unary n ts = .done e rest → Word .unary ts e rest
  functionLiteral {word ts e rest} : Grammar.functionLiteral n word.span ts = .done e rest →
    word.kind = .funWord → Word .unary (word :: ts) e rest
  functionRest {keyword ts f rest} : Grammar.functionRest n keyword ts = .done f rest →
    Word (.function keyword) ts f rest
  chain {ts e rest} : Grammar.chain n ts = .done e rest → Word .chain ts e rest
  links {left ts e rest} : Grammar.links n left ts = .done e rest →
    ∃ w, ts = w ++ rest ∧ ∀ w₀, LinkStart false w₀ left ts → Derives false .chain (w₀ ++ w) e
  property {object dot ts e rest} : Grammar.property n object ts = .done e rest → dot.kind = .dot →
    ∃ w, ts = w ++ rest ∧ ∀ w₀, Derives false .chain w₀ object →
    Derives false .chain (w₀ ++ dot :: w) e
  argumentList {count ts es rest} : Grammar.argumentList n count ts = .done es rest →
    count ≤ maxParameters → ∃ w, ts = w ++ rest ∧ Derives false .expressions w es ∧
    count + es.length ≤ maxParameters
  primary {ts e rest} : Grammar.primary n ts = .done e rest →
    Word .primary ts e rest ∨ ∃ t, ts = t :: rest ∧ LinkStart false [t] e rest
  superUse {word ts e rest} : Grammar.superUse n word.span ts = .done e rest → word.kind =
    .superWord → Word .primary (word :: ts) e rest ∨ ts = rest ∧ LinkStart false [word] e rest
  elementList {ts es rest} : Grammar.elementList n ts = .done es rest → Word .expressions ts es rest
  fieldList {ts fs rest} : Grammar.fieldList n ts = .done fs rest → Word .fields ts fs rest
  field {ts f rest} : Grammar.field n ts = .done f rest → Word .field ts f rest

/-! ## Statements -/

variable {n : Nat} {ts rest : List Token}

@[simp] theorem startsWith_nil (kind : TokenKind) : startsWith kind [] = false := rfl

@[simp] theorem startsWith_cons (kind : TokenKind) (t : Token) (ts : List Token) :
    startsWith kind (t :: ts) = (t.kind == kind) := by
  simp [startsWith]

/-- A word starts as the tokens do that it is taken from. -/
theorem startsWith_of_append {kind : TokenKind} {w : List Token}
    (h : startsWith kind (w ++ rest) = false) : startsWith kind w = false := by
  cases w with
  | nil => rfl
  | cons t w => simpa using h

/-- The kind of the next token is that of a token. -/
theorem head_of_kind {kind : TokenKind} (h : ts.head?.map Token.kind = some kind) :
    ∃ t ts', ts = t :: ts' ∧ t.kind = kind := by
  cases ts with
  | nil => cases h
  | cons t ts => exact ⟨t, ts, rfl, Option.some.inj h⟩

namespace Sound

/-- The word or the sign at the front decides which statement was read. -/
theorem statement_succ (ih : Sound n) {s : Option Stmt}
    (h : Grammar.statement (n + 1) ts = .done s rest) : Word .statement ts s rest := by
  rw [Grammar.statement, peek_bind] at h
  cases ts with
  | nil => exact ih.expressionStatement h rfl
  | cons t ts =>
    simp only [List.head?_cons] at h
    generalize hk : t.kind = k at h
    split at h <;> try simp only [skip_bind, bind_done_iff, mark_done_iff, pure_done_iff] at h
    next =>
      obtain ⟨b, _, hb, rfl, rfl⟩ := h
      obtain ⟨w, rfl, hw⟩ := ih.binding hb
      exact ⟨t :: w, rfl, .letStatement hk hw⟩
    next =>
      obtain ⟨b, _, hb, rfl, rfl⟩ := h
      obtain ⟨w, rfl, hw⟩ := ih.binding hb
      exact ⟨t :: w, rfl, .constStatement hk hw⟩
    next =>
      obtain ⟨w, rfl, hw⟩ := ih.conditional h
      exact ⟨t :: w, rfl, .ifStatement hk hw⟩
    next => exact ih.loop h hk
    next =>
      obtain ⟨e, _, he, semicolon, _, ⟨rfl, hsemi⟩, rfl, rfl⟩ := h
      obtain ⟨w, rfl, hw⟩ := ih.expression he
      exact ⟨t :: (w ++ [semicolon]), by simp, .printStatement hk hw hsemi⟩
    next => exact ih.classDeclaration h hk
    next =>
      obtain ⟨body, _, hb, rfl, rfl⟩ := h
      obtain ⟨w, hsplit, hw⟩ := ih.block hb hk
      exact ⟨w, hsplit, .blockStatement hw⟩
    next =>
      obtain ⟨semicolon, _, ⟨rfl, hsemi⟩, rfl, rfl⟩ := h
      exact ⟨[t, semicolon], rfl, .breakStatement hk hsemi⟩
    next =>
      obtain ⟨semicolon, _, ⟨rfl, hsemi⟩, rfl, rfl⟩ := h
      exact ⟨[t, semicolon], rfl, .continueStatement hk hsemi⟩
    next => exact ih.returnStatement h hk
    next =>
      obtain ⟨rfl, rfl⟩ := h
      exact ⟨[t], rfl, .emptyStatement hk⟩
    next hbrace _ _ _ _ =>
      refine ih.expressionStatement h ?_
      rw [startsWith_cons, hk]
      exact beq_false_of_ne hbrace

/-- A function literal needs no semicolon, any other expression does. -/
theorem expressionStatement_succ (ih : Sound n) {s : Option Stmt}
    (h : Grammar.expressionStatement (n + 1) ts = .done s rest)
    (hbrace : startsWith .leftBrace ts = false) : Word .statement ts s rest := by
  rw [Grammar.expressionStatement, bind_done_iff] at h
  obtain ⟨e, mid, he, h⟩ := h
  obtain ⟨w, rfl, hw⟩ := ih.expression he
  split at h
  next =>
    obtain ⟨rfl, rfl⟩ := pure_done_iff.mp h
    exact ⟨w, rfl, .functionStatement hw rfl⟩
  next =>
    simp only [bind_done_iff, mark_done_iff, pure_done_iff] at h
    obtain ⟨semicolon, _, ⟨rfl, hsemi⟩, rfl, rfl⟩ := h
    exact ⟨w ++ [semicolon], by simp,
      .expressionStatement hw (startsWith_of_append hbrace) hsemi nofun⟩

/-- A name was read, and a value if there was an equals sign. -/
theorem binding_succ (ih : Sound n) {mutable : Bool} {s : Stmt}
    (h : Grammar.binding (n + 1) mutable ts = .done s rest) :
    Word (.binding mutable) ts s rest := by
  simp only [Grammar.binding, bind_done_iff, ident_done_iff] at h
  obtain ⟨_, _, ⟨t, rfl, hk, rfl⟩, equal, mid, hequal, h⟩ := h
  cases equal with
  | some equal =>
    obtain ⟨rfl, heq⟩ := accept_some_iff.mp hequal
    simp only [bind_done_iff, mark_done_iff, pure_done_iff] at h
    obtain ⟨e, _, he, semicolon, _, ⟨rfl, hsemi⟩, rfl, rfl⟩ := h
    obtain ⟨w, rfl, hw⟩ := ih.expression he
    exact ⟨t :: equal :: (w ++ [semicolon]), by simp, .binding hk heq hw hsemi⟩
  | none =>
    obtain ⟨rfl, _⟩ := accept_none_iff.mp hequal
    simp only [bind_done_iff, mark_done_iff, pure_done_iff] at h
    obtain ⟨semicolon, _, ⟨rfl, hsemi⟩, rfl, rfl⟩ := h
    exact ⟨[t, semicolon], rfl, .bareBinding hk hsemi⟩

/-- A condition, a block and what follows else were read. -/
theorem conditional_succ (ih : Sound n) {s : Option Stmt}
    (h : Grammar.conditional (n + 1) ts = .done s rest) : Word .conditional ts s rest := by
  simp only [Grammar.conditional, bind_done_iff, expect_done_iff] at h
  obtain ⟨condition, _, hcond, opening, _, ⟨rfl, hbrace⟩, body, _, hbody, elseBranch, mid,
      helse, h⟩ := h
  obtain ⟨w₁, rfl, hw₁⟩ := ih.expression hcond
  obtain ⟨w₂, hsplit, hw₂⟩ := ih.block hbody hbrace
  obtain ⟨w₃, rfl, hw₃⟩ := ih.alternative helse
  have hs : s = branchOf condition (blockOf body) elseBranch ∧ rest = mid := by
    generalize blockOf body = thenBranch at h ⊢
    cases thenBranch <;> cases elseBranch <;> exact pure_done_iff.mp h
  obtain ⟨rfl, rfl⟩ := hs
  exact ⟨w₁ ++ (w₂ ++ w₃), by simp [hsplit], .conditional hw₁ hw₂ hw₃⟩

/-- Another conditional or a block was read after else. -/
theorem alternative_succ (ih : Sound n) {s : Option Stmt}
    (h : Grammar.alternative (n + 1) ts = .done s rest) : Word .alternative ts s rest := by
  rw [Grammar.alternative, bind_done_iff] at h
  obtain ⟨elseWord, mid, helse, h⟩ := h
  cases elseWord with
  | none =>
    obtain ⟨rfl, _⟩ := accept_none_iff.mp helse
    obtain ⟨rfl, rfl⟩ := pure_done_iff.mp h
    exact ⟨[], rfl, .noAlternative⟩
  | some elseWord =>
    obtain ⟨rfl, hk⟩ := accept_some_iff.mp helse
    simp only [bind_done_iff] at h
    obtain ⟨ifWord, mid', hif, h⟩ := h
    cases ifWord with
    | some ifWord =>
      obtain ⟨rfl, hk'⟩ := accept_some_iff.mp hif
      obtain ⟨w, rfl, hw⟩ := ih.conditional h
      exact ⟨elseWord :: ifWord :: w, rfl, .elseIf hk hk' hw⟩
    | none =>
      obtain ⟨rfl, _⟩ := accept_none_iff.mp hif
      simp only [bind_done_iff, expect_done_iff, pure_done_iff] at h
      obtain ⟨opening, _, ⟨rfl, hbrace⟩, body, _, hbody, rfl, rfl⟩ := h
      obtain ⟨w, hsplit, hw⟩ := ih.block hbody hbrace
      exact ⟨elseWord :: w, by rw [hsplit]; rfl, .elseBlock hk hw⟩

/-- A loop was read, with a parenthesis on both sides or on none. -/
theorem loop_succ (ih : Sound n) {word : Token} {s : Option Stmt}
    (h : Grammar.loop (n + 1) ts = .done s rest) (hword : word.kind = .forWord) :
    Word .statement (word :: ts) s rest := by
  simp only [Grammar.loop, bind_done_iff, expect_done_iff] at h
  obtain ⟨parens, _, hparens, init, _, hinit, condition, _, hcond, closer, _, hcloser, _, _, hclose,
      brace, _, ⟨rfl, hbrace⟩, body, mid, hbody, h⟩ := h
  obtain ⟨w₁, hw₁, hd₁⟩ := ih.loopStart hinit
  obtain ⟨w₂, hw₂, hd₂⟩ := ih.loopCondition hcond
  obtain ⟨w₃, hw₃, hd₃, hstart⟩ := ih.loopCloser hcloser
  obtain ⟨w₄, hw₄, hd₄⟩ := ih.block hbody hbrace
  have hs : s = loopOf init condition closer (blockOf body) ∧ rest = mid := by
    generalize blockOf body = block at h ⊢
    cases block <;> cases init <;> exact pure_done_iff.mp h
  obtain ⟨rfl, rfl⟩ := hs
  cases parens with
  | none =>
    obtain ⟨rfl, _⟩ := accept_none_iff.mp hparens
    obtain ⟨_, rfl⟩ := pure_done_iff.mp hclose
    exact ⟨word :: (w₁ ++ (w₂ ++ (w₃ ++ w₄))), by simp [hw₁, hw₂, hw₃, hw₄],
      .forStatement hword hd₁ hd₂ hd₃ hstart hd₄⟩
  | some opening =>
    obtain ⟨rfl, hopen⟩ := accept_some_iff.mp hparens
    simp only [closeIf, bind_done_iff, mark_done_iff, pure_done_iff] at hclose
    obtain ⟨closing, _, ⟨rfl, hclosing⟩, _, rfl⟩ := hclose
    exact ⟨word :: opening :: (w₁ ++ (w₂ ++ (w₃ ++ closing :: w₄))), by simp [hw₁, hw₂, hw₃, hw₄],
      .parenForStatement hword hopen hd₁ hd₂ hd₃ hclosing hd₄⟩

/-- A declaration or a semicolon was read. -/
theorem loopStart_succ (ih : Sound n) {s : Option Stmt}
    (h : Grammar.loopStart (n + 1) ts = .done s rest) : Word .loopStart ts s rest := by
  rw [Grammar.loopStart, peek_bind] at h
  generalize hk : ts.head?.map Token.kind = k at h
  split at h
  next =>
    obtain ⟨t, ts, rfl, hword⟩ := head_of_kind hk
    obtain ⟨rfl, rfl⟩ := pure_done_iff.mp h
    exact ⟨[t], rfl, .noLoopStart hword⟩
  next =>
    obtain ⟨t, ts, rfl, hword⟩ := head_of_kind hk
    simp only [skip_bind, bind_done_iff, pure_done_iff] at h
    obtain ⟨b, _, hb, rfl, rfl⟩ := h
    obtain ⟨w, rfl, hw⟩ := ih.binding hb
    exact ⟨t :: w, rfl, .letLoopStart hword hw⟩
  next =>
    obtain ⟨t, ts, rfl, hword⟩ := head_of_kind hk
    simp only [skip_bind, bind_done_iff, pure_done_iff] at h
    obtain ⟨b, _, hb, rfl, rfl⟩ := h
    obtain ⟨w, rfl, hw⟩ := ih.binding hb
    exact ⟨t :: w, rfl, .constLoopStart hword hw⟩
  next => cases h

theorem loopCondition_succ (ih : Sound n) {e : Option Expr}
    (h : Grammar.loopCondition (n + 1) ts = .done e rest) : Word .loopCondition ts e rest := by
  rw [Grammar.loopCondition, bind_done_iff] at h
  obtain ⟨semicolon, mid, hsemi, h⟩ := h
  cases semicolon with
  | some semicolon =>
    obtain ⟨rfl, hk⟩ := accept_some_iff.mp hsemi
    obtain ⟨rfl, rfl⟩ := pure_done_iff.mp h
    exact ⟨[semicolon], rfl, .noLoopCondition hk⟩
  | none =>
    obtain ⟨rfl, _⟩ := accept_none_iff.mp hsemi
    simp only [bind_done_iff, mark_done_iff, pure_done_iff] at h
    obtain ⟨e, _, he, semicolon, _, ⟨rfl, hk⟩, rfl, rfl⟩ := h
    obtain ⟨w, rfl, hw⟩ := ih.expression he
    exact ⟨w ++ [semicolon], by simp, .loopCondition hw hk⟩

/-- The closer does not start with what ends it. -/
theorem loopCloser_succ (ih : Sound n) {ending : TokenKind} {e : Option Expr}
    (h : Grammar.loopCloser (n + 1) ending ts = .done e rest) :
    ∃ w, ts = w ++ rest ∧ Derives false .loopCloser w e ∧ startsWith ending w = false := by
  rw [Grammar.loopCloser, sees_bind] at h
  split at h
  next =>
    obtain ⟨rfl, rfl⟩ := pure_done_iff.mp h
    exact ⟨[], rfl, .noLoopCloser, rfl⟩
  next hsees =>
    simp only [bind_done_iff, pure_done_iff] at h
    obtain ⟨e, _, he, rfl, rfl⟩ := h
    obtain ⟨w, rfl, hw⟩ := ih.expression he
    exact ⟨w, rfl, .loopCloser hw, startsWith_of_append (by simpa using hsees)⟩

/-- A value was read unless there was a semicolon. -/
theorem returnStatement_succ (ih : Sound n) {word : Token} {s : Option Stmt}
    (h : Grammar.returnStatement (n + 1) word.span ts = .done s rest)
    (hword : word.kind = .returnWord) : Word .statement (word :: ts) s rest := by
  rw [Grammar.returnStatement, sees_bind] at h
  split at h
  next hsees =>
    cases ts with
    | nil => cases hsees
    | cons semicolon ts =>
      obtain ⟨rfl, rfl⟩ := pure_done_iff.mp h
      exact ⟨[word, semicolon], rfl, .bareReturn hword (by simpa using hsees)⟩
  next =>
    simp only [bind_done_iff, mark_done_iff, pure_done_iff] at h
    obtain ⟨e, _, he, semicolon, _, ⟨rfl, hk⟩, rfl, rfl⟩ := h
    obtain ⟨w, rfl, hw⟩ := ih.expression he
    exact ⟨word :: (w ++ [semicolon]), by simp, .returnStatement hword hw hk⟩

theorem extension_word {superclass : Option NameUse}
    (h : Grammar.extension ts = .done superclass rest) : Word .extension ts superclass rest := by
  rw [Grammar.extension, bind_done_iff] at h
  obtain ⟨word, mid, hword, h⟩ := h
  cases word with
  | none =>
    obtain ⟨rfl, _⟩ := accept_none_iff.mp hword
    obtain ⟨rfl, rfl⟩ := pure_done_iff.mp h
    exact ⟨[], rfl, .noExtension⟩
  | some word =>
    obtain ⟨rfl, hk⟩ := accept_some_iff.mp hword
    simp only [bind_done_iff, ident_done_iff, pure_done_iff] at h
    obtain ⟨_, _, ⟨name, rfl, hname, rfl⟩, rfl, rfl⟩ := h
    exact ⟨[word, name], rfl, .extension hk hname⟩

/-- A name, what the class extends, and methods in braces were read. -/
theorem classDeclaration_succ (ih : Sound n) {word : Token} {s : Option Stmt}
    (h : Grammar.classDeclaration (n + 1) ts = .done s rest) (hword : word.kind = .classWord) :
    Word .statement (word :: ts) s rest := by
  simp only [Grammar.classDeclaration, bind_done_iff, ident_done_iff, mark_done_iff,
    pure_done_iff] at h
  obtain ⟨_, _, ⟨name, rfl, hname, rfl⟩, superclass, _, hext, opening, _, ⟨rfl, hopen⟩, methods, _,
      hmethods, closing, _, ⟨rfl, hclose⟩, rfl, rfl⟩ := h
  obtain ⟨w₁, rfl, hw₁⟩ := extension_word hext
  obtain ⟨w₂, rfl, hw₂⟩ := ih.methodList hmethods
  exact ⟨word :: name :: (w₁ ++ opening :: (w₂ ++ [closing])), by simp,
    .classStatement hword hname hw₁ hopen hw₂ hclose⟩

/-- Methods were read up to the closing brace. -/
theorem methodList_succ (ih : Sound n) {ms : List Method}
    (h : Grammar.methodList (n + 1) ts = .done ms rest) : Word .methods ts ms rest := by
  rw [Grammar.methodList, peek_bind] at h
  generalize ts.head?.map Token.kind = k at h
  split at h
  · obtain ⟨rfl, rfl⟩ := pure_done_iff.mp h
    exact ⟨[], rfl, .noMethod⟩
  · obtain ⟨rfl, rfl⟩ := pure_done_iff.mp h
    exact ⟨[], rfl, .noMethod⟩
  · simp only [bind_done_iff, ident_done_iff, pure_done_iff] at h
    obtain ⟨_, _, ⟨name, rfl, hname, rfl⟩, f, _, hf, ms, _, hms, rfl, rfl⟩ := h
    obtain ⟨w, rfl, hw⟩ := ih.functionRest hf
    obtain ⟨w', rfl, hw'⟩ := ih.methodList hms
    exact ⟨name :: (w ++ w'), by simp, .methods hname hw hw'⟩

theorem block_succ (ih : Sound n) {opening : Token} {ss : List Stmt}
    (h : Grammar.block (n + 1) ts = .done ss rest) (hopen : opening.kind = .leftBrace) :
    Word .block (opening :: ts) ss rest := by
  simp only [Grammar.block, bind_done_iff, mark_done_iff, pure_done_iff] at h
  obtain ⟨body, _, hbody, closing, _, ⟨rfl, hclose⟩, rfl, rfl⟩ := h
  obtain ⟨w, rfl, hw⟩ := ih.statements hbody
  exact ⟨opening :: (w ++ [closing]), by simp, .block hopen hw hclose⟩

/-- Statements were read up to where none can start. -/
theorem statements_succ (ih : Sound n) {ss : List Stmt}
    (h : Grammar.statements (n + 1) ts = .done ss rest) : Word .statements ts ss rest := by
  rw [Grammar.statements, peek_bind] at h
  generalize ts.head?.map Token.kind = k at h
  split at h
  · obtain ⟨rfl, rfl⟩ := pure_done_iff.mp h
    exact ⟨[], rfl, .noStatement⟩
  · obtain ⟨rfl, rfl⟩ := pure_done_iff.mp h
    exact ⟨[], rfl, .noStatement⟩
  · simp only [bind_done_iff, pure_done_iff] at h
    obtain ⟨s, _, hs, ss, _, hss, rfl, rfl⟩ := h
    obtain ⟨w, rfl, hw⟩ := ih.statement hs
    obtain ⟨w', rfl, hw'⟩ := ih.statements hss
    exact ⟨w ++ w', by simp, .statements hw hw' nofun⟩

/-! ## Expressions -/

/-- What stands left of an equals sign was one of the targets. -/
theorem expression_succ (ih : Sound n) {e : Expr}
    (h : Grammar.expression (n + 1) ts = .done e rest) : Word .expression ts e rest := by
  simp only [Grammar.expression, bind_done_iff] at h
  obtain ⟨target, mid, htarget, equal, mid', hequal, h⟩ := h
  obtain ⟨w, rfl, hw⟩ := ih.climb htarget
  cases equal with
  | none =>
    obtain ⟨rfl, _⟩ := accept_none_iff.mp hequal
    obtain ⟨rfl, rfl⟩ := pure_done_iff.mp h
    exact ⟨w, rfl, .plain hw⟩
  | some equal =>
    obtain ⟨rfl, hk⟩ := accept_some_iff.mp hequal
    -- What can be assigned to goes on with the value; everything else has failed.
    have hvalue : ∃ value, Grammar.expression n mid' = .done value rest ∧ assignTo target value =
        some e := by
      cases target <;> simp only [bind_done_iff, pure_done_iff, failAt_done_iff] at h <;>
        obtain ⟨value, _, hvalue, rfl, rfl⟩ := h <;> exact ⟨value, hvalue, rfl⟩
    obtain ⟨value, hvalue, hassign⟩ := hvalue
    obtain ⟨w', rfl, hw'⟩ := ih.expression hvalue
    exact ⟨w ++ equal :: w', by simp, .assignment hw hk hw' hassign⟩

/-- An operand was read, and then what goes on from it. -/
theorem climb_succ (ih : Sound n) {l : Level} {e : Expr}
    (h : Grammar.climb (n + 1) l ts = .done e rest) : Word (.level l) ts e rest := by
  simp only [Grammar.climb, bind_done_iff] at h
  obtain ⟨left, mid, hleft, h⟩ := h
  obtain ⟨w, rfl, hw⟩ := ih.operand hleft
  obtain ⟨w', rfl, hw'⟩ := ih.climbRest h
  exact ⟨w ++ w', by simp, hw' w (.firstOperand hw)⟩

/-- Each operator that was read makes a longer word of the level. -/
theorem climbRest_succ (ih : Sound n) {l : Level} {left e : Expr}
    (h : Grammar.climbRest (n + 1) l left ts = .done e rest) :
    ∃ w, ts = w ++ rest ∧ ∀ w₀, Derives false (.level l) w₀ left →
      Derives false (.level l) (w₀ ++ w) e := by
  rw [Grammar.climbRest, peek_bind] at h
  cases ts with
  | nil =>
    obtain ⟨rfl, rfl⟩ := pure_done_iff.mp h
    exact ⟨[], rfl, fun w₀ h₀ => by rwa [List.append_nil]⟩
  | cons t ts =>
    simp only [List.head?_cons] at h
    generalize hop : l.operator? t.kind = op at h
    cases op with
    | none =>
      obtain ⟨rfl, rfl⟩ := pure_done_iff.mp h
      exact ⟨[], rfl, fun w₀ h₀ => by rwa [List.append_nil]⟩
    | some op =>
      simp only [skip_bind, bind_done_iff] at h
      obtain ⟨right, mid, hright, h⟩ := h
      obtain ⟨w, rfl, hw⟩ := ih.operand hright
      obtain ⟨w', rfl, hw'⟩ := ih.climbRest h
      refine ⟨t :: (w ++ w'), by simp, fun w₀ h₀ => ?_⟩
      have := hw' (w₀ ++ t :: w) (.infixOperator h₀ hop hw)
      simpa using this

/-- An operand is a word of the tighter level. -/
theorem operand_succ (ih : Sound n) {l : Level} {e : Expr}
    (h : Grammar.operand (n + 1) l ts = .done e rest) : Word (.operand l) ts e rest := by
  rw [Grammar.operand] at h
  generalize htighter : l.tighter = tighter at h
  cases tighter with
  | some tighter =>
    obtain ⟨w, rfl, hw⟩ := ih.climb h
    exact ⟨w, rfl, .tighterOperand htighter hw⟩
  | none =>
    obtain ⟨w, rfl, hw⟩ := ih.unary h
    exact ⟨w, rfl, .unaryOperand htighter hw⟩

/-- Operators were read before a chain or a function literal. -/
theorem unary_succ (ih : Sound n) {e : Expr} (h : Grammar.unary (n + 1) ts = .done e rest) :
    Word .unary ts e rest := by
  have hchain : Grammar.chain n ts = .done e rest → Word .unary ts e rest := by
    intro h
    obtain ⟨w, rfl, hw⟩ := ih.chain h
    exact ⟨w, rfl, .unaryChain hw⟩
  rw [Grammar.unary, peek_bind] at h
  cases ts with
  | nil => exact hchain h
  | cons t ts =>
    simp only [List.head?_cons] at h
    generalize hop : UnaryOp.ofKind? t.kind = op at h
    cases op with
    | some op =>
      simp only [skip_bind, bind_done_iff, pure_done_iff] at h
      obtain ⟨operand, _, hoperand, rfl, rfl⟩ := h
      obtain ⟨w, rfl, hw⟩ := ih.unary hoperand
      exact ⟨t :: w, rfl, .unaryOperator hop hw⟩
    | none =>
      simp only at h
      split at h
      next hfun => exact ih.functionLiteral h (by simpa using hfun)
      next => exact hchain h

/-- A name was read if there was one. -/
theorem functionLiteral_succ (ih : Sound n) {word : Token} {e : Expr}
    (h : Grammar.functionLiteral (n + 1) word.span ts = .done e rest)
    (hword : word.kind = .funWord) : Word .unary (word :: ts) e rest := by
  simp only [Grammar.functionLiteral, bind_done_iff, pure_done_iff] at h
  obtain ⟨name, _, hname, f, _, hf, rfl, rfl⟩ := h
  obtain ⟨w, rfl, hw⟩ := ih.functionRest hf
  cases name with
  | none =>
    obtain ⟨rfl, _⟩ := accept_none_iff.mp hname
    exact ⟨word :: w, rfl, .functionLiteral hword hw⟩
  | some name =>
    obtain ⟨rfl, hk⟩ := accept_some_iff.mp hname
    exact ⟨word :: name :: w, rfl, .namedFunctionLiteral hword hk hw⟩

/-- Parameters are counted as they are read. -/
theorem parameters_word {count : Nat} {ps : List Ident}
    (h : Grammar.parameters n count ts = .done ps rest) (hcount : count ≤ maxParameters) :
    ∃ w, ts = w ++ rest ∧ Derives false .parameters w ps ∧ count + ps.length ≤ maxParameters := by
  induction n generalizing count ts ps with
  | zero => cases h
  | succ n ih =>
    rw [Grammar.parameters, sees_bind] at h
    split at h
    next =>
      obtain ⟨rfl, rfl⟩ := pure_done_iff.mp h
      exact ⟨[], rfl, .noParameter, hcount⟩
    next =>
      split at h
      next => cases h
      next hless =>
        have hless : count + 1 ≤ maxParameters := Nat.lt_of_not_le hless
        simp only [bind_done_iff, ident_done_iff] at h
        obtain ⟨_, _, ⟨name, rfl, hname, rfl⟩, comma, mid, hcomma, h⟩ := h
        cases comma with
        | none =>
          obtain ⟨rfl, _⟩ := accept_none_iff.mp hcomma
          obtain ⟨rfl, rfl⟩ := pure_done_iff.mp h
          exact ⟨[name], rfl, .lastParameter hname, hless⟩
        | some comma =>
          obtain ⟨rfl, hk⟩ := accept_some_iff.mp hcomma
          simp only [bind_done_iff, pure_done_iff] at h
          obtain ⟨ps, _, hps, rfl, rfl⟩ := h
          obtain ⟨w, rfl, hw, hlen⟩ := ih hps hless
          refine ⟨name :: comma :: w, rfl, .parameters hname hk hw, ?_⟩
          rw [List.length_cons]
          omega

/-- No more parameters were read than there may be. -/
theorem functionRest_succ (ih : Sound n) {keyword : Span} {f : Function}
    (h : Grammar.functionRest (n + 1) keyword ts = .done f rest) :
    Word (.function keyword) ts f rest := by
  simp only [Grammar.functionRest, bind_done_iff, mark_done_iff, pure_done_iff] at h
  obtain ⟨opening, _, ⟨rfl, hopen⟩, params, _, hparams, closing, _, ⟨rfl, hclose⟩, brace, _,
      ⟨rfl, hbrace⟩, body, _, hbody, rfl, rfl⟩ := h
  obtain ⟨w₁, rfl, hw₁, hlen⟩ := parameters_word hparams (Nat.zero_le _)
  obtain ⟨w₂, hsplit, hw₂⟩ := ih.block hbody hbrace
  exact ⟨opening :: (w₁ ++ closing :: w₂), by simp [hsplit],
    .function hopen hw₁ (by omega) hclose hw₂⟩

/-! ## Chains and primaries -/

/-- A primary expression was read, and its links. -/
theorem chain_succ (ih : Sound n) {e : Expr} (h : Grammar.chain (n + 1) ts = .done e rest) :
    Word .chain ts e rest := by
  simp only [Grammar.chain, bind_done_iff] at h
  obtain ⟨start, mid, hstart, h⟩ := h
  obtain ⟨w', rfl, hw'⟩ := ih.links h
  rcases ih.primary hstart with ⟨w, rfl, hw⟩ | ⟨t, rfl, hlink⟩
  · exact ⟨w ++ w', by simp, hw' w (.inl (.chainStart hw))⟩
  · exact ⟨t :: w', rfl, hw' [t] hlink⟩

/-- A call may follow whatever links may follow. -/
theorem linkStart_call {opening closing : Token} {w₀ w : List Token} {callee : Expr}
    {arguments : List Expr} (h : LinkStart false w₀ callee ts) (hopen : opening.kind = .leftParen)
    (harguments : Derives false .expressions w arguments) (hlen : arguments.length ≤ maxParameters)
    (hclose : closing.kind = .rightParen) :
    Derives false .chain (w₀ ++ opening :: (w ++ [closing]))
      (.call callee arguments closing.span) := by
  rcases h with h | ⟨t, rfl, ht, rfl, _⟩
  · exact .call h hopen harguments hlen hclose
  · exact .superCall ht hopen harguments hlen hclose

/-- Where no parenthesis comes next, only a chain may be followed by links. -/
theorem chain_of_linkStart {w₀ : List Token} {e : Expr} {greedy : Bool}
    (h : LinkStart greedy w₀ e ts) (hts : startsWith .leftParen ts = false) :
    Derives greedy .chain w₀ e := by
  rcases h with h | ⟨_, _, _, _, hparen⟩
  · exact h
  · rw [hts] at hparen
    cases hparen

/-- Each link that was read makes a longer chain. -/
theorem links_succ (ih : Sound n) {left e : Expr}
    (h : Grammar.links (n + 1) left ts = .done e rest) :
    ∃ w, ts = w ++ rest ∧ ∀ w₀, LinkStart false w₀ left ts → Derives false .chain (w₀ ++ w) e := by
  rw [Grammar.links, peek_bind] at h
  cases ts with
  | nil =>
    obtain ⟨rfl, rfl⟩ := pure_done_iff.mp h
    exact ⟨[], rfl, fun w₀ h₀ => by rw [List.append_nil]; exact chain_of_linkStart h₀ rfl⟩
  | cons t ts =>
    simp only [List.head?_cons] at h
    generalize hk : t.kind = k at h
    split at h
    next =>
      simp only [skip_bind, bind_done_iff, mark_done_iff] at h
      obtain ⟨arguments, _, harguments, closing, _, ⟨rfl, hclose⟩, h⟩ := h
      obtain ⟨w, rfl, hw, hlen⟩ := ih.argumentList harguments (Nat.zero_le _)
      obtain ⟨w', rfl, hw'⟩ := ih.links h
      refine ⟨t :: (w ++ closing :: w'), by simp, fun w₀ h₀ => ?_⟩
      have := hw' _ (.inl (linkStart_call h₀ hk hw (by omega) hclose))
      simpa using this
    next =>
      simp only [skip_bind, bind_done_iff] at h
      obtain ⟨access, mid, haccess, h⟩ := h
      obtain ⟨w, rfl, hw⟩ := ih.property haccess hk
      obtain ⟨w', rfl, hw'⟩ := ih.links h
      refine ⟨t :: (w ++ w'), by simp, fun w₀ h₀ => ?_⟩
      have hchain := chain_of_linkStart h₀ (by rw [startsWith_cons, hk]; rfl)
      have := hw' _ (.inl (hw w₀ hchain))
      simpa using this
    next =>
      simp only [skip_bind, bind_done_iff, mark_done_iff] at h
      obtain ⟨index, _, hindex, closing, _, ⟨rfl, hclose⟩, h⟩ := h
      obtain ⟨w, rfl, hw⟩ := ih.expression hindex
      obtain ⟨w', rfl, hw'⟩ := ih.links h
      refine ⟨t :: (w ++ closing :: w'), by simp, fun w₀ h₀ => ?_⟩
      have hchain := chain_of_linkStart h₀ (by rw [startsWith_cons, hk]; rfl)
      have := hw' _ (.inl (.subscript hchain hk hw hclose))
      simpa using this
    next hparen _ _ =>
      obtain ⟨rfl, rfl⟩ := pure_done_iff.mp h
      refine ⟨[], rfl, fun w₀ h₀ => ?_⟩
      rw [List.append_nil]
      exact chain_of_linkStart h₀ (by rw [startsWith_cons, hk]; exact beq_false_of_ne hparen)

/-- A name was read, or an expression in parentheses. -/
theorem property_succ (ih : Sound n) {object e : Expr} {dot : Token}
    (h : Grammar.property (n + 1) object ts = .done e rest) (hdot : dot.kind = .dot) :
    ∃ w, ts = w ++ rest ∧ ∀ w₀, Derives false .chain w₀ object →
      Derives false .chain (w₀ ++ dot :: w) e := by
  rw [Grammar.property, peek_bind] at h
  cases ts with
  | nil => cases h
  | cons t ts =>
    simp only [List.head?_cons] at h
    generalize hk : t.kind = k at h
    split at h
    next =>
      obtain ⟨rfl, rfl⟩ := pure_done_iff.mp h
      exact ⟨[t], rfl, fun w₀ h₀ => .property h₀ hdot hk⟩
    next =>
      simp only [skip_bind, bind_done_iff, mark_done_iff, pure_done_iff] at h
      obtain ⟨key, _, hkey, closing, _, ⟨rfl, hclose⟩, rfl, rfl⟩ := h
      obtain ⟨w, rfl, hw⟩ := ih.expression hkey
      exact ⟨t :: (w ++ [closing]), by simp, fun w₀ h₀ => .computedProperty h₀ hdot hk hw hclose⟩
    next => cases h

/-- No more arguments were read than there may be. -/
theorem argumentList_succ (ih : Sound n) {count : Nat} {es : List Expr}
    (h : Grammar.argumentList (n + 1) count ts = .done es rest) (hcount : count ≤ maxParameters) :
    ∃ w, ts = w ++ rest ∧ Derives false .expressions w es ∧ count + es.length ≤ maxParameters := by
  rw [Grammar.argumentList, sees_bind] at h
  split at h
  next =>
    obtain ⟨rfl, rfl⟩ := pure_done_iff.mp h
    exact ⟨[], rfl, .noExpression, hcount⟩
  next =>
    split at h
    next => cases h
    next hless =>
      have hless : count + 1 ≤ maxParameters := Nat.lt_of_not_le hless
      simp only [bind_done_iff] at h
      obtain ⟨e, mid, he, comma, mid', hcomma, h⟩ := h
      obtain ⟨w, rfl, hw⟩ := ih.expression he
      cases comma with
      | none =>
        obtain ⟨rfl, _⟩ := accept_none_iff.mp hcomma
        obtain ⟨rfl, rfl⟩ := pure_done_iff.mp h
        exact ⟨w, rfl, .lastExpression hw, hless⟩
      | some comma =>
        obtain ⟨rfl, hk⟩ := accept_some_iff.mp hcomma
        simp only [bind_done_iff, pure_done_iff] at h
        obtain ⟨es, _, hes, rfl, rfl⟩ := h
        obtain ⟨w', rfl, hw', hlen⟩ := ih.argumentList hes hless
        refine ⟨w ++ comma :: w', by simp, .expressions hw hk hw', ?_⟩
        rw [List.length_cons]
        omega

/-- The token at the front decides, and `super` may still wait for its call. -/
theorem primary_succ (ih : Sound n) {e : Expr} (h : Grammar.primary (n + 1) ts = .done e rest) :
    Word .primary ts e rest ∨ ∃ t, ts = t :: rest ∧ LinkStart false [t] e rest := by
  rw [Grammar.primary, peek_bind] at h
  cases ts with
  | nil => cases h
  | cons t ts =>
    have hliteral : ∀ {value}, literalOf? t = some value → e = .literal value → rest = ts →
        Word .primary (t :: ts) e rest := by
      rintro value hvalue rfl rfl
      exact ⟨[t], rfl, .literal hvalue⟩
    simp only [List.head?_cons] at h
    generalize hk : t.kind = k at h
    split at h <;> try simp only [skip_bind, bind_done_iff, mark_done_iff, pure_done_iff] at h
    next => exact .inl (hliteral (by rw [literalOf?, hk]) h.1 h.2)
    next => exact .inl (hliteral (by rw [literalOf?, hk]) h.1 h.2)
    next => exact .inl (hliteral (by rw [literalOf?, hk]) h.1 h.2)
    next => exact .inl (hliteral (by rw [literalOf?, hk]) h.1 h.2)
    next => exact .inl (hliteral (by rw [literalOf?, hk]) h.1 h.2)
    next => exact .inl (hliteral (by rw [literalOf?, hk]) h.1 h.2)
    next =>
      obtain ⟨rfl, rfl⟩ := h
      exact .inl ⟨[t], rfl, .variableUse hk⟩
    next =>
      obtain ⟨inner, _, hinner, closing, _, ⟨rfl, hclose⟩, rfl, rfl⟩ := h
      obtain ⟨w, rfl, hw⟩ := ih.expression hinner
      exact .inl ⟨t :: (w ++ [closing]), by simp, .grouping hk hw hclose⟩
    next =>
      obtain ⟨rfl, rfl⟩ := h
      exact .inl ⟨[t], rfl, .thisUse hk⟩
    next =>
      obtain ⟨elements, _, helements, closing, _, ⟨rfl, hclose⟩, rfl, rfl⟩ := h
      obtain ⟨w, rfl, hw⟩ := ih.elementList helements
      exact .inl ⟨t :: (w ++ [closing]), by simp, .list hk hw hclose⟩
    next =>
      obtain ⟨fields, _, hfields, closing, _, ⟨rfl, hclose⟩, rfl, rfl⟩ := h
      obtain ⟨w, rfl, hw⟩ := ih.fieldList hfields
      exact .inl ⟨t :: (w ++ [closing]), by simp, .object hk hw hclose⟩
    next =>
      rcases ih.superUse h hk with hword | ⟨rfl, hlink⟩
      · exact .inl hword
      · exact .inr ⟨t, rfl, hlink⟩
    next => cases h

/-- A method was read, or a call comes next. -/
theorem superUse_succ {word : Token} {e : Expr}
    (h : Grammar.superUse (n + 1) word.span ts = .done e rest) (hword : word.kind = .superWord) :
    Word .primary (word :: ts) e rest ∨ ts = rest ∧ LinkStart false [word] e rest := by
  rw [Grammar.superUse, sees_bind] at h
  split at h
  next hparen =>
    obtain ⟨rfl, rfl⟩ := pure_done_iff.mp h
    exact .inr ⟨rfl, .inr ⟨word, rfl, hword, rfl, hparen⟩⟩
  next =>
    simp only [bind_done_iff] at h
    obtain ⟨dot, mid, hdot, h⟩ := h
    cases dot with
    | none => cases h
    | some dot =>
      obtain ⟨rfl, hk⟩ := accept_some_iff.mp hdot
      simp only [bind_done_iff, ident_done_iff, pure_done_iff] at h
      obtain ⟨_, _, ⟨name, rfl, hname, rfl⟩, rfl, rfl⟩ := h
      exact .inl ⟨[word, dot, name], rfl, .superMethod hword hk hname⟩

theorem elementList_succ (ih : Sound n) {es : List Expr}
    (h : Grammar.elementList (n + 1) ts = .done es rest) : Word .expressions ts es rest := by
  rw [Grammar.elementList, sees_bind] at h
  split at h
  next =>
    obtain ⟨rfl, rfl⟩ := pure_done_iff.mp h
    exact ⟨[], rfl, .noExpression⟩
  next =>
    simp only [bind_done_iff] at h
    obtain ⟨e, mid, he, comma, mid', hcomma, h⟩ := h
    obtain ⟨w, rfl, hw⟩ := ih.expression he
    cases comma with
    | none =>
      obtain ⟨rfl, _⟩ := accept_none_iff.mp hcomma
      obtain ⟨rfl, rfl⟩ := pure_done_iff.mp h
      exact ⟨w, rfl, .lastExpression hw⟩
    | some comma =>
      obtain ⟨rfl, hk⟩ := accept_some_iff.mp hcomma
      simp only [bind_done_iff, pure_done_iff] at h
      obtain ⟨es, _, hes, rfl, rfl⟩ := h
      obtain ⟨w', rfl, hw'⟩ := ih.elementList hes
      exact ⟨w ++ comma :: w', by simp, .expressions hw hk hw'⟩

/-- Fields were read up to the closing brace. -/
theorem fieldList_succ (ih : Sound n) {fs : List Field}
    (h : Grammar.fieldList (n + 1) ts = .done fs rest) : Word .fields ts fs rest := by
  rw [Grammar.fieldList, sees_bind] at h
  split at h
  next =>
    obtain ⟨rfl, rfl⟩ := pure_done_iff.mp h
    exact ⟨[], rfl, .noField⟩
  next =>
    simp only [bind_done_iff] at h
    obtain ⟨f, mid, hf, comma, mid', hcomma, h⟩ := h
    obtain ⟨w, rfl, hw⟩ := ih.field hf
    cases comma with
    | none =>
      obtain ⟨rfl, _⟩ := accept_none_iff.mp hcomma
      obtain ⟨rfl, rfl⟩ := pure_done_iff.mp h
      exact ⟨w, rfl, .lastField hw⟩
    | some comma =>
      obtain ⟨rfl, hk⟩ := accept_some_iff.mp hcomma
      simp only [bind_done_iff, pure_done_iff] at h
      obtain ⟨fs, _, hfs, rfl, rfl⟩ := h
      obtain ⟨w', rfl, hw'⟩ := ih.fieldList hfs
      exact ⟨w ++ comma :: w', by simp, .fields hw hk hw'⟩

/-- The name of a field was read, and its value if there was a colon. -/
theorem field_succ (ih : Sound n) {f : Field} (h : Grammar.field (n + 1) ts = .done f rest) :
    Word .field ts f rest := by
  rw [Grammar.field, peek_bind] at h
  cases ts with
  | nil => cases h
  | cons t ts =>
    simp only [List.head?_cons] at h
    generalize hk : t.kind = k at h
    split at h
    next =>
      simp only [skip_bind, bind_done_iff] at h
      obtain ⟨colon, mid, hcolon, h⟩ := h
      cases colon with
      | none =>
        obtain ⟨rfl, _⟩ := accept_none_iff.mp hcolon
        obtain ⟨rfl, rfl⟩ := pure_done_iff.mp h
        exact ⟨[t], rfl, .shortField hk⟩
      | some colon =>
        obtain ⟨rfl, hc⟩ := accept_some_iff.mp hcolon
        simp only [bind_done_iff, pure_done_iff] at h
        obtain ⟨e, _, he, rfl, rfl⟩ := h
        obtain ⟨w, rfl, hw⟩ := ih.expression he
        exact ⟨t :: colon :: w, rfl, .namedField hk hc hw⟩
    next =>
      simp only [skip_bind, bind_done_iff] at h
      obtain ⟨colon, mid, hcolon, h⟩ := h
      cases colon with
      | none => cases h
      | some colon =>
        obtain ⟨rfl, hc⟩ := accept_some_iff.mp hcolon
        simp only [bind_done_iff, pure_done_iff] at h
        obtain ⟨e, _, he, rfl, rfl⟩ := h
        obtain ⟨w, rfl, hw⟩ := ih.expression he
        exact ⟨t :: colon :: w, rfl, .quotedField hk hc hw⟩
    next => cases h

end Sound

/-- Whatever a production reads within any bound is a word of its symbol. -/
theorem sound (n : Nat) : Sound n := by
  induction n with
  | zero => constructor <;> intros <;> contradiction
  | succ n ih =>
    exact {
      statement := ih.statement_succ
      expressionStatement := ih.expressionStatement_succ
      binding := ih.binding_succ
      conditional := ih.conditional_succ
      alternative := ih.alternative_succ
      loop := ih.loop_succ
      loopStart := ih.loopStart_succ
      loopCondition := ih.loopCondition_succ
      loopCloser := ih.loopCloser_succ
      returnStatement := ih.returnStatement_succ
      classDeclaration := ih.classDeclaration_succ
      methodList := ih.methodList_succ
      block := ih.block_succ
      statements := ih.statements_succ
      expression := ih.expression_succ
      climb := ih.climb_succ
      climbRest := ih.climbRest_succ
      operand := ih.operand_succ
      unary := ih.unary_succ
      functionLiteral := ih.functionLiteral_succ
      functionRest := ih.functionRest_succ
      chain := ih.chain_succ
      links := ih.links_succ
      property := ih.property_succ
      argumentList := ih.argumentList_succ
      primary := ih.primary_succ
      superUse := Sound.superUse_succ
      elementList := ih.elementList_succ
      fieldList := ih.fieldList_succ
      field := ih.field_succ }

end Grammar

end Lox
