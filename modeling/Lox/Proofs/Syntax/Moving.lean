import Lox.Proofs.Syntax.Marks
import Lox.Proofs.Token.Joining
import Lox.Syntax.Program

/-!
# Tokens at other places

The productions look at the kinds of tokens and at their lexemes, and never at where they stand: the
same tokens at other places are read to the same trees with other marks, and fail with the same
problems at other places.

A subscript keeps one span for both of its brackets. So a **move** of tokens has to take that span
to where it takes the brackets. It is asked to do so for the tokens at hand only: all that is read
stays among those that reading started from, and `Moves` says so of every reader along with what it
reads.
-/

namespace Lox

variable {α β γ δ : Type}

/-- Other places for tokens. The span from an opening bracket to a closing one goes where the
brackets go. -/
structure Move (ts : List Token) where
  place : Span → Span
  through : ∀ opening ∈ ts,
    ∀ closing ∈ ts, opening.kind = .leftBracket → closing.kind = .rightBracket →
    place (opening.span.through closing.span) = (place opening.span).through (place closing.span)

/-- A number of bytes later. -/
def Move.shift (distance : Nat) (ts : List Token) : Move ts where
  place := Span.shift distance
  through opening _ closing _ _ _ := by
    simp only [Span.shift, Span.through, Span.stop, Span.mk.injEq, true_and]
    omega

/-- A failure at another place. -/
def Failure.move (place : Span → Span) (f : Failure) : Failure :=
  ⟨f.problem, f.site.map place, f.rest.map (Token.mapSpan place)⟩

namespace Reply

/-- What is read from tokens at other places. -/
def move (place : Span → Span) (turn : α → β) : Reply α → Reply β
  | done a rest => .done (turn a) (rest.map (Token.mapSpan place))
  | failed f => .failed (f.move place)
  | exhausted => .exhausted

/-- The tokens that a reader has left. -/
def rest : Reply α → List Token
  | done _ rest => rest
  | failed f => f.rest
  | exhausted => []

end Reply

namespace Parse

/-- One reader makes of tokens at other places what another makes of them where they are, turned by
a function. What is left is among the tokens at hand. -/
def Moves {all : List Token} (v : Move all) (turn : α → β) (p : Parse α) (q : Parse β) : Prop :=
  ∀ ts, ts ⊆ all → q (ts.map (Token.mapSpan v.place)) = (p ts).move v.place turn ∧ (p ts).rest ⊆ all

section Moves

variable {all : List Token} {v : Move all}

/-- What is given without reading is turned. -/
theorem moves_pure {turn : α → β} (a : α) : Moves v turn (pure a) (pure (turn a)) :=
  fun _ hts => ⟨rfl, hts⟩

/-- The bound is met wherever tokens stand. -/
theorem moves_exhausted {turn : α → β} : Moves v turn exhausted exhausted :=
  fun _ _ => ⟨rfl, List.nil_subset _⟩

/-- A failure is moved with the place that it names. -/
theorem moves_failAt {turn : α → β} (problem : ParseProblem) (site : Span) :
    Moves v turn (failAt problem site) (failAt problem (v.place site)) :=
  fun _ hts => ⟨rfl, hts⟩

/-- A failure at the next token is moved with the token. -/
theorem moves_failHere {turn : α → β} (problem : ParseProblem) :
    Moves v turn (failHere problem) (failHere problem) := by
  intro ts hts
  refine ⟨?_, hts⟩
  cases ts <;> rfl

theorem moves_skip : Moves v id skip skip := by
  intro ts hts
  cases ts with
  | nil => exact ⟨rfl, hts⟩
  | cons t ts => exact ⟨rfl, List.subset_of_cons_subset hts⟩

/-- The kind of the next token does not move. -/
theorem moves_sees (kind : TokenKind) : Moves v id (sees kind) (sees kind) := by
  intro ts hts
  refine ⟨?_, hts⟩
  cases ts <;> rfl

/-- Readers that move one after another move together. -/
theorem Moves.bind {turn : α → β} {turn' : γ → δ} {p : Parse α} {q : Parse β} {f : α → Parse γ}
    {g : β → Parse δ} (h : Moves v turn p q) (h' : ∀ a, Moves v turn' (f a) (g (turn a))) :
    Moves v turn' (p >>= f) (q >>= g) := by
  intro ts hts
  obtain ⟨hq, hrest⟩ := h ts hts
  change andThen q g _ = (andThen p f ts).move v.place turn' ∧ (andThen p f ts).rest ⊆ all
  unfold andThen
  rw [hq]
  cases hp : p ts with
  | done a rest =>
    rw [hp] at hrest
    exact h' a rest hrest
  | failed failure =>
    rw [hp] at hrest
    exact ⟨rfl, hrest⟩
  | exhausted => exact ⟨rfl, List.nil_subset _⟩

/-- The next token is one of those at hand. -/
theorem moves_peek_bind {turn : γ → δ} {f : Option Token → Parse γ} {g : Option Token → Parse δ}
    (hnone : Moves v turn (f none) (g none))
    (hsome : ∀ t ∈ all, Moves v turn (f (some t)) (g (some (t.mapSpan v.place)))) :
    Moves v turn (peek >>= f) (peek >>= g) := by
  intro ts hts
  cases ts with
  | nil => exact hnone [] hts
  | cons t ts => exact hsome t (hts List.mem_cons_self) (t :: ts) hts

/-- A token that is accepted is moved. -/
theorem moves_accept (kind : TokenKind) :
    Moves v (Option.map (Token.mapSpan v.place)) (accept kind) (accept kind) := by
  intro ts hts
  cases ts with
  | nil => exact ⟨rfl, hts⟩
  | cons t ts =>
    by_cases hkind : t.kind == kind
    · simp only [List.map_cons, accept, Token.mapSpan, hkind, if_true]
      exact ⟨rfl, List.subset_of_cons_subset hts⟩
    · simp only [List.map_cons, accept, Token.mapSpan, hkind]
      exact ⟨rfl, hts⟩

/-- A token that is asked for by its kind is of that kind, and one of those at hand. -/
theorem moves_expect_bind {turn : γ → δ} {f : Token → Parse γ} {g : Token → Parse δ}
    (kind : TokenKind) (problem : ParseProblem)
    (h : ∀ t ∈ all, t.kind = kind → Moves v turn (f t) (g (t.mapSpan v.place))) :
    Moves v turn (expect kind problem >>= f) (expect kind problem >>= g) := by
  intro ts hts
  cases ts with
  | nil => exact ⟨rfl, hts⟩
  | cons t ts =>
    change andThen _ g _ = (andThen _ f _).move v.place turn ∧ (andThen _ f _).rest ⊆ all
    by_cases hkind : t.kind == kind
    · simp only [List.map_cons, andThen, expect, Token.mapSpan, hkind, if_true]
      exact h t (hts List.mem_cons_self) (by simpa using hkind) ts (List.subset_of_cons_subset hts)
    · simp only [List.map_cons, andThen, expect, Token.mapSpan, hkind]
      exact ⟨rfl, hts⟩

/-- What follows a mark may use that its kind is known. -/
theorem moves_mark_bind {turn : γ → δ} {f : Token → Parse γ} {g : Token → Parse δ}
    {kind : TokenKind} (h : ∀ t ∈ all, t.kind = kind → Moves v turn (f t) (g (t.mapSpan v.place))) :
    Moves v turn (mark kind >>= f) (mark kind >>= g) :=
  moves_expect_bind kind (.expected kind) h

/-- A name is moved and keeps its text. -/
theorem moves_ident (problem : ParseProblem) :
    Moves v (Ident.mark (.moving v.place)) (ident problem) (ident problem) :=
  moves_expect_bind .identifier problem fun t _ _ => moves_pure (⟨t.lexeme, t.span⟩ : Ident)

end Moves

end Parse

/-! ## Parts of trees -/

section Marks

variable (m : Marks)

/-- Moving marks a span with its other place. -/
theorem Marks.moving_span (place : Span → Span) (s : Span) :
    (Marks.moving place).span s = place s :=
  rfl

/-- A property of an object literal with other marks. -/
def Field.mark : Field → Field
  | .mk key value => .mk key (value.mark m)

theorem markFields_cons (f : Field) (fs : List Field) :
    markFields m (f :: fs) = f.mark m :: markFields m fs := by
  cases f
  rfl

theorem markStmts_append (ss ss' : List Stmt) :
    markStmts m (ss ++ ss') = markStmts m ss ++ markStmts m ss' := by
  induction ss with
  | nil => rfl
  | cons s ss ih => simp only [List.cons_append, markStmts, ih]

/-- A statement that may be missing is marked as a list of at most one. -/
theorem toList_markStmt? (s : Option Stmt) : (markStmt? m s).toList = markStmts m s.toList := by
  cases s <;> rfl

/-- The block of marked statements is the marked block. -/
theorem blockOf_mark (body : List Stmt) :
    Grammar.blockOf (markStmts m body) = markStmt? m (Grammar.blockOf body) := by
  cases body <;> rfl

/-- Operators combine marked operands to the marked expression. -/
theorem combine_mark (op : InfixOp) (blame : Span) (left right : Expr) :
    Grammar.combine op (m.span blame) (left.mark m) (right.mark m) =
      (Grammar.combine op blame left right).mark m := by
  cases op <;> rfl

end Marks

/-! ## Productions -/

namespace Grammar

open Parse

section Moves

variable {all : List Token} (v : Move all)

/-- Parameters, each of them a name. -/
theorem moves_parameters : (n count : Nat) →
    Moves v (List.map (Ident.mark (.moving v.place))) (parameters n count) (parameters n count)
  | 0, _ => moves_exhausted
  | n + 1, count => by
    rw [parameters]
    refine (moves_sees .rightParen).bind fun closes => ?_
    cases closes with
    | true => exact moves_pure _
    | false =>
      by_cases hmany : maxParameters ≤ count
      · simp only [id, hmany, if_true, Bool.false_eq_true, if_false]
        exact moves_failHere _
      · simp only [id, hmany, Bool.false_eq_true, if_false]
        refine (moves_ident .parameterName).bind fun name =>
          (moves_accept .comma).bind fun comma => ?_
        cases comma with
        | none => exact moves_pure _
        | some _ => exact (moves_parameters n (count + 1)).bind fun names => moves_pure _

/-- A closing parenthesis, if there was an opening one. -/
theorem moves_closeIf (parens : Option Token) :
    Moves v id (closeIf parens) (closeIf (parens.map (Token.mapSpan v.place))) := by
  cases parens with
  | none => exact moves_pure _
  | some _ => exact moves_mark_bind fun _ _ _ => moves_pure _

/-- What a class extends. -/
theorem moves_extension :
    Moves v (Option.map (NameUse.mark (.moving v.place))) extension extension := by
  refine (moves_accept .extendsWord).bind fun word => ?_
  cases word with
  | none => exact moves_pure none
  | some _ => exact (moves_ident .identifier).bind fun name => moves_pure _

mutual

/-- A statement, with a case for each word that it can start with. -/
theorem moves_statement :
    (n : Nat) → Moves v (markStmt? (.moving v.place)) (statement n) (statement n)
  | 0 => moves_exhausted
  | n + 1 => by
    rw [statement]
    refine moves_peek_bind (moves_expressionStatement n) fun t _ => ?_
    simp only [Token.mapSpan]
    cases t.kind with
    | letWord => exact moves_skip.bind fun _ => (moves_binding n true).bind fun s => moves_pure _
    | constWord => exact moves_skip.bind fun _ => (moves_binding n false).bind fun s => moves_pure _
    | ifWord => exact moves_skip.bind fun _ => moves_conditional n
    | forWord => exact moves_skip.bind fun _ => moves_loop n
    | printWord =>
      exact moves_skip.bind fun _ => (moves_expression n).bind fun e => moves_mark_bind fun _ _ _ =>
        moves_pure _
    | classWord => exact moves_skip.bind fun _ => moves_classDeclaration n
    | leftBrace =>
      refine moves_skip.bind fun _ => (moves_block n).bind fun body => ?_
      rw [blockOf_mark]
      exact moves_pure _
    | breakWord => exact moves_skip.bind fun _ => moves_mark_bind fun _ _ _ => moves_pure _
    | continueWord => exact moves_skip.bind fun _ => moves_mark_bind fun _ _ _ => moves_pure _
    | returnWord => exact moves_skip.bind fun _ => moves_returnStatement n t.span
    | semicolon => exact moves_skip.bind fun _ => moves_pure none
    | _ => exact moves_expressionStatement n

/-- An expression as a statement. -/
theorem moves_expressionStatement : (n : Nat) →
    Moves v (markStmt? (.moving v.place)) (expressionStatement n) (expressionStatement n)
  | 0 => moves_exhausted
  | n + 1 => by
    rw [expressionStatement]
    refine (moves_expression n).bind fun e => ?_
    cases e with
    | lambda name f => exact moves_pure _
    | _ => exact moves_mark_bind fun _ _ _ => moves_pure _

/-- A name and what it is declared to be. -/
theorem moves_binding : (n : Nat) → (mutable : Bool) →
    Moves v (Stmt.mark (.moving v.place)) (binding n mutable) (binding n mutable)
  | 0, _ => moves_exhausted
  | n + 1, mutable => by
    rw [binding]
    refine (moves_ident .identifier).bind fun name => (moves_accept .equal).bind fun equal => ?_
    cases equal with
    | none => exact moves_mark_bind fun _ _ _ => moves_pure _
    | some _ =>
      exact (moves_expression n).bind fun init => moves_mark_bind fun _ _ _ =>
        moves_pure _

/-- A condition and its branches. -/
theorem moves_conditional :
    (n : Nat) → Moves v (markStmt? (.moving v.place)) (conditional n) (conditional n)
  | 0 => moves_exhausted
  | n + 1 => by
    rw [conditional]
    refine (moves_expression n).bind fun condition =>
      moves_expect_bind .leftBrace .thenBlock fun _ _ _ => ?_
    refine (moves_block n).bind fun body => (moves_alternative n).bind fun elseBranch => ?_
    rw [blockOf_mark]
    cases blockOf body <;> cases elseBranch <;> exact moves_pure _

/-- What follows else. -/
theorem moves_alternative :
    (n : Nat) → Moves v (markStmt? (.moving v.place)) (alternative n) (alternative n)
  | 0 => moves_exhausted
  | n + 1 => by
    rw [alternative]
    refine (moves_accept .elseWord).bind fun elseWord => ?_
    cases elseWord with
    | none => exact moves_pure none
    | some _ =>
      refine (moves_accept .ifWord).bind fun ifWord => ?_
      cases ifWord with
      | some _ => exact moves_conditional n
      | none =>
        refine moves_expect_bind .leftBrace .elseBlock fun _ _ _ =>
          (moves_block n).bind fun body => ?_
        rw [blockOf_mark]
        exact moves_pure _

/-- A loop, with or without parentheses. -/
theorem moves_loop : (n : Nat) → Moves v (markStmt? (.moving v.place)) (loop n) (loop n)
  | 0 => moves_exhausted
  | n + 1 => by
    rw [loop]
    refine (moves_accept .leftParen).bind fun parens => (moves_loopStart n).bind fun init => ?_
    refine (moves_loopCondition n).bind fun condition => ?_
    rw [Option.isSome_map]
    refine (moves_loopCloser n _).bind fun closer => (moves_closeIf v parens).bind fun _ => ?_
    refine moves_expect_bind .leftBrace .loopBody fun _ _ _ => (moves_block n).bind fun body => ?_
    rw [blockOf_mark]
    cases blockOf body <;> cases init <;> exact moves_pure _

/-- What a loop declares. -/
theorem moves_loopStart :
    (n : Nat) → Moves v (markStmt? (.moving v.place)) (loopStart n) (loopStart n)
  | 0 => moves_exhausted
  | n + 1 => by
    rw [loopStart]
    refine moves_peek_bind (moves_failHere _) fun t _ => ?_
    simp only [Option.map_some, Token.mapSpan]
    cases t.kind with
    | semicolon => exact moves_skip.bind fun _ => moves_pure none
    | letWord => exact moves_skip.bind fun _ => (moves_binding n true).bind fun s => moves_pure _
    | constWord => exact moves_skip.bind fun _ => (moves_binding n false).bind fun s => moves_pure _
    | _ => exact moves_failHere _

/-- What a loop asks before each turn. -/
theorem moves_loopCondition : (n : Nat) →
    Moves v (markExpr? (.moving v.place)) (loopCondition n) (loopCondition n)
  | 0 => moves_exhausted
  | n + 1 => by
    rw [loopCondition]
    refine (moves_accept .semicolon).bind fun semicolon => ?_
    cases semicolon with
    | some _ => exact moves_pure none
    | none => exact (moves_expression n).bind fun e => moves_mark_bind fun _ _ _ => moves_pure _

/-- What a loop does after each turn. -/
theorem moves_loopCloser : (n : Nat) → (ending : TokenKind) →
    Moves v (markExpr? (.moving v.place)) (loopCloser n ending) (loopCloser n ending)
  | 0, _ => moves_exhausted
  | n + 1, ending => by
    rw [loopCloser]
    refine (moves_sees ending).bind fun ends => ?_
    cases ends with
    | true => exact moves_pure none
    | false => exact (moves_expression n).bind fun e => moves_pure _

/-- A return, whose word was read already. -/
theorem moves_returnStatement :
    (n : Nat) → (keyword : Span) →
    Moves v (markStmt? (.moving v.place)) (returnStatement n keyword)
      (returnStatement n (v.place keyword))
  | 0, _ => moves_exhausted
  | n + 1, keyword => by
    rw [returnStatement, returnStatement]
    refine (moves_sees .semicolon).bind fun ends => ?_
    cases ends with
    | true => exact moves_skip.bind fun _ => moves_pure _
    | false =>
      exact (moves_expression n).bind fun e => moves_mark_bind fun _ _ _ => moves_pure _

/-- A class, whose word was read already. -/
theorem moves_classDeclaration : (n : Nat) →
    Moves v (markStmt? (.moving v.place)) (classDeclaration n) (classDeclaration n)
  | 0 => moves_exhausted
  | n + 1 => by
    rw [classDeclaration]
    refine (moves_ident .className).bind fun name => (moves_extension v).bind fun superclass => ?_
    refine moves_mark_bind fun _ _ _ => (moves_methodList n).bind fun methods => ?_
    exact moves_mark_bind fun _ _ _ => moves_pure _

/-- Methods up to the closing brace. -/
theorem moves_methodList :
    (n : Nat) → Moves v (markMethods (.moving v.place)) (methodList n) (methodList n)
  | 0 => moves_exhausted
  | n + 1 => by
    have hmethod :
        Moves v (markMethods (.moving v.place))
        (do
          let name ← ident .methodName
          let f ← functionRest n name.span
          return .mk name f :: (← methodList n))
        (do
          let name ← ident .methodName
          let f ← functionRest n name.span
          return .mk name f :: (← methodList n)) :=
      (moves_ident .methodName).bind fun name => (moves_functionRest n name.span).bind fun f =>
        (moves_methodList n).bind fun methods => moves_pure _
    rw [methodList]
    refine moves_peek_bind (moves_pure _) fun t _ => ?_
    simp only [Option.map_some, Token.mapSpan]
    cases t.kind with
    | rightBrace => exact moves_pure _
    | _ => exact hmethod

/-- Statements up to the closing brace. -/
theorem moves_block : (n : Nat) → Moves v (markStmts (.moving v.place)) (block n) (block n)
  | 0 => moves_exhausted
  | n + 1 => by
    rw [block]
    exact (moves_statements n).bind fun body => moves_mark_bind fun _ _ _ => moves_pure body

/-- Statements, as long as one can start. -/
theorem moves_statements :
    (n : Nat) → Moves v (markStmts (.moving v.place)) (statements n) (statements n)
  | 0 => moves_exhausted
  | n + 1 => by
    have hstatement : Moves v (markStmts (.moving v.place))
        (do let s ← statement n; let rest ← statements n; return s.toList ++ rest)
        (do let s ← statement n; let rest ← statements n; return s.toList ++ rest) := by
      refine (moves_statement n).bind fun s => (moves_statements n).bind fun rest => ?_
      rw [toList_markStmt?, ← markStmts_append]
      exact moves_pure _
    rw [statements]
    refine moves_peek_bind (moves_pure _) fun t _ => ?_
    simp only [Option.map_some, Token.mapSpan]
    cases t.kind with
    | rightBrace => exact moves_pure _
    | _ => exact hstatement

/-- An expression, with an assignment or without. -/
theorem moves_expression :
    (n : Nat) → Moves v (Expr.mark (.moving v.place)) (expression n) (expression n)
  | 0 => moves_exhausted
  | n + 1 => by
    rw [expression]
    refine (moves_climb n .disjunction).bind fun target =>
      (moves_accept .equal).bind fun equal => ?_
    cases equal with
    | none => exact moves_pure target
    | some equal =>
      cases target with
      | var use => exact (moves_expression n).bind fun e => moves_pure _
      | get object name => exact (moves_expression n).bind fun e => moves_pure _
      | getKey object paren key => exact (moves_expression n).bind fun e => moves_pure _
      | index object index blame => exact (moves_expression n).bind fun e => moves_pure _
      | _ => exact moves_failAt _ equal.span

/-- The operands of a level and what joins them. -/
theorem moves_climb : (n : Nat) → (level : Level) →
    Moves v (Expr.mark (.moving v.place)) (climb n level) (climb n level)
  | 0, _ => moves_exhausted
  | n + 1, level => by
    rw [climb]
    exact (moves_operand n level).bind fun left => moves_climbRest n level left

/-- What goes on from the operands that were read. -/
theorem moves_climbRest :
    (n : Nat) → (level : Level) → (left : Expr) →
    Moves v (Expr.mark (.moving v.place)) (climbRest n level left)
      (climbRest n level (left.mark (.moving v.place)))
  | 0, _, _ => moves_exhausted
  | n + 1, level, left => by
    rw [climbRest, climbRest]
    refine moves_peek_bind (moves_pure left) fun t _ => ?_
    simp only [Token.mapSpan]
    cases level.operator? t.kind with
    | none => exact moves_pure left
    | some op =>
      refine moves_skip.bind fun _ => (moves_operand n level).bind fun right => ?_
      have hrest := moves_climbRest n level (combine op t.span left right)
      rwa [← combine_mark] at hrest

/-- An operand of a level. -/
theorem moves_operand : (n : Nat) → (level : Level) →
    Moves v (Expr.mark (.moving v.place)) (operand n level) (operand n level)
  | 0, _ => moves_exhausted
  | n + 1, level => by
    rw [operand]
    cases level.tighter with
    | some tighter => exact moves_climb n tighter
    | none => exact moves_unary n

/-- An operand of the tightest level. -/
theorem moves_unary : (n : Nat) → Moves v (Expr.mark (.moving v.place)) (unary n) (unary n)
  | 0 => moves_exhausted
  | n + 1 => by
    rw [unary]
    refine moves_peek_bind (moves_chain n) fun t _ => ?_
    simp only [Token.mapSpan]
    cases UnaryOp.ofKind? t.kind with
    | some op => exact moves_skip.bind fun _ => (moves_unary n).bind fun e => moves_pure _
    | none =>
      by_cases hfun : t.kind == .funWord
      · simp only [hfun, if_true]
        exact moves_skip.bind fun _ => moves_functionLiteral n t.span
      · simp only [hfun]
        exact moves_chain n

/-- A function literal, with a name or without. -/
theorem moves_functionLiteral :
    (n : Nat) → (keyword : Span) →
    Moves v (Expr.mark (.moving v.place)) (functionLiteral n keyword)
      (functionLiteral n (v.place keyword))
  | 0, _ => moves_exhausted
  | n + 1, keyword => by
    rw [functionLiteral, functionLiteral]
    refine (moves_accept .identifier).bind fun name =>
      (moves_functionRest n keyword).bind fun f => ?_
    cases name with
    | none => exact moves_pure _
    | some t => exact moves_pure _

/-- The parameters and the body of a function. -/
theorem moves_functionRest :
    (n : Nat) → (keyword : Span) →
    Moves v (Function.mark (.moving v.place)) (functionRest n keyword)
      (functionRest n (v.place keyword))
  | 0, _ => moves_exhausted
  | n + 1, keyword => by
    rw [functionRest, functionRest]
    refine moves_mark_bind fun _ _ _ =>
      (moves_parameters v n 0).bind fun params => moves_mark_bind fun _ _ _ => ?_
    exact moves_mark_bind fun _ _ _ => (moves_block n).bind fun body => moves_pure _

/-- A primary expression and its links. -/
theorem moves_chain : (n : Nat) → Moves v (Expr.mark (.moving v.place)) (chain n) (chain n)
  | 0 => moves_exhausted
  | n + 1 => by
    rw [chain]
    exact (moves_primary n).bind fun e => moves_links n e

/-- Calls, properties and subscripts. A subscript needs the span of both brackets. -/
theorem moves_links : (n : Nat) → (e : Expr) →
    Moves v (Expr.mark (.moving v.place)) (links n e) (links n (e.mark (.moving v.place)))
  | 0, _ => moves_exhausted
  | n + 1, e => by
    rw [links, links]
    refine moves_peek_bind (moves_pure e) fun t ht => ?_
    simp only [Token.mapSpan]
    cases hkind : t.kind with
    | leftParen =>
      exact moves_skip.bind fun _ =>
        (moves_argumentList n 0).bind fun arguments => moves_mark_bind fun closing _ _ =>
        moves_links n (.call e arguments closing.span)
    | dot =>
      exact moves_skip.bind fun _ => (moves_property n e).bind fun access => moves_links n access
    | leftBracket =>
      refine moves_skip.bind fun _ => (moves_expression n).bind fun index => ?_
      refine moves_mark_bind fun closing hclosing hkind' => ?_
      have hlinks := moves_links n (.index e index (t.span.through closing.span))
      rwa [Expr.mark, Marks.moving_span, v.through t ht closing hclosing hkind hkind'] at hlinks
    | _ => exact moves_pure e

/-- A property by its name or computed. -/
theorem moves_property :
    (n : Nat) → (object : Expr) →
    Moves v (Expr.mark (.moving v.place)) (property n object)
      (property n (object.mark (.moving v.place)))
  | 0, _ => moves_exhausted
  | n + 1, object => by
    rw [property, property]
    refine moves_peek_bind (moves_failHere _) fun t _ => ?_
    simp only [Token.mapSpan]
    cases t.kind with
    | identifier => exact moves_skip.bind fun _ => moves_pure _
    | leftParen =>
      exact moves_skip.bind fun _ =>
        (moves_expression n).bind fun key => moves_mark_bind fun _ _ _ =>
        moves_pure _
    | _ => exact moves_failHere _

/-- Arguments, with their count. -/
theorem moves_argumentList : (n count : Nat) →
    Moves v (markExprs (.moving v.place)) (argumentList n count) (argumentList n count)
  | 0, _ => moves_exhausted
  | n + 1, count => by
    rw [argumentList]
    refine (moves_sees .rightParen).bind fun closes => ?_
    cases closes with
    | true => exact moves_pure _
    | false =>
      by_cases hmany : maxParameters ≤ count
      · simp only [id, hmany, if_true, Bool.false_eq_true, if_false]
        exact moves_failHere _
      · simp only [id, hmany, Bool.false_eq_true, if_false]
        refine (moves_expression n).bind fun e => (moves_accept .comma).bind fun comma => ?_
        cases comma with
        | none => exact moves_pure _
        | some _ => exact (moves_argumentList n (count + 1)).bind fun es => moves_pure _

/-- A primary expression, with a case for each token that it can start with. -/
theorem moves_primary : (n : Nat) → Moves v (Expr.mark (.moving v.place)) (primary n) (primary n)
  | 0 => moves_exhausted
  | n + 1 => by
    rw [primary]
    refine moves_peek_bind (moves_failHere _) fun t _ => ?_
    simp only [Token.mapSpan]
    cases t.kind with
    | falseWord => exact moves_skip.bind fun _ => moves_pure _
    | trueWord => exact moves_skip.bind fun _ => moves_pure _
    | nilWord => exact moves_skip.bind fun _ => moves_pure _
    | number => exact moves_skip.bind fun _ => moves_pure _
    | string => exact moves_skip.bind fun _ => moves_pure _
    | char => exact moves_skip.bind fun _ => moves_pure _
    | identifier => exact moves_skip.bind fun _ => moves_pure _
    | leftParen =>
      exact moves_skip.bind fun _ => (moves_expression n).bind fun e => moves_mark_bind fun _ _ _ =>
        moves_pure _
    | thisWord => exact moves_skip.bind fun _ => moves_pure _
    | leftBracket =>
      exact moves_skip.bind fun _ =>
        (moves_elementList n).bind fun es => moves_mark_bind fun _ _ _ =>
        moves_pure _
    | leftBrace =>
      exact moves_skip.bind fun _ => (moves_fieldList n).bind fun fs => moves_mark_bind fun _ _ _ =>
        moves_pure _
    | superWord => exact moves_skip.bind fun _ => moves_superUse n t.span
    | _ => exact moves_failHere _

/-- A method of the superclass. -/
theorem moves_superUse : (n : Nat) → (keyword : Span) →
    Moves v (Expr.mark (.moving v.place)) (superUse n keyword) (superUse n (v.place keyword))
  | 0, _ => moves_exhausted
  | _ + 1, keyword => by
    rw [superUse, superUse]
    refine (moves_sees .leftParen).bind fun calls => ?_
    cases calls with
    | true => exact moves_pure _
    | false =>
      refine (moves_accept .dot).bind fun dot => ?_
      cases dot with
      | none => exact moves_failAt _ keyword
      | some _ => exact (moves_ident .superMethod).bind fun method => moves_pure _

theorem moves_elementList :
    (n : Nat) → Moves v (markExprs (.moving v.place)) (elementList n) (elementList n)
  | 0 => moves_exhausted
  | n + 1 => by
    rw [elementList]
    refine (moves_sees .rightBracket).bind fun closes => ?_
    cases closes with
    | true => exact moves_pure _
    | false =>
      refine (moves_expression n).bind fun e => (moves_accept .comma).bind fun comma => ?_
      cases comma with
      | none => exact moves_pure _
      | some _ => exact (moves_elementList n).bind fun es => moves_pure _

theorem moves_fieldList :
    (n : Nat) → Moves v (markFields (.moving v.place)) (fieldList n) (fieldList n)
  | 0 => moves_exhausted
  | n + 1 => by
    rw [fieldList]
    refine (moves_sees .rightBrace).bind fun closes => ?_
    cases closes with
    | true => exact moves_pure _
    | false =>
      refine (moves_field n).bind fun f => (moves_accept .comma).bind fun comma => ?_
      cases comma with
      | none =>
        cases f
        exact moves_pure _
      | some _ =>
        refine (moves_fieldList n).bind fun fs => ?_
        simp only [← markFields_cons]
        exact moves_pure _

theorem moves_field : (n : Nat) → Moves v (Field.mark (.moving v.place)) (field n) (field n)
  | 0 => moves_exhausted
  | n + 1 => by
    rw [field]
    refine moves_peek_bind (moves_failHere _) fun t _ => ?_
    simp only [Token.mapSpan]
    cases t.kind with
    | identifier =>
      refine moves_skip.bind fun _ => (moves_accept .colon).bind fun colon => ?_
      cases colon with
      | none => exact moves_pure _
      | some _ => exact (moves_expression n).bind fun e => moves_pure _
    | string =>
      refine moves_skip.bind fun _ => (moves_accept .colon).bind fun colon => ?_
      cases colon with
      | none => exact moves_failAt _ t.span
      | some _ => exact (moves_expression n).bind fun e => moves_pure _
    | _ => exact moves_failHere _

end

end Moves

end Grammar

/-! ## Programs -/

section Programs

variable (place : Span → Span)

/-- A segment at another place. -/
def Segment.move (s : Segment) : Segment where
  tokens := s.tokens.map (Token.mapSpan place)
  outcome :=
    match s.outcome with
    | .ok stmt? => .ok (markStmt? (.moving place) stmt?)
    | .error f => .error (f.move place)

/-- Reading resumes at the same token. -/
theorem resume_map (ts : List Token) :
    resume (ts.map (Token.mapSpan place)) = (resume ts).map (Token.mapSpan place) := by
  induction ts with
  | nil => rfl
  | cons t ts ih =>
    simp only [List.map_cons, resume, Token.mapSpan, ih]
    split_ifs <;> rfl

theorem resume_subset (ts : List Token) : resume ts ⊆ ts := by
  induction ts with
  | nil => exact List.nil_subset _
  | cons t ts ih =>
    unfold resume
    split_ifs with hresumes hsemicolon
    · exact List.Subset.refl _
    · exact List.subset_cons_self t ts
    · exact List.subset_cons_of_subset t ih

/-- A failure that is moved is recovered from at the same token. -/
theorem Failure.recover_move (f : Failure) (start : List Token) :
    (f.move place).recover (start.map (Token.mapSpan place)) =
      (f.recover start).map (Token.mapSpan place) := by
  simp only [recover, move, List.length_map, ← resume_map]
  split_ifs
  · rw [List.map_drop]
  · rfl

theorem Failure.recover_subset (f : Failure) (start : List Token) : f.recover start ⊆ f.rest := by
  refine List.Subset.trans (resume_subset _) ?_
  split_ifs
  · exact List.drop_subset 1 f.rest
  · exact List.Subset.refl _

/-- The tokens that were read are moved. -/
theorem consumed_map (ts rest : List Token) :
    consumed (ts.map (Token.mapSpan place)) (rest.map (Token.mapSpan place)) =
      (consumed ts rest).map (Token.mapSpan place) := by
  simp only [consumed, List.length_map, List.map_take]

/-- The bound on nesting counts tokens. -/
theorem nestingBound_map (ts : List Token) :
    nestingBound (ts.map (Token.mapSpan place)) = nestingBound ts := by
  rw [nestingBound, nestingBound, List.length_map]

/-- Tokens at other places fall into the same segments, at other places. -/
theorem segmentsWithin_map {all : List Token} (v : Move all) (n : Nat) {ts : List Token}
    (hts : ts ⊆ all) :
    segmentsWithin n (ts.map (Token.mapSpan v.place)) =
      (segmentsWithin n ts).map (Segment.move v.place) := by
  induction n generalizing ts with
  | zero => rfl
  | succ n ih =>
    cases ts with
    | nil => rfl
    | cons t ts =>
      obtain ⟨hmoved, hrest⟩ := Grammar.moves_statement v (nestingBound (t :: ts)) (t :: ts) hts
      rw [List.map_cons, segmentsWithin, segmentsWithin, ← List.map_cons, nestingBound_map, hmoved]
      cases hreply : Grammar.statement (nestingBound (t :: ts)) (t :: ts) with
      | done s rest =>
        rw [hreply, Reply.rest] at hrest
        simp only [Reply.move]
        rw [consumed_map, ih hrest]
        rfl
      | failed f =>
        rw [hreply, Reply.rest] at hrest
        have hrecover : f.recover (t :: ts) ⊆ all := List.Subset.trans (f.recover_subset _) hrest
        simp only [Reply.move]
        rw [f.recover_move, consumed_map, ih hrecover]
        rfl
      | exhausted => rfl

/-- The statements of moved segments are marked. -/
theorem filterMap_stmt?_move (ss : List Segment) :
    (ss.map (Segment.move place)).filterMap Segment.stmt? =
      markStmts (.moving place) (ss.filterMap Segment.stmt?) := by
  induction ss with
  | nil => rfl
  | cons s ss ih =>
    rcases s with ⟨_, _ | _ | stmt⟩
    · exact ih
    · exact ih
    · exact congrArg _ ih

/-- The diagnostics of moved segments are moved, also those at the end of the source. -/
theorem filterMap_diagnostic?_move {size size' : Nat}
    (hsize : place (.emptyAt size) = .emptyAt size') (ss : List Segment) :
    List.Forall₂ (Diagnostic.Moved .parse place) (ss.filterMap (·.diagnostic? size))
      ((ss.map (Segment.move place)).filterMap (·.diagnostic? size')) := by
  induction ss with
  | nil => exact .nil
  | cons s ss ih =>
    rcases s with ⟨_, ⟨problem, site, _⟩ | _⟩
    · refine .cons ?_ ih
      cases site with
      | none =>
        have hend := Diagnostic.moved_blamed place (.parse problem) (.emptyAt size)
        rwa [hsize] at hend
      | some site => exact Diagnostic.moved_blamed place (.parse problem) site
    · exact ih

/-- Tokens at other places are parsed to the same statements, with other marks. -/
theorem stmts_parse_map {ts : List Token} (v : Move ts) (size size' : Nat) :
    (parse (ts.map (Token.mapSpan v.place)) size').stmts =
      markStmts (.moving v.place) (parse ts size).stmts := by
  simp only [parse, segments, List.length_map]
  rw [segmentsWithin_map v ts.length (List.Subset.refl ts), filterMap_stmt?_move]

/-- Tokens at other places have the same diagnostics, at other places. -/
theorem diagnostics_parse_map {ts : List Token} (v : Move ts) {size size' : Nat}
    (hsize : v.place (.emptyAt size) = .emptyAt size') :
    List.Forall₂ (Diagnostic.Moved .parse v.place) (parse ts size).diagnostics
      (parse (ts.map (Token.mapSpan v.place)) size').diagnostics := by
  simp only [parse, segments, List.length_map]
  rw [segmentsWithin_map v ts.length (List.Subset.refl ts)]
  exact filterMap_diagnostic?_move v.place hsize _

end Programs

end Lox
