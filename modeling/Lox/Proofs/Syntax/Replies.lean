import Lox.Proofs.Syntax.Completeness

/-!
# What productions reply

A production never goes back, so what it leaves is an end of the tokens that it was given. If it
fails, it blames the next token of those it leaves, or the end of input, or a token that was read on
the way there: the sign of an assignment, the word `super`, or the string that a property starts
with. The last two are read by one production and blamed by the next. So what is said of a reader
allows for tokens that were **seen** just before it.

A production does not meet the bound on nesting. Between two tokens that are read, productions call
each other along a fixed order: statements before expressions, and expressions from the loosest
level to the tightest. Each production has a **height** in that order, smaller than that of any
production that calls it before a token is read, and none is above 20. So 24 for each token and the
height of the production is a bound that is never met. What comes after a reader may be higher by 24
for each token that it reads at least.

A word that starts a statement is never blamed by the statement it starts.
-/

namespace Lox

variable {α β : Type}

/-- A reply to tokens, given a bound on nesting, a height and a number of tokens. One that is done
has read that many tokens at least. One that fails blames one of the tokens seen before or read
since, the next token, or the end of input. One is given up only below 24 for each token and the
height. -/
def Reply.Within (bound height reads : Nat) (seen ts : List Token) : Reply α → Prop
  | done _ rest => ∃ read, ts = read ++ rest ∧ reads ≤ read.length
  | failed f =>
    ∃ read, ts = read ++ f.rest ∧
      ∃ i ≤ (seen ++ read).length, f.site = (seen ++ ts)[i]?.map Token.span
  | exhausted => bound < 24 * ts.length + height

namespace Parse

/-- A reader that replies within the tokens it is given and those seen before. -/
def Replies (bound height reads : Nat) (seen : List Token) (p : Parse α) : Prop :=
  ∀ ts, (p ts).Within bound height reads seen ts

/-- A reader that, given a function literal, does not blame its word. -/
def PastFun (p : Parse α) : Prop := ∀ t ts, t.kind = .funWord → (p (t :: ts)).Within 0 1 0 [] ts

variable {n h h' k k' : Nat} {seen : List Token}

section Within

variable {ts : List Token} {r : Reply α}

/-- A token that was read has been seen. -/
theorem within_of_cons {t : Token} (hr : r.Within n (h + 24) (k - 1) [t] ts) :
    r.Within n h k seen (t :: ts) := by
  cases r with
  | done a rest =>
    obtain ⟨read, hts, hread⟩ := hr
    refine ⟨t :: read, by rw [hts, List.cons_append], ?_⟩
    rw [List.length_cons]
    omega
  | failed f =>
    obtain ⟨read, hts, i, hi, hsite⟩ := hr
    refine ⟨t :: read, by rw [hts, List.cons_append], seen.length + i, ?_, ?_⟩
    · simp only [List.length_append, List.length_cons, List.length_nil] at hi ⊢
      omega
    · rw [hsite, List.getElem?_append_right (Nat.le_add_right _ _), Nat.add_sub_cancel_left]
      rfl
  | exhausted =>
    change n < 24 * (ts.length + 1) + h
    have hless : n < 24 * ts.length + (h + 24) := hr
    omega

/-- What is left after a first reader is read by a second, which does not go back to what the first
has read. -/
theorem within_andThen {p : Parse α} {f : α → Parse β} {us : List Token}
    (hp : (p us).Within n h' k' [] ts) (hf : ∀ a, Replies n (h + 24 * k') (k - k') [] (f a))
    (hh : h' ≤ h := by omega) : ((p >>= f) us).Within n h k seen ts := by
  change (andThen p f us).Within n h k seen ts
  unfold andThen
  cases hreply : p us with
  | done a rest =>
    rw [hreply] at hp
    obtain ⟨read, rfl, hread⟩ := hp
    have hrest := hf a rest
    change (f a rest).Within n h k seen (read ++ rest)
    cases hreply : f a rest with
    | done b rest' =>
      rw [hreply] at hrest
      obtain ⟨read', rfl, hread'⟩ := hrest
      refine ⟨read ++ read', (List.append_assoc ..).symm, ?_⟩
      rw [List.length_append]
      omega
    | failed failure =>
      rw [hreply] at hrest
      obtain ⟨read', rfl, i, hi, hsite⟩ := hrest
      refine ⟨read ++ read', (List.append_assoc ..).symm, (seen ++ read).length + i, ?_, ?_⟩
      · have hlength : (seen ++ (read ++ read')).length = (seen ++ read).length + read'.length := by
          rw [← List.append_assoc, List.length_append]
        rw [hlength]
        exact Nat.add_le_add_left hi _
      · rw [hsite, ← List.append_assoc seen, List.getElem?_append_right (Nat.le_add_right _ _),
          Nat.add_sub_cancel_left, List.nil_append]
    | exhausted =>
      rw [hreply] at hrest
      have hless : n < 24 * rest.length + (h + 24 * k') := hrest
      change n < 24 * (read ++ rest).length + h
      rw [List.length_append]
      omega
  | failed failure =>
    rw [hreply] at hp
    obtain ⟨read, hts, i, hi, hsite⟩ := hp
    refine ⟨read, hts, seen.length + i, ?_, ?_⟩
    · rw [List.length_append]
      exact Nat.add_le_add_left hi _
    · rw [hsite, List.getElem?_append_right (Nat.le_add_right _ _), Nat.add_sub_cancel_left,
        List.nil_append]
  | exhausted =>
    rw [hreply] at hp
    exact Nat.lt_of_lt_of_le hp (Nat.add_le_add_left hh _)

end Within

section Replies

/-- What comes after a reader may be higher by 24 for each token that it reads at least. -/
theorem Replies.bind {p : Parse α} {f : α → Parse β} (hp : Replies n h' k' [] p)
    (hf : ∀ a, Replies n (h + 24 * k') (k - k') [] (f a)) (hh : h' ≤ h := by omega) :
    Replies n h k seen (p >>= f) :=
  fun ts => within_andThen (hp ts) hf

/-- What begins past the word for a function ends past it. -/
theorem PastFun.bind {p : Parse α} {f : α → Parse β} (hp : PastFun p)
    (hf : ∀ a, Replies 0 1 0 [] (f a)) : PastFun (p >>= f) :=
  fun t ts ht => within_andThen (hp t ts ht) hf

/-- Giving a value reads nothing. -/
theorem replies_pure (a : α) : Replies n h 0 seen (pure a) := fun _ => ⟨[], rfl, Nat.le_refl _⟩

/-- A reader replies under a greater height, with fewer tokens read, after any that were seen. -/
theorem Replies.weaken {p : Parse α} (hp : Replies n h' k' [] p) (hh : h' ≤ h := by omega)
    (hk : k ≤ k' := by omega) : Replies n h k seen p := by
  have hpure : (p >>= pure) = p := by
    funext ts
    change andThen p _ ts = p ts
    unfold andThen
    cases p ts <;> rfl
  rw [← hpure]
  refine hp.bind fun a => ?_
  rw [Nat.sub_eq_zero_of_le hk]
  exact replies_pure a

/-- What is said without a bound: a reader that may be given up reads and blames as before. -/
theorem Replies.unbounded {p : Parse α} (hp : Replies n h k [] p) : Replies 0 1 0 [] p := by
  intro ts
  have hreply := hp ts
  cases hp : p ts with
  | done a rest =>
    rw [hp] at hreply
    obtain ⟨read, hts, -⟩ := hreply
    exact ⟨read, hts, Nat.zero_le _⟩
  | failed f =>
    rw [hp] at hreply
    exact hreply
  | exhausted => exact Nat.succ_pos _

/-- Where the bound is used up, a production is given up. -/
theorem replies_zero (hh : 0 < h := by omega) : Replies 0 h k seen (exhausted : Parse α) :=
  fun _ => Nat.add_pos_right _ hh

/-- A production calls others with a bound that is less by one, so they may be less high by one. -/
theorem replies_succ {p : Parse α} (hp : Replies n (h - 1) k seen p) (hh : 0 < h := by omega) :
    Replies (n + 1) h k seen p := by
  intro ts
  have hreply := hp ts
  cases hp : p ts with
  | done | failed =>
    rw [hp] at hreply
    exact hreply
  | exhausted =>
    rw [hp] at hreply
    have hless : n < 24 * ts.length + (h - 1) := hreply
    change n + 1 < 24 * ts.length + h
    omega

/-- A failure at the next token blames that token, or the end of input. -/
theorem within_failHere (problem : ParseProblem) (ts : List Token) :
    (failHere problem ts : Reply α).Within n h k seen ts := by
  refine ⟨[], rfl, seen.length, by simp, ?_⟩
  rw [List.getElem?_append_right (Nat.le_refl _), Nat.sub_self, ← List.head?_eq_getElem?]

theorem replies_failHere (problem : ParseProblem) :
    Replies n h k seen (failHere problem : Parse α) :=
  fun ts => within_failHere problem ts

/-- A token that was seen may be blamed. -/
theorem replies_failAt (problem : ParseProblem) (t : Token) :
    Replies n h k [t] (failAt problem t.span : Parse α) :=
  fun _ => ⟨[], rfl, 0, Nat.zero_le _, rfl⟩

/-- Looking at the next token reads nothing. -/
theorem replies_sees_bind {f : Bool → Parse β} (kind : TokenKind)
    (hf : ∀ b, Replies n h k seen (f b)) : Replies n h k seen (sees kind >>= f) :=
  fun ts => hf _ ts

/-- The next token may be read, or left. -/
theorem replies_peek_bind {f : Option Token → Parse β} (hnone : Replies n h k seen (f none))
    (hsome : ∀ t ts, (f (some t) (t :: ts)).Within n h k seen (t :: ts)) :
    Replies n h k seen (peek >>= f) := by
  intro ts
  cases ts with
  | nil => exact hnone []
  | cons t ts => exact hsome t ts

/-- A token that is read where it was looked at may be blamed by what follows. -/
theorem Replies.skip {t : Token} {p : Parse β} (hp : Replies n (h + 24) (k - 1) [t] p)
    (ts : List Token) : ((Parse.skip >>= fun _ => p) (t :: ts)).Within n h k seen (t :: ts) :=
  within_of_cons (hp ts)

/-- Skipping never fails. -/
theorem replies_skip : Replies n 0 0 seen Parse.skip := by
  intro ts
  cases ts with
  | nil => exact ⟨[], rfl, Nat.le_refl _⟩
  | cons t ts => exact ⟨[t], rfl, Nat.zero_le _⟩

/-- A token that is accepted has been seen. -/
theorem replies_accept_bind {f : Option Token → Parse β} (kind : TokenKind)
    (hnone : Replies n h k seen (f none))
    (hsome : ∀ t, Replies n (h + 24) (k - 1) [t] (f (some t))) :
    Replies n h k seen (accept kind >>= f) := by
  intro ts
  change (andThen (accept kind) f ts).Within n h k seen ts
  unfold andThen accept
  cases ts with
  | nil => exact hnone []
  | cons t ts =>
    by_cases hkind : t.kind == kind
    · simp only [hkind, if_true]
      exact within_of_cons (hsome t ts)
    · simp only [hkind]
      exact hnone (t :: ts)

/-- A token that may be there is read or left. -/
theorem replies_accept (kind : TokenKind) : Replies n 0 0 seen (accept kind) := by
  intro ts
  unfold accept
  cases ts with
  | nil => exact ⟨[], rfl, Nat.le_refl _⟩
  | cons t ts =>
    by_cases hkind : t.kind == kind
    · simp only [hkind, if_true]
      exact ⟨[t], rfl, Nat.zero_le _⟩
    · simp only [hkind]
      exact ⟨[], rfl, Nat.le_refl _⟩

/-- A token that has to be there is read, or blamed in its absence. -/
theorem replies_expect (kind : TokenKind) (problem : ParseProblem) :
    Replies n 0 1 seen (expect kind problem) := by
  intro ts
  unfold expect
  cases ts with
  | nil => exact within_failHere problem []
  | cons t ts =>
    by_cases hkind : t.kind == kind
    · simp only [hkind, if_true]
      exact ⟨[t], rfl, Nat.le_refl _⟩
    · simp only [hkind]
      exact within_failHere problem (t :: ts)

theorem replies_mark (kind : TokenKind) : Replies n 0 1 seen (mark kind) := replies_expect kind _

/-- A mark that ends a production. -/
theorem replies_mark_pure (kind : TokenKind) (f : Token → β) :
    Replies n h 0 seen (do let t ← mark kind; pure (f t)) :=
  (replies_mark kind).bind fun _ => replies_pure _

theorem replies_ident (problem : ParseProblem) : Replies n 0 1 seen (ident problem) :=
  (replies_expect .identifier problem).bind fun _ => replies_pure _

end Replies

end Parse

/-! ## Productions -/

namespace Grammar

open Parse

/-- The height of operands of a level. -/
def operandHeight (l : Level) : Nat := 14 - 2 * l.rank

/-- A tighter level is lower by two. -/
theorem operandHeight_tighter {l tighter : Level} (h : l.tighter = some tighter) :
    operandHeight tighter + 2 = operandHeight l := by
  cases l <;> cases h <;> rfl

/-- Levels lie between the chains and the expressions. -/
theorem operandHeight_bounds (l : Level) : 4 ≤ operandHeight l ∧ operandHeight l ≤ 14 := by
  cases l <;> decide

/-- Parameters, with a name read before each call. -/
theorem replies_parameters (n count : Nat) : Replies n 1 0 [] (parameters n count) := by
  induction n generalizing count with
  | zero => exact replies_zero
  | succ n ih =>
    rw [parameters]
    refine replies_succ (replies_sees_bind .rightParen fun closes => ?_)
    cases closes with
    | true => exact replies_pure _
    | false =>
      by_cases hmany : maxParameters ≤ count
      · simp only [hmany, if_true, Bool.false_eq_true, if_false]
        exact replies_failHere _
      · simp only [hmany, Bool.false_eq_true, if_false]
        refine (replies_ident .parameterName).bind fun name => ?_
        refine replies_accept_bind .comma (replies_pure _) fun _ => ?_
        exact (ih (count + 1)).bind fun _ => replies_pure _

theorem replies_closeIf {n : Nat} (opening : Option Token) :
    Replies n 0 0 [] (closeIf opening) := by
  cases opening with
  | none => exact replies_pure _
  | some _ => exact replies_mark_pure _ _

theorem replies_extension {n : Nat} : Replies n 0 0 [] extension := by
  refine replies_accept_bind .extendsWord (replies_pure _) fun _ => ?_
  exact (replies_ident .identifier).bind fun _ => replies_pure _

/-- What follows the target of an assignment, whose sign is blamed for a target that cannot be
assigned. -/
theorem replies_assignment {n : Nat} (h : Replies n 16 1 [] (expression n)) (target : Expr) :
    Replies n 0 0 [] (do
    match ← accept .equal with
    | none => return target
    | some equal =>
      match target with
      | .var use => return .assign use (← expression n)
      | .get object name => return .set object name (← expression n)
      | .getKey object paren key => return .setKey object paren key (← expression n)
      | .index object index blame => return .setIndex object index blame (← expression n)
      | other => failAt (.target other.describe) equal.span) := by
  refine replies_accept_bind .equal (replies_pure _) fun equal => ?_
  cases target with
  | var | get | getKey | index => exact h.bind fun _ => replies_pure _
  | _ => exact replies_failAt _ equal

mutual

/-- A statement is below a list of statements. -/
theorem replies_statement : (n : Nat) → Replies n 18 1 [] (statement n)
  | 0 => replies_zero
  | n + 1 => by
    rw [statement]
    refine replies_succ (replies_peek_bind (replies_expressionStatement n) fun t ts => ?_)
    dsimp only
    cases t.kind with
    | letWord => exact ((replies_binding n true).bind fun _ => replies_pure _).skip ts
    | constWord => exact ((replies_binding n false).bind fun _ => replies_pure _).skip ts
    | ifWord => exact (replies_conditional n).weaken.skip ts
    | forWord => exact (replies_loop n).weaken.skip ts
    | printWord => exact ((replies_expression n).bind fun _ => replies_mark_pure _ _).skip ts
    | classWord => exact (replies_classDeclaration n).weaken.skip ts
    | leftBrace => exact ((replies_block n).bind fun _ => replies_pure _).skip ts
    | breakWord => exact (replies_mark_pure _ _).skip ts
    | continueWord => exact (replies_mark_pure _ _).skip ts
    | returnWord => exact (replies_returnStatement n t.span).weaken.skip ts
    | semicolon => exact (replies_pure _).skip ts
    | _ => exact replies_expressionStatement n (t :: ts)

/-- An expression statement is above expressions. -/
theorem replies_expressionStatement : (n : Nat) → Replies n 17 1 [] (expressionStatement n)
  | 0 => replies_zero
  | n + 1 => by
    rw [expressionStatement]
    refine replies_succ ((replies_expression n).bind fun e => ?_)
    cases e with
    | lambda name f => exact replies_pure _
    | _ => exact replies_mark_pure _ _

theorem replies_binding : (n : Nat) → (mutable : Bool) → Replies n 1 0 [] (binding n mutable)
  | 0, _ => replies_zero
  | n + 1, mutable => by
    rw [binding]
    refine replies_succ ((replies_ident .identifier).bind fun name => ?_)
    refine replies_accept_bind .equal (replies_mark_pure _ _) fun _ => ?_
    exact (replies_expression n).bind fun _ => replies_mark_pure _ _

/-- A conditional starts with an expression. -/
theorem replies_conditional : (n : Nat) → Replies n 17 0 [] (conditional n)
  | 0 => replies_zero
  | n + 1 => by
    rw [conditional]
    refine replies_succ ((replies_expression n).bind fun condition => ?_)
    refine (replies_expect .leftBrace .thenBlock).bind fun _ => ?_
    refine (replies_block n).bind fun body => (replies_alternative n).bind fun elseBranch => ?_
    cases blockOf body <;> cases elseBranch <;> exact replies_pure _

/-- What follows else starts with that word. -/
theorem replies_alternative : (n : Nat) → Replies n 1 0 [] (alternative n)
  | 0 => replies_zero
  | n + 1 => by
    rw [alternative]
    refine replies_succ (replies_accept_bind .elseWord (replies_pure _) fun _ => ?_)
    refine replies_accept_bind .ifWord ?_ fun _ => (replies_conditional n).weaken
    exact (replies_expect .leftBrace .elseBlock).bind fun _ =>
      (replies_block n).bind fun _ => replies_pure _

/-- A loop starts with a parenthesis or with what it declares. -/
theorem replies_loop : (n : Nat) → Replies n 2 0 [] (loop n)
  | 0 => replies_zero
  | n + 1 => by
    rw [loop]
    refine replies_succ ((replies_accept .leftParen).bind fun opening =>
      (replies_loopStart n).bind fun init => ?_)
    refine (replies_loopCondition n).bind fun condition =>
      (replies_loopCloser n _).bind fun closer => ?_
    refine (replies_closeIf opening).bind fun _ =>
      (replies_expect .leftBrace .loopBody).bind fun _ => ?_
    refine (replies_block n).bind fun body => ?_
    cases blockOf body <;> cases init <;> exact replies_pure _

/-- What a loop declares is at least a semicolon. -/
theorem replies_loopStart : (n : Nat) → Replies n 1 1 [] (loopStart n)
  | 0 => replies_zero
  | n + 1 => by
    rw [loopStart]
    refine replies_succ (replies_peek_bind (replies_failHere _) fun t ts => ?_)
    simp only [Option.map_some]
    cases t.kind with
    | semicolon => exact (replies_pure _).skip ts
    | letWord => exact ((replies_binding n true).bind fun _ => replies_pure _).skip ts
    | constWord => exact ((replies_binding n false).bind fun _ => replies_pure _).skip ts
    | _ => exact replies_failHere _ _

theorem replies_loopCondition : (n : Nat) → Replies n 17 0 [] (loopCondition n)
  | 0 => replies_zero
  | n + 1 => by
    rw [loopCondition]
    refine replies_succ (replies_accept_bind .semicolon ?_ fun _ => replies_pure _)
    exact (replies_expression n).bind fun _ => replies_mark_pure _ _

theorem replies_loopCloser :
    (n : Nat) → (ending : TokenKind) → Replies n 17 0 [] (loopCloser n ending)
  | 0, _ => replies_zero
  | n + 1, ending => by
    rw [loopCloser]
    refine replies_succ (replies_sees_bind ending fun ends => ?_)
    cases ends with
    | true => exact replies_pure _
    | false => exact (replies_expression n).bind fun _ => replies_pure _

/-- A return goes on with an expression or a semicolon. -/
theorem replies_returnStatement :
    (n : Nat) → (keyword : Span) → Replies n 17 0 [] (returnStatement n keyword)
  | 0, _ => replies_zero
  | n + 1, keyword => by
    rw [returnStatement]
    refine replies_succ (replies_sees_bind .semicolon fun ends => ?_)
    cases ends with
    | true => exact replies_skip.bind fun _ => replies_pure _
    | false => exact (replies_expression n).bind fun _ => replies_mark_pure _ _

theorem replies_classDeclaration : (n : Nat) → Replies n 1 0 [] (classDeclaration n)
  | 0 => replies_zero
  | n + 1 => by
    rw [classDeclaration]
    refine replies_succ ((replies_ident .className).bind fun name =>
      replies_extension.bind fun superclass => ?_)
    refine (replies_mark .leftBrace).bind fun _ => (replies_methodList n).bind fun methods => ?_
    exact replies_mark_pure _ _

/-- A method starts with a name. -/
theorem replies_methodList : (n : Nat) → Replies n 1 0 [] (methodList n)
  | 0 => replies_zero
  | n + 1 => by
    have hmethod : Replies n 0 0 [] (do
        let name ← ident .methodName
        let f ← functionRest n name.span
        return Method.mk name f :: (← methodList n)) :=
      (replies_ident .methodName).bind fun name => (replies_functionRest n name.span).bind fun f =>
        (replies_methodList n).bind fun _ => replies_pure _
    rw [methodList]
    refine replies_succ (replies_peek_bind (replies_pure _) fun t ts => ?_)
    simp only [Option.map_some]
    cases t.kind with
    | rightBrace => exact replies_pure _ _
    | _ => exact hmethod (t :: ts)

/-- A block is the highest production of all. -/
theorem replies_block : (n : Nat) → Replies n 20 0 [] (block n)
  | 0 => replies_zero
  | n + 1 => by
    rw [block]
    exact replies_succ ((replies_statements n).bind fun _ => replies_mark_pure _ _)

/-- A list of statements is just below a block. -/
theorem replies_statements : (n : Nat) → Replies n 19 0 [] (statements n)
  | 0 => replies_zero
  | n + 1 => by
    have hstatement : Replies n 18 0 [] (do
        let s ← statement n
        let rest ← statements n
        return s.toList ++ rest) :=
      (replies_statement n).bind fun _ => (replies_statements n).bind fun _ => replies_pure _
    rw [statements]
    refine replies_succ (replies_peek_bind (replies_pure _) fun t ts => ?_)
    simp only [Option.map_some]
    cases t.kind with
    | rightBrace => exact replies_pure _ _
    | _ => exact hstatement (t :: ts)

/-- An expression is above its loosest level. -/
theorem replies_expression : (n : Nat) → Replies n 16 1 [] (expression n)
  | 0 => replies_zero
  | n + 1 => by
    have hheight := operandHeight_bounds .disjunction
    rw [expression]
    exact replies_succ ((replies_climb n .disjunction).bind fun target =>
      (replies_assignment (replies_expression n) target).weaken)

/-- A level is above its operands. -/
theorem replies_climb :
    (n : Nat) → (level : Level) → Replies n (operandHeight level + 1) 1 [] (climb n level)
  | 0, _ => replies_zero
  | n + 1, level => by
    rw [climb]
    exact replies_succ ((replies_operand n level).bind fun left =>
      (replies_climbRest n level left).weaken)

/-- What goes on from a level starts with an operator. -/
theorem replies_climbRest :
    (n : Nat) → (level : Level) → (left : Expr) → Replies n 1 0 [] (climbRest n level left)
  | 0, _, _ => replies_zero
  | n + 1, level, left => by
    have hheight := operandHeight_bounds level
    rw [climbRest]
    refine replies_succ (replies_peek_bind (replies_pure _) fun t ts => ?_)
    dsimp only
    cases level.operator? t.kind with
    | none => exact replies_pure _ _
    | some op =>
      exact ((replies_operand n level).bind fun right => (replies_climbRest n level _).weaken).skip
        ts

/-- An operand is above the tighter level. -/
theorem replies_operand :
    (n : Nat) → (level : Level) → Replies n (operandHeight level) 1 [] (operand n level)
  | 0, level => replies_zero (Nat.lt_of_lt_of_le (by decide) (operandHeight_bounds level).1)
  | n + 1, level => by
    have hheight := operandHeight_bounds level
    rw [operand]
    refine replies_succ ?_
    cases htighter : level.tighter with
    | some tighter =>
      have hless := operandHeight_tighter htighter
      exact (replies_climb n tighter).weaken
    | none => exact (replies_unary n).weaken

/-- A unary operand is above a chain. -/
theorem replies_unary : (n : Nat) → Replies n 3 1 [] (unary n)
  | 0 => replies_zero
  | n + 1 => by
    rw [unary]
    refine replies_succ (replies_peek_bind (replies_chain n) fun t ts => ?_)
    dsimp only
    cases UnaryOp.ofKind? t.kind with
    | some op => exact ((replies_unary n).bind fun _ => replies_pure _).skip ts
    | none =>
      by_cases hfun : t.kind == .funWord
      · simp only [hfun, if_true]
        exact (replies_functionLiteral n t.span).weaken.skip ts
      · simp only [hfun]
        exact replies_chain n (t :: ts)

theorem replies_functionLiteral :
    (n : Nat) → (keyword : Span) → Replies n 2 0 [] (functionLiteral n keyword)
  | 0, _ => replies_zero
  | n + 1, keyword => by
    rw [functionLiteral]
    refine replies_succ ((replies_accept .identifier).bind fun name => ?_)
    exact (replies_functionRest n keyword).bind fun _ => replies_pure _

/-- A function starts with a parenthesis. -/
theorem replies_functionRest :
    (n : Nat) → (keyword : Span) → Replies n 1 0 [] (functionRest n keyword)
  | 0, _ => replies_zero
  | n + 1, keyword => by
    rw [functionRest]
    refine replies_succ ((replies_mark .leftParen).bind fun _ =>
      (replies_parameters n 0).bind fun params => ?_)
    refine (replies_mark .rightParen).bind fun _ => (replies_mark .leftBrace).bind fun _ => ?_
    exact (replies_block n).bind fun _ => replies_pure _

/-- A chain is above a primary expression. -/
theorem replies_chain : (n : Nat) → Replies n 2 1 [] (chain n)
  | 0 => replies_zero
  | n + 1 => by
    rw [chain]
    exact replies_succ ((replies_primary n).bind fun e => (replies_links n e).weaken)

/-- Links start with a token of their own. -/
theorem replies_links : (n : Nat) → (e : Expr) → Replies n 1 0 [] (links n e)
  | 0, _ => replies_zero
  | n + 1, e => by
    rw [links]
    refine replies_succ (replies_peek_bind (replies_pure _) fun t ts => ?_)
    dsimp only
    cases t.kind with
    | leftParen =>
      exact ((replies_argumentList n 0).bind fun arguments =>
        (replies_mark .rightParen).bind fun closing =>
        (replies_links n _).weaken).skip ts
    | dot =>
      exact ((replies_property n e).bind fun access => (replies_links n access).weaken).skip ts
    | leftBracket =>
      exact ((replies_expression n).bind fun index =>
        (replies_mark .rightBracket).bind fun closing =>
        (replies_links n _).weaken).skip ts
    | _ => exact replies_pure _ _

theorem replies_property : (n : Nat) → (object : Expr) → Replies n 1 0 [] (property n object)
  | 0, _ => replies_zero
  | n + 1, object => by
    rw [property]
    refine replies_succ (replies_peek_bind (replies_failHere _) fun t ts => ?_)
    dsimp only
    cases t.kind with
    | identifier => exact (replies_pure _).skip ts
    | leftParen => exact ((replies_expression n).bind fun _ => replies_mark_pure _ _).skip ts
    | _ => exact replies_failHere _ _

theorem replies_argumentList : (n : Nat) → ∀ count, Replies n 17 0 [] (argumentList n count)
  | 0 => fun _ => replies_zero
  | n + 1 => by
    intro count
    rw [argumentList]
    refine replies_succ (replies_sees_bind .rightParen fun closes => ?_)
    cases closes with
    | true => exact replies_pure _
    | false =>
      by_cases hmany : maxParameters ≤ count
      · simp only [hmany, if_true, Bool.false_eq_true, if_false]
        exact replies_failHere _
      · simp only [hmany, Bool.false_eq_true, if_false]
        refine (replies_expression n).bind fun e => ?_
        refine replies_accept_bind .comma (replies_pure _) fun _ => ?_
        exact (replies_argumentList n (count + 1)).bind fun _ => replies_pure _

/-- A primary expression reads a token before any other production. -/
theorem replies_primary : (n : Nat) → Replies n 1 1 [] (primary n)
  | 0 => replies_zero
  | n + 1 => by
    rw [primary]
    refine replies_succ (replies_peek_bind (replies_failHere _) fun t ts => ?_)
    dsimp only
    cases t.kind with
    | falseWord | trueWord | nilWord | number | string | char | identifier | thisWord =>
      exact (replies_pure _).skip ts
    | leftParen => exact ((replies_expression n).bind fun _ => replies_mark_pure _ _).skip ts
    | leftBracket => exact ((replies_elementList n).bind fun _ => replies_mark_pure _ _).skip ts
    | leftBrace => exact ((replies_fieldList n).bind fun _ => replies_mark_pure _ _).skip ts
    | superWord => exact (replies_superUse n t).skip ts
    | _ => exact replies_failHere _ _

/-- The word `super` is blamed after it was read. -/
theorem replies_superUse : (n : Nat) → (t : Token) → Replies n 24 0 [t] (superUse n t.span)
  | 0, _ => replies_zero
  | _ + 1, t => by
    rw [superUse]
    refine replies_succ (replies_sees_bind .leftParen fun calls => ?_)
    cases calls with
    | true => exact replies_pure _
    | false =>
      refine replies_accept_bind .dot (replies_failAt _ t) fun _ => ?_
      exact (replies_ident .superMethod).bind fun _ => replies_pure _

theorem replies_elementList : (n : Nat) → Replies n 17 0 [] (elementList n)
  | 0 => replies_zero
  | n + 1 => by
    rw [elementList]
    refine replies_succ (replies_sees_bind .rightBracket fun closes => ?_)
    cases closes with
    | true => exact replies_pure _
    | false =>
      refine (replies_expression n).bind fun e =>
        replies_accept_bind .comma (replies_pure _) fun _ => ?_
      exact (replies_elementList n).bind fun _ => replies_pure _

/-- A list of fields is above a field. -/
theorem replies_fieldList : (n : Nat) → Replies n 2 0 [] (fieldList n)
  | 0 => replies_zero
  | n + 1 => by
    rw [fieldList]
    refine replies_succ (replies_sees_bind .rightBrace fun closes => ?_)
    cases closes with
    | true => exact replies_pure _
    | false =>
      refine (replies_field n).bind fun f => replies_accept_bind .comma (replies_pure _) fun _ => ?_
      exact (replies_fieldList n).bind fun _ => replies_pure _

theorem replies_field : (n : Nat) → Replies n 1 1 [] (field n)
  | 0 => replies_zero
  | n + 1 => by
    rw [field]
    refine replies_succ (replies_peek_bind (replies_failHere _) fun t ts => ?_)
    dsimp only
    cases t.kind with
    | identifier =>
      refine Replies.skip (replies_accept_bind .colon (replies_pure _) fun _ => ?_) ts
      exact (replies_expression n).bind fun _ => replies_pure _
    | string =>
      refine Replies.skip (replies_accept_bind .colon (replies_failAt _ t) fun _ => ?_) ts
      exact (replies_expression n).bind fun _ => replies_pure _
    | _ => exact replies_failHere _ _

end

/-- The bound that a statement is read with is not met. -/
theorem statement_ne_exhausted (ts : List Token) : statement (nestingBound ts) ts ≠ .exhausted := by
  intro hexhausted
  have hreply := replies_statement (nestingBound ts) ts
  rw [hexhausted] at hreply
  have hless : nestingBound ts < 24 * ts.length + 18 := hreply
  rw [nestingBound] at hless
  omega

/-- A statement reads at least one token. -/
theorem length_of_statement {n : Nat} {ts rest : List Token} {s : Option Stmt}
    (h : statement n ts = .done s rest) : rest.length < ts.length := by
  have hreply := replies_statement n ts
  rw [h] at hreply
  obtain ⟨read, rfl, hread⟩ := hreply
  rw [List.length_append]
  omega

/-! ## Words that start a statement -/

/-- A unary operand that starts with the word for a function reads it. -/
theorem pastFun_unary (n : Nat) : PastFun (unary n) := by
  intro t ts ht
  cases n with
  | zero => exact Nat.succ_pos _
  | succ n =>
    have hliteral : unary (n + 1) (t :: ts) = functionLiteral n t.span ts := by
      rw [unary, peek_bind]
      simp only [List.head?_cons, ht]
      rfl
    rw [hliteral]
    exact (replies_functionLiteral n t.span).unbounded ts

mutual

/-- So does a level, whatever follows its first operand. -/
theorem pastFun_climb : (n : Nat) → (level : Level) → PastFun (climb n level)
  | 0, _ => fun _ _ _ => Nat.succ_pos _
  | n + 1, level => by
    rw [climb]
    exact (pastFun_operand n level).bind fun left => (replies_climbRest n level left).unbounded

theorem pastFun_operand : (n : Nat) → (level : Level) → PastFun (operand n level)
  | 0, _ => fun _ _ _ => Nat.succ_pos _
  | n + 1, level => by
    rw [operand]
    cases level.tighter with
    | some tighter => exact pastFun_climb n tighter
    | none => exact pastFun_unary n

end

/-- So does an expression. -/
theorem pastFun_expression (n : Nat) : PastFun (expression n) := by
  cases n with
  | zero => exact fun _ _ _ => Nat.succ_pos _
  | succ n =>
    rw [expression]
    exact (pastFun_climb n .disjunction).bind fun target =>
      (replies_assignment (replies_expression n) target).unbounded

theorem pastFun_expressionStatement (n : Nat) : PastFun (expressionStatement n) := by
  cases n with
  | zero => exact fun _ _ _ => Nat.succ_pos _
  | succ n =>
    rw [expressionStatement]
    refine (pastFun_expression n).bind fun e => ?_
    cases e with
    | lambda name f => exact replies_pure _
    | _ => exact replies_mark_pure _ _

/-- A word at which reading goes on after a failure is read by the statement it starts and never
blamed by it. -/
theorem within_statement_of_resumes {t : Token} (ht : t.kind.resumes = true) (n : Nat)
    (ts : List Token) : (statement n (t :: ts)).Within 0 1 0 [] ts := by
  cases n with
  | zero => exact Nat.succ_pos _
  | succ n =>
    rw [statement, peek_bind]
    simp only [List.head?_cons]
    cases hkind : t.kind with
    | classWord => exact (replies_classDeclaration n).unbounded ts
    | funWord => exact pastFun_expressionStatement n t ts hkind
    | letWord =>
      exact (replies_binding n true).unbounded.bind (fun _ => replies_pure _) (by omega) ts
    | constWord =>
      exact (replies_binding n false).unbounded.bind (fun _ => replies_pure _) (by omega) ts
    | forWord => exact (replies_loop n).unbounded ts
    | ifWord => exact (replies_conditional n).unbounded ts
    | printWord =>
      exact (replies_expression n).unbounded.bind (fun _ => replies_mark_pure _ _) (by omega) ts
    | returnWord => exact (replies_returnStatement n t.span).unbounded ts
    | _ =>
      rw [hkind] at ht
      cases ht

end Grammar

end Lox
