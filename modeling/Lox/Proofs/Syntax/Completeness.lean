import Lox.Proofs.Syntax.Greedy

/-!
# Every greedy word is read

A production given a word of its symbol, followed by tokens that do not go on from it, reads that
word and gives its tree, unless it meets the bound on nesting. What may follow a word is different
from symbol to symbol: `Reads` says it for each, and `Derives.reads` shows it by induction on a
greedy derivation, with one lemma for each rule.

Two productions read on for as long as they can, so a word before other tokens takes them to the
place where they go on from its tree: `climb` to `climbRest`, and `chain` to `links`.
-/

namespace Lox

/-! ## Replies up to the bound -/

/-- A reply is the one given, unless the bound was met. -/
def Reply.Gives {α : Type} (r : Reply α) (a : α) (rest : List Token) : Prop :=
  r = .exhausted ∨ r = .done a rest

namespace Parse

variable {α β : Type} {ts mid rest : List Token} {a : α} {b : β} {kind : TokenKind} {t : Token}

/-- A value is given without reading. -/
theorem gives_pure : ((pure a : Parse α) ts).Gives a ts := .inr rfl

/-- A reader that is done hands its value and the rest to the next one. -/
theorem done_bind {p : Parse α} (f : α → Parse β) (h : p ts = .done a mid) :
    (p >>= f) ts = f a mid := by
  change andThen p f ts = _
  rw [andThen, h]

/-- Where a reader meets the bound, so does what begins with it. -/
theorem exhausted_bind {p : Parse α} (f : α → Parse β) (h : p ts = .exhausted) :
    (p >>= f) ts = .exhausted := by
  change andThen p f ts = _
  rw [andThen, h]

/-- Replies up to the bound compose. -/
theorem gives_bind {p : Parse α} {f : α → Parse β} (h : (p ts).Gives a mid)
    (hf : (f a mid).Gives b rest) : ((p >>= f) ts).Gives b rest := by
  rcases h with h | h
  · exact .inl (exhausted_bind f h)
  · rwa [done_bind f h]

/-- A token of the kind that is accepted is taken. -/
theorem accept_of_kind (h : t.kind = kind) : accept kind (t :: ts) = .done (some t) ts :=
  accept_some_iff.mpr ⟨rfl, h⟩

/-- A token of another kind is left. -/
theorem accept_of_not (h : Grammar.startsWith kind ts = false) : accept kind ts = .done none ts :=
  accept_none_iff.mpr ⟨rfl, h⟩

theorem expect_of_kind {problem : ParseProblem} (h : t.kind = kind) :
    expect kind problem (t :: ts) = .done t ts :=
  expect_done_iff.mpr ⟨rfl, h⟩

theorem mark_of_kind (h : t.kind = kind) : mark kind (t :: ts) = .done t ts :=
  mark_done_iff.mpr ⟨rfl, h⟩

/-- An identifier is read as the name that it spells. -/
theorem ident_of_kind {problem : ParseProblem} (h : t.kind = .identifier) :
    ident problem (t :: ts) = .done (Grammar.identOf t) ts := ident_done_iff.mpr ⟨t, rfl, h, rfl⟩

end Parse

/-! ## What may follow -/

namespace TokenKind

/-- The kinds that end an expression wherever they come next. -/
def closes (k : TokenKind) : Bool :=
  [.semicolon, .leftBrace, .rightParen, .rightBracket, .rightBrace, .comma].contains k

/-- The kinds that go on from a chain. -/
def links (k : TokenKind) : Bool := [.leftParen, .dot, .leftBracket].contains k

end TokenKind

/-- How tight a level binds. -/
def Level.rank : Level → Nat
  | disjunction => 0
  | conjunction => 1
  | equality => 2
  | comparison => 3
  | sum => 4
  | product => 5

/-- Tighter levels rank one higher. -/
theorem Level.rank_tighter {l tighter : Level} (h : l.tighter = some tighter) :
    tighter.rank = l.rank + 1 := by
  cases l <;> cases h <;> rfl

/-- An operator stands on one level. -/
theorem Level.eq_of_operator? {l l' : Level} {k : TokenKind} {op op' : InfixOp}
    (h : l.operator? k = some op) (h' : l'.operator? k = some op') : l = l' := by
  unfold operator? at h
  split at h <;> cases h <;> cases l' <;> first | rfl | cases h'

/-- A token that is an operator between operands is nothing else, but for the minus sign. -/
theorem Level.kind_of_operator? {l : Level} {k : TokenKind} {op : InfixOp}
    (h : l.operator? k = some op) :
    k.closes = false ∧ k.links = false ∧ k ≠ .equal ∧ (k.opensStatement → k = .minus) := by
  unfold operator? at h
  split at h <;> cases h <;> decide

namespace Grammar

open Parse

/-- No operator of a level comes next. -/
def NoOperator (l : Level) (rest : List Token) : Prop := ∀ t ∈ rest.head?, l.operator? t.kind = none

/-- No operator of a tighter level comes next. -/
def NoTighter (l : Level) (rest : List Token) : Prop := ∀ l', l.rank < l'.rank → NoOperator l' rest

/-- Nothing comes next that goes on from an operand. Nothing goes on from a function literal. -/
def EndsOperand (e : Expr) (rest : List Token) : Prop :=
  isLambda e ∨ opensWith TokenKind.links rest = false

/-- Nothing comes next that goes on from an expression. -/
structure EndsExpression (e : Expr) (rest : List Token) : Prop where
  operand : EndsOperand e rest
  operator (l : Level) : NoOperator l rest
  equal : startsWith .equal rest = false

/-- Nothing comes next that goes on from a statement. -/
structure EndsStatement (s : Option Stmt) (rest : List Token) : Prop where
  alternative : startsWith .elseWord rest = false
  function (f : Expr) : s = some (.evaluate f) → isLambda f → EndsExpression f rest

/-- A list of statements ends here. -/
def EndsList (rest : List Token) : Prop := rest = [] ∨ startsWith .rightBrace rest

/-- Tokens that open with no operator of a level do not go on from its operand. -/
theorem noOperator_of_opensWith {l : Level} {rest : List Token} {p : TokenKind → Bool}
    (h : opensWith p rest) (hp : ∀ {k op}, l.operator? k = some op → p k = false) :
    NoOperator l rest := by
  intro t ht
  obtain ⟨u, rest, rfl, hu⟩ := cons_of_opensWith h
  obtain rfl : u = t := Option.some.inj ht
  cases hop : l.operator? u.kind with
  | none => rfl
  | some op =>
    rw [hp hop] at hu
    cases hu

/-- What closes a bracket or a statement does not go on from a chain. -/
theorem links_of_closes {k : TokenKind} (h : k.closes) : k.links = false := by
  cases k <;> first | rfl | cases h

/-- A bracket that closes, a brace, a comma or a semicolon ends any expression. -/
theorem endsExpression_of_closes {e : Expr} {rest : List Token}
    (h : opensWith TokenKind.closes rest) : EndsExpression e rest := by
  refine ⟨.inr ?_, fun l => noOperator_of_opensWith h fun hop => (Level.kind_of_operator? hop).1,
    startsWith_of_opensWith h rfl⟩
  obtain ⟨t, rest, rfl, ht⟩ := cons_of_opensWith h
  exact links_of_closes ht

/-- A token that closes something stands first. -/
theorem closes_of_kind {kind : TokenKind} {t : Token} {rest : List Token} (h : t.kind = kind)
    (hkind : kind.closes) : opensWith TokenKind.closes (t :: rest) := by
  rw [opensWith_cons, h, hkind]

theorem closes_of_startsWith {kind : TokenKind} {rest : List Token} (h : startsWith kind rest)
    (hkind : kind.closes) : opensWith TokenKind.closes rest := by
  obtain ⟨t, rest, rfl, ht⟩ := head_of_kind (beq_iff_eq.mp h)
  exact closes_of_kind ht hkind

/-- The kinds that a list of statements goes on with, or ends at, end a function literal that is a
statement. -/
theorem endsStatement_of_opens {s : Option Stmt} {rest : List Token}
    (h : opensWith TokenKind.opensStatement rest)
    (hminus : isFunctionStatement s → startsWith .minus rest = false) : EndsStatement s rest := by
  refine ⟨startsWith_of_opensWith h rfl, ?_⟩
  rintro f rfl hlambda
  refine ⟨.inl hlambda, fun l t ht => ?_, startsWith_of_opensWith h rfl⟩
  obtain ⟨u, rest, rfl, hu⟩ := cons_of_opensWith h
  obtain rfl : u = t := Option.some.inj ht
  cases hop : l.operator? u.kind with
  | none => rfl
  | some op =>
    have hminus := hminus hlambda
    rw [startsWith_cons, (Level.kind_of_operator? hop).2.2.2 hu] at hminus
    cases hminus

/-- What ends a list of statements ends its last statement. -/
theorem endsStatement_of_endsList {s : Option Stmt} {rest : List Token} (h : EndsList rest) :
    EndsStatement s rest := by
  rcases h with rfl | h
  · exact ⟨rfl, fun f _ hlambda => ⟨.inl hlambda, nofun, rfl⟩⟩
  · have hcloses := closes_of_startsWith h rfl
    exact ⟨startsWith_of_opensWith hcloses rfl, fun f _ _ => endsExpression_of_closes hcloses⟩

/-! ## Reading -/

/-- A word is read whatever the bound on nesting, if it does not meet it and nothing comes next that
goes on from the word. -/
def Reads : (n : Symbol) → List Token → n.Tree → Prop
  | .statements, w, program =>
    ∀ m rest, EndsList rest → (Grammar.statements m (w ++ rest)).Gives program rest
  | .statement, w, s =>
    ∀ m rest, EndsStatement s rest → (Grammar.statement m (w ++ rest)).Gives s rest
  | .block, w, body => ∃ opening w', w = opening :: w' ∧ opening.kind = .leftBrace ∧
      ∀ m rest, (Grammar.block m (w' ++ rest)).Gives body rest
  | .binding mutable, w, s => ∀ m rest, (Grammar.binding m mutable (w ++ rest)).Gives s rest
  | .conditional, w, s => ∀ m rest, startsWith .elseWord rest = false →
      (Grammar.conditional m (w ++ rest)).Gives s rest
  | .alternative, w, s => ∀ m rest, startsWith .elseWord rest = false →
      (Grammar.alternative m (w ++ rest)).Gives s rest
  | .loopStart, w, s => ∀ m rest, (Grammar.loopStart m (w ++ rest)).Gives s rest
  | .loopCondition, w, condition =>
    ∀ m rest, (Grammar.loopCondition m (w ++ rest)).Gives condition rest
  | .loopCloser, w, closer => ∀ m rest ending, ending.closes → startsWith ending w = false →
      startsWith ending rest → (Grammar.loopCloser m ending (w ++ rest)).Gives closer rest
  | .extension, w, superclass => ∀ rest, startsWith .extendsWord rest = false →
      Grammar.extension (w ++ rest) = .done superclass rest
  | .methods, w, methods => ∀ m rest, startsWith .rightBrace rest →
      (Grammar.methodList m (w ++ rest)).Gives methods rest
  | .function keyword, w, f => ∀ m rest, (Grammar.functionRest m keyword (w ++ rest)).Gives f rest
  | .parameters, w, names =>
    ∀ m rest count, startsWith .rightParen rest → count + names.length ≤ maxParameters →
      (Grammar.parameters m count (w ++ rest)).Gives names rest
  | .expression, w, e =>
    ∀ m rest, EndsExpression e rest → (Grammar.expression m (w ++ rest)).Gives e rest
  | .level l, w, e =>
    ∀ m rest, NoTighter l rest → EndsOperand e rest → Grammar.climb m l (w ++ rest) = .exhausted ∨
      ∃ m', Grammar.climb m l (w ++ rest) = Grammar.climbRest m' l e rest
  | .operand l, w, e => ∀ m rest, NoTighter l rest → EndsOperand e rest →
      (Grammar.operand m l (w ++ rest)).Gives e rest
  | .unary, w, e => ∀ m rest, EndsOperand e rest → (Grammar.unary m (w ++ rest)).Gives e rest
  | .chain, w, e => ∀ m rest, Grammar.chain m (w ++ rest) = .exhausted ∨
      ∃ m', Grammar.chain m (w ++ rest) = Grammar.links m' e rest
  | .primary, w, e => ∀ m rest, (Grammar.primary m (w ++ rest)).Gives e rest
  | .expressions, w, es =>
    (∀ m rest count, startsWith .rightParen rest → count + es.length ≤ maxParameters →
      (Grammar.argumentList m count (w ++ rest)).Gives es rest) ∧
      ∀ m rest, startsWith .rightBracket rest → (Grammar.elementList m (w ++ rest)).Gives es rest
  | .fields, w, fs =>
    ∀ m rest, startsWith .rightBrace rest → (Grammar.fieldList m (w ++ rest)).Gives fs rest
  | .field, w, f =>
    ∀ m rest, opensWith TokenKind.closes rest → (Grammar.field m (w ++ rest)).Gives f rest

namespace Reads

/-! ### Statements -/

/-- No statement at all is a list of statements. -/
theorem noStatement : Reads .statements [] [] := by
  intro m rest hrest
  cases m with
  | zero => exact .inl rfl
  | succ m =>
    rw [List.nil_append, Grammar.statements, peek_bind]
    rcases hrest with rfl | hrest
    · exact gives_pure
    · rw [beq_iff_eq.mp hrest]
      exact gives_pure

/-- A statement before others is read up to where they begin. -/
theorem statements {w w' : List Token} {s : Option Stmt} {program : List Stmt}
    (hs : Opens .statement w) (hw' : Opens .statements w')
    (hminus : isFunctionStatement s → startsWith .minus w' = false) (h : Reads .statement w s)
    (h' : Reads .statements w' program) : Reads .statements (w ++ w') (s.toList ++ program) := by
  intro m rest hrest
  cases m with
  | zero => exact .inl rfl
  | succ m =>
    have hends : EndsStatement s (w' ++ rest) := by
      rcases hw' with rfl | hw'
      · exact endsStatement_of_endsList hrest
      · refine endsStatement_of_opens (opensWith_append hw') fun hs => ?_
        rw [startsWith_append hw']
        exact hminus hs
    have hstatement := h m (w' ++ rest) hends
    obtain ⟨t, w, rfl, ht⟩ := cons_of_opensWith hs
    have hbrace : t.kind ≠ .rightBrace := by
      intro hk
      rw [hk] at ht
      cases ht
    rw [List.append_assoc, Grammar.statements, peek_bind]
    simp only [List.cons_append, List.head?_cons, Option.map_some]
    exact gives_bind hstatement (gives_bind (h' m rest hrest) gives_pure)

/-- A block is read from brace to brace. -/
theorem block {opening closing : Token} {w : List Token} {body : List Stmt}
    (hopening : opening.kind = .leftBrace) (h : Reads .statements w body)
    (hclosing : closing.kind = .rightBrace) : Reads .block (opening :: (w ++ [closing])) body := by
  refine ⟨opening, w ++ [closing], rfl, hopening, fun m rest => ?_⟩
  cases m with
  | zero => exact .inl rfl
  | succ m =>
    have hends : EndsList (closing :: rest) := by
      refine .inr ?_
      rw [startsWith_cons, hclosing]
      rfl
    rw [List.append_assoc, Grammar.block]
    refine gives_bind (h m _ hends) ?_
    rw [List.singleton_append, done_bind _ (mark_of_kind hclosing)]
    exact gives_pure

/-- A word that declares a variable is followed by its binding. -/
theorem letStatement {word : Token} {w : List Token} {s : Stmt} (hk : word.kind = .letWord)
    (h : Reads (.binding true) w s) : Reads .statement (word :: w) (some s) := by
  intro m rest _
  cases m with
  | zero => exact .inl rfl
  | succ m =>
    simp only [List.cons_append, Grammar.statement, peek_bind, List.head?_cons, hk, skip_bind]
    exact gives_bind (h m rest) gives_pure

/-- A word that declares a constant is followed by its binding. -/
theorem constStatement {word : Token} {w : List Token} {s : Stmt} (hk : word.kind = .constWord)
    (h : Reads (.binding false) w s) : Reads .statement (word :: w) (some s) := by
  intro m rest _
  cases m with
  | zero => exact .inl rfl
  | succ m =>
    simp only [List.cons_append, Grammar.statement, peek_bind, List.head?_cons, hk, skip_bind]
    exact gives_bind (h m rest) gives_pure

/-- A conditional follows its word. -/
theorem ifStatement {word : Token} {w : List Token} {s : Option Stmt} (hk : word.kind = .ifWord)
    (h : Reads .conditional w s) : Reads .statement (word :: w) s := by
  intro m rest hrest
  cases m with
  | zero => exact .inl rfl
  | succ m =>
    simp only [List.cons_append, Grammar.statement, peek_bind, List.head?_cons, hk, skip_bind]
    exact h m rest hrest.alternative

/-- What a loop does after its head is read. -/
theorem gives_loopOf {m : Nat} {ts rest : List Token} {init : Option Stmt}
    {condition closer : Option Expr} {body : List Stmt} (h : (Grammar.block m ts).Gives body rest) :
    ((do
      match blockOf (← Grammar.block m), init with
      | none, _ => return none
      | some body, none => return some (.loop condition body closer)
      | some body, some declaration =>
        return some (.block [declaration, .loop condition body closer]) :
        Parse (Option Stmt)) ts).Gives (loopOf init condition closer (blockOf body)) rest := by
  refine gives_bind h ?_
  cases blockOf body <;> cases init <;> exact gives_pure

/-- The parts of a loop without parentheses are read up to its block. -/
theorem forStatement {word : Token} {w₁ w₂ w₃ w₄ : List Token} {init : Option Stmt}
    {condition closer : Option Expr} {body : List Stmt} (hk : word.kind = .forWord)
    (hw₁ : Opens .loopStart w₁) (hstart : Reads .loopStart w₁ init)
    (hcondition : Reads .loopCondition w₂ condition) (hcloser : Reads .loopCloser w₃ closer)
    (hbrace : startsWith .leftBrace w₃ = false) (hbody : Reads .block w₄ body) :
    Reads .statement (word :: (w₁ ++ (w₂ ++ (w₃ ++ w₄))))
      (loopOf init condition closer (blockOf body)) := by
  intro m rest _
  obtain ⟨opening, w₄, rfl, hopening, hbody⟩ := hbody
  cases m with
  | zero => exact .inl rfl
  | succ m =>
    simp only [List.cons_append, Grammar.statement, peek_bind, List.head?_cons, hk, skip_bind,
      List.append_assoc]
    cases m with
    | zero => exact .inl rfl
    | succ m =>
      rw [Grammar.loop, done_bind _
        (accept_of_not (startsWith_of_opensWith (opensWith_append hw₁) rfl))]
      refine gives_bind (hstart m _)
        (gives_bind (hcondition m _) (gives_bind (hcloser m _ _ rfl hbrace ?_) ?_))
      · rw [startsWith_cons, hopening]
        rfl
      · rw [done_bind _ (show closeIf none _ = .done () _ from rfl),
          done_bind _ (expect_of_kind hopening)]
        exact gives_loopOf (hbody m rest)

/-- The parts of a loop in parentheses are read up to the closing one. -/
theorem parenForStatement {word opening closing : Token} {w₁ w₂ w₃ w₄ : List Token}
    {init : Option Stmt} {condition closer : Option Expr} {body : List Stmt}
    (hk : word.kind = .forWord) (hopening : opening.kind = .leftParen)
    (hstart : Reads .loopStart w₁ init) (hcondition : Reads .loopCondition w₂ condition)
    (hw₃ : Opens .loopCloser w₃) (hcloser : Reads .loopCloser w₃ closer)
    (hclosing : closing.kind = .rightParen) (hbody : Reads .block w₄ body) :
    Reads .statement (word :: opening :: (w₁ ++ (w₂ ++ (w₃ ++ closing :: w₄))))
      (loopOf init condition closer (blockOf body)) := by
  intro m rest _
  obtain ⟨brace, w₄, rfl, hbrace, hbody⟩ := hbody
  cases m with
  | zero => exact .inl rfl
  | succ m =>
    simp only [List.cons_append, Grammar.statement, peek_bind, List.head?_cons, hk, skip_bind,
      List.append_assoc]
    cases m with
    | zero => exact .inl rfl
    | succ m =>
      have hparen : startsWith .rightParen w₃ = false := by
        rcases hw₃ with rfl | hw₃
        · rfl
        · exact startsWith_of_opensWith hw₃ rfl
      rw [Grammar.loop, done_bind _ (accept_of_kind hopening)]
      refine gives_bind (hstart m _)
        (gives_bind (hcondition m _) (gives_bind (hcloser m _ _ rfl hparen ?_) ?_))
      · rw [startsWith_cons, hclosing]
        rfl
      · have hclose : closeIf (some opening) (closing :: brace :: (w₄ ++ rest)) =
            .done () (brace :: (w₄ ++ rest)) :=
          done_bind _ (mark_of_kind hclosing)
        rw [done_bind _ hclose, done_bind _ (expect_of_kind hbrace)]
        exact gives_loopOf (hbody m rest)

/-- What is printed is an expression up to the semicolon. -/
theorem printStatement {word semicolon : Token} {w : List Token} {e : Expr}
    (hk : word.kind = .printWord) (h : Reads .expression w e)
    (hsemicolon : semicolon.kind = .semicolon) :
    Reads .statement (word :: (w ++ [semicolon])) (some (.print e)) := by
  intro m rest _
  cases m with
  | zero => exact .inl rfl
  | succ m =>
    simp only [List.cons_append, List.append_assoc, List.nil_append, Grammar.statement, peek_bind,
      List.head?_cons, hk, skip_bind]
    refine gives_bind (h m _ (endsExpression_of_closes (closes_of_kind hsemicolon rfl))) ?_
    rw [done_bind _ (mark_of_kind hsemicolon)]
    exact gives_pure

/-- A class has a name, what it extends, and methods in braces. -/
theorem classStatement {word name opening closing : Token} {w₁ w₂ : List Token}
    {superclass : Option NameUse} {methods : List Method} (hk : word.kind = .classWord)
    (hname : name.kind = .identifier) (hextension : Reads .extension w₁ superclass)
    (hopening : opening.kind = .leftBrace) (hmethods : Reads .methods w₂ methods)
    (hclosing : closing.kind = .rightBrace) :
    Reads .statement (word :: name :: (w₁ ++ opening :: (w₂ ++ [closing])))
      (some (.classDecl (identOf name) superclass methods)) := by
  intro m rest _
  cases m with
  | zero => exact .inl rfl
  | succ m =>
    simp only [List.cons_append, List.append_assoc, List.nil_append, Grammar.statement, peek_bind,
      List.head?_cons, hk, skip_bind]
    cases m with
    | zero => exact .inl rfl
    | succ m =>
      have hextends : startsWith .extendsWord (opening :: (w₂ ++ closing :: rest)) = false := by
        rw [startsWith_cons, hopening]
        rfl
      have hbrace : startsWith .rightBrace (closing :: rest) := by
        rw [startsWith_cons, hclosing]
        rfl
      rw [Grammar.classDeclaration, done_bind _ (ident_of_kind hname),
        done_bind _ (hextension _ hextends), done_bind _ (mark_of_kind hopening)]
      refine gives_bind (hmethods m _ hbrace) ?_
      rw [done_bind _ (mark_of_kind hclosing)]
      exact gives_pure

/-- A block where a statement is due is a statement. -/
theorem blockStatement {w : List Token} {body : List Stmt} (h : Reads .block w body) :
    Reads .statement w (blockOf body) := by
  intro m rest _
  obtain ⟨opening, w, rfl, hopening, hbody⟩ := h
  cases m with
  | zero => exact .inl rfl
  | succ m =>
    simp only [List.cons_append, Grammar.statement, peek_bind, List.head?_cons, hopening, skip_bind]
    exact gives_bind (hbody m rest) gives_pure

/-- A jump out of a loop is a word and a semicolon. -/
theorem breakStatement {word semicolon : Token} (hk : word.kind = .breakWord)
    (hsemicolon : semicolon.kind = .semicolon) :
    Reads .statement [word, semicolon] (some (.brk word.span)) := by
  intro m rest _
  cases m with
  | zero => exact .inl rfl
  | succ m =>
    simp only [List.cons_append, List.nil_append, Grammar.statement, peek_bind, List.head?_cons, hk,
      skip_bind, done_bind _ (mark_of_kind hsemicolon)]
    exact gives_pure

theorem continueStatement {word semicolon : Token} (hk : word.kind = .continueWord)
    (hsemicolon : semicolon.kind = .semicolon) :
    Reads .statement [word, semicolon] (some (.cont word.span)) := by
  intro m rest _
  cases m with
  | zero => exact .inl rfl
  | succ m =>
    simp only [List.cons_append, List.nil_append, Grammar.statement, peek_bind, List.head?_cons, hk,
      skip_bind, done_bind _ (mark_of_kind hsemicolon)]
    exact gives_pure

/-- A return may give no value. -/
theorem bareReturn {word semicolon : Token} (hk : word.kind = .returnWord)
    (hsemicolon : semicolon.kind = .semicolon) :
    Reads .statement [word, semicolon] (some (.ret word.span none)) := by
  intro m rest _
  cases m with
  | zero => exact .inl rfl
  | succ m =>
    simp only [List.cons_append, List.nil_append, Grammar.statement, peek_bind, List.head?_cons,
      hk, skip_bind]
    cases m with
    | zero => exact .inl rfl
    | succ m =>
      simp only [Grammar.returnStatement, sees_bind, startsWith_cons, hsemicolon, beq_self_eq_true,
        if_true, skip_bind]
      exact gives_pure

/-- A return may give the value of an expression. -/
theorem returnStatement {word semicolon : Token} {w : List Token} {e : Expr}
    (hk : word.kind = .returnWord) (hw : Opens .expression w) (h : Reads .expression w e)
    (hsemicolon : semicolon.kind = .semicolon) :
    Reads .statement (word :: (w ++ [semicolon])) (some (.ret word.span (some e))) := by
  intro m rest _
  cases m with
  | zero => exact .inl rfl
  | succ m =>
    simp only [List.cons_append, List.append_assoc, List.nil_append, Grammar.statement, peek_bind,
      List.head?_cons, hk, skip_bind]
    cases m with
    | zero => exact .inl rfl
    | succ m =>
      rw [Grammar.returnStatement, sees_bind, startsWith_of_opensWith (opensWith_append hw) rfl]
      refine gives_bind (h m _ (endsExpression_of_closes (closes_of_kind hsemicolon rfl))) ?_
      rw [done_bind _ (mark_of_kind hsemicolon)]
      exact gives_pure

/-- A semicolon alone is no statement and no error. -/
theorem emptyStatement {semicolon : Token} (hk : semicolon.kind = .semicolon) :
    Reads .statement [semicolon] none := by
  intro m rest _
  cases m with
  | zero => exact .inl rfl
  | succ m =>
    simp only [List.cons_append, List.nil_append, Grammar.statement, peek_bind, List.head?_cons,
      hk, skip_bind]
    exact gives_pure

/-- What starts as an expression does, and with no brace, is read as one. -/
theorem statement_eq_expressionStatement {m : Nat} {ts : List Token}
    (h : opensWith TokenKind.opensExpression ts) (hbrace : startsWith .leftBrace ts = false) :
    Grammar.statement (m + 1) ts = Grammar.expressionStatement m ts := by
  obtain ⟨t, ts, rfl, ht⟩ := cons_of_opensWith h
  rw [startsWith_cons, beq_eq_false_iff_ne] at hbrace
  rw [Grammar.statement, peek_bind]
  simp only [List.head?_cons]
  generalize t.kind = k at ht hbrace
  cases k <;> first | rfl | exact absurd rfl hbrace | cases ht

/-- An expression that opens no block is a statement up to the semicolon. -/
theorem expressionStatement {semicolon : Token} {w : List Token} {e : Expr}
    (hw : Opens .expression w) (h : Reads .expression w e)
    (hbrace : startsWith .leftBrace w = false) (hsemicolon : semicolon.kind = .semicolon)
    (hlambda : isLambda e = false) : Reads .statement (w ++ [semicolon]) (some (.evaluate e)) := by
  intro m rest _
  cases m with
  | zero => exact .inl rfl
  | succ m =>
    rw [List.append_assoc, statement_eq_expressionStatement (opensWith_append hw)
      (by rw [startsWith_append hw]; exact hbrace)]
    cases m with
    | zero => exact .inl rfl
    | succ m =>
      rw [Grammar.expressionStatement, List.singleton_append]
      refine gives_bind (h m _ (endsExpression_of_closes (closes_of_kind hsemicolon rfl))) ?_
      have hmark : mark .semicolon (semicolon :: rest) = .done semicolon rest :=
        mark_of_kind hsemicolon
      cases e <;> first | exact gives_bind (.inr hmark) gives_pure | cases hlambda

/-- A function literal is a statement without a semicolon. -/
theorem functionStatement {w : List Token} {e : Expr} (hw : Opens .expression w)
    (hfun : startsWith .funWord w) (h : Reads .expression w e) (hlambda : isLambda e) :
    Reads .statement w (some (.evaluate e)) := by
  intro m rest hrest
  cases m with
  | zero => exact .inl rfl
  | succ m =>
    have hbrace : startsWith .leftBrace (w ++ rest) = false := by
      obtain ⟨t, w, rfl, _⟩ := cons_of_opensWith hw
      rw [startsWith_cons, beq_iff_eq] at hfun
      rw [List.cons_append, startsWith_cons, hfun]
      rfl
    rw [statement_eq_expressionStatement (opensWith_append hw) hbrace]
    cases m with
    | zero => exact .inl rfl
    | succ m =>
      rw [Grammar.expressionStatement]
      refine gives_bind (h m _ (hrest.function e rfl hlambda)) ?_
      cases e <;> first | exact gives_pure | cases hlambda

/-! ### Parts of statements -/

/-- A name is declared without a value. -/
theorem bareBinding {mutable : Bool} {name semicolon : Token} (hname : name.kind = .identifier)
    (hsemicolon : semicolon.kind = .semicolon) :
    Reads (.binding mutable) [name, semicolon] (.declare mutable (identOf name) none) := by
  intro m rest
  cases m with
  | zero => exact .inl rfl
  | succ m =>
    have hequal : startsWith .equal (semicolon :: rest) = false := by
      rw [startsWith_cons, hsemicolon]
      rfl
    rw [List.cons_append, List.singleton_append, Grammar.binding, done_bind _ (ident_of_kind hname),
      done_bind _ (accept_of_not hequal)]
    simp only [done_bind _ (mark_of_kind hsemicolon)]
    exact gives_pure

/-- A name is declared with a value. -/
theorem binding {mutable : Bool} {name equal semicolon : Token} {w : List Token} {e : Expr}
    (hname : name.kind = .identifier) (hequal : equal.kind = .equal) (h : Reads .expression w e)
    (hsemicolon : semicolon.kind = .semicolon) :
    Reads (.binding mutable) (name :: equal :: (w ++ [semicolon]))
      (.declare mutable (identOf name) (some e)) := by
  intro m rest
  cases m with
  | zero => exact .inl rfl
  | succ m =>
    simp only [List.cons_append, List.append_assoc, List.nil_append]
    rw [Grammar.binding, done_bind _ (ident_of_kind hname), done_bind _ (accept_of_kind hequal)]
    refine gives_bind (h m _ (endsExpression_of_closes (closes_of_kind hsemicolon rfl))) ?_
    rw [done_bind _ (mark_of_kind hsemicolon)]
    exact gives_pure

/-- A conditional is a condition, a block and what follows else. -/
theorem conditional {w₁ w₂ w₃ : List Token} {condition : Expr} {body : List Stmt}
    {elseBranch : Option Stmt} (hcondition : Reads .expression w₁ condition)
    (hbody : Reads .block w₂ body) (helse : Reads .alternative w₃ elseBranch) :
    Reads .conditional (w₁ ++ (w₂ ++ w₃)) (branchOf condition (blockOf body) elseBranch) := by
  intro m rest hrest
  obtain ⟨opening, w₂, rfl, hopening, hbody⟩ := hbody
  cases m with
  | zero => exact .inl rfl
  | succ m =>
    simp only [List.cons_append, List.append_assoc]
    rw [Grammar.conditional]
    refine gives_bind (hcondition m _ (endsExpression_of_closes (closes_of_kind hopening rfl))) ?_
    rw [done_bind _ (expect_of_kind hopening)]
    refine gives_bind (hbody m _) (gives_bind (helse m rest hrest) ?_)
    cases blockOf body <;> cases elseBranch <;> exact gives_pure

/-- Nothing needs to follow else. -/
theorem noAlternative : Reads .alternative [] none := by
  intro m rest hrest
  cases m with
  | zero => exact .inl rfl
  | succ m =>
    rw [List.nil_append, Grammar.alternative, done_bind _ (accept_of_not hrest)]
    exact gives_pure

/-- Another conditional may follow else. -/
theorem elseIf {elseWord ifWord : Token} {w : List Token} {s : Option Stmt}
    (helse : elseWord.kind = .elseWord) (hif : ifWord.kind = .ifWord) (h : Reads .conditional w s) :
    Reads .alternative (elseWord :: ifWord :: w) s := by
  intro m rest hrest
  cases m with
  | zero => exact .inl rfl
  | succ m =>
    rw [List.cons_append, List.cons_append, Grammar.alternative, done_bind _ (accept_of_kind helse)]
    simp only [done_bind _ (accept_of_kind hif)]
    exact h m rest hrest

theorem elseBlock {elseWord : Token} {w : List Token} {body : List Stmt}
    (helse : elseWord.kind = .elseWord) (h : Reads .block w body) :
    Reads .alternative (elseWord :: w) (blockOf body) := by
  intro m rest _
  obtain ⟨opening, w, rfl, hopening, hbody⟩ := h
  cases m with
  | zero => exact .inl rfl
  | succ m =>
    have hif : startsWith .ifWord (opening :: (w ++ rest)) = false := by
      rw [startsWith_cons, hopening]
      rfl
    rw [List.cons_append, List.cons_append, Grammar.alternative, done_bind _ (accept_of_kind helse)]
    simp only [done_bind _ (accept_of_not hif), done_bind _ (expect_of_kind hopening)]
    exact gives_bind (hbody m rest) gives_pure

/-- A loop need not declare anything. -/
theorem noLoopStart {semicolon : Token} (hk : semicolon.kind = .semicolon) :
    Reads .loopStart [semicolon] none := by
  intro m rest
  cases m with
  | zero => exact .inl rfl
  | succ m =>
    simp only [List.singleton_append, Grammar.loopStart, peek_bind, List.head?_cons,
      Option.map_some, hk, skip_bind]
    exact gives_pure

theorem letLoopStart {word : Token} {w : List Token} {s : Stmt} (hk : word.kind = .letWord)
    (h : Reads (.binding true) w s) : Reads .loopStart (word :: w) (some s) := by
  intro m rest
  cases m with
  | zero => exact .inl rfl
  | succ m =>
    simp only [List.cons_append, Grammar.loopStart, peek_bind, List.head?_cons, Option.map_some,
      hk, skip_bind]
    exact gives_bind (h m rest) gives_pure

theorem constLoopStart {word : Token} {w : List Token} {s : Stmt} (hk : word.kind = .constWord)
    (h : Reads (.binding false) w s) : Reads .loopStart (word :: w) (some s) := by
  intro m rest
  cases m with
  | zero => exact .inl rfl
  | succ m =>
    simp only [List.cons_append, Grammar.loopStart, peek_bind, List.head?_cons, Option.map_some,
      hk, skip_bind]
    exact gives_bind (h m rest) gives_pure

/-- A loop need not have a condition. -/
theorem noLoopCondition {semicolon : Token} (hk : semicolon.kind = .semicolon) :
    Reads .loopCondition [semicolon] none := by
  intro m rest
  cases m with
  | zero => exact .inl rfl
  | succ m =>
    rw [List.singleton_append, Grammar.loopCondition, done_bind _ (accept_of_kind hk)]
    exact gives_pure

theorem loopCondition {semicolon : Token} {w : List Token} {e : Expr} (hw : Opens .expression w)
    (h : Reads .expression w e) (hsemicolon : semicolon.kind = .semicolon) :
    Reads .loopCondition (w ++ [semicolon]) (some e) := by
  intro m rest
  cases m with
  | zero => exact .inl rfl
  | succ m =>
    rw [List.append_assoc, Grammar.loopCondition,
      done_bind _ (accept_of_not (startsWith_of_opensWith (opensWith_append hw) rfl))]
    refine gives_bind (h m _ (endsExpression_of_closes (closes_of_kind hsemicolon rfl))) ?_
    rw [List.singleton_append, done_bind _ (mark_of_kind hsemicolon)]
    exact gives_pure

/-- A loop need not have a closer. -/
theorem noLoopCloser : Reads .loopCloser [] none := by
  intro m rest ending _ _ hrest
  cases m with
  | zero => exact .inl rfl
  | succ m =>
    rw [List.nil_append, Grammar.loopCloser, sees_bind, hrest]
    exact gives_pure

/-- The closer of a loop is an expression. -/
theorem loopCloser {w : List Token} {e : Expr} (hw : Opens .expression w)
    (h : Reads .expression w e) : Reads .loopCloser w (some e) := by
  intro m rest ending hcloses hending hrest
  cases m with
  | zero => exact .inl rfl
  | succ m =>
    rw [Grammar.loopCloser, sees_bind, startsWith_append hw, hending]
    exact gives_bind (h m rest (endsExpression_of_closes (closes_of_startsWith hrest hcloses)))
      gives_pure

/-- A class need not extend another. -/
theorem noExtension : Reads .extension [] none := by
  intro rest hrest
  rw [List.nil_append, Grammar.extension, done_bind _ (accept_of_not hrest)]
  rfl

/-- A class extends the one that is named. -/
theorem extension {word name : Token} (hk : word.kind = .extendsWord)
    (hname : name.kind = .identifier) :
    Reads .extension [word, name] (some ⟨identOf name, none⟩) := by
  intro rest _
  rw [List.cons_append, List.singleton_append, Grammar.extension, done_bind _ (accept_of_kind hk)]
  simp only [done_bind _ (ident_of_kind hname)]
  rfl

theorem noMethod : Reads .methods [] [] := by
  intro m rest hrest
  cases m with
  | zero => exact .inl rfl
  | succ m =>
    rw [List.nil_append, Grammar.methodList, peek_bind, beq_iff_eq.mp hrest]
    exact gives_pure

/-- A method before others is read up to where they begin. -/
theorem methods {name : Token} {w w' : List Token} {f : Function} {ms : List Method}
    (hname : name.kind = .identifier) (hfunction : Reads (.function name.span) w f)
    (h : Reads .methods w' ms) :
    Reads .methods (name :: (w ++ w')) (.mk (identOf name) f :: ms) := by
  intro m rest hrest
  cases m with
  | zero => exact .inl rfl
  | succ m =>
    simp only [List.cons_append, List.append_assoc, Grammar.methodList, peek_bind, List.head?_cons,
      Option.map_some, hname, done_bind _ (ident_of_kind hname)]
    exact gives_bind (hfunction m _) (gives_bind (h m rest hrest) gives_pure)

/-! ### Functions -/

/-- A function has parameters in parentheses and a block. -/
theorem function {keyword : Span} {opening closing : Token} {w₁ w₂ : List Token}
    {params : List Ident} {body : List Stmt} (hopening : opening.kind = .leftParen)
    (hparams : Reads .parameters w₁ params) (hcount : params.length ≤ maxParameters)
    (hclosing : closing.kind = .rightParen) (hbody : Reads .block w₂ body) :
    Reads (.function keyword) (opening :: (w₁ ++ closing :: w₂)) (.mk keyword 0 params body) := by
  intro m rest
  obtain ⟨brace, w₂, rfl, hbrace, hbody⟩ := hbody
  cases m with
  | zero => exact .inl rfl
  | succ m =>
    have hparen : startsWith .rightParen (closing :: brace :: (w₂ ++ rest)) := by
      rw [startsWith_cons, hclosing]
      rfl
    simp only [List.cons_append, List.append_assoc]
    rw [Grammar.functionRest, done_bind _ (mark_of_kind hopening)]
    refine gives_bind (hparams m _ 0 hparen (by omega)) ?_
    rw [done_bind _ (mark_of_kind hclosing), done_bind _ (mark_of_kind hbrace)]
    exact gives_bind (hbody m rest) gives_pure

/-- A function need not have parameters. -/
theorem noParameter : Reads .parameters [] [] := by
  intro m rest count hrest _
  cases m with
  | zero => exact .inl rfl
  | succ m =>
    rw [List.nil_append, Grammar.parameters, sees_bind, hrest]
    exact gives_pure

/-- Before a name, parameters are read on unless there are too many. -/
theorem parameters_succ {m count : Nat} {name : Token} {ts : List Token}
    (hname : name.kind = .identifier) (hcount : count < maxParameters) :
    Grammar.parameters (m + 1) count (name :: ts) = (do
      match ← accept .comma with
      | some _ => return identOf name :: (← Grammar.parameters m (count + 1))
      | none => return [identOf name] : Parse (List Ident)) ts := by
  have hopen : ¬ (TokenKind.identifier == .rightParen) = true := nofun
  rw [Grammar.parameters, sees_bind, startsWith_cons, hname, if_neg hopen,
    if_neg (not_le.mpr hcount)]
  exact done_bind _ (ident_of_kind hname)

theorem lastParameter {name : Token} (hname : name.kind = .identifier) :
    Reads .parameters [name] [identOf name] := by
  intro m rest count hrest hcount
  cases m with
  | zero => exact .inl rfl
  | succ m =>
    have hcomma : startsWith .comma rest = false := by
      obtain ⟨t, rest, rfl, ht⟩ := head_of_kind (beq_iff_eq.mp hrest)
      rw [startsWith_cons, ht]
      rfl
    rw [List.singleton_append, parameters_succ hname hcount, done_bind _ (accept_of_not hcomma)]
    exact gives_pure

/-- Parameters are separated by commas. -/
theorem parameters {name comma : Token} {w : List Token} {names : List Ident}
    (hname : name.kind = .identifier) (hcomma : comma.kind = .comma)
    (h : Reads .parameters w names) :
    Reads .parameters (name :: comma :: w) (identOf name :: names) := by
  intro m rest count hrest hcount
  rw [List.length_cons] at hcount
  cases m with
  | zero => exact .inl rfl
  | succ m =>
    rw [List.cons_append, List.cons_append, parameters_succ hname (by omega),
      done_bind _ (accept_of_kind hcomma)]
    exact gives_bind (h m rest _ hrest (by omega)) gives_pure

/-! ### Expressions -/

/-- Where no operator of a level comes next, no more operands of it are read. -/
theorem climbRest_gives {m : Nat} {l : Level} {e : Expr} {rest : List Token}
    (h : NoOperator l rest) : (Grammar.climbRest m l e rest).Gives e rest := by
  cases m with
  | zero => exact .inl rfl
  | succ m =>
    rw [Grammar.climbRest, peek_bind]
    cases rest with
    | nil => exact gives_pure
    | cons t rest =>
      simp only [List.head?_cons, h t rfl]
      exact gives_pure

/-- Where no operator of the level follows, climbing ends with the operand. -/
theorem climb_gives {m : Nat} {l : Level} {w rest : List Token} {e : Expr}
    (h : Reads (.level l) w e) (htighter : NoTighter l rest) (hoperator : NoOperator l rest)
    (hends : EndsOperand e rest) : (Grammar.climb m l (w ++ rest)).Gives e rest := by
  rcases h m rest htighter hends with h | ⟨m', h⟩
  · exact .inl h
  · rw [h]
    exact climbRest_gives hoperator

/-- An expression without an assignment is one of the loosest level. -/
theorem plain {w : List Token} {e : Expr} (h : Reads (.level .disjunction) w e) :
    Reads .expression w e := by
  intro m rest hrest
  cases m with
  | zero => exact .inl rfl
  | succ m =>
    rw [Grammar.expression]
    refine gives_bind (climb_gives h (fun l _ => hrest.operator l) (hrest.operator _) hrest.operand)
      ?_
    rw [done_bind _ (accept_of_not hrest.equal)]
    exact gives_pure

theorem endsOperand_of_kind {e : Expr} {t : Token} {rest : List Token} (h : t.kind.links = false) :
    EndsOperand e (t :: rest) := .inr h

/-- What ends an operand ends any other that is no function literal. -/
theorem endsOperand_of_endsOperand {e e' : Expr} {rest : List Token} (h : EndsOperand e rest)
    (hlambda : isLambda e = false) : EndsOperand e' rest := by
  rcases h with h | h
  · rw [hlambda] at h
    cases h
  · exact .inr h

/-- An assignment is a target, an equals sign and an expression. -/
theorem assignment {equal : Token} {w w' : List Token} {target value e : Expr}
    (htarget : Reads (.level .disjunction) w target) (hequal : equal.kind = .equal)
    (hvalue : Reads .expression w' value) (hassign : assignTo target value = some e) :
    Reads .expression (w ++ equal :: w') e := by
  intro m rest hrest
  have hnone : ∀ l, NoOperator l (equal :: (w' ++ rest)) := by
    rintro l _ ⟨⟩
    rw [hequal]
    cases l <;> rfl
  have hlinks : equal.kind.links = false := by
    rw [hequal]
    rfl
  have hends : EndsExpression value rest :=
    ⟨endsOperand_of_endsOperand hrest.operand (isLambda_of_assignTo hassign), hrest.operator,
      hrest.equal⟩
  cases m with
  | zero => exact .inl rfl
  | succ m =>
    rw [List.append_assoc, List.cons_append, Grammar.expression]
    refine gives_bind
      (climb_gives htarget (fun l _ => hnone l) (hnone _) (endsOperand_of_kind hlinks)) ?_
    rw [done_bind _ (accept_of_kind hequal)]
    cases target <;> cases hassign <;> exact gives_bind (hvalue m rest hends) gives_pure

/-- A level starts with its first operand. -/
theorem firstOperand {l : Level} {w : List Token} {e : Expr} (h : Reads (.operand l) w e) :
    Reads (.level l) w e := by
  intro m rest htighter hends
  cases m with
  | zero => exact .inl rfl
  | succ m =>
    rw [Grammar.climb]
    rcases h m rest htighter hends with h | h
    · exact .inl (exhausted_bind _ h)
    · exact .inr ⟨m, done_bind _ h⟩

/-- An operator of the level joins what was read and the next operand. -/
theorem infixOperator {l : Level} {operator : Token} {w w' : List Token} {left right : Expr}
    {op : InfixOp} (hleft : Reads (.level l) w left) (hop : l.operator? operator.kind = some op)
    (hright : Reads (.operand l) w' right) :
    Reads (.level l) (w ++ operator :: w') (combine op operator.span left right) := by
  intro m rest htighter hends
  have hbefore : NoTighter l (operator :: (w' ++ rest)) := by
    rintro l' hl' _ ⟨⟩
    cases hop' : l'.operator? operator.kind with
    | none => rfl
    | some op' =>
      rw [Level.eq_of_operator? hop hop'] at hl'
      exact absurd hl' (lt_irrefl _)
  have hlinks := (Level.kind_of_operator? hop).2.1
  have hends' : EndsOperand right rest :=
    endsOperand_of_endsOperand hends (isLambda_combine _ _ _ _)
  rw [List.append_assoc]
  rcases hleft m _ hbefore (endsOperand_of_kind hlinks) with h | ⟨m', h⟩
  · exact .inl h
  · rw [List.cons_append, h]
    cases m' with
    | zero => exact .inl rfl
    | succ m' =>
      simp only [Grammar.climbRest, peek_bind, List.head?_cons, hop, skip_bind]
      rcases hright m' rest htighter hends' with h | h
      · exact .inl (exhausted_bind _ h)
      · exact .inr ⟨m', done_bind _ h⟩

/-- The operands of a level are of the tighter one. -/
theorem tighterOperand {l tighter : Level} {w : List Token} {e : Expr}
    (htighter : l.tighter = some tighter) (h : Reads (.level tighter) w e) :
    Reads (.operand l) w e := by
  intro m rest hrest hends
  have hrank := Level.rank_tighter htighter
  cases m with
  | zero => exact .inl rfl
  | succ m =>
    simp only [Grammar.operand, htighter]
    exact climb_gives h (fun l' hl' => hrest l' (by omega)) (hrest tighter (by omega)) hends

/-- The operands of the tightest level are unary. -/
theorem unaryOperand {l : Level} {w : List Token} {e : Expr} (htighter : l.tighter = none)
    (h : Reads .unary w e) : Reads (.operand l) w e := by
  intro m rest _ hends
  cases m with
  | zero => exact .inl rfl
  | succ m =>
    simp only [Grammar.operand, htighter]
    exact h m rest hends

/-- An operator stands before a unary operand. -/
theorem unaryOperator {operator : Token} {w : List Token} {e : Expr} {op : UnaryOp}
    (hop : UnaryOp.ofKind? operator.kind = some op) (h : Reads .unary w e) :
    Reads .unary (operator :: w) (.unary op operator.span e) := by
  intro m rest hends
  cases m with
  | zero => exact .inl rfl
  | succ m =>
    simp only [List.cons_append, Grammar.unary, peek_bind, List.head?_cons, hop, skip_bind]
    exact gives_bind (h m rest (endsOperand_of_endsOperand hends rfl)) gives_pure

/-- The word of a function literal is followed by the literal. -/
theorem unary_fun {m : Nat} {word : Token} {ts : List Token} (hk : word.kind = .funWord) :
    Grammar.unary (m + 1) (word :: ts) = Grammar.functionLiteral m word.span ts := by
  rw [Grammar.unary, peek_bind]
  simp only [List.head?_cons, hk]
  rfl

/-- A function literal may have no name. -/
theorem functionLiteral {word : Token} {w : List Token} {f : Function} (hk : word.kind = .funWord)
    (hw : Opens (.function word.span) w) (h : Reads (.function word.span) w f) :
    Reads .unary (word :: w) (.lambda none f) := by
  intro m rest _
  cases m with
  | zero => exact .inl rfl
  | succ m =>
    rw [List.cons_append, unary_fun hk]
    cases m with
    | zero => exact .inl rfl
    | succ m =>
      rw [Grammar.functionLiteral,
        done_bind _ (accept_of_not (startsWith_of_opensWith (opensWith_append hw) rfl))]
      exact gives_bind (h m rest) gives_pure

/-- A function literal may have a name. -/
theorem namedFunctionLiteral {word name : Token} {w : List Token} {f : Function}
    (hk : word.kind = .funWord) (hname : name.kind = .identifier)
    (h : Reads (.function word.span) w f) :
    Reads .unary (word :: name :: w) (.lambda (some (identOf name)) f) := by
  intro m rest _
  cases m with
  | zero => exact .inl rfl
  | succ m =>
    rw [List.cons_append, unary_fun hk]
    cases m with
    | zero => exact .inl rfl
    | succ m =>
      rw [List.cons_append, Grammar.functionLiteral, done_bind _ (accept_of_kind hname)]
      exact gives_bind (h m rest) gives_pure

/-- Where no link comes next, a chain ends. -/
theorem links_gives {m : Nat} {e : Expr} {rest : List Token}
    (h : opensWith TokenKind.links rest = false) : (Grammar.links m e rest).Gives e rest := by
  cases m with
  | zero => exact .inl rfl
  | succ m =>
    rw [Grammar.links, peek_bind]
    cases rest with
    | nil => exact gives_pure
    | cons t rest =>
      rw [opensWith_cons] at h
      simp only [List.head?_cons]
      generalize t.kind = k at h
      cases k <;> first | exact gives_pure | cases h

/-- A unary operand without an operator is a chain. -/
theorem unaryChain {w : List Token} {e : Expr} (hw : Opens .chain w) (hlambda : isLambda e = false)
    (h : Reads .chain w e) : Reads .unary w e := by
  intro m rest hends
  cases m with
  | zero => exact .inl rfl
  | succ m =>
    have hunary : Grammar.unary (m + 1) (w ++ rest) = Grammar.chain m (w ++ rest) := by
      obtain ⟨t, w, rfl, ht⟩ := cons_of_opensWith hw
      rw [Grammar.unary, List.cons_append, peek_bind]
      simp only [List.head?_cons]
      generalize t.kind = k at ht
      cases k <;> first | rfl | cases ht
    rw [hunary]
    rcases hends with hends | hends
    · rw [hlambda] at hends
      cases hends
    · rcases h m rest with h | ⟨m', h⟩
      · exact .inl h
      · rw [h]
        exact links_gives hends

/-! ### Chains and primaries -/

/-- A chain starts with a primary expression. -/
theorem chainStart {w : List Token} {e : Expr} (h : Reads .primary w e) : Reads .chain w e := by
  intro m rest
  cases m with
  | zero => exact .inl rfl
  | succ m =>
    rw [Grammar.chain]
    rcases h m rest with h | h
    · exact .inl (exhausted_bind _ h)
    · exact .inr ⟨m, done_bind _ h⟩

/-- A call is read from its parenthesis on, and the chain goes on from there. -/
theorem links_call {opening closing : Token} {w : List Token} {callee : Expr}
    {arguments : List Expr} (hopening : opening.kind = .leftParen)
    (harguments : Reads .expressions w arguments) (hcount : arguments.length ≤ maxParameters)
    (hclosing : closing.kind = .rightParen) (m : Nat) (rest : List Token) :
    Grammar.links m callee (opening :: (w ++ closing :: rest)) = .exhausted ∨
      ∃ m', Grammar.links m callee (opening :: (w ++ closing :: rest)) =
        Grammar.links m' (.call callee arguments closing.span) rest := by
  cases m with
  | zero => exact .inl rfl
  | succ m =>
    have hparen : startsWith .rightParen (closing :: rest) := by
      rw [startsWith_cons, hclosing]
      rfl
    simp only [Grammar.links, peek_bind, List.head?_cons, hopening, skip_bind]
    rcases harguments.1 m _ 0 hparen (by omega) with h | h
    · exact .inl (exhausted_bind _ h)
    · rw [done_bind _ h, done_bind _ (mark_of_kind hclosing)]
      exact .inr ⟨m, rfl⟩

/-- The constructor of the superclass is called by its word alone. -/
theorem superCall {word opening closing : Token} {w : List Token} {arguments : List Expr}
    (hk : word.kind = .superWord) (hopening : opening.kind = .leftParen)
    (harguments : Reads .expressions w arguments) (hcount : arguments.length ≤ maxParameters)
    (hclosing : closing.kind = .rightParen) :
    Reads .chain (word :: opening :: (w ++ [closing]))
      (.call (.superRef word.span ⟨constructorName, word.span⟩ none) arguments closing.span) := by
  intro m rest
  simp only [List.cons_append, List.append_assoc, List.nil_append]
  cases m with
  | zero => exact .inl rfl
  | succ m =>
    cases m with
    | zero => exact .inl rfl
    | succ m =>
      cases m with
      | zero =>
        refine .inl (exhausted_bind _ ?_)
        simp only [Grammar.primary, peek_bind, List.head?_cons, hk, skip_bind]
        rfl
      | succ m =>
        have hprimary : Grammar.primary (m + 2) (word :: opening :: (w ++ closing :: rest)) =
            .done (.superRef word.span ⟨constructorName, word.span⟩ none)
            (opening :: (w ++ closing :: rest)) := by
          simp only [Grammar.primary, peek_bind, List.head?_cons, hk, skip_bind, Grammar.superUse,
            sees_bind, startsWith_cons, hopening, beq_self_eq_true, if_true]
          rfl
        rw [Grammar.chain, done_bind _ hprimary]
        exact links_call hopening harguments hcount hclosing (m + 2) rest

/-- A chain that is read up to a link goes on as the link does. -/
theorem chain_of_links {w w' : List Token} {e e' : Expr} (h : Reads .chain w e)
    (hlinks : ∀ m rest, Grammar.links m e (w' ++ rest) = .exhausted ∨
      ∃ m', Grammar.links m e (w' ++ rest) = Grammar.links m' e' rest) :
    Reads .chain (w ++ w') e' := by
  intro m rest
  rw [List.append_assoc]
  rcases h m (w' ++ rest) with h | ⟨m', h⟩
  · exact .inl h
  · rw [h]
    exact hlinks m' rest

/-- Arguments in parentheses go on from a chain. -/
theorem call {opening closing : Token} {w w' : List Token} {callee : Expr} {arguments : List Expr}
    (hcallee : Reads .chain w callee) (hopening : opening.kind = .leftParen)
    (harguments : Reads .expressions w' arguments) (hcount : arguments.length ≤ maxParameters)
    (hclosing : closing.kind = .rightParen) :
    Reads .chain (w ++ opening :: (w' ++ [closing])) (.call callee arguments closing.span) := by
  refine chain_of_links hcallee fun m rest => ?_
  simp only [List.cons_append, List.append_assoc, List.nil_append]
  exact links_call hopening harguments hcount hclosing m rest

/-- A name after a dot goes on from a chain. -/
theorem property {dot name : Token} {w : List Token} {object : Expr}
    (hobject : Reads .chain w object) (hdot : dot.kind = .dot) (hname : name.kind = .identifier) :
    Reads .chain (w ++ [dot, name]) (.get object (identOf name)) := by
  refine chain_of_links hobject fun m rest => ?_
  cases m with
  | zero => exact .inl rfl
  | succ m =>
    simp only [List.cons_append, List.nil_append, Grammar.links, peek_bind, List.head?_cons,
      hdot, skip_bind]
    cases m with
    | zero => exact .inl rfl
    | succ m =>
      refine .inr ⟨m + 1, done_bind _ ?_⟩
      simp only [Grammar.property, peek_bind, List.head?_cons, hname, skip_bind]
      rfl

/-- So does a computed name. -/
theorem computedProperty {dot opening closing : Token} {w w' : List Token} {object key : Expr}
    (hobject : Reads .chain w object) (hdot : dot.kind = .dot)
    (hopening : opening.kind = .leftParen) (hkey : Reads .expression w' key)
    (hclosing : closing.kind = .rightParen) :
    Reads .chain (w ++ dot :: opening :: (w' ++ [closing])) (.getKey object opening.span key) := by
  refine chain_of_links hobject fun m rest => ?_
  cases m with
  | zero => exact .inl rfl
  | succ m =>
    simp only [List.cons_append, List.append_assoc, List.nil_append, Grammar.links, peek_bind,
      List.head?_cons, hdot, skip_bind]
    cases m with
    | zero => exact .inl rfl
    | succ m =>
      have hproperty : (Grammar.property (m + 1) object (opening :: (w' ++ closing :: rest))).Gives
          (.getKey object opening.span key) rest := by
        simp only [Grammar.property, peek_bind, List.head?_cons, hopening, skip_bind]
        refine gives_bind (hkey m _ (endsExpression_of_closes (closes_of_kind hclosing rfl))) ?_
        rw [done_bind _ (mark_of_kind hclosing)]
        exact gives_pure
      rcases hproperty with h | h
      · exact .inl (exhausted_bind _ h)
      · exact .inr ⟨m + 1, done_bind _ h⟩

/-- A position in brackets goes on from a chain. -/
theorem subscript {opening closing : Token} {w w' : List Token} {object index : Expr}
    (hobject : Reads .chain w object) (hopening : opening.kind = .leftBracket)
    (hindex : Reads .expression w' index) (hclosing : closing.kind = .rightBracket) :
    Reads .chain (w ++ opening :: (w' ++ [closing]))
      (.index object index (opening.span.through closing.span)) := by
  refine chain_of_links hobject fun m rest => ?_
  cases m with
  | zero => exact .inl rfl
  | succ m =>
    simp only [List.cons_append, List.append_assoc, List.nil_append, Grammar.links, peek_bind,
      List.head?_cons, hopening, skip_bind]
    rcases hindex m _ (endsExpression_of_closes (closes_of_kind hclosing rfl)) with h | h
    · exact .inl (exhausted_bind _ h)
    · rw [done_bind _ h, done_bind _ (mark_of_kind hclosing)]
      exact .inr ⟨m, rfl⟩

theorem literal {t : Token} {value : Literal} (h : literalOf? t = some value) :
    Reads .primary [t] (.literal value) := by
  intro m rest
  cases m with
  | zero => exact .inl rfl
  | succ m =>
    rw [List.singleton_append, Grammar.primary, peek_bind]
    simp only [List.head?_cons]
    unfold literalOf? at h
    generalize t.kind = k at h ⊢
    split at h <;> cases h <;> exact gives_pure

/-- A name stands for its value. -/
theorem variableUse {name : Token} (hname : name.kind = .identifier) :
    Reads .primary [name] (.var ⟨identOf name, none⟩) := by
  intro m rest
  cases m with
  | zero => exact .inl rfl
  | succ m =>
    simp only [List.singleton_append, Grammar.primary, peek_bind, List.head?_cons, hname, skip_bind]
    exact gives_pure

/-- An expression in parentheses is a primary one. -/
theorem grouping {opening closing : Token} {w : List Token} {e : Expr}
    (hopening : opening.kind = .leftParen) (h : Reads .expression w e)
    (hclosing : closing.kind = .rightParen) :
    Reads .primary (opening :: (w ++ [closing])) (.grouping e) := by
  intro m rest
  cases m with
  | zero => exact .inl rfl
  | succ m =>
    simp only [List.cons_append, List.append_assoc, List.nil_append, Grammar.primary, peek_bind,
      List.head?_cons, hopening, skip_bind]
    refine gives_bind (h m _ (endsExpression_of_closes (closes_of_kind hclosing rfl))) ?_
    rw [done_bind _ (mark_of_kind hclosing)]
    exact gives_pure

theorem thisUse {word : Token} (hk : word.kind = .thisWord) :
    Reads .primary [word] (.thisRef word.span none) := by
  intro m rest
  cases m with
  | zero => exact .inl rfl
  | succ m =>
    simp only [List.singleton_append, Grammar.primary, peek_bind, List.head?_cons, hk, skip_bind]
    exact gives_pure

/-- A method of the superclass is named after a dot. -/
theorem superMethod {word dot name : Token} (hk : word.kind = .superWord) (hdot : dot.kind = .dot)
    (hname : name.kind = .identifier) :
    Reads .primary [word, dot, name] (.superRef word.span (identOf name) none) := by
  intro m rest
  cases m with
  | zero => exact .inl rfl
  | succ m =>
    simp only [List.cons_append, List.nil_append, Grammar.primary, peek_bind, List.head?_cons,
      hk, skip_bind]
    cases m with
    | zero => exact .inl rfl
    | succ m =>
      have hparen : startsWith .leftParen (dot :: name :: rest) = false := by
        rw [startsWith_cons, hdot]
        rfl
      rw [Grammar.superUse, sees_bind, hparen]
      refine gives_bind (.inr (accept_of_kind hdot))
        (gives_bind (.inr (ident_of_kind hname)) gives_pure)

/-- A list has its elements in brackets. -/
theorem list {opening closing : Token} {w : List Token} {elements : List Expr}
    (hopening : opening.kind = .leftBracket) (h : Reads .expressions w elements)
    (hclosing : closing.kind = .rightBracket) :
    Reads .primary (opening :: (w ++ [closing])) (.list elements) := by
  intro m rest
  cases m with
  | zero => exact .inl rfl
  | succ m =>
    have hbracket : startsWith .rightBracket (closing :: rest) := by
      rw [startsWith_cons, hclosing]
      rfl
    simp only [List.cons_append, List.append_assoc, List.nil_append, Grammar.primary, peek_bind,
      List.head?_cons, hopening, skip_bind]
    refine gives_bind (h.2 m _ hbracket) ?_
    rw [done_bind _ (mark_of_kind hclosing)]
    exact gives_pure

/-- An object has its fields in braces. -/
theorem object {opening closing : Token} {w : List Token} {fields : List Field}
    (hopening : opening.kind = .leftBrace) (h : Reads .fields w fields)
    (hclosing : closing.kind = .rightBrace) :
    Reads .primary (opening :: (w ++ [closing])) (.object fields) := by
  intro m rest
  cases m with
  | zero => exact .inl rfl
  | succ m =>
    have hbrace : startsWith .rightBrace (closing :: rest) := by
      rw [startsWith_cons, hclosing]
      rfl
    simp only [List.cons_append, List.append_assoc, List.nil_append, Grammar.primary, peek_bind,
      List.head?_cons, hopening, skip_bind]
    refine gives_bind (h m _ hbrace) ?_
    rw [done_bind _ (mark_of_kind hclosing)]
    exact gives_pure

/-! ### Lists inside brackets -/

theorem noExpression : Reads .expressions [] [] := by
  constructor
  · intro m rest count hrest _
    cases m with
    | zero => exact .inl rfl
    | succ m =>
      rw [List.nil_append, Grammar.argumentList, sees_bind, hrest]
      exact gives_pure
  · intro m rest hrest
    cases m with
    | zero => exact .inl rfl
    | succ m =>
      rw [List.nil_append, Grammar.elementList, sees_bind, hrest]
      exact gives_pure

theorem startsWith_comma_of_startsWith {kind : TokenKind} {rest : List Token}
    (h : startsWith kind rest) (hkind : kind ≠ .comma) : startsWith .comma rest = false := by
  obtain ⟨t, rest, rfl, ht⟩ := head_of_kind (beq_iff_eq.mp h)
  rw [startsWith_cons, ht]
  exact beq_false_of_ne hkind

/-- A list of expressions may end with one. -/
theorem lastExpression {w : List Token} {e : Expr} (hw : Opens .expression w)
    (h : Reads .expression w e) : Reads .expressions w [e] := by
  constructor
  · intro m rest count hrest hcount
    cases m with
    | zero => exact .inl rfl
    | succ m =>
      rw [Grammar.argumentList, sees_bind, startsWith_of_opensWith (opensWith_append hw) rfl]
      simp only [Bool.false_eq_true, if_false, not_le.mpr (show count < maxParameters from hcount)]
      refine gives_bind (h m rest (endsExpression_of_closes (closes_of_startsWith hrest rfl))) ?_
      rw [done_bind _ (accept_of_not (startsWith_comma_of_startsWith hrest (by simp)))]
      exact gives_pure
  · intro m rest hrest
    cases m with
    | zero => exact .inl rfl
    | succ m =>
      rw [Grammar.elementList, sees_bind, startsWith_of_opensWith (opensWith_append hw) rfl]
      refine gives_bind (h m rest (endsExpression_of_closes (closes_of_startsWith hrest rfl))) ?_
      rw [done_bind _ (accept_of_not (startsWith_comma_of_startsWith hrest (by simp)))]
      exact gives_pure

/-- Expressions are separated by commas. -/
theorem expressions {comma : Token} {w w' : List Token} {e : Expr} {es : List Expr}
    (hw : Opens .expression w) (h : Reads .expression w e) (hcomma : comma.kind = .comma)
    (hrest : Reads .expressions w' es) : Reads .expressions (w ++ comma :: w') (e :: es) := by
  have hends {ts : List Token} : EndsExpression e (comma :: ts) :=
    endsExpression_of_closes (closes_of_kind hcomma rfl)
  constructor
  · intro m rest count hparen hcount
    rw [List.length_cons] at hcount
    have hless : count < maxParameters := by omega
    cases m with
    | zero => exact .inl rfl
    | succ m =>
      rw [List.append_assoc, Grammar.argumentList, sees_bind,
        startsWith_of_opensWith (opensWith_append hw) rfl]
      simp only [Bool.false_eq_true, if_false, not_le.mpr hless]
      refine gives_bind (h m _ hends) ?_
      rw [List.cons_append, done_bind _ (accept_of_kind hcomma)]
      exact gives_bind (hrest.1 m rest _ hparen (by omega)) gives_pure
  · intro m rest hbracket
    cases m with
    | zero => exact .inl rfl
    | succ m =>
      rw [List.append_assoc, Grammar.elementList, sees_bind,
        startsWith_of_opensWith (opensWith_append hw) rfl]
      refine gives_bind (h m _ hends) ?_
      rw [List.cons_append, done_bind _ (accept_of_kind hcomma)]
      exact gives_bind (hrest.2 m rest hbracket) gives_pure

theorem noField : Reads .fields [] [] := by
  intro m rest hrest
  cases m with
  | zero => exact .inl rfl
  | succ m =>
    rw [List.nil_append, Grammar.fieldList, sees_bind, hrest]
    exact gives_pure

theorem lastField {w : List Token} {f : Field} (hw : Opens .field w) (h : Reads .field w f) :
    Reads .fields w [f] := by
  intro m rest hrest
  cases m with
  | zero => exact .inl rfl
  | succ m =>
    rw [Grammar.fieldList, sees_bind, startsWith_of_opensWith (opensWith_append hw) rfl]
    refine gives_bind (h m rest (closes_of_startsWith hrest rfl)) ?_
    rw [done_bind _ (accept_of_not (startsWith_comma_of_startsWith hrest (by simp)))]
    exact gives_pure

/-- Fields are separated by commas. -/
theorem fields {comma : Token} {w w' : List Token} {f : Field} {fs : List Field}
    (hw : Opens .field w) (h : Reads .field w f) (hcomma : comma.kind = .comma)
    (hrest : Reads .fields w' fs) : Reads .fields (w ++ comma :: w') (f :: fs) := by
  intro m rest hbrace
  cases m with
  | zero => exact .inl rfl
  | succ m =>
    rw [List.append_assoc, Grammar.fieldList, sees_bind,
      startsWith_of_opensWith (opensWith_append hw) rfl]
    refine gives_bind (h m _ (closes_of_kind hcomma rfl)) ?_
    rw [List.cons_append, done_bind _ (accept_of_kind hcomma)]
    exact gives_bind (hrest m rest hbrace) gives_pure

/-- A field has a name and a value. -/
theorem namedField {name colon : Token} {w : List Token} {e : Expr}
    (hname : name.kind = .identifier) (hcolon : colon.kind = .colon) (h : Reads .expression w e) :
    Reads .field (name :: colon :: w) (.mk name.lexeme e) := by
  intro m rest hrest
  cases m with
  | zero => exact .inl rfl
  | succ m =>
    simp only [List.cons_append, Grammar.field, peek_bind, List.head?_cons, hname, skip_bind,
      done_bind _ (accept_of_kind hcolon)]
    exact gives_bind (h m rest (endsExpression_of_closes hrest)) gives_pure

/-- The name of a field may be quoted. -/
theorem quotedField {name colon : Token} {w : List Token} {e : Expr} (hname : name.kind = .string)
    (hcolon : colon.kind = .colon) (h : Reads .expression w e) :
    Reads .field (name :: colon :: w) (.mk name.content e) := by
  intro m rest hrest
  cases m with
  | zero => exact .inl rfl
  | succ m =>
    simp only [List.cons_append, Grammar.field, peek_bind, List.head?_cons, hname, skip_bind,
      done_bind _ (accept_of_kind hcolon)]
    exact gives_bind (h m rest (endsExpression_of_closes hrest)) gives_pure

/-- A name alone is a field with the value of that name. -/
theorem shortField {name : Token} (hname : name.kind = .identifier) :
    Reads .field [name] (.mk name.lexeme (.var ⟨identOf name, none⟩)) := by
  intro m rest hrest
  cases m with
  | zero => exact .inl rfl
  | succ m =>
    have hcolon : startsWith .colon rest = false := startsWith_of_opensWith hrest rfl
    simp only [List.singleton_append, Grammar.field, peek_bind, List.head?_cons, hname, skip_bind,
      done_bind _ (accept_of_not hcolon)]
    exact gives_pure

end Reads

/-- A word that has a greedy derivation is read, up to the bound on nesting, and gives the tree of
that derivation. -/
theorem Derives.reads {n : Symbol} {w : List Token} {tree : n.Tree} (h : Derives true n w tree) :
    Reads n w tree := by
  induction h with
  | noStatement => exact .noStatement
  | statements hs hrest hminus ih ihrest =>
    exact .statements hs.opens hrest.opens (hminus rfl) ih ihrest
  | block hopening _ hclosing ih => exact .block hopening ih hclosing
  | letStatement hk _ ih => exact .letStatement hk ih
  | constStatement hk _ ih => exact .constStatement hk ih
  | ifStatement hk _ ih => exact .ifStatement hk ih
  | forStatement hk hstart _ _ hbrace _ ihstart ihcondition ihcloser ihbody =>
    exact .forStatement hk hstart.opens ihstart ihcondition ihcloser hbrace ihbody
  | parenForStatement hk hopening _ _ hcloser hclosing _ ihstart ihcondition ihcloser ihbody =>
    exact .parenForStatement hk hopening ihstart ihcondition hcloser.opens ihcloser hclosing ihbody
  | printStatement hk _ hsemicolon ih => exact .printStatement hk ih hsemicolon
  | classStatement hk hname _ hopening _ hclosing ihextension ihmethods =>
    exact .classStatement hk hname ihextension hopening ihmethods hclosing
  | blockStatement _ ih => exact .blockStatement ih
  | breakStatement hk hsemicolon => exact .breakStatement hk hsemicolon
  | continueStatement hk hsemicolon => exact .continueStatement hk hsemicolon
  | bareReturn hk hsemicolon => exact .bareReturn hk hsemicolon
  | returnStatement hk he hsemicolon ih => exact .returnStatement hk he.opens ih hsemicolon
  | emptyStatement hk => exact .emptyStatement hk
  | expressionStatement he hbrace hsemicolon hlambda ih =>
    exact .expressionStatement he.opens ih hbrace hsemicolon (hlambda rfl)
  | functionStatement he hlambda ih =>
    exact .functionStatement he.opens (he.loneLambda hlambda).2 ih hlambda
  | bareBinding hname hsemicolon => exact .bareBinding hname hsemicolon
  | binding hname hequal _ hsemicolon ih => exact .binding hname hequal ih hsemicolon
  | conditional _ _ _ ihcondition ihbody ihelse => exact .conditional ihcondition ihbody ihelse
  | noAlternative => exact .noAlternative
  | elseIf helse hif _ ih => exact .elseIf helse hif ih
  | elseBlock helse _ ih => exact .elseBlock helse ih
  | noLoopStart hk => exact .noLoopStart hk
  | letLoopStart hk _ ih => exact .letLoopStart hk ih
  | constLoopStart hk _ ih => exact .constLoopStart hk ih
  | noLoopCondition hk => exact .noLoopCondition hk
  | loopCondition he hsemicolon ih => exact .loopCondition he.opens ih hsemicolon
  | noLoopCloser => exact .noLoopCloser
  | loopCloser he ih => exact .loopCloser he.opens ih
  | noExtension => exact .noExtension
  | extension hk hname => exact .extension hk hname
  | noMethod => exact .noMethod
  | methods hname _ _ ihfunction ihrest => exact .methods hname ihfunction ihrest
  | function hopening _ hcount hclosing _ ihparameters ihbody =>
    exact .function hopening ihparameters hcount hclosing ihbody
  | noParameter => exact .noParameter
  | lastParameter hname => exact .lastParameter hname
  | parameters hname hcomma _ ih => exact .parameters hname hcomma ih
  | plain _ ih => exact .plain ih
  | assignment _ hequal _ hassign ihtarget ihvalue =>
    exact .assignment ihtarget hequal ihvalue hassign
  | firstOperand _ ih => exact .firstOperand ih
  | infixOperator _ hop _ ihleft ihright => exact .infixOperator ihleft hop ihright
  | tighterOperand htighter _ ih => exact .tighterOperand htighter ih
  | unaryOperand htighter _ ih => exact .unaryOperand htighter ih
  | unaryOperator hop _ ih => exact .unaryOperator hop ih
  | functionLiteral hk hf ih => exact .functionLiteral hk hf.opens ih
  | namedFunctionLiteral hk hname _ ih => exact .namedFunctionLiteral hk hname ih
  | unaryChain hchain ih => exact .unaryChain hchain.opens hchain.loneLambda ih
  | chainStart _ ih => exact .chainStart ih
  | superCall hk hopening _ hcount hclosing ih => exact .superCall hk hopening ih hcount hclosing
  | call _ hopening _ hcount hclosing ihcallee iharguments =>
    exact .call ihcallee hopening iharguments hcount hclosing
  | property _ hdot hname ih => exact .property ih hdot hname
  | computedProperty _ hdot hopening _ hclosing ihobject ihkey =>
    exact .computedProperty ihobject hdot hopening ihkey hclosing
  | subscript _ hopening _ hclosing ihobject ihindex =>
    exact .subscript ihobject hopening ihindex hclosing
  | literal hvalue => exact .literal hvalue
  | variableUse hname => exact .variableUse hname
  | grouping hopening _ hclosing ih => exact .grouping hopening ih hclosing
  | thisUse hk => exact .thisUse hk
  | superMethod hk hdot hname => exact .superMethod hk hdot hname
  | list hopening _ hclosing ih => exact .list hopening ih hclosing
  | object hopening _ hclosing ih => exact .object hopening ih hclosing
  | noExpression => exact .noExpression
  | lastExpression he ih => exact .lastExpression he.opens ih
  | expressions he hcomma _ ih ihrest => exact .expressions he.opens ih hcomma ihrest
  | noField => exact .noField
  | lastField hf ih => exact .lastField hf.opens ih
  | fields hf hcomma _ ih ihrest => exact .fields hf.opens ih hcomma ihrest
  | namedField hname hcolon _ ih => exact .namedField hname hcolon ih
  | quotedField hname hcolon _ ih => exact .quotedField hname hcolon ih
  | shortField hname => exact .shortField hname

end Grammar

end Lox
