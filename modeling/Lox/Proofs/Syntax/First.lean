import Lox.Proofs.Syntax.Reading

/-!
# How words start

What the first token of a word can be, for the symbols whose readers choose by it, and what the
first token says of the tree: a function literal starts with its word, and nothing that starts with
a minus sign can be assigned to.
-/

namespace Lox

namespace TokenKind

/-- The kinds that a chain of calls, property accesses and subscripts starts with. -/
def opensChain (k : TokenKind) : Bool :=
  [.falseWord, .trueWord, .nilWord, .number, .string, .char, .identifier, .leftParen, .thisWord,
    .leftBracket, .leftBrace, .superWord].contains k

/-- The kinds that an expression starts with. -/
def opensExpression (k : TokenKind) : Bool := k.opensChain || [.bang, .minus, .funWord].contains k

/-- The kinds that a statement starts with. -/
def opensStatement (k : TokenKind) : Bool :=
  k.opensExpression || [.letWord, .constWord, .ifWord, .forWord, .printWord, .classWord, .breakWord,
    .continueWord, .returnWord, .semicolon].contains k

end TokenKind

namespace Grammar

variable {greedy : Bool} {w rest : List Token} {p q : TokenKind → Bool}

/-- Whether there is a first token, and its kind is one of some kinds. -/
def opensWith (p : TokenKind → Bool) (w : List Token) : Bool := w.head?.any fun t => p t.kind

@[simp] theorem opensWith_cons (t : Token) : opensWith p (t :: w) = p t.kind := rfl

/-- What a word opens with, it opens with before any tokens. -/
theorem opensWith_append (h : opensWith p w) : opensWith p (w ++ rest) := by
  cases w with
  | nil => cases h
  | cons t w => exact h

theorem opensWith_mono (h : opensWith p w) (hpq : ∀ k, p k → q k) : opensWith q w := by
  cases w with
  | nil => cases h
  | cons t w => exact hpq _ h

theorem cons_of_opensWith (h : opensWith p w) : ∃ t w', w = t :: w' ∧ p t.kind := by
  cases w with
  | nil => cases h
  | cons t w => exact ⟨t, w, rfl, h⟩

/-- A word does not start with a kind that no word of its symbol starts with. -/
theorem startsWith_of_opensWith {kind : TokenKind} (h : opensWith p w) (hkind : p kind = false) :
    startsWith kind w = false := by
  obtain ⟨t, w, rfl, ht⟩ := cons_of_opensWith h
  rw [startsWith_cons, beq_eq_false_iff_ne]
  rintro rfl
  rw [hkind] at ht
  cases ht

/-- What opens an expression opens a statement. -/
theorem opensStatement_of_expression {k : TokenKind} (h : k.opensExpression) :
    k.opensStatement := by
  rw [TokenKind.opensStatement, h, Bool.true_or]

/-- What opens a chain opens an expression. -/
theorem opensExpression_of_chain {k : TokenKind} (h : k.opensChain) : k.opensExpression := by
  rw [TokenKind.opensExpression, h, Bool.true_or]

/-- How the words of a symbol start. Of the other symbols nothing is said. -/
def Opens : Symbol → List Token → Prop
  | .chain, w | .primary, w => opensWith TokenKind.opensChain w
  | .expression, w | .level _, w | .operand _, w | .unary, w =>
    opensWith TokenKind.opensExpression w
  | .statement, w => opensWith TokenKind.opensStatement w
  | .statements, w => w = [] ∨ opensWith TokenKind.opensStatement w
  | .loopCloser, w => w = [] ∨ opensWith TokenKind.opensExpression w
  | .loopStart, w => opensWith [TokenKind.semicolon, .letWord, .constWord].contains w
  | .field, w => opensWith [TokenKind.identifier, .string].contains w
  | .block, w => opensWith (· == TokenKind.leftBrace) w
  | .function _, w => opensWith (· == TokenKind.leftParen) w
  | _, _ => True

theorem opensChain_of_literalOf? {t : Token} {value : Literal} (h : literalOf? t = some value) :
    t.kind.opensChain := by
  unfold literalOf? at h
  generalize t.kind = k at h ⊢
  split at h <;> first | rfl | cases h

theorem opensExpression_of_unary {k : TokenKind} {op : UnaryOp} (h : UnaryOp.ofKind? k = some op) :
    k.opensExpression := by
  unfold UnaryOp.ofKind? at h
  split at h <;> first | rfl | cases h

/-- Every word of a symbol opens with a token that the symbol can open with. -/
theorem Derives.opens {n : Symbol} {tree : n.Tree} (h : Derives greedy n w tree) : Opens n w := by
  -- A token whose kind is known starts the word, or a part starts it whose words start as they
  -- should.
  induction h with
  | noStatement | noLoopCloser => exact .inl rfl
  | loopCloser _ ih => exact .inr ih
  | statements _ _ _ ih _ => exact .inr (opensWith_append ih)
  | blockStatement _ ih =>
    refine opensWith_mono ih fun k hk => ?_
    rw [beq_iff_eq] at hk
    rw [hk]
    rfl
  | expressionStatement _ _ _ _ ih =>
    exact opensWith_append (opensWith_mono ih fun _ => opensStatement_of_expression)
  | functionStatement _ _ ih => exact opensWith_mono ih fun _ => opensStatement_of_expression
  | plain _ ih | firstOperand _ ih | tighterOperand _ _ ih | unaryOperand _ _ ih
  | chainStart _ ih => exact ih
  | assignment _ _ _ _ ih _ | infixOperator _ _ _ ih _ => exact opensWith_append ih
  | unaryOperator hop _ _ => exact opensExpression_of_unary hop
  | unaryChain _ ih => exact opensWith_mono ih fun _ => opensExpression_of_chain
  | call _ _ _ _ _ ih _ | property _ _ _ ih | computedProperty _ _ _ _ _ ih _
  | subscript _ _ _ _ ih _ =>
    exact opensWith_append ih
  | literal hvalue => exact opensChain_of_literalOf? hvalue
  | block hk | function hk | letStatement hk | constStatement hk | ifStatement hk | forStatement hk
  | parenForStatement hk | printStatement hk | classStatement hk | breakStatement hk
  | continueStatement hk | bareReturn hk | returnStatement hk | emptyStatement hk | noLoopStart hk
  | letLoopStart hk | constLoopStart hk | functionLiteral hk | namedFunctionLiteral hk
  | superCall hk | variableUse hk | grouping hk | thisUse hk | superMethod hk | list hk | object hk
  | namedField hk | quotedField hk | shortField hk =>
    rw [Opens, opensWith_cons, hk]
    rfl
  | _ => trivial

/-! ## What the first token says of the tree -/

/-- Whether an expression can be assigned to. -/
def isTarget (e : Expr) : Bool := (assignTo e e).isSome

/-- Targets are what can be assigned to. -/
theorem isSome_assignTo (e value : Expr) : (assignTo e value).isSome = isTarget e := by
  cases e <;> rfl

/-- What operators combine is no function literal. -/
theorem isLambda_combine (op : InfixOp) (blame : Span) (left right : Expr) :
    isLambda (combine op blame left right) = false := by
  cases op <;> rfl

theorem isTarget_combine (op : InfixOp) (blame : Span) (left right : Expr) :
    isTarget (combine op blame left right) = false := by
  cases op <;> rfl

theorem isLambda_of_assignTo {target value e : Expr} (h : assignTo target value = some e) :
    isLambda e = false := by
  cases target <;> cases h <;> rfl

/-- A function literal stands by itself: none is a chain, and an expression that is one is no more
than it. -/
def LoneLambda (greedy : Bool) : (n : Symbol) → List Token → n.Tree → Prop
  | .chain, _, e | .primary, _, e => isLambda e = false
  | .expression, w, e | .level _, w, e | .operand _, w, e | .unary, w, e =>
    isLambda e → Derives greedy .unary w e ∧ startsWith .funWord w
  | _, _, _ => True

/-- A function literal is read from its own word. -/
theorem Derives.loneLambda {n : Symbol} {tree : n.Tree} (h : Derives greedy n w tree) :
    LoneLambda greedy n w tree := by
  induction h with
  | plain _ ih | firstOperand _ ih | tighterOperand _ _ ih | unaryOperand _ _ ih
  | chainStart _ ih => exact ih
  | assignment _ _ _ hassign _ _ =>
    intro hlambda
    rw [isLambda_of_assignTo hassign] at hlambda
    cases hlambda
  | infixOperator _ _ _ _ _ =>
    intro hlambda
    rw [isLambda_combine] at hlambda
    cases hlambda
  | unaryOperator _ _ _ => nofun
  | functionLiteral hk hf _ =>
    exact fun _ => ⟨.functionLiteral hk hf, by rw [startsWith_cons, hk]; rfl⟩
  | namedFunctionLiteral hk hname hf _ =>
    exact fun _ => ⟨.namedFunctionLiteral hk hname hf, by rw [startsWith_cons, hk]; rfl⟩
  | unaryChain _ ih =>
    intro hlambda
    rw [ih] at hlambda
    cases hlambda
  | superCall | call | property | computedProperty | subscript | literal | variableUse | grouping
  | thisUse | superMethod | list | object => rfl
  | _ => trivial

/-- What starts with a minus sign cannot be assigned to. -/
def MinusIsNoTarget : (n : Symbol) → List Token → n.Tree → Prop
  | .level _, w, e | .operand _, w, e | .unary, w, e => startsWith .minus w → isTarget e = false
  | _, _, _ => True

theorem startsWith_append {kind : TokenKind} (hw : opensWith p w) :
    startsWith kind (w ++ rest) = startsWith kind w := by
  obtain ⟨t, w, rfl, _⟩ := cons_of_opensWith hw
  rfl

/-- What starts with a minus is not assigned to. -/
theorem Derives.minusIsNoTarget {n : Symbol} {tree : n.Tree} (h : Derives greedy n w tree) :
    MinusIsNoTarget n w tree := by
  induction h with
  | firstOperand _ ih | tighterOperand _ _ ih | unaryOperand _ _ ih => exact ih
  | infixOperator _ _ _ _ _ => exact fun _ => isTarget_combine _ _ _ _
  | unaryOperator _ _ _ | functionLiteral _ _ _ | namedFunctionLiteral _ _ _ _ => exact fun _ => rfl
  | unaryChain hchain ih =>
    intro hminus
    rw [startsWith_of_opensWith hchain.opens rfl] at hminus
    cases hminus
  | _ => trivial
end Grammar

end Lox
