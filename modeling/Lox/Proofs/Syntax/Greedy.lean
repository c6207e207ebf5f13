import Lox.Proofs.Syntax.First

/-!
# Greedy derivations

Every program of the grammar has a greedy derivation. A function literal with a semicolon after it
is two statements then, the second of them empty. A function literal without one, before a statement
that starts with a minus sign, makes one statement with it: the sign becomes an operator between the
literal and what follows it (`merge`).

The tree of a greedy derivation may be another one. What matters of it stays: an expression stays a
function literal or not, and assignable or not, and a list stays as long as it is.
-/

namespace Lox

namespace Grammar

variable {w w' : List Token} {e : Expr}

/-! ## A literal that is continued -/

theorem level_of_unary (h : Derives true .unary w e) : Derives true (.level .sum) w e :=
  .firstOperand (.tighterOperand rfl (.firstOperand (.unaryOperand rfl h)))

/-- A property of the words of a level, and nothing of other words. -/
def OfLevel (l : Level) (P : List Token → Expr → Prop) : (n : Symbol) → List Token → n.Tree → Prop
  | .level l', w, e => l' = l → P w e
  | _, _, _ => True

/-- Induction on the operands of a level, from the left. -/
theorem level_induction {l : Level} {P : List Token → Expr → Prop}
    (first : ∀ w e, Derives true (.operand l) w e → P w e)
    (next : ∀ w w' operator left right op, Derives true (.level l) w left → P w left →
      l.operator? operator.kind = some op → Derives true (.operand l) w' right →
      P (w ++ operator :: w') (combine op operator.span left right))
    (h : Derives true (.level l) w e) : P w e := by
  suffices hof : ∀ {n : Symbol} {w : List Token} {tree : n.Tree}, Derives true n w tree →
    OfLevel l P n w tree from hof h rfl
  intro n w tree h
  induction h with
  | firstOperand hoperand _ =>
    rintro rfl
    exact first _ _ hoperand
  | infixOperator hleft hop hright ihleft _ =>
    rintro rfl
    exact next _ _ _ _ _ _ hleft (ihleft rfl) hop hright
  | _ => trivial

/-- Without the sign that it starts with, a product is still a product. -/
theorem product_tail {sign : Token} (hsign : sign.kind = .minus)
    (h : Derives true (.level .product) (sign :: w) e) :
    ∃ e', Derives true (.level .product) w e' := by
  suffices htail :
    ∀ w', sign :: w = sign :: w' → ∃ e', Derives true (.level .product) w' e' from htail w rfl
  refine level_induction (P :=
    fun v _ => ∀ w', v = sign :: w' → ∃ e', Derives true (.level .product) w' e') ?_ ?_ h
  · rintro _ e hoperand w' rfl
    cases hoperand with
    | tighterOperand htighter _ => cases htighter
    | unaryOperand _ hunary =>
      cases hunary with
      | unaryOperator _ hrest => exact ⟨_, .firstOperand (.unaryOperand rfl hrest)⟩
      | functionLiteral hk _ | namedFunctionLiteral hk _ _ =>
        rw [hk] at hsign
        cases hsign
      | unaryChain hchain =>
        have hopens : TokenKind.opensChain sign.kind := hchain.opens
        rw [hsign] at hopens
        cases hopens
  · intro w₁ w₂ operator left right op hleft ihleft hop hright w' heq
    obtain ⟨t, w₁, rfl, _⟩ := cons_of_opensWith hleft.opens
    obtain ⟨rfl, rfl⟩ := List.cons.inj heq
    obtain ⟨left', hleft'⟩ := ihleft w₁ rfl
    exact ⟨_, .infixOperator hleft' hop hright⟩

/-- Words that start with a minus sign go on, as a level, from a function literal before them. -/
def ContinuesAs (literal : List Token) (l : Level) (w : List Token) : Prop :=
  ∀ sign w', sign.kind = .minus → w = sign :: w' →
    ∃ e, Derives true (.level l) (literal ++ w) e ∧ isLambda e = false

/-- It is enough that the first operand goes on from the literal: the others follow as before. -/
theorem continuesAs_of_operand {literal : List Token} {l : Level}
    (hfirst : ∀ w e, Derives true (.operand l) w e → ContinuesAs literal l w)
    (h : Derives true (.level l) w e) : ContinuesAs literal l w := by
  refine level_induction (P := fun v _ => ContinuesAs literal l v) hfirst ?_ h
  intro w₁ w₂ operator left right op hleft ihleft hop hright sign w' hsign heq
  obtain ⟨t, w₁, rfl, _⟩ := cons_of_opensWith hleft.opens
  obtain ⟨rfl, rfl⟩ := List.cons.inj heq
  obtain ⟨left', hleft', _⟩ := ihleft t w₁ hsign rfl
  refine ⟨combine op operator.span left' right, ?_, isLambda_combine _ _ _ _⟩
  rw [← List.append_assoc]
  exact .infixOperator hleft' hop hright

theorem sum_continuesAs {literal : List Token} {f : Expr} (hliteral : Derives true .unary literal f)
    (h : Derives true (.level .sum) w e) : ContinuesAs literal .sum w := by
  refine continuesAs_of_operand ?_ h
  rintro _ e hoperand sign w hsign rfl
  cases hoperand with
  | tighterOperand htighter hproduct =>
    cases htighter
    obtain ⟨right, hright⟩ := product_tail hsign hproduct
    have hop : Level.sum.operator? sign.kind = some (.binary .subtract) := by rw [hsign]; rfl
    exact ⟨_, .infixOperator (level_of_unary hliteral) hop (.tighterOperand rfl hright),
      isLambda_combine _ _ _ _⟩
  | unaryOperand htighter _ => cases htighter

theorem looser_continuesAs {literal : List Token} {l tighter : Level}
    (htighter : l.tighter = some tighter)
    (hcontinues : ∀ w e, Derives true (.level tighter) w e → ContinuesAs literal tighter w)
    (h : Derives true (.level l) w e) : ContinuesAs literal l w := by
  refine continuesAs_of_operand (fun w e hoperand sign w' hsign hw => ?_) h
  cases hoperand with
  | tighterOperand htighter' hlevel =>
    rw [htighter] at htighter'
    cases htighter'
    obtain ⟨e', he', hlambda⟩ := hcontinues w e hlevel sign w' hsign hw
    exact ⟨e', .firstOperand (.tighterOperand htighter he'), hlambda⟩
  | unaryOperand hnone _ =>
    rw [htighter] at hnone
    cases hnone

/-- A function literal in front can be taken as an operand at every level. -/
theorem disjunction_continuesAs {literal : List Token} {f : Expr}
    (hliteral : Derives true .unary literal f) (h : Derives true (.level .disjunction) w e) :
    ContinuesAs literal .disjunction w := by
  have comparison : ∀ w e, Derives true (.level .comparison) w e →
      ContinuesAs literal .comparison w :=
    fun _ _ => looser_continuesAs rfl fun _ _ => sum_continuesAs hliteral
  have equality : ∀ w e, Derives true (.level .equality) w e → ContinuesAs literal .equality w :=
    fun _ _ => looser_continuesAs rfl comparison
  have conjunction : ∀ w e, Derives true (.level .conjunction) w e →
      ContinuesAs literal .conjunction w :=
    fun _ _ => looser_continuesAs rfl equality
  exact looser_continuesAs rfl conjunction h

/-! ## Statements that are put together -/

theorem isLambda_of_startsWith_minus (h : Derives true .expression w e)
    (hminus : startsWith .minus w) : isLambda e = false := by
  rw [Bool.eq_false_iff]
  intro hlambda
  obtain ⟨t, w, rfl, _⟩ := cons_of_opensWith h.opens
  obtain ⟨_, hfun⟩ := h.loneLambda hlambda
  rw [startsWith_cons, beq_iff_eq] at hminus hfun
  rw [hminus] at hfun
  cases hfun

/-- What starts with a minus sign is no assignment. -/
theorem level_of_startsWith_minus (h : Derives true .expression w e)
    (hminus : startsWith .minus w) : Derives true (.level .disjunction) w e := by
  cases h with
  | plain h => exact h
  | @assignment equal w w' target value e htarget _ _ hassign =>
    rw [startsWith_append htarget.opens] at hminus
    have hsome := isSome_assignTo target value
    rw [hassign, htarget.minusIsNoTarget hminus] at hsome
    cases hsome

/-- A statement that starts with a minus sign is an expression with a semicolon. -/
theorem expression_of_startsWith_minus {s : Option Stmt} (h : Derives true .statement w s)
    (hminus : startsWith .minus w) :
    ∃ w' e semicolon, w = w' ++ [semicolon] ∧ semicolon.kind = .semicolon ∧
      Derives true (.level .disjunction) w' e ∧ startsWith .minus w' := by
  cases h with
  | expressionStatement hexpression _ hsemicolon _ =>
    rw [startsWith_append hexpression.opens] at hminus
    exact ⟨_, _, _, rfl, hsemicolon, level_of_startsWith_minus hexpression hminus, hminus⟩
  | functionStatement hexpression hlambda =>
    rw [isLambda_of_startsWith_minus hexpression hminus] at hlambda
    cases hlambda
  | blockStatement hblock =>
    rw [startsWith_of_opensWith hblock.opens rfl] at hminus
    cases hminus
  | letStatement hk | constStatement hk | ifStatement hk | forStatement hk | parenForStatement hk
  | printStatement hk | classStatement hk | breakStatement hk | continueStatement hk | bareReturn hk
  | returnStatement hk | emptyStatement hk =>
    rw [startsWith_cons, hk] at hminus
    cases hminus

/-- A function literal without a semicolon and a statement that starts with a minus sign are one
statement. -/
theorem merge {literal : List Token} {f : Expr} {s : Option Stmt}
    (hliteral : Derives true .expression literal f) (hlambda : isLambda f)
    (hstatement : Derives true .statement w s) (hminus : startsWith .minus w) :
    ∃ s', Derives true .statement (literal ++ w) s' ∧ isFunctionStatement s' = false := by
  obtain ⟨w, e, semicolon, rfl, hsemicolon, hlevel, hminus⟩ :=
    expression_of_startsWith_minus hstatement hminus
  obtain ⟨hunary, hfun⟩ := hliteral.loneLambda hlambda
  obtain ⟨sign, w', hw, _⟩ := cons_of_opensWith hlevel.opens
  have hsign : sign.kind = .minus := by rwa [hw, startsWith_cons, beq_iff_eq] at hminus
  obtain ⟨e', he', hnot⟩ := disjunction_continuesAs hunary hlevel sign w' hsign hw
  refine ⟨some (.evaluate e'), ?_, hnot⟩
  rw [← List.append_assoc]
  refine .expressionStatement (.plain he') ?_ hsemicolon fun _ => hnot
  obtain ⟨t, literal, rfl, _⟩ := cons_of_opensWith hliteral.opens
  rw [startsWith_cons, beq_iff_eq] at hfun
  rw [List.cons_append, startsWith_cons, hfun]
  rfl

theorem isFunctionStatement_blockOf (body : List Stmt) :
    isFunctionStatement (blockOf body) = false := by
  cases body <;> rfl

theorem isFunctionStatement_branchOf (condition : Expr) (thenBranch elseBranch : Option Stmt) :
    isFunctionStatement (branchOf condition thenBranch elseBranch) = false := by
  cases thenBranch <;> cases elseBranch <;> rfl

theorem isFunctionStatement_loopOf (init : Option Stmt) (condition closer : Option Expr)
    (body : Option Stmt) : isFunctionStatement (loopOf init condition closer body) = false := by
  cases body <;> cases init <;> rfl

/-- A statement that is a function literal consists of the literal alone. -/
theorem function_of_isFunctionStatement {s : Option Stmt} (h : Derives true .statement w s)
    (hs : isFunctionStatement s) : ∃ f, Derives true .expression w f ∧ isLambda f := by
  cases h with
  | functionStatement hexpression hlambda => exact ⟨_, hexpression, hlambda⟩
  | @expressionStatement _ _ e _ _ _ hnot =>
    change isLambda e = true at hs
    rw [hnot rfl] at hs
    cases hs
  | letStatement _ hbinding | constStatement _ hbinding => cases hbinding <;> cases hs
  | ifStatement _ hconditional =>
    cases hconditional with
    | conditional =>
      rw [isFunctionStatement_branchOf] at hs
      cases hs
  | forStatement | parenForStatement =>
    rw [isFunctionStatement_loopOf] at hs
    cases hs
  | blockStatement =>
    rw [isFunctionStatement_blockOf] at hs
    cases hs
  | printStatement | classStatement | breakStatement | continueStatement | bareReturn
  | returnStatement | emptyStatement => cases hs

/-- A greedy list of statements and one statement before it. -/
theorem statements_cons {s : Option Stmt} {program : List Stmt} (h : Derives true .statement w s)
    (h' : Derives true .statements w' program) :
    ∃ program', Derives true .statements (w ++ w') program' := by
  by_cases hcontinued : isFunctionStatement s ∧ startsWith .minus w'
  · obtain ⟨hs, hminus⟩ := hcontinued
    obtain ⟨f, hf, hlambda⟩ := function_of_isFunctionStatement h hs
    cases h' with
    | noStatement => cases hminus
    | statements hnext hrest _ =>
      rw [startsWith_append hnext.opens] at hminus
      obtain ⟨s', hs', hnot⟩ := merge hf hlambda hnext hminus
      rw [← List.append_assoc]
      refine ⟨_, .statements hs' hrest fun _ hs => ?_⟩
      rw [hnot] at hs
      cases hs
  · refine ⟨_, .statements h h' fun _ hs => ?_⟩
    rw [Bool.eq_false_iff]
    exact fun hminus => hcontinued ⟨hs, hminus⟩

/-! ## From any derivation to a greedy one -/

/-- What stays of an expression in another derivation of its word. -/
def SameForm (e e' : Expr) : Prop := isLambda e' = isLambda e ∧ isTarget e' = isTarget e

/-- The word of a symbol has a greedy derivation, whose tree keeps what the rules ask of trees. That
of a statement may take in tokens of the statements after it, so it is said of all of them
together. -/
def HasGreedy : (n : Symbol) → List Token → n.Tree → Prop
  | .statement, w, _ => ∀ {w' program}, Derives true .statements w' program →
      ∃ program', Derives true .statements (w ++ w') program'
  | .parameters, w, names => Derives true .parameters w names
  | .expressions, w, es => ∃ es', Derives true .expressions w es' ∧ es'.length = es.length
  | .expression, w, e => ∃ e', Derives true .expression w e' ∧ SameForm e e'
  | .level l, w, e => ∃ e', Derives true (.level l) w e' ∧ SameForm e e'
  | .operand l, w, e => ∃ e', Derives true (.operand l) w e' ∧ SameForm e e'
  | .unary, w, e => ∃ e', Derives true .unary w e' ∧ SameForm e e'
  | .chain, w, e => ∃ e', Derives true .chain w e' ∧ SameForm e e'
  | .primary, w, e => ∃ e', Derives true .primary w e' ∧ SameForm e e'
  | n, w, _ => ∃ tree, Derives true n w tree

theorem sameForm_combine (op op' : InfixOp) (blame blame' : Span) (left right left' right' : Expr) :
    SameForm (combine op blame left right) (combine op' blame' left' right') := by
  cases op <;> cases op' <;> exact ⟨rfl, rfl⟩

theorem assignTo_of_sameForm {target target' value value' e : Expr}
    (hform : SameForm target target') (h : assignTo target value = some e) :
    ∃ e', assignTo target' value' = some e' ∧ SameForm e e' := by
  have htarget : isTarget target' := by
    rw [hform.2, ← isSome_assignTo target value, h]
    rfl
  have he : isLambda e = false ∧ isTarget e = false := by
    cases target <;> cases h <;> exact ⟨rfl, rfl⟩
  cases target' <;> cases htarget <;> exact ⟨_, rfl, he.1.symm, he.2.symm⟩

/-- Every word has a greedy derivation. -/
theorem Derives.hasGreedy {n : Symbol} {w : List Token} {tree : n.Tree}
    (h : Derives false n w tree) : HasGreedy n w tree := by
  induction h with
  | noStatement => exact ⟨_, .noStatement⟩
  | statements _ _ _ ih ihrest =>
    obtain ⟨_, hrest⟩ := ihrest
    exact ih hrest
  | block hopening _ hclosing ih =>
    obtain ⟨_, hbody⟩ := ih
    exact ⟨_, .block hopening hbody hclosing⟩
  | letStatement hk _ ih =>
    obtain ⟨_, hbinding⟩ := ih
    exact statements_cons (.letStatement hk hbinding)
  | constStatement hk _ ih =>
    obtain ⟨_, hbinding⟩ := ih
    exact statements_cons (.constStatement hk hbinding)
  | ifStatement hk _ ih =>
    obtain ⟨_, hconditional⟩ := ih
    exact statements_cons (.ifStatement hk hconditional)
  | forStatement hk _ _ _ hbrace _ ihstart ihcondition ihcloser ihbody =>
    obtain ⟨_, hstart⟩ := ihstart
    obtain ⟨_, hcondition⟩ := ihcondition
    obtain ⟨_, hcloser⟩ := ihcloser
    obtain ⟨_, hbody⟩ := ihbody
    exact statements_cons (.forStatement hk hstart hcondition hcloser hbrace hbody)
  | parenForStatement hk hopening _ _ _ hclosing _ ihstart ihcondition ihcloser ihbody =>
    obtain ⟨_, hstart⟩ := ihstart
    obtain ⟨_, hcondition⟩ := ihcondition
    obtain ⟨_, hcloser⟩ := ihcloser
    obtain ⟨_, hbody⟩ := ihbody
    exact statements_cons (.parenForStatement hk hopening hstart hcondition hcloser hclosing hbody)
  | printStatement hk _ hsemicolon ih =>
    obtain ⟨_, hexpression, _⟩ := ih
    exact statements_cons (.printStatement hk hexpression hsemicolon)
  | classStatement hk hname _ hopening _ hclosing ihextension ihmethods =>
    obtain ⟨_, hextension⟩ := ihextension
    obtain ⟨_, hmethods⟩ := ihmethods
    exact statements_cons (.classStatement hk hname hextension hopening hmethods hclosing)
  | blockStatement _ ih =>
    obtain ⟨_, hblock⟩ := ih
    exact statements_cons (.blockStatement hblock)
  | breakStatement hk hsemicolon => exact statements_cons (.breakStatement hk hsemicolon)
  | continueStatement hk hsemicolon => exact statements_cons (.continueStatement hk hsemicolon)
  | bareReturn hk hsemicolon => exact statements_cons (.bareReturn hk hsemicolon)
  | returnStatement hk _ hsemicolon ih =>
    obtain ⟨_, hexpression, _⟩ := ih
    exact statements_cons (.returnStatement hk hexpression hsemicolon)
  | emptyStatement hsemicolon => exact statements_cons (.emptyStatement hsemicolon)
  | expressionStatement _ hbrace hsemicolon _ ih =>
    intro w' program hrest
    obtain ⟨e', hexpression, _⟩ := ih
    cases hlambda : isLambda e' with
    | true =>
      obtain ⟨_, hrest'⟩ := statements_cons (.emptyStatement hsemicolon) hrest
      rw [List.append_assoc]
      exact statements_cons (.functionStatement hexpression hlambda) hrest'
    | false =>
      exact statements_cons (.expressionStatement hexpression hbrace hsemicolon fun _ =>
        hlambda) hrest
  | functionStatement _ hlambda ih =>
    obtain ⟨_, hexpression, hform⟩ := ih
    exact statements_cons (.functionStatement hexpression (hform.1.trans hlambda))
  | bareBinding hname hsemicolon => exact ⟨_, .bareBinding hname hsemicolon⟩
  | binding hname hequal _ hsemicolon ih =>
    obtain ⟨_, hexpression, _⟩ := ih
    exact ⟨_, .binding hname hequal hexpression hsemicolon⟩
  | conditional _ _ _ ihcondition ihbody ihelse =>
    obtain ⟨_, hcondition, _⟩ := ihcondition
    obtain ⟨_, hbody⟩ := ihbody
    obtain ⟨_, helse⟩ := ihelse
    exact ⟨_, .conditional hcondition hbody helse⟩
  | noAlternative => exact ⟨_, .noAlternative⟩
  | elseIf helse hif _ ih =>
    obtain ⟨_, hconditional⟩ := ih
    exact ⟨_, .elseIf helse hif hconditional⟩
  | elseBlock helse _ ih =>
    obtain ⟨_, hblock⟩ := ih
    exact ⟨_, .elseBlock helse hblock⟩
  | noLoopStart hsemicolon => exact ⟨_, .noLoopStart hsemicolon⟩
  | letLoopStart hk _ ih =>
    obtain ⟨_, hbinding⟩ := ih
    exact ⟨_, .letLoopStart hk hbinding⟩
  | constLoopStart hk _ ih =>
    obtain ⟨_, hbinding⟩ := ih
    exact ⟨_, .constLoopStart hk hbinding⟩
  | noLoopCondition hsemicolon => exact ⟨_, .noLoopCondition hsemicolon⟩
  | loopCondition _ hsemicolon ih =>
    obtain ⟨_, hexpression, _⟩ := ih
    exact ⟨_, .loopCondition hexpression hsemicolon⟩
  | noLoopCloser => exact ⟨_, .noLoopCloser⟩
  | loopCloser _ ih =>
    obtain ⟨_, hexpression, _⟩ := ih
    exact ⟨_, .loopCloser hexpression⟩
  | noExtension => exact ⟨_, .noExtension⟩
  | extension hk hname => exact ⟨_, .extension hk hname⟩
  | noMethod => exact ⟨_, .noMethod⟩
  | methods hname _ _ ihfunction ihrest =>
    obtain ⟨_, hfunction⟩ := ihfunction
    obtain ⟨_, hrest⟩ := ihrest
    exact ⟨_, .methods hname hfunction hrest⟩
  | function hopening _ hcount hclosing _ ihparameters ihbody =>
    obtain ⟨_, hbody⟩ := ihbody
    exact ⟨_, .function hopening ihparameters hcount hclosing hbody⟩
  | noParameter => exact .noParameter
  | lastParameter hname => exact .lastParameter hname
  | parameters hname hcomma _ ih => exact .parameters hname hcomma ih
  | plain _ ih =>
    obtain ⟨e', hlevel, hform⟩ := ih
    exact ⟨e', .plain hlevel, hform⟩
  | assignment _ hequal _ hassign ihtarget ihvalue =>
    obtain ⟨target', htarget, hform⟩ := ihtarget
    obtain ⟨value', hvalue, _⟩ := ihvalue
    obtain ⟨e', hassign', hform'⟩ := assignTo_of_sameForm hform hassign
    exact ⟨e', .assignment htarget hequal hvalue hassign', hform'⟩
  | firstOperand _ ih =>
    obtain ⟨e', hoperand, hform⟩ := ih
    exact ⟨e', .firstOperand hoperand, hform⟩
  | infixOperator _ hop _ ihleft ihright =>
    obtain ⟨_, hleft, _⟩ := ihleft
    obtain ⟨_, hright, _⟩ := ihright
    exact ⟨_, .infixOperator hleft hop hright, sameForm_combine _ _ _ _ _ _ _ _⟩
  | tighterOperand htighter _ ih =>
    obtain ⟨e', hlevel, hform⟩ := ih
    exact ⟨e', .tighterOperand htighter hlevel, hform⟩
  | unaryOperand htighter _ ih =>
    obtain ⟨e', hunary, hform⟩ := ih
    exact ⟨e', .unaryOperand htighter hunary, hform⟩
  | unaryOperator hop _ ih =>
    obtain ⟨_, hunary, _⟩ := ih
    exact ⟨_, .unaryOperator hop hunary, rfl, rfl⟩
  | functionLiteral hk _ ih =>
    obtain ⟨_, hfunction⟩ := ih
    exact ⟨_, .functionLiteral hk hfunction, rfl, rfl⟩
  | namedFunctionLiteral hk hname _ ih =>
    obtain ⟨_, hfunction⟩ := ih
    exact ⟨_, .namedFunctionLiteral hk hname hfunction, rfl, rfl⟩
  | unaryChain _ ih =>
    obtain ⟨e', hchain, hform⟩ := ih
    exact ⟨e', .unaryChain hchain, hform⟩
  | chainStart _ ih =>
    obtain ⟨e', hprimary, hform⟩ := ih
    exact ⟨e', .chainStart hprimary, hform⟩
  | superCall hk hopening _ hcount hclosing ih =>
    obtain ⟨_, harguments, hlength⟩ := ih
    exact ⟨_, .superCall hk hopening harguments (hlength.trans_le hcount) hclosing, rfl, rfl⟩
  | call _ hopening _ hcount hclosing ihcallee iharguments =>
    obtain ⟨_, hcallee, _⟩ := ihcallee
    obtain ⟨_, harguments, hlength⟩ := iharguments
    exact ⟨_, .call hcallee hopening harguments (hlength.trans_le hcount) hclosing, rfl, rfl⟩
  | property _ hdot hname ih =>
    obtain ⟨_, hobject, _⟩ := ih
    exact ⟨_, .property hobject hdot hname, rfl, rfl⟩
  | computedProperty _ hdot hopening _ hclosing ihobject ihkey =>
    obtain ⟨_, hobject, _⟩ := ihobject
    obtain ⟨_, hkey, _⟩ := ihkey
    exact ⟨_, .computedProperty hobject hdot hopening hkey hclosing, rfl, rfl⟩
  | subscript _ hopening _ hclosing ihobject ihindex =>
    obtain ⟨_, hobject, _⟩ := ihobject
    obtain ⟨_, hindex, _⟩ := ihindex
    exact ⟨_, .subscript hobject hopening hindex hclosing, rfl, rfl⟩
  | literal hvalue => exact ⟨_, .literal hvalue, rfl, rfl⟩
  | variableUse hname => exact ⟨_, .variableUse hname, rfl, rfl⟩
  | grouping hopening _ hclosing ih =>
    obtain ⟨_, hexpression, _⟩ := ih
    exact ⟨_, .grouping hopening hexpression hclosing, rfl, rfl⟩
  | thisUse hk => exact ⟨_, .thisUse hk, rfl, rfl⟩
  | superMethod hk hdot hname => exact ⟨_, .superMethod hk hdot hname, rfl, rfl⟩
  | list hopening _ hclosing ih =>
    obtain ⟨_, helements, _⟩ := ih
    exact ⟨_, .list hopening helements hclosing, rfl, rfl⟩
  | object hopening _ hclosing ih =>
    obtain ⟨_, hfields⟩ := ih
    exact ⟨_, .object hopening hfields hclosing, rfl, rfl⟩
  | noExpression => exact ⟨_, .noExpression, rfl⟩
  | lastExpression _ ih =>
    obtain ⟨_, hexpression, _⟩ := ih
    exact ⟨_, .lastExpression hexpression, rfl⟩
  | expressions _ hcomma _ ih ihrest =>
    obtain ⟨_, hexpression, _⟩ := ih
    obtain ⟨_, hrest, hlength⟩ := ihrest
    exact ⟨_, .expressions hexpression hcomma hrest, congrArg (· + 1) hlength⟩
  | noField => exact ⟨_, .noField⟩
  | lastField _ ih =>
    obtain ⟨_, hfield⟩ := ih
    exact ⟨_, .lastField hfield⟩
  | fields _ hcomma _ ih ihrest =>
    obtain ⟨_, hfield⟩ := ih
    obtain ⟨_, hrest⟩ := ihrest
    exact ⟨_, .fields hfield hcomma hrest⟩
  | namedField hname hcolon _ ih =>
    obtain ⟨_, hexpression, _⟩ := ih
    exact ⟨_, .namedField hname hcolon hexpression⟩
  | quotedField hname hcolon _ ih =>
    obtain ⟨_, hexpression, _⟩ := ih
    exact ⟨_, .quotedField hname hcolon hexpression⟩
  | shortField hname => exact ⟨_, .shortField hname⟩

end Grammar

end Lox
