import Lox.Proofs.Syntax.Acceptance
import Lox.Proofs.Syntax.Guise

/-!
# Brackets

The bracket that closes another is the first one after it such that those in between come in pairs.
In a word of the grammar all brackets come in pairs (`Derives.balanced`), so the two brackets of a
subscript belong together.

The spans of a tree are those of its tokens, and for a subscript the one from its bracket to the
bracket that closes it. Stated without a list of the places where a tree has spans: a guise that
keeps these spans keeps the tree (`Derives.dress_eq`).
-/

namespace Lox

/-- The bracket that closes the one before some tokens, where some more have been opened since. -/
def closing? : Nat → List Token → Option Token
  | _, [] => none
  | depth, t :: ts =>
    if t.kind = .leftBracket then closing? (depth + 1) ts
    else if t.kind = .rightBracket then
      match depth with
      | 0 => some t
      | depth + 1 => closing? depth ts
    else closing? depth ts

/-- A bracket that opens, and the one that closes it. -/
def Closes (ts : List Token) (opening closing : Token) : Prop :=
  ∃ before after, ts = before ++ opening :: after ∧ opening.kind = .leftBracket ∧ closing? 0 after =
    some closing

section Closing

variable {depth : Nat} {w w' ts : List Token} {t opening closing : Token}

/-- An opening bracket takes one more to close. -/
theorem closing?_of_opening (h : t.kind = .leftBracket) :
    closing? depth (t :: w) = closing? (depth + 1) w :=
  if_pos h

/-- A closing bracket takes one less. -/
theorem closing?_of_closing (h : t.kind = .rightBracket) :
    closing? (depth + 1) (t :: w) = closing? depth w := by
  rw [closing?, h, if_neg nofun, if_pos rfl]

/-- The bracket that is looked for is the first that nothing else takes. -/
theorem closing?_zero (h : t.kind = .rightBracket) : closing? 0 (t :: w) = some t := by
  rw [closing?, h, if_neg nofun, if_pos rfl]

/-- What comes later makes no difference to a bracket that is closed. -/
theorem closing?_append (h : closing? depth w = some t) : closing? depth (w ++ w') = some t := by
  induction w generalizing depth with
  | nil => cases h
  | cons u w ih =>
    unfold closing? at h
    rw [List.cons_append]
    unfold closing?
    split_ifs at h ⊢ with hopen hclose
    · exact ih h
    · cases depth with
      | zero => exact h
      | succ depth => exact ih h
    · exact ih h

/-- The bracket that closes is one of the tokens. -/
theorem mem_of_closing? (h : closing? depth w = some t) : t ∈ w := by
  induction w generalizing depth with
  | nil => cases h
  | cons u w ih =>
    unfold closing? at h
    split_ifs at h with hopen hclose
    · exact List.mem_cons_of_mem u (ih h)
    · cases depth with
      | zero =>
        cases h
        exact List.mem_cons_self
      | succ depth => exact List.mem_cons_of_mem u (ih h)
    · exact List.mem_cons_of_mem u (ih h)

/-- Brackets belong together whatever comes after them. -/
theorem Closes.left (h : Closes w opening closing) (w' : List Token) :
    Closes (w ++ w') opening closing := by
  obtain ⟨before, after, rfl, hkind, hclosing⟩ := h
  exact ⟨before, after ++ w', by simp, hkind, closing?_append hclosing⟩

/-- Or before them. -/
theorem Closes.right (h : Closes w' opening closing) (w : List Token) :
    Closes (w ++ w') opening closing := by
  obtain ⟨before, after, rfl, hkind, hclosing⟩ := h
  exact ⟨w ++ before, after, by simp, hkind, hclosing⟩

end Closing

/-! ## Balanced words -/

/-- Tokens that close the brackets that they open, and no other. -/
def Balanced (w : List Token) : Prop :=
  ∀ depth rest, closing? depth (w ++ rest) = closing? depth rest

section Balanced

variable {w w' : List Token} {t opening closing : Token}

theorem balanced_nil : Balanced [] := fun _ _ => rfl

/-- After balanced tokens, brackets are counted anew. -/
theorem balanced_append (h : Balanced w) : Balanced (w ++ w') ↔ Balanced w' := by
  simp only [Balanced, List.append_assoc, h _ _]

/-- A token that is no bracket makes no difference. -/
theorem balanced_cons (hopen : t.kind ≠ .leftBracket) (hclose : t.kind ≠ .rightBracket) :
    Balanced (t :: w) ↔ Balanced w := by
  simp only [Balanced, List.cons_append, closing?, if_neg hopen, if_neg hclose]

/-- Brackets around balanced tokens are balanced. -/
theorem Balanced.brackets (h : Balanced w) (hopening : opening.kind = .leftBracket)
    (hclosing : closing.kind = .rightBracket) : Balanced (opening :: (w ++ [closing])) := by
  intro depth rest
  calc closing? depth (opening :: (w ++ [closing]) ++ rest)
    _ = closing? (depth + 1) (w ++ closing :: rest) := by
      rw [List.cons_append, List.append_assoc, closing?_of_opening hopening, List.singleton_append]
    _ = closing? depth rest := by rw [h, closing?_of_closing hclosing]

/-- They belong together. -/
theorem Balanced.closes (h : Balanced w) (hopening : opening.kind = .leftBracket)
    (hclosing : closing.kind = .rightBracket) :
    Closes (opening :: (w ++ [closing])) opening closing :=
  ⟨[], w ++ [closing], rfl, hopening, by rw [h, closing?_zero hclosing]⟩

end Balanced

/-- A property of an object literal in a guise. -/
def Field.dress (g : Guise) : Field → Field
  | .mk key value => .mk key (value.dress g)

namespace Grammar

-- Neither literals nor operators are brackets.

theorem kind_of_literalOf? {t : Token} {value : Literal} (h : literalOf? t = some value) :
    t.kind ≠ .leftBracket ∧ t.kind ≠ .rightBracket := by
  constructor <;> intro hkind <;> rw [literalOf?, hkind] at h <;> cases h

/-- An operator is no bracket. -/
theorem kind_of_infix {l : Level} {k : TokenKind} {op : InfixOp} (h : l.operator? k = some op) :
    k ≠ .leftBracket ∧ k ≠ .rightBracket := by
  constructor <;> rintro rfl <;> cases l <;> cases h

theorem kind_of_unary {k : TokenKind} {op : UnaryOp} (h : UnaryOp.ofKind? k = some op) :
    k ≠ .leftBracket ∧ k ≠ .rightBracket := by
  constructor <;> rintro rfl <;> cases h

/-- The brackets of a word come in pairs. -/
theorem Derives.balanced {greedy : Bool} {n : Symbol} {w : List Token} {tree : n.Tree}
    (h : Derives greedy n w tree) : Balanced w := by
  induction h with
  | infixOperator _ hop _ ihleft ihright =>
    obtain ⟨hopen, hclose⟩ := kind_of_infix hop
    rwa [balanced_append ihleft, balanced_cons hopen hclose]
  | unaryOperator hop _ ih =>
    obtain ⟨hopen, hclose⟩ := kind_of_unary hop
    rwa [balanced_cons hopen hclose]
  | literal hvalue =>
    obtain ⟨hopen, hclose⟩ := kind_of_literalOf? hvalue
    rw [balanced_cons hopen hclose]
    exact balanced_nil
  | subscript _ hopening _ hclosing ihobject ihindex =>
    exact (balanced_append ihobject).mpr (ihindex.brackets hopening hclosing)
  | list hopening _ hclosing ih => exact ih.brackets hopening hclosing
  | _ => simp_all [balanced_nil, balanced_append, balanced_cons]

/-! ## Trees in a guise that keeps their spans -/

/-- A guise that keeps names and function literals, and keeps the spans of tokens and of brackets
that belong together. -/
structure KeepsSpans (g : Guise) (w : List Token) : Prop where
  name : g.name = id
  literal : g.literal = Prod.mk
  span : ∀ t ∈ w, g.span t.span = t.span
  subscript : ∀ opening closing, Closes w opening closing →
    g.subscript (opening.span.through closing.span) = opening.span.through closing.span

section KeepsSpans

variable {g : Guise} {w w' : List Token} {t : Token}

/-- Spans that are kept in a word are kept in its front. -/
theorem KeepsSpans.left (h : KeepsSpans g (w ++ w')) : KeepsSpans g w where
  name := h.name
  literal := h.literal
  span t ht := h.span t (List.mem_append_left w' ht)
  subscript opening closing hcloses := h.subscript opening closing (hcloses.left w')

/-- And in its end. -/
theorem KeepsSpans.right (h : KeepsSpans g (w ++ w')) : KeepsSpans g w' where
  name := h.name
  literal := h.literal
  span t ht := h.span t (List.mem_append_right w ht)
  subscript opening closing hcloses := h.subscript opening closing (hcloses.right w)

theorem KeepsSpans.tail (h : KeepsSpans g (t :: w)) : KeepsSpans g w :=
  KeepsSpans.right (w := [t]) h

/-- The span of a token is kept. -/
theorem KeepsSpans.head (h : KeepsSpans g (t :: w)) : g.span t.span = t.span :=
  h.span t List.mem_cons_self

theorem KeepsSpans.mark_identOf (h : KeepsSpans g (t :: w)) :
    (identOf t).mark g.toMarks = identOf t := by
  rw [identOf, Ident.mark, h.head]

/-- So is the name that it spells. -/
theorem KeepsSpans.dress_identOf (h : KeepsSpans g (t :: w)) : (identOf t).dress g = identOf t := by
  rw [identOf, Ident.dress, h.head, h.name, id]

end KeepsSpans

/-- The tree of a symbol in a guise. -/
def Symbol.dress (g : Guise) : (n : Symbol) → n.Tree → n.Tree
  | .statements, body | .block, body => dressStmts g body
  | .statement, s | .conditional, s | .alternative, s | .loopStart, s => dressStmt? g s
  | .binding _, s => s.dress g
  | .loopCondition, e | .loopCloser, e => dressExpr? g e
  | .extension, use => use.map (NameUse.dress g)
  | .methods, ms => dressMethods g ms
  | .function _, f => f.dress g
  | .parameters, ps => ps.map (Ident.dress g)
  | .expression, e | .level _, e | .operand _, e | .unary, e | .chain, e | .primary, e => e.dress g
  | .expressions, es => dressExprs g es
  | .fields, fs => dressFields g fs
  | .field, f => f.dress g

section Parts

variable {g : Guise}

/-- Statements one after another are dressed each. -/
theorem dressStmts_append (ss ss' : List Stmt) :
    dressStmts g (ss ++ ss') = dressStmts g ss ++ dressStmts g ss' := by
  induction ss with
  | nil => rfl
  | cons s ss ih => rw [List.cons_append, dressStmts, ih, dressStmts, List.cons_append]

theorem dressStmts_toList (s : Option Stmt) : dressStmts g s.toList = (dressStmt? g s).toList := by
  cases s <;> rfl

/-- A block is dressed with its statements. -/
theorem dressStmt?_blockOf (body : List Stmt) :
    dressStmt? g (blockOf body) = blockOf (dressStmts g body) := by
  cases body <;> rfl

theorem dressStmt?_branchOf (condition : Expr) (thenBranch elseBranch : Option Stmt) :
    dressStmt? g (branchOf condition thenBranch elseBranch) =
      branchOf (condition.dress g) (dressStmt? g thenBranch) (dressStmt? g elseBranch) := by
  cases thenBranch <;> cases elseBranch <;> rfl

/-- A loop is dressed with its parts. -/
theorem dressStmt?_loopOf (init : Option Stmt) (condition closer : Option Expr)
    (body : Option Stmt) :
    dressStmt? g (loopOf init condition closer body) =
      loopOf (dressStmt? g init) (dressExpr? g condition) (dressExpr? g closer)
        (dressStmt? g body) := by
  cases body <;> cases init <;> rfl

/-- Operands are dressed before they are combined or after. -/
theorem dress_combine (op : InfixOp) (blame : Span) (left right : Expr) :
    (combine op blame left right).dress g =
      combine op (g.span blame) (left.dress g) (right.dress g) := by
  cases op <;> rfl

theorem dressFields_cons (f : Field) (fs : List Field) :
    dressFields g (f :: fs) = f.dress g :: dressFields g fs := by
  cases f
  rfl

/-- What is assigned to is kept if the target is. -/
theorem dress_assignTo {target value e : Expr} (htarget : target.dress g = target)
    (hvalue : value.dress g = value) (h : assignTo target value = some e) : e.dress g = e := by
  cases target <;> cases h <;> simp_all [Expr.dress]

end Parts

/-- A guise that keeps the spans of a word keeps its tree. -/
theorem Derives.dress_eq {greedy : Bool} {n : Symbol} {w : List Token} {tree : n.Tree}
    (h : Derives greedy n w tree) {g : Guise} (hg : KeepsSpans g w) : n.dress g tree = tree := by
  induction h with (simp only [Symbol.dress] at *)
  | noStatement | noMethod | noParameter | noExpression | noField => rfl
  | noLoopStart | noLoopCondition | noLoopCloser | emptyStatement | noAlternative | noExtension =>
    rfl
  | statements _ _ _ ih ihrest =>
    rw [dressStmts_append, dressStmts_toList, ih hg.left, ihrest hg.right]
  | block _ _ _ ih => rw [ih hg.tail.left]
  | letStatement _ _ ih | constStatement _ _ ih | letLoopStart _ _ ih | constLoopStart _ _ ih =>
    rw [dressStmt?, ih hg.tail]
  | ifStatement _ _ ih => rw [ih hg.tail]
  | forStatement _ _ _ _ _ _ ihstart ihcondition ihcloser ihbody =>
    rw [dressStmt?_loopOf, dressStmt?_blockOf, ihstart hg.tail.left, ihcondition hg.tail.right.left,
      ihcloser hg.tail.right.right.left, ihbody hg.tail.right.right.right]
  | parenForStatement _ _ _ _ _ _ _ ihstart ihcondition ihcloser ihbody =>
    rw [dressStmt?_loopOf, dressStmt?_blockOf, ihstart hg.tail.tail.left,
      ihcondition hg.tail.tail.right.left, ihcloser hg.tail.tail.right.right.left,
      ihbody hg.tail.tail.right.right.right.tail]
  | printStatement _ _ _ ih => rw [dressStmt?, Stmt.dress, ih hg.tail.left]
  | classStatement _ _ _ _ _ _ ihextension ihmethods =>
    rw [dressStmt?, Stmt.dress, hg.tail.dress_identOf, ihextension hg.tail.tail.left,
      ihmethods hg.tail.tail.right.tail.left]
  | blockStatement _ ih => rw [dressStmt?_blockOf, ih hg]
  | breakStatement | continueStatement => rw [dressStmt?, Stmt.dress, hg.head]
  | bareReturn => rw [dressStmt?, Stmt.dress, hg.head, dressExpr?]
  | returnStatement _ _ _ ih => rw [dressStmt?, Stmt.dress, hg.head, dressExpr?, ih hg.tail.left]
  | expressionStatement _ _ _ _ ih => rw [dressStmt?, Stmt.dress, ih hg.left]
  | functionStatement _ _ ih => rw [dressStmt?, Stmt.dress, ih hg]
  | bareBinding => rw [Stmt.dress, hg.dress_identOf, dressExpr?]
  | binding _ _ _ _ ih => rw [Stmt.dress, hg.dress_identOf, dressExpr?, ih hg.tail.tail.left]
  | conditional _ _ _ ihcondition ihbody ihelse =>
    rw [dressStmt?_branchOf, dressStmt?_blockOf, ihcondition hg.left, ihbody hg.right.left,
      ihelse hg.right.right]
  | elseIf _ _ _ ih => rw [ih hg.tail.tail]
  | elseBlock _ _ ih => rw [dressStmt?_blockOf, ih hg.tail]
  | loopCondition _ _ ih => rw [dressExpr?, ih hg.left]
  | loopCloser _ ih => rw [dressExpr?, ih hg]
  | extension => rw [Option.map_some, NameUse.dress, hg.tail.dress_identOf]
  | methods _ _ _ ih ihrest =>
    rw [dressMethods, hg.mark_identOf, ih hg.tail.left, ihrest hg.tail.right]
  | function _ _ _ _ _ ihparams ihbody =>
    rw [Function.dress, hg.literal, ihparams hg.tail.left, ihbody hg.tail.right.tail]
  | lastParameter => rw [List.map_singleton, hg.dress_identOf]
  | parameters _ _ _ ih => rw [List.map_cons, hg.dress_identOf, ih hg.tail.tail]
  | plain _ ih | firstOperand _ ih | tighterOperand _ _ ih | unaryOperand _ _ ih | unaryChain _ ih
  | chainStart _ ih => rw [ih hg]
  | assignment _ _ _ hassign ihtarget ihvalue =>
    exact dress_assignTo (ihtarget hg.left) (ihvalue hg.right.tail) hassign
  | infixOperator _ _ _ ihleft ihright =>
    rw [dress_combine, ihleft hg.left, hg.right.head, ihright hg.right.tail]
  | unaryOperator _ _ ih => rw [Expr.dress, hg.head, ih hg.tail]
  | functionLiteral _ _ ih => rw [Expr.dress, Option.map_none, ih hg.tail]
  | namedFunctionLiteral _ _ _ ih =>
    rw [Expr.dress, Option.map_some, hg.tail.dress_identOf, ih hg.tail.tail]
  | superCall _ _ _ _ _ ih =>
    rw [Expr.dress, Expr.dress, Ident.mark, hg.head, ih hg.tail.tail.left, hg.tail.tail.right.head]
  | call _ _ _ _ _ ihcallee iharguments =>
    rw [Expr.dress, ihcallee hg.left, iharguments hg.right.tail.left, hg.right.tail.right.head]
  | property _ _ _ ih => rw [Expr.dress, ih hg.left, hg.right.tail.mark_identOf]
  | computedProperty _ _ _ _ _ ihobject ihkey =>
    rw [Expr.dress, ihobject hg.left, hg.right.tail.head, ihkey hg.right.tail.tail.left]
  | subscript _ hopening hindex hclosing ihobject ihindex =>
    have hcloses := hindex.balanced.closes hopening hclosing
    rw [Expr.dress, ihobject hg.left, ihindex hg.right.tail.left, hg.right.subscript _ _ hcloses]
  | literal => rw [Expr.dress]
  | variableUse => rw [Expr.dress, NameUse.dress, hg.dress_identOf]
  | grouping _ _ _ ih | list _ _ _ ih | object _ _ _ ih => rw [Expr.dress, ih hg.tail.left]
  | thisUse => rw [Expr.dress, hg.head]
  | superMethod => rw [Expr.dress, hg.head, hg.tail.tail.mark_identOf]
  | lastExpression _ ih => rw [dressExprs, dressExprs, ih hg]
  | expressions _ _ _ ih ihrest => rw [dressExprs, ih hg.left, ihrest hg.right.tail]
  | lastField _ ih => rw [dressFields_cons, dressFields, ih hg]
  | fields _ _ _ ih ihrest => rw [dressFields_cons, ih hg.left, ihrest hg.right.tail]
  | namedField _ _ _ ih | quotedField _ _ _ ih => rw [Field.dress, ih hg.tail.tail]
  | shortField => rw [Field.dress, Expr.dress, NameUse.dress, hg.dress_identOf]

/-- A program that is parsed without a diagnostic has the spans of its tokens and its brackets. -/
theorem dressStmts_parse {g : Guise} {ts : List Token} (hg : KeepsSpans g ts) {size : Nat}
    (h : (parse ts size).diagnostics = []) :
    dressStmts g (parse ts size).stmts = (parse ts size).stmts :=
  (derives_of_parse h).dress_eq hg

end Grammar

end Lox
