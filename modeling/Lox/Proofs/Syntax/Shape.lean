import Lox.Proofs.Syntax.Acceptance
import Lox.Proofs.Syntax.Rooted
import Lox.Proofs.Token.Partition

/-!
# The shape of parsed programs

Every branch of a conditional and every body of a loop is written with braces, and a token that is
read as a name is no reserved word. So a program that is scanned and parsed is `Code.Shaped` in all
its parts.
-/

namespace Lox

/-! ## Names are no reserved words -/

/-- Reserved words are no identifiers. -/
theorem ofName_of_reserved {name : Text} (h : name ∈ reservedNames) :
    TokenKind.ofName name ≠ .identifier := by
  simp only [reservedNames, List.mem_cons, List.not_mem_nil, or_false] at h
  rcases h with rfl | rfl <;> decide

theorem mark?_ne_identifier (c : Char) : Piece.mark? c ≠ some .identifier := by
  unfold Piece.mark?
  split <;> nofun

theorem extensible?_ne_identifier {c : Char} {short long : TokenKind}
    (h : Piece.extensible? c = some (short, long)) : short ≠ .identifier ∧ long ≠ .identifier := by
  unfold Piece.extensible? at h
  split at h <;> cases h <;> exact ⟨nofun, nofun⟩

/-- Identifiers are no reserved words. -/
theorem not_reserved_of_lexeme {ss after : List Scalar} (h : Lexeme (.token .identifier) ss after) :
    Scalar.text ss ∉ reservedNames := by
  generalize hkind : PieceKind.token .identifier = kind at h
  cases h with
  | mark hmark =>
    cases hkind
    exact absurd hmark (mark?_ne_identifier _)
  | long hext _ =>
    cases hkind
    exact absurd rfl (extensible?_ne_identifier hext).2
  | short hext _ =>
    cases hkind
    exact absurd rfl (extensible?_ne_identifier hext).1
  | name =>
    rw [PieceKind.token.injEq] at hkind
    exact fun hreserved => ofName_of_reserved hreserved hkind.symm
  | _ => cases hkind

/-- No token that is a name is a reserved word. -/
theorem not_reserved_of_scan {source : Text} {t : Token} (ht : t ∈ (scan source).tokens)
    (hkind : t.kind = .identifier) : t.lexeme ∉ reservedNames := by
  rw [scan, scanPieces_eq] at ht
  obtain ⟨p, hp, htoken⟩ := List.mem_filterMap.mp ht
  obtain ⟨_, _, _, _, hlexeme⟩ := lies_of_mem_placed hp
  unfold Placed.token? at htoken
  cases hpiece : p.piece.kind with
  | token kind =>
    rw [hpiece] at htoken
    cases htoken
    obtain rfl : kind = .identifier := hkind
    rw [hpiece] at hlexeme
    exact not_reserved_of_lexeme hlexeme
  | _ =>
    rw [hpiece] at htoken
    cases htoken

/-! ## Derivations give shaped trees -/

namespace Grammar

open Code

/-- No token of a word that is a name is a reserved word. -/
def NamesFree (w : List Token) : Prop := ∀ t ∈ w, t.kind = .identifier → t.lexeme ∉ reservedNames

/-- The trees of a symbol are shaped at their tops, and what has no top of its own is as it should
be. -/
def ShapedTree : (n : Symbol) → n.Tree → Prop
  | .conditional, s | .alternative, s => ∀ s' ∈ s, Shaped (.stmt s') ∧ s'.declared = []
  | .parameters, params => ∀ p ∈ params, p.name ∉ reservedNames
  | n, tree => ∀ c ∈ tops n tree, Shaped c

/-- No name of a word is reserved if none of its parts is. -/
theorem namesFree_append {w w' : List Token} :
    NamesFree (w ++ w') ↔ NamesFree w ∧ NamesFree w' := by
  simp only [NamesFree, List.mem_append, or_imp, forall_and]

theorem namesFree_cons {t : Token} {w : List Token} :
    NamesFree (t :: w) ↔ (t.kind = .identifier → t.lexeme ∉ reservedNames) ∧ NamesFree w := by
  simp only [NamesFree, List.mem_cons, or_imp, forall_and, forall_eq]

theorem shaped_blockOf (body : List Stmt) :
    ∀ s ∈ blockOf body, Shaped (.stmt s) ∧ s.declared = [] := by
  cases body with
  | nil => nofun
  | cons s body =>
    rintro _ ⟨⟩
    exact ⟨⟨nofun, nofun⟩, rfl⟩

theorem shaped_branchOf {condition : Expr} {thenBranch elseBranch : Option Stmt}
    (hthen : ∀ s ∈ thenBranch, s.declared = []) (helse : ∀ s ∈ elseBranch, s.declared = []) :
    ∀ s ∈ branchOf condition thenBranch elseBranch, Shaped (.stmt s) ∧ s.declared = [] := by
  intro s hs
  obtain rfl : s = .branch condition thenBranch elseBranch := by
    cases thenBranch <;> cases elseBranch <;> cases hs <;> rfl
  refine ⟨⟨nofun, fun s hs => ?_⟩, rfl⟩
  rcases List.mem_append.mp hs with hs | hs
  · exact hthen s (Option.mem_toList.mp hs)
  · exact helse s (Option.mem_toList.mp hs)

theorem shaped_loopOf (init : Option Stmt) (condition closer : Option Expr) (body : List Stmt) :
    ∀ s ∈ loopOf init condition closer (blockOf body), Shaped (.stmt s) := by
  cases body with
  | nil => nofun
  | cons s body =>
    cases init with
    | none =>
      rintro _ ⟨⟩
      exact ⟨nofun, by simp [Stmt.inner, Stmt.declared]⟩
    | some declaration =>
      rintro _ ⟨⟩
      exact ⟨nofun, nofun⟩

/-- Words without reserved names have shaped trees. -/
theorem Derives.shapedTree {greedy : Bool} {n : Symbol} {w : List Token} {tree : n.Tree}
    (h : Derives greedy n w tree) (hw : NamesFree w) : ShapedTree n tree := by
  induction h with
  | noStatement | noMethod | noParameter | noExpression | noField | noLoopStart | noLoopCondition
  | noLoopCloser | emptyStatement | noAlternative | noExtension | extension => nofun
  | plain _ ih | firstOperand _ ih | tighterOperand _ _ ih | unaryOperand _ _ ih | unaryChain _ ih
  | chainStart _ ih | loopCloser _ ih | lastExpression _ ih | lastField _ ih => exact ih hw
  | breakStatement | continueStatement | bareReturn | printStatement | returnStatement
  | unaryOperator | literal | thisUse | superMethod | grouping | list | object | superCall | call
  | property | computedProperty | subscript | functionLiteral =>
    exact List.forall_mem_singleton.mpr ⟨nofun, nofun⟩
  | statements _ _ _ ih ihrest =>
    rw [namesFree_append] at hw
    change ∀ c ∈ List.map Code.stmt (_ ++ _), Shaped c
    rw [List.map_append]
    exact List.forall_mem_append.mpr ⟨ih hw.1, ihrest hw.2⟩
  | block _ _ _ ih =>
    simp only [namesFree_cons, namesFree_append] at hw
    exact ih hw.2.1
  | letStatement _ _ ih | constStatement _ _ ih | letLoopStart _ _ ih | constLoopStart _ _ ih =>
    exact ih (namesFree_cons.mp hw).2
  | ifStatement _ _ ih =>
    have hs := ih (namesFree_cons.mp hw).2
    simpa [ShapedTree, tops] using fun s hmem => (hs s hmem).1
  | forStatement | parenForStatement => simpa [ShapedTree, tops] using shaped_loopOf _ _ _ _
  | blockStatement => simpa [ShapedTree, tops] using fun s hs => (shaped_blockOf _ s hs).1
  | classStatement _ hname =>
    simp only [namesFree_cons] at hw
    exact List.forall_mem_singleton.mpr ⟨List.forall_mem_singleton.mpr (hw.2.1 hname), nofun⟩
  | expressionStatement _ _ _ _ ih =>
    exact List.forall_mem_singleton.mpr
      ⟨(ih (namesFree_append.mp hw).1 _ List.mem_cons_self).1, nofun⟩
  | functionStatement _ _ ih =>
    exact List.forall_mem_singleton.mpr ⟨(ih hw _ List.mem_cons_self).1, nofun⟩
  | bareBinding hname =>
    exact List.forall_mem_singleton.mpr
      ⟨List.forall_mem_singleton.mpr ((namesFree_cons.mp hw).1 hname), nofun⟩
  | binding hname _ _ _ ih =>
    simp only [namesFree_cons, namesFree_append] at hw
    exact List.forall_mem_singleton.mpr
      ⟨List.forall_mem_cons.mpr ⟨hw.1 hname, (ih hw.2.2.1 _ List.mem_cons_self).1⟩, nofun⟩
  | conditional _ _ _ _ _ ihelse =>
    simp only [namesFree_append] at hw
    exact shaped_branchOf (fun s hs => (shaped_blockOf _ s hs).2) fun s hs => (ihelse hw.2.2 s hs).2
  | elseIf _ _ _ ih =>
    simp only [namesFree_cons] at hw
    exact ih hw.2.2
  | elseBlock => exact shaped_blockOf _
  | loopCondition _ _ ih => exact ih (namesFree_append.mp hw).1
  | methods _ _ _ ih ihrest =>
    simp only [namesFree_cons, namesFree_append] at hw
    exact List.forall_mem_cons.mpr ⟨ih hw.2.1 _ List.mem_cons_self, ihrest hw.2.2⟩
  | function _ _ _ _ _ ihparams =>
    simp only [namesFree_cons, namesFree_append] at hw
    exact List.forall_mem_singleton.mpr (ihparams hw.2.1)
  | lastParameter hname => exact List.forall_mem_singleton.mpr ((namesFree_cons.mp hw).1 hname)
  | parameters hname _ _ ih =>
    simp only [namesFree_cons] at hw
    exact List.forall_mem_cons.mpr ⟨hw.1 hname, ih hw.2.2⟩
  | @assignment _ _ _ target _ _ _ _ _ hassign ihtarget =>
    have htarget := ihtarget (namesFree_append.mp hw).1 _ List.mem_cons_self
    refine List.forall_mem_singleton.mpr ?_
    cases target <;> cases hassign
    case assignment.var.refl => exact ⟨nofun, htarget.2⟩
    all_goals exact ⟨nofun, nofun⟩
  | @infixOperator _ _ _ _ _ _ op => cases op <;> exact List.forall_mem_singleton.mpr ⟨nofun, nofun⟩
  | namedFunctionLiteral _ hname =>
    simp only [namesFree_cons] at hw
    exact List.forall_mem_singleton.mpr ⟨List.forall_mem_singleton.mpr (hw.2.1 hname), nofun⟩
  | variableUse hname | shortField hname =>
    refine List.forall_mem_singleton.mpr ⟨nofun, ?_⟩
    rintro _ ⟨⟩
    exact (namesFree_cons.mp hw).1 hname
  | expressions _ _ _ ih ihrest | fields _ _ _ ih ihrest =>
    simp only [namesFree_cons, namesFree_append] at hw
    exact List.forall_mem_cons.mpr ⟨ih hw.1 _ List.mem_cons_self, ihrest hw.2.2⟩
  | namedField _ _ _ ih | quotedField _ _ _ ih =>
    simp only [namesFree_cons] at hw
    exact ih hw.2.2

/-- So do their parts. -/
theorem holdsAtTops_shaped {ts : List Token} (hts : NamesFree ts) : HoldsAtTops ts Shaped where
  top {greedy n w tree} h hw := by
    have hshaped := h.shapedTree fun t ht => hts t (hw ht)
    cases n with
    | conditional | alternative => simpa [tops] using fun s hs => (hshaped s hs).1
    | parameters | extension => nofun
    | _ => exact hshaped
  stmts _ := trivial
  loop condition closer body := ⟨nofun, by simp [Stmt.inner, Stmt.declared]⟩
  superRef _ _ := ⟨nofun, nofun⟩

end Grammar

/-- A source that is parsed without a diagnostic gives a program of the right shape. -/
theorem shaped_of_parse {source : Text} {size : Nat}
    (h : (parse (scan source).tokens size).diagnostics = []) :
    Code.Every Code.Shaped (.stmts (parse (scan source).tokens size).stmts) := by
  have hderives : Grammar.Generates (scan source).tokens (parse (scan source).tokens size).stmts :=
    Grammar.derives_of_segmentsWithin (le_refl _) h
  have htops :=
    Grammar.holdsAtTops_shaped fun t (ht : t ∈ (scan source).tokens) => not_reserved_of_scan ht
  exact htops.every_stmts (hderives.every htops (List.Subset.refl _))

end Lox
