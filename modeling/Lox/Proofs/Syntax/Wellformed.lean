import Lox.Machine.Run
import Lox.Proofs.Evaluation.Transitions
import Lox.Proofs.Syntax.Recovery
import Lox.Proofs.Syntax.Rooted

/-!
# Well-formed trees

Every statement that parsing keeps is well formed in all its parts, whether or not other statements
were dropped. The types of trees see to some of it: no statement of a list is absent, a loop has a
body, what it evaluates after its body is an expression, and each value of an object has a key.
`Code.WellFormed` says the rest, and that the operators, names and keys of a tree are those of
tokens.

So evaluation meets no operator and no target of an assignment that it does not know: where it
applies an operator or assigns to a property or an element, it gives a value or blames the program,
and never faults.
-/

namespace Lox

/-! ## Trees -/

/-- The kinds of tokens that an operator on two evaluated operands may be written as. -/
def binaryKinds : List TokenKind :=
  [.equalEqual, .bangEqual, .greater, .greaterEqual, .less, .lessEqual, .plus, .minus, .percent,
    .slash, .star]

/-- An expression is an access of a property or an element, as it is written with tokens. -/
def Expr.IsAccess (ts : List Token) : Expr → Prop
  | .get _ name => ∃ t ∈ ts, t.kind = .identifier ∧ name = Grammar.identOf t
  | .getKey _ paren _ => ∃ t ∈ ts, t.kind = .leftParen ∧ paren = t.span
  | .index _ _ blame =>
    ∃ opening ∈ ts, ∃ closing ∈ ts, opening.kind = .leftBracket ∧ closing.kind = .rightBracket ∧
      blame = opening.span.through closing.span
  | _ => False

/-- The property or the element that an expression reads or assigns to. -/
def Expr.access? : Expr → Option Expr
  | .get owner name | .set owner name _ => some (.get owner name)
  | .getKey owner paren key | .setKey owner paren key _ => some (.getKey owner paren key)
  | .index owner position blame | .setIndex owner position blame _ =>
    some (.index owner position blame)
  | _ => none

/-- The key of a property is a name or a string among tokens. -/
def Field.Keyed (ts : List Token) : Field → Prop
  | .mk key _ =>
    ∃ t ∈ ts, t.kind = .identifier ∧ key = t.lexeme ∨ t.kind = .string ∧ key = t.content

/-- The name of a method is a name among tokens. -/
def Method.Named (ts : List Token) : Method → Prop
  | .mk name _ => ∃ t ∈ ts, t.kind = .identifier ∧ name = Grammar.identOf t

/-- A part that was parsed from tokens is well formed at its top. -/
def Code.WellFormed (ts : List Token) : Code → Prop
  | .stmt (.block body) => body ≠ []
  | .stmt (.branch _ thenBranch elseBranch) => thenBranch.isSome ∨ elseBranch.isSome
  | .stmt (.classDecl _ superclass methods) =>
    (∀ use ∈ superclass, use.depth = none) ∧ ∀ m ∈ methods, m.Named ts
  | .expr (.unary op blame _) =>
    ∃ t ∈ ts, t.span = blame ∧ t.kind = op.kind ∧ t.kind ∈ [.bang, .minus]
  | .expr (.binary op blame _ _) =>
    ∃ t ∈ ts, t.span = blame ∧ t.kind = op.kind ∧ t.kind ∈ binaryKinds
  | .expr (.logical op _ _) => ∃ t ∈ ts, t.kind = op.kind ∧ t.kind ∈ [.andWord, .orWord]
  | .expr (.var use) | .expr (.assign use _) => use.depth = none
  | .expr (.thisRef _ depth) | .expr (.superRef _ _ depth) => depth = none
  | .expr (.call _ arguments _) => arguments.length ≤ 255
  | .expr (.object fields) => ∀ f ∈ fields, f.Keyed ts
  | .expr e => ∀ access ∈ e.access?, access.IsAccess ts
  | .function f => f.params.length ≤ 255 ∧ f.run = 0
  | _ => True

theorem Level.kind_of_operator {l : Level} {k : TokenKind} {op : InfixOp}
    (h : l.operator? k = some op) :
    match op with
    | .binary op => k = op.kind ∧ k ∈ binaryKinds
    | .logical op => k = op.kind ∧ k ∈ [.andWord, .orWord] := by
  unfold operator? at h
  split at h <;> cases h <;> decide

theorem UnaryOp.kind_of_ofKind? {k : TokenKind} {op : UnaryOp} (h : ofKind? k = some op) :
    k = op.kind ∧ k ∈ [.bang, .minus] := by
  unfold ofKind? at h
  split at h <;> cases h <;> decide

namespace Grammar

open Code

/-- The trees of a symbol are well formed at their tops, and what has no top of its own is as it
should be. -/
def FormedTree (ts : List Token) : (n : Symbol) → n.Tree → Prop
  | .extension, superclass => ∀ use ∈ superclass, use.depth = none
  | .methods, methods => (∀ m ∈ methods, m.Named ts) ∧ ∀ c ∈ tops .methods methods, WellFormed ts c
  | .fields, fields => (∀ f ∈ fields, f.Keyed ts) ∧ ∀ c ∈ tops .fields fields, WellFormed ts c
  | .field, f => f.Keyed ts ∧ WellFormed ts (.expr f.value)
  | n, tree => ∀ c ∈ tops n tree, WellFormed ts c

variable {ts : List Token}

theorem wellFormed_assignTo {target value e : Expr} (htarget : WellFormed ts (.expr target))
    (h : assignTo target value = some e) : WellFormed ts (.expr e) := by
  cases target <;> cases h <;> exact htarget

theorem Derives.formedTree {greedy : Bool} {n : Symbol} {w : List Token} {tree : n.Tree}
    (h : Derives greedy n w tree) (hw : w ⊆ ts) : FormedTree ts n tree := by
  induction h with
  | noStatement | noParameter | noExpression | noLoopStart | noLoopCondition | noLoopCloser
  | emptyStatement | noAlternative | noExtension | lastParameter | parameters => nofun
  | noMethod | noField => exact ⟨nofun, nofun⟩
  | plain _ ih | firstOperand _ ih | tighterOperand _ _ ih | unaryOperand _ _ ih | unaryChain _ ih
  | chainStart _ ih | loopCloser _ ih | lastExpression _ ih => exact ih hw
  | breakStatement | continueStatement | bareReturn | printStatement | returnStatement
  | expressionStatement | functionStatement | bareBinding | binding =>
    exact List.forall_mem_singleton.mpr trivial
  | literal | grouping | list | functionLiteral | namedFunctionLiteral =>
    exact List.forall_mem_singleton.mpr nofun
  | variableUse | thisUse | superMethod => exact List.forall_mem_singleton.mpr rfl
  | extension =>
    rintro _ ⟨⟩
    rfl
  | statements _ _ _ ih ihrest =>
    rw [List.append_subset] at hw
    change ∀ c ∈ List.map Code.stmt (_ ++ _), WellFormed ts c
    rw [List.map_append]
    exact List.forall_mem_append.mpr ⟨ih hw.1, ihrest hw.2⟩
  | block _ _ _ ih => exact ih (List.append_subset.mp (List.cons_subset.mp hw).2).1
  | letStatement _ _ ih | constStatement _ _ ih | letLoopStart _ _ ih | constLoopStart _ _ ih
  | ifStatement _ _ ih =>
    exact ih (List.cons_subset.mp hw).2
  | elseIf _ _ _ ih => exact ih (List.cons_subset.mp (List.cons_subset.mp hw).2).2
  | loopCondition _ _ ih => exact ih (List.append_subset.mp hw).1
  | @blockStatement _ body | @elseBlock _ _ body =>
    cases body with
    | nil => nofun
    | cons => exact List.forall_mem_singleton.mpr (List.cons_ne_nil _ _)
  | @forStatement _ _ _ _ _ init _ _ body | @parenForStatement _ _ _ _ _ _ _ init _ _ body =>
    cases body with
    | nil => nofun
    | cons =>
      cases init with
      | none => exact List.forall_mem_singleton.mpr trivial
      | some => exact List.forall_mem_singleton.mpr (List.cons_ne_nil _ _)
  | @conditional _ _ _ _ body elseBranch =>
    cases body with
    | cons => exact List.forall_mem_singleton.mpr (.inl rfl)
    | nil =>
      cases elseBranch with
      | none => nofun
      | some => exact List.forall_mem_singleton.mpr (.inr rfl)
  | classStatement _ _ _ _ _ _ ihsuper ihmethods =>
    simp only [List.append_subset, List.cons_subset] at hw
    exact List.forall_mem_singleton.mpr ⟨ihsuper hw.2.2.1, (ihmethods hw.2.2.2.2.1).1⟩
  | methods hname _ _ ih ihrest =>
    simp only [List.append_subset, List.cons_subset] at hw
    exact ⟨List.forall_mem_cons.mpr ⟨⟨_, hw.1, hname, rfl⟩, (ihrest hw.2.2).1⟩,
      List.forall_mem_cons.mpr ⟨ih hw.2.1 _ List.mem_cons_self, (ihrest hw.2.2).2⟩⟩
  | function _ _ hlength => exact List.forall_mem_singleton.mpr ⟨hlength, rfl⟩
  | assignment _ _ _ hassign ih =>
    exact List.forall_mem_singleton.mpr
      (wellFormed_assignTo (ih (List.append_subset.mp hw).1 _ List.mem_cons_self) hassign)
  | @infixOperator _ operator _ _ _ _ op _ hop _ =>
    simp only [List.append_subset, List.cons_subset] at hw
    have hkind := Level.kind_of_operator hop
    refine List.forall_mem_singleton.mpr ?_
    cases op with
    | logical => exact ⟨operator, hw.2.1, hkind⟩
    | binary => exact ⟨operator, hw.2.1, rfl, hkind⟩
  | unaryOperator hop =>
    exact List.forall_mem_singleton.mpr
      ⟨_, (List.cons_subset.mp hw).1, rfl, UnaryOp.kind_of_ofKind? hop⟩
  | superCall _ _ _ hlength | call _ _ _ hlength => exact List.forall_mem_singleton.mpr hlength
  | property _ _ hkind | computedProperty _ _ hkind =>
    simp only [List.append_subset, List.cons_subset] at hw
    refine List.forall_mem_singleton.mpr ?_
    rintro _ ⟨⟩
    exact ⟨_, hw.2.2.1, hkind, rfl⟩
  | subscript _ hopening _ hclosing =>
    simp only [List.append_subset, List.cons_subset] at hw
    refine List.forall_mem_singleton.mpr ?_
    rintro _ ⟨⟩
    exact ⟨_, hw.2.1, _, hw.2.2.2.1, hopening, hclosing, rfl⟩
  | object _ _ _ ih =>
    exact List.forall_mem_singleton.mpr (ih (List.append_subset.mp (List.cons_subset.mp hw).2).1).1
  | expressions _ _ _ ih ihrest =>
    simp only [List.append_subset, List.cons_subset] at hw
    exact List.forall_mem_cons.mpr ⟨ih hw.1 _ List.mem_cons_self, ihrest hw.2.2⟩
  | lastField _ ih =>
    exact ⟨List.forall_mem_singleton.mpr (ih hw).1, List.forall_mem_singleton.mpr (ih hw).2⟩
  | fields _ _ _ ih ihrest =>
    simp only [List.append_subset, List.cons_subset] at hw
    exact ⟨List.forall_mem_cons.mpr ⟨(ih hw.1).1, (ihrest hw.2.2).1⟩,
      List.forall_mem_cons.mpr ⟨(ih hw.1).2, (ihrest hw.2.2).2⟩⟩
  | namedField hname _ _ ih =>
    simp only [List.cons_subset] at hw
    exact ⟨⟨_, hw.1, .inl ⟨hname, rfl⟩⟩, ih hw.2.2 _ List.mem_cons_self⟩
  | quotedField hname _ _ ih =>
    simp only [List.cons_subset] at hw
    exact ⟨⟨_, hw.1, .inr ⟨hname, rfl⟩⟩, ih hw.2.2 _ List.mem_cons_self⟩
  | shortField hname => exact ⟨⟨_, (List.cons_subset.mp hw).1, .inl ⟨hname, rfl⟩⟩, rfl⟩

theorem holdsAtTops_wellFormed (ts : List Token) : HoldsAtTops ts (WellFormed ts) where
  top {greedy n w tree} h hw := by
    have hformed := h.formedTree hw
    cases n with
    | extension => nofun
    | methods | fields => exact hformed.2
    | field => exact List.forall_mem_singleton.mpr hformed.2
    | _ => exact hformed
  stmts _ := trivial
  loop _ _ _ := trivial
  superRef _ _ := rfl

end Grammar

/-- The statements kept are well formed, whatever was dropped between them. -/
theorem Recovers.wellFormed {size : Nat} {w ts : List Token} {parsed : Parsed}
    (h : Recovers size w parsed) (hw : w ⊆ ts) :
    ∀ s ∈ parsed.stmts, Code.Every (Code.WellFormed ts) (.stmt s) := by
  induction h with
  | nil => nofun
  | kept _ hdone _ ih =>
    rw [List.append_subset] at hw
    obtain ⟨w, hsplit, hderives⟩ := (Grammar.sound _).statement hdone
    obtain rfl := List.append_cancel_right hsplit
    have htops := hderives.every (Grammar.holdsAtTops_wellFormed ts) hw.1
    refine List.forall_mem_append.mpr ⟨fun s hs => htops _ (List.mem_map_of_mem hs), ih hw.2⟩
  | dropped _ _ ih => exact ih (List.append_subset.mp hw).2

/-! ## Evaluation -/

/-- The machine applies an operator to two operands, or is on the way to assign to a property or an
element. -/
def Control.operates : Control → Bool
  | .eval (.binary ..) _ | .eval (.set ..) _ | .eval (.setKey ..) _ | .eval (.setIndex ..) _ => true
  | .give _ (.binaryLeft ..) | .give _ (.binaryRight ..) | .give _ (.setObject ..)
  | .give _ (.setKeyObject ..) | .give _ (.setKey ..) | .give _ (.setField ..)
  | .give _ (.setIndexObject ..) | .give _ (.setIndex ..) | .give _ (.setElement ..) => true
  | _ => false

/-- The machine has stopped with a fault, which is no problem of the program. -/
def Next.faults : Next → Bool
  | .stopped (.fault _) .. => true
  | _ => false

/-- A step that applies an operator or is on the way to an assignment goes on or blames the
program. -/
theorem faults_step {s : State} (limit : Nat) (h : s.control.operates = true) :
    (step limit s).faults = false := by
  obtain ⟨control, scope, depth, heap, console⟩ := s
  have htrans := transition_step limit ⟨control, scope, depth, heap, console⟩
  generalize step limit ⟨control, scope, depth, heap, console⟩ = next at htrans ⊢
  cases htrans with
  | fails hfails =>
    cases hfails with
    | var | thisRef | superRef | superclass | target => cases h
    | _ => rfl
  | nativeFails hcalls => cases hcalls <;> cases h
  | _ => rfl

/-- A run that faults does so in a step, from a state where no operator is applied and nothing is
assigned to. -/
theorem exists_step_of_faults {limit budget : Nat} {s : State}
    (h : (runFor limit budget s).faults = true) :
    ∃ n < budget, ∃ last, runFor limit n s = .running last ∧ step limit last =
      runFor limit budget s ∧
      last.control.operates = false := by
  induction budget generalizing s with
  | zero => cases h
  | succ budget ih =>
    rw [runFor] at h ⊢
    cases hstep : step limit s with
    | running s' =>
      rw [hstep] at h
      obtain ⟨n, hn, last, hrun, hlast⟩ := ih h
      refine ⟨n + 1, Nat.succ_lt_succ hn, last, ?_, hlast⟩
      rw [runFor, hstep]
      exact hrun
    | finished | stopped =>
      rw [hstep] at h
      refine ⟨0, Nat.succ_pos _, s, rfl, hstep, Bool.eq_false_iff.mpr fun hoperates => ?_⟩
      have hfaults := faults_step limit hoperates
      rw [hstep] at hfaults
      exact Bool.false_ne_true (hfaults.symm.trans h)

/-- **Parsing keeps well-formed trees only.** Whatever the tokens, each statement that is kept is
well formed in all its parts. And a run of the machine, from any state, never faults where it
applies an operator to two operands or assigns to a property or an element. -/
theorem parse_keeps_wellFormed (ts : List Token) (size : Nat) :
    (∀ s ∈ (parse ts size).stmts, Code.Every (Code.WellFormed ts) (.stmt s)) ∧
    ∀ (limit budget : Nat) (s : State), (runFor limit budget s).faults = true →
      ∃ n < budget, ∃ last, runFor limit n s = .running last ∧ step limit last =
        runFor limit budget s ∧
        last.control.operates = false :=
  ⟨(recovers_segmentsWithin size ts.length (Nat.le_refl _)).wellFormed (List.Subset.refl _),
    fun _ _ _ => exists_step_of_faults⟩

end Lox
