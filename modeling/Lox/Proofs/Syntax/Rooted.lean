import Lox.Proofs.Syntax.Derivation
import Lox.Proofs.Syntax.Placement

/-!
# Parts of derived trees

A derivation is put together as its tree is: the parts that stand directly in the tree are the trees
of its premises. So what holds at the top of every tree that is derived from some tokens holds in
all parts of all of them, and a proof about parsed trees need only look at what a single rule of the
grammar puts together (`Grammar.Derives.every`).
-/

namespace Lox

open Code

theorem Code.every_of_children {p : Code → Prop} {c : Code} (here : p c)
    (h : ∀ d ∈ children c, Every p d) : Every p c :=
  .intro here fun d hd => h d (mem_children hd)

namespace Grammar

/-- The tops of the tree of a symbol. -/
def tops : (n : Symbol) → n.Tree → List Code
  | .statements, body | .block, body => body.map .stmt
  | .statement, s | .conditional, s | .alternative, s | .loopStart, s => s.toList.map .stmt
  | .binding _, s => [.stmt s]
  | .loopCondition, e | .loopCloser, e => e.toList.map .expr
  | .extension, _ | .parameters, _ => []
  | .methods, methods => methods.map fun (.mk _ f) => .function f
  | .function _, f => [.function f]
  | .expression, e | .level _, e | .operand _, e | .unary, e | .chain, e | .primary, e => [.expr e]
  | .expressions, es => es.map .expr
  | .fields, fields => (fields.map Field.value).map .expr
  | .field, f => [.expr f.value]

/-- Something holds at the top of every tree that is derived from some tokens, and of the parts that
no rule has at its top. -/
structure HoldsAtTops (ts : List Token) (p : Code → Prop) : Prop where
  top {greedy : Bool} {n : Symbol} {w : List Token} {tree : n.Tree} :
    Derives greedy n w tree → w ⊆ ts → ∀ c ∈ tops n tree, p c
  stmts (body : List Stmt) : p (.stmts body)
  loop (condition closer : Option Expr) (body : List Stmt) : p
    (.stmt (.loop condition (.block body) closer))
  superRef (keyword : Span) (method : Ident) : p (.expr (.superRef keyword method none))

variable {ts : List Token} {p : Code → Prop}

/-- Something holds in all parts of the tree of a derivation. -/
def Throughout (ts : List Token) (p : Code → Prop) {greedy : Bool} {n : Symbol} {w : List Token}
    {tree : n.Tree} (_ : Derives greedy n w tree) : Prop := w ⊆ ts → ∀ c ∈ tops n tree, Every p c

attribute [local simp] tops children bodies Stmt.inner Stmt.exprs Expr.parts Field.value

theorem children_assignTo {target value e : Expr} (htarget : Every p (.expr target))
    (hvalue : Every p (.expr value)) (h : assignTo target value = some e) :
    ∀ d ∈ children (.expr e), Every p d := by
  have hparts : ∀ part ∈ target.parts, Every p (.expr part) :=
    fun part hpart => htarget.child (.part hpart)
  cases target <;> cases h <;> simp_all

theorem children_branchOf {condition : Expr} {thenBranch elseBranch : Option Stmt}
    (hcondition : Every p (.expr condition)) (hthen : ∀ c ∈ tops .statement thenBranch, Every p c)
    (helse : ∀ c ∈ tops .alternative elseBranch, Every p c) :
    ∀ c ∈ tops .conditional (branchOf condition thenBranch elseBranch),
      ∀ d ∈ children c, Every p d := by
  cases thenBranch <;> cases elseBranch <;> simp_all [branchOf]

namespace HoldsAtTops

variable (hp : HoldsAtTops ts p) {greedy : Bool} {w : List Token} {body : List Stmt}
include hp

/-- The top of a tree has it, so it is enough that what stands in the top has it. -/
theorem throughout {n : Symbol} {tree : n.Tree} (h : Derives greedy n w tree)
    (hin : w ⊆ ts → ∀ c ∈ tops n tree, ∀ d ∈ children c, Every p d) : Throughout ts p h :=
  fun hw c hc => every_of_children (hp.top h hw c hc) (hin hw c hc)

/-- Statements hold what each of them holds. -/
theorem every_stmts (h : ∀ c ∈ tops .statements body, Every p c) : Every p (.stmts body) :=
  every_of_children (hp.stmts body) h

theorem every_blockOf (hbody : Derives greedy .block w body) (hw : w ⊆ ts)
    (h : ∀ c ∈ tops .block body, Every p c) : ∀ c ∈ tops .statement (blockOf body), Every p c := by
  refine hp.throughout (.blockStatement hbody) (fun _ => ?_) hw
  cases body with
  | nil => nofun
  | cons s body => simpa [blockOf] using hp.every_stmts h

theorem children_loopOf {init : Option Stmt} {condition closer : Option Expr}
    (hinit : ∀ c ∈ tops .loopStart init, Every p c)
    (hcondition : ∀ c ∈ tops .loopCondition condition, Every p c)
    (hcloser : ∀ c ∈ tops .loopCloser closer, Every p c)
    (hbody : ∀ c ∈ tops .statement (blockOf body), Every p c) :
    ∀ c ∈ tops .statement (loopOf init condition closer (blockOf body)),
      ∀ d ∈ children c, Every p d := by
  cases body with
  | nil => nofun
  | cons first rest =>
    have hparts : ∀ d ∈ children (.stmt (.loop condition (.block (first :: rest)) closer)),
        Every p d := by
      simp_all [blockOf, or_imp, forall_and]
    cases init with
    | none => simpa [loopOf, blockOf] using hparts
    | some declaration =>
      have hloop := every_of_children (hp.loop condition closer (first :: rest)) hparts
      have hboth :
          Every p (.stmts [declaration, .loop condition (.block (first :: rest)) closer]) :=
        hp.every_stmts (by simp_all)
      simpa [loopOf, blockOf] using hboth

end HoldsAtTops

/-- What holds at the tops of all trees that are derived from some tokens holds in all parts of
them. -/
theorem Derives.every (hp : HoldsAtTops ts p) {greedy : Bool} {n : Symbol} {w : List Token}
    {tree : n.Tree} (h : Derives greedy n w tree) : Throughout ts p h := by
  -- A rule either passes the tops of a premise on, or has one top, in which the tops of its
  -- premises stand.
  induction h with
  | noStatement | noMethod | noParameter | noExpression | noField | noLoopStart | noLoopCondition
  | noLoopCloser | emptyStatement | noAlternative | noExtension | extension | lastParameter
  | parameters => exact fun _ => nofun
  | breakStatement | continueStatement | bareReturn | bareBinding | literal | variableUse | thisUse
  | superMethod | shortField => exact hp.throughout _ fun _ => List.forall_mem_singleton.mpr nofun
  | plain _ ih | firstOperand _ ih | tighterOperand _ _ ih | unaryOperand _ _ ih | unaryChain _ ih
  | chainStart _ ih | loopCloser _ ih | lastExpression _ ih | lastField _ ih => exact ih
  | letStatement _ _ ih | constStatement _ _ ih | letLoopStart _ _ ih | constLoopStart _ _ ih
  | ifStatement _ _ ih =>
    exact fun hw => ih (List.cons_subset.mp hw).2
  | elseIf _ _ _ ih | namedField _ _ _ ih | quotedField _ _ _ ih =>
    exact fun hw => ih (List.cons_subset.mp (List.cons_subset.mp hw).2).2
  | loopCondition _ _ ih => exact fun hw => ih (List.append_subset.mp hw).1
  | block _ _ _ ih => exact fun hw => ih (List.append_subset.mp (List.cons_subset.mp hw).2).1
  | statements _ _ _ ih ihrest =>
    intro hw
    rw [List.append_subset] at hw
    rw [tops, List.map_append]
    exact List.forall_mem_append.mpr ⟨ih hw.1, ihrest hw.2⟩
  | expressions _ _ _ ih ihrest | fields _ _ _ ih ihrest =>
    intro hw
    simp only [List.append_subset, List.cons_subset] at hw
    exact List.forall_mem_cons.mpr ⟨ih hw.1 _ List.mem_cons_self, ihrest hw.2.2⟩
  | methods _ _ _ ih ihrest =>
    intro hw
    simp only [List.append_subset, List.cons_subset] at hw
    exact List.forall_mem_cons.mpr ⟨ih hw.2.1 _ List.mem_cons_self, ihrest hw.2.2⟩
  | printStatement _ _ _ ih | returnStatement _ _ _ ih | grouping _ _ _ ih | list _ _ _ ih
  | object _ _ _ ih =>
    refine hp.throughout _ fun hw => List.forall_mem_singleton.mpr ?_
    simp only [List.append_subset, List.cons_subset] at hw
    exact ih hw.2.1
  | expressionStatement _ _ _ _ ih | property _ _ _ ih =>
    exact hp.throughout _ fun hw => List.forall_mem_singleton.mpr (ih (List.append_subset.mp hw).1)
  | functionStatement _ _ ih =>
    exact hp.throughout _ fun hw => List.forall_mem_singleton.mpr (ih hw)
  | binding _ _ _ _ ih =>
    refine hp.throughout _ fun hw => List.forall_mem_singleton.mpr ?_
    simp only [List.append_subset, List.cons_subset] at hw
    exact ih hw.2.2.1
  | classStatement _ _ _ _ _ _ _ ih =>
    refine hp.throughout _ fun hw => List.forall_mem_singleton.mpr ?_
    simp only [List.append_subset, List.cons_subset] at hw
    simp only [children, bodies, Stmt.inner, Stmt.exprs, List.map_nil, List.append_nil]
    exact ih hw.2.2.2.2.1
  | blockStatement hbody ih => exact fun hw => hp.every_blockOf hbody hw (ih hw)
  | elseBlock _ hbody ih =>
    intro hw
    rw [List.cons_subset] at hw
    exact hp.every_blockOf hbody hw.2 (ih hw.2)
  | function _ _ _ _ _ _ ih =>
    refine hp.throughout _ fun hw => List.forall_mem_singleton.mpr ?_
    simp only [List.append_subset, List.cons_subset] at hw
    exact List.forall_mem_singleton.mpr (hp.every_stmts (ih hw.2.2.2))
  | unaryOperator _ _ ih | functionLiteral _ _ ih =>
    exact hp.throughout _ fun hw => List.forall_mem_singleton.mpr (ih (List.cons_subset.mp hw).2)
  | namedFunctionLiteral _ _ _ ih =>
    refine hp.throughout _ fun hw => List.forall_mem_singleton.mpr ?_
    simp only [List.cons_subset] at hw
    exact ih hw.2.2
  | @infixOperator _ _ _ _ _ _ op _ _ _ ihleft ihright =>
    refine hp.throughout _ fun hw => List.forall_mem_singleton.mpr ?_
    simp only [List.append_subset, List.cons_subset] at hw
    cases op <;> exact List.forall_mem_cons.mpr ⟨ihleft hw.1 _ List.mem_cons_self, ihright hw.2.2⟩
  | call _ _ _ _ _ ih ihrest | subscript _ _ _ _ ih ihrest =>
    refine hp.throughout _ fun hw => List.forall_mem_singleton.mpr ?_
    simp only [List.append_subset, List.cons_subset] at hw
    exact List.forall_mem_cons.mpr ⟨ih hw.1 _ List.mem_cons_self, ihrest hw.2.2.1⟩
  | computedProperty _ _ _ _ _ ih ihkey =>
    refine hp.throughout _ fun hw => List.forall_mem_singleton.mpr ?_
    simp only [List.append_subset, List.cons_subset] at hw
    exact List.forall_mem_cons.mpr ⟨ih hw.1 _ List.mem_cons_self, ihkey hw.2.2.2.1⟩
  | superCall _ _ _ _ _ ih =>
    refine hp.throughout _ fun hw => List.forall_mem_singleton.mpr ?_
    simp only [List.append_subset, List.cons_subset] at hw
    exact List.forall_mem_cons.mpr ⟨every_of_children (hp.superRef _ _) nofun, ih hw.2.2.1⟩
  | assignment _ _ _ hassign ihtarget ihvalue =>
    refine hp.throughout _ fun hw => List.forall_mem_singleton.mpr ?_
    simp only [List.append_subset, List.cons_subset] at hw
    exact children_assignTo (ihtarget hw.1 _ List.mem_cons_self)
      (ihvalue hw.2.2 _ List.mem_cons_self) hassign
  | conditional _ hbody _ ihcondition ihbody ihelse =>
    refine hp.throughout _ fun hw => ?_
    simp only [List.append_subset] at hw
    exact children_branchOf (ihcondition hw.1 _ List.mem_cons_self)
      (hp.every_blockOf hbody hw.2.1 (ihbody hw.2.1)) (ihelse hw.2.2)
  | forStatement _ _ _ _ _ hbody ihstart ihcondition ihcloser ihbody =>
    refine hp.throughout _ fun hw => ?_
    simp only [List.append_subset, List.cons_subset] at hw
    exact hp.children_loopOf (ihstart hw.2.1) (ihcondition hw.2.2.1) (ihcloser hw.2.2.2.1)
      (hp.every_blockOf hbody hw.2.2.2.2 (ihbody hw.2.2.2.2))
  | parenForStatement _ _ _ _ _ _ hbody ihstart ihcondition ihcloser ihbody =>
    refine hp.throughout _ fun hw => ?_
    simp only [List.append_subset, List.cons_subset] at hw
    exact hp.children_loopOf (ihstart hw.2.2.1) (ihcondition hw.2.2.2.1) (ihcloser hw.2.2.2.2.1)
      (hp.every_blockOf hbody hw.2.2.2.2.2.2 (ihbody hw.2.2.2.2.2.2))

end Grammar

end Lox
