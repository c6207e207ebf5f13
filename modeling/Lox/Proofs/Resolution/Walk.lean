import Lox.Proofs.Resolution.Made

/-!
# The walk of resolution

Resolution goes over a program with a stack of scopes, each opened by something in the program: the
program itself, a block, a function with its parameters, the receiver of a method, the superclass of
a class. A **frame** is a scope of the stack with what opened it, and `Visit` says which parts are
gone over with which frames, in the resolved program.

`Visit.made` ties the walk to the resolver: a part that is visited is what resolution makes of a
part of the source with the names of those frames, without a report. What is known of a visited use
follows: its slot tells how far out the innermost frame is that declares the name.
-/

namespace Lox

open Code

/-- What opens a scope. -/
inductive Opener
  | root
  | block (body : List Stmt)
  | call (f : Function)
  | receiver (f : Function)
  | superclass (name : Ident) (use : NameUse) (methods : List Method)

/-- A scope of the walk: what opens it, and the names that have been declared in it. -/
structure Frame where
  opener : Opener
  names : StaticScope

/-- The scopes that the resolver sees. -/
def scopesOf (frames : List Frame) : StaticScopes := frames.map Frame.names

/-- Declares names in the innermost frame. -/
def declareIn (names : StaticScope) : List Frame → List Frame
  | [] => []
  | frame :: rest => ⟨frame.opener, names ++ frame.names⟩ :: rest

/-- The frame that a receiver is bound in, around a method. -/
def receiverFrame (f : Function) : Frame := ⟨.receiver f, [(thisName, false)]⟩

/-- The frame that the superclass of a class is bound in, around its methods. -/
def superclassFrame (name : Ident) (use : NameUse) (methods : List Method) : Frame :=
  ⟨.superclass name use methods, [(superName, false)]⟩

/-- The parts of resolved programs that are gone over, with the frames around them and whether they
lie in a class. The programs are given with the names of the root scope that they are resolved
against. -/
inductive Visit (programs : StaticScope → List Stmt → Prop) :
    ClassContext → List Frame → Code → Prop
  | program {names : StaticScope} {body : List Stmt} :
      programs names body → Visit programs .none [⟨.root, names⟩] (.stmts body)
  | first {context : ClassContext} {frames : List Frame} {s : Stmt} {rest : List Stmt} :
      Visit programs context frames (.stmts (s :: rest)) → Visit programs context frames (.stmt s)
  | next {context : ClassContext} {frames : List Frame} {s : Stmt} {rest : List Stmt} :
      Visit programs context frames (.stmts (s :: rest)) →
      Visit programs context (declareIn s.declared frames) (.stmts rest)
  | block {context : ClassContext} {frames : List Frame} {body : List Stmt} :
      Visit programs context frames (.stmt (.block body)) →
      Visit programs context (⟨.block body, []⟩ :: frames) (.stmts body)
  | inner {context : ClassContext} {frames : List Frame} {s s' : Stmt} :
      Visit programs context frames (.stmt s) → s' ∈ s.inner →
      Visit programs context frames (.stmt s')
  | method {context : ClassContext} {frames : List Frame} {name m : Ident} {methods : List Method}
      {f : Function} : Visit programs context frames (.stmt (.classDecl name none methods)) →
      .mk m f ∈ methods → Visit programs .plain
      (receiverFrame f :: declareIn [(name.name, false)] frames) (.function f)
  | submethod {context : ClassContext} {frames : List Frame} {name m : Ident} {use : NameUse}
      {methods : List Method}
      {f : Function} :
      Visit programs context frames (.stmt (.classDecl name (some use) methods)) →
        .mk m f ∈ methods →
      Visit programs .subclass
        (receiverFrame f :: superclassFrame name use methods ::
          declareIn [(name.name, false)] frames) (.function f)
  | expr {context : ClassContext} {frames : List Frame} {s : Stmt} {e : Expr} :
      Visit programs context frames (.stmt s) → e ∈ s.exprs →
      Visit programs context frames (.expr e)
  | part {context : ClassContext} {frames : List Frame} {e e' : Expr} :
      Visit programs context frames (.expr e) → e' ∈ e.parts →
      Visit programs context frames (.expr e')
  | literal {context : ClassContext} {frames : List Frame} {name : Option Ident} {f : Function} :
      Visit programs context frames (.expr (.lambda name f)) →
      Visit programs context (declareIn (Expr.lambda name f).declared frames) (.function f)
  | body {context : ClassContext} {frames : List Frame} {f : Function} :
      Visit programs context frames (.function f) →
      Visit programs context (⟨.call f, parameterScope f.params⟩ :: frames) (.stmts f.body)

/-! ## Where the receiver and the superclass are bound -/

/-- A scope in which no reserved word is declared. -/
def Plain (names : StaticScope) : Prop := ∀ d ∈ names, d.1 ∉ reservedNames

/-- In a class, the receiver is bound in some scope around; if the class has a superclass, that is
bound one further out. -/
def Anchored : ClassContext → StaticScopes → Prop
  | .none, _ => True
  | .plain, S => ∃ depth mutable, S.find? thisName = some (depth, mutable)
  | .subclass, S => ∃ depth mutable mutable', S.find? thisName = some (depth, mutable) ∧
      S.find? superName = some (depth + 1, mutable')

/-- No reserved word is among plain names. -/
theorem Plain.lookup {names : StaticScope} (h : Plain names) {word : Text}
    (hword : word ∈ reservedNames) : names.lookup word = none := by
  rw [List.lookup_eq_none_iff]
  intro d hd
  rw [bne_iff_ne]
  rintro rfl
  exact h d hd hword

/-- A scope with plain names takes a reserved word one further out. -/
theorem find?_plain_cons {names : StaticScope} (h : Plain names) {word : Text}
    (hword : word ∈ reservedNames) {S : StaticScopes} {depth : Nat} {mutable : Bool}
    (hfind : S.find? word = some (depth, mutable)) :
    StaticScopes.find? (names :: S) word = some (depth + 1, mutable) := by
  simp [StaticScopes.find?, h.lookup hword, hfind]

theorem find?_plain_append {names : StaticScope} (h : Plain names) {word : Text}
    (hword : word ∈ reservedNames) {top : StaticScope} {S : StaticScopes} :
    StaticScopes.find? ((names ++ top) :: S) word = StaticScopes.find? (top :: S) word := by
  simp [StaticScopes.find?, List.lookup_append, h.lookup hword]

theorem thisName_mem_reservedNames : thisName ∈ reservedNames := List.mem_cons_self

theorem superName_mem_reservedNames : superName ∈ reservedNames :=
  List.mem_cons_of_mem _ List.mem_cons_self

/-- A scope with plain names leaves the words of a class in place. -/
theorem Anchored.cons {context : ClassContext} {S : StaticScopes} {names : StaticScope}
    (h : Anchored context S) (hnames : Plain names) : Anchored context (names :: S) := by
  cases context with
  | none => trivial
  | plain =>
    obtain ⟨depth, mutable, hthis⟩ := h
    exact ⟨depth + 1, mutable, find?_plain_cons hnames thisName_mem_reservedNames hthis⟩
  | subclass =>
    obtain ⟨depth, mutable, mutable', hthis, hsuper⟩ := h
    exact ⟨depth + 1, mutable, mutable', find?_plain_cons hnames thisName_mem_reservedNames hthis,
      find?_plain_cons hnames superName_mem_reservedNames hsuper⟩

/-- So do plain names. -/
theorem Anchored.append {context : ClassContext} {S : StaticScopes} {names top : StaticScope}
    (h : Anchored context (top :: S)) (hnames : Plain names) :
    Anchored context ((names ++ top) :: S) := by
  cases context with
  | none => trivial
  | plain => simpa only [Anchored, find?_plain_append hnames thisName_mem_reservedNames] using h
  | subclass =>
    simpa only [Anchored, find?_plain_append hnames thisName_mem_reservedNames,
      find?_plain_append hnames superName_mem_reservedNames] using h

/-! ## What is known of a visited part -/

section Visit

variable {programs : StaticScope → List Stmt → Prop} {context : ClassContext} {frames : List Frame}
    {c : Code}

theorem Visit.frames_ne_nil (h : Visit programs context frames c) :
    ∃ frame rest, frames = frame :: rest := by
  induction h with
  | program | block | method | submethod | body => exact ⟨_, _, rfl⟩
  | next _ ih | literal _ ih =>
    obtain ⟨frame, rest, rfl⟩ := ih
    exact ⟨_, rest, rfl⟩
  | first _ ih | inner _ _ ih | expr _ _ ih | part _ _ ih => exact ih

/-- Resolution makes what is visited. -/
theorem Visit.made
    (hprograms : ∀ names body, programs names body → Made .none [names] (.stmts body))
    (h : Visit programs context frames c) : Made context (scopesOf frames) c := by
  induction h with
  | program h => exact hprograms _ _ h
  | first _ ih => exact ih.first
  | next h ih =>
    obtain ⟨frame, rest, rfl⟩ := h.frames_ne_nil
    exact Made.next ih
  | block _ ih => exact ih.block
  | inner h hs ih =>
    obtain ⟨frame, rest, rfl⟩ := h.frames_ne_nil
    exact Made.inner ih hs
  | method h hm ih =>
    obtain ⟨frame, rest, rfl⟩ := h.frames_ne_nil
    exact Made.method ih hm
  | submethod h hm ih =>
    obtain ⟨frame, rest, rfl⟩ := h.frames_ne_nil
    exact Made.submethod ih hm
  | expr h he ih =>
    obtain ⟨frame, rest, rfl⟩ := h.frames_ne_nil
    exact Made.expr ih he
  | part h he ih =>
    obtain ⟨frame, rest, rfl⟩ := h.frames_ne_nil
    exact Made.part ih he
  | literal h ih =>
    obtain ⟨frame, rest, rfl⟩ := h.frames_ne_nil
    exact Made.literal ih
  | body _ ih => exact ih.body

/-- What is visited is tidy. -/
theorem Visit.tidy
    (hprograms : ∀ names body, programs names body → Made .none [names] (.stmts body))
    (h : Visit programs context frames c) : c.Tidy := by
  obtain ⟨frame, rest, rfl⟩ := h.frames_ne_nil
  exact Made.tidy (h.made hprograms)

theorem plain_parameterScope {f : Function} (h : (Code.function f).Shaped) :
    Plain (parameterScope f.params) := by
  intro d hd
  obtain ⟨p, hp, rfl⟩ := List.mem_map.mp (List.mem_reverse.mp hd)
  exact h p hp

/-- Inside of a class its words are in place. -/
theorem Visit.anchored
    (hprograms : ∀ names body, programs names body → Made .none [names] (.stmts body))
    (h : Visit programs context frames c) : Anchored context (scopesOf frames) := by
  induction h with
  | program => trivial
  | first _ ih | inner _ _ ih | expr _ _ ih | part _ _ ih => exact ih
  | next h ih =>
    obtain ⟨frame, rest, rfl⟩ := h.frames_ne_nil
    exact Anchored.append ih (h.first.tidy hprograms).1.1
  | block _ ih => exact ih.cons nofun
  | method => exact ⟨0, false, rfl⟩
  | submethod => exact ⟨0, false, false, rfl, rfl⟩
  | literal h ih =>
    obtain ⟨frame, rest, rfl⟩ := h.frames_ne_nil
    exact Anchored.append ih (h.tidy hprograms).1.1
  | body h ih => exact ih.cons (plain_parameterScope (h.tidy hprograms).1)

end Visit

end Lox
