import Lox.Proofs.Evaluation.CallDepth

/-!
# A statement on its own

What remains to be done after a statement has no part in its execution. The machine can run a
statement on its own, with nothing to do afterwards, and **graft** what remains onto the end of
every continuation: each step is the same step. So where the statement on its own finishes with a
signal, the machine goes on with that signal and with what remains (`runFor_graft`).
-/

namespace Lox

section Definitions

variable (rest : StmtCont)

mutual

/-- What remains to be done with a value, with more to do at its end. -/
def ValueCont.graft : ValueCont → ValueCont
  | .unary op blame next => .unary op blame next.graft
  | .binaryLeft op blame right next => .binaryLeft op blame right next.graft
  | .binaryRight op blame left next => .binaryRight op blame left next.graft
  | .logical op right next => .logical op right next.graft
  | .assign use next => .assign use next.graft
  | .callee arguments paren next => .callee arguments paren next.graft
  | .argument callee before after paren next => .argument callee before after paren next.graft
  | .activation next => .activation next.graft
  | .construct id next => .construct id next.graft
  | .get name next => .get name next.graft
  | .getKeyObject paren key next => .getKeyObject paren key next.graft
  | .getKey object paren next => .getKey object paren next.graft
  | .indexObject index blame next => .indexObject index blame next.graft
  | .index object blame next => .index object blame next.graft
  | .setObject name value next => .setObject name value next.graft
  | .setKeyObject paren key value next => .setKeyObject paren key value next.graft
  | .setKey object paren value next => .setKey object paren value next.graft
  | .setField id name next => .setField id name next.graft
  | .setIndexObject index blame value next => .setIndexObject index blame value next.graft
  | .setIndex object blame value next => .setIndex object blame value next.graft
  | .setElement id index blame next => .setElement id index blame next.graft
  | .field before key after next => .field before key after next.graft
  | .element before after next => .element before after next.graft
  | .discard next => .discard next.graft
  | .print next => .print next.graft
  | .declare mutable name next => .declare mutable name next.graft
  | .branch thenBranch elseBranch next => .branch thenBranch elseBranch next.graft
  | .loopTest loop next => .loopTest loop next.graft
  | .loopCloser loop next => .loopCloser loop next.graft
  | .ret keyword next => .ret keyword next.graft

/-- The same, for what remains after a statement. -/
def StmtCont.graft : StmtCont → StmtCont
  | .done => rest
  | .statements body next => .statements body next.graft
  | .leave outer next => .leave outer next.graft
  | .loopBody loop next => .loopBody loop next.graft
  | .functionBody caller next => .functionBody caller next.graft

end

def Control.graft : Control → Control
  | .eval e next => .eval e (next.graft rest)
  | .exec s next => .exec s (.graft rest next)
  | .give v next => .give v (next.graft rest)
  | .finish signal next => .finish signal (.graft rest next)

def State.graft (s : State) : State := { s with control := s.control.graft rest }

def Next.graft : Next → Next
  | .running s => .running (s.graft rest)
  | last => last

end Definitions

variable {rest : StmtCont}

/-- A body is entered under what is grafted. -/
theorem graft_runBody (body : List Stmt) (next : StmtCont) :
    (runBody body next).graft rest = runBody body (.graft rest next) := by
  cases body <;> rfl

/-- A loop is begun under it. -/
theorem graft_runLoop (loop : Loop) (next : StmtCont) :
    (runLoop loop next).graft rest = runLoop loop (.graft rest next) := by
  unfold runLoop
  split <;> rfl

theorem graft_closeLoop (loop : Loop) (next : StmtCont) :
    (closeLoop loop next).graft rest = closeLoop loop (.graft rest next) := by
  unfold closeLoop
  split
  · rfl
  · exact graft_runLoop loop next

theorem graft_runBranch (branch : Option Stmt) (next : StmtCont) :
    (runBranch branch next).graft rest = runBranch branch (.graft rest next) := by
  cases branch <;> rfl

section Steps

variable {limit depth : Nat} {scope : ScopeId} {heap : Heap} {console : Console} {c : Control}

/-- A call stays a call. -/
theorem Control.Calls.graft {callee : Value} {arguments : List Value} {paren : Span} {k : ValueCont}
    (h : c.Calls heap callee arguments paren k) :
    (c.graft rest).Calls heap callee arguments paren (k.graft rest) := by
  cases h <;> constructor <;> assumption

/-- The reading of a property stays one. -/
theorem Control.Reads.graft {owner : Value} {name : Text} {blame : Span} {k : ValueCont}
    (h : c.Reads heap owner name blame k) :
    (c.graft rest).Reads heap owner name blame (k.graft rest) := by
  cases h <;> constructor

theorem Control.Writes.graft {owner : Value} {name : Text} {blame : Span} {e : Expr} {k : ValueCont}
    (h : c.Writes heap owner name blame e k) :
    (c.graft rest).Writes heap owner name blame e (k.graft rest) := by
  cases h <;> constructor

theorem Control.Supers.graft {superclass : ClassId} {receiver : InstanceId} {method : Ident}
    {k : ValueCont} (h : c.Supers scope heap superclass receiver method k) :
    (c.graft rest).Supers scope heap superclass receiver method (k.graft rest) := by
  cases h with
  | intro hsuper => exact .intro hsuper

theorem Control.Gathers.graft {entries : Entries Value} {k : ValueCont} (h : c.Gathers entries k) :
    (c.graft rest).Gathers entries (k.graft rest) := by
  cases h <;> constructor

theorem Control.Lists.graft {elements : List Value} {k : ValueCont} (h : c.Lists elements k) :
    (c.graft rest).Lists elements (k.graft rest) := by
  cases h <;> constructor

/-- Turns do not look at what is grafted. -/
theorem Turn.graft {c' : Control} (h : Turn scope heap c c') :
    Turn scope heap (c.graft rest) (c'.graft rest) := by
  cases h with
  | writes hwrites => exact .writes hwrites.graft
  | chosen =>
    rw [graft_runBranch]
    exact .chosen
  | loop =>
    rw [graft_runLoop]
    exact .loop
  | loopCloser =>
    rw [graft_runLoop]
    exact .loopCloser
  | statements =>
    rw [graft_runBody]
    exact .statements
  | loopNormal =>
    rw [graft_closeLoop]
    exact .loopNormal
  | loopContinued =>
    rw [graft_closeLoop]
    exact .loopContinued
  | _ => constructor <;> assumption

/-- Failures do not either. -/
theorem Fails.graft {stop : Stop} (h : Fails limit scope depth heap c stop) :
    Fails limit scope depth heap (c.graft rest) stop := by
  cases h with
  | superMethod hsupers hname hmethod => exact .superMethod hsupers.graft hname hmethod
  | tooMany hcalls hlt => exact .tooMany hcalls.graft hlt
  | notEnough hcalls hlt => exact .notEnough hcalls.graft hlt
  | callDepth hcalls harity hle => exact .callDepth hcalls.graft harity hle
  | undefined hreads hnone => exact .undefined hreads.graft hnone
  | notReadable hreads howner => exact .notReadable hreads.graft howner
  | notWritable hwrites howner => exact .notWritable hwrites.graft howner
  | _ => constructor <;> assumption

/-- A call is entered under what is grafted. -/
theorem graft_enter (callee : Closure) (arguments : List Value) (next : ValueCont) :
    (enter callee arguments next scope depth heap console).graft rest =
      enter callee arguments (next.graft rest) scope depth heap console := by
  simp only [enter, Next.graft, State.graft, graft_runBody]
  rfl

/-- A transition has no part for what remains, unless there is nothing else to do. -/
theorem Transition.graft {next : Next} (htrans : Transition limit scope depth heap console c next)
    (hdone : ∀ signal, c ≠ .finish signal .done) :
    Transition limit scope depth heap console (c.graft rest) (next.graft rest) := by
  cases htrans with
  | turn hturn => exact .turn hturn.graft
  | fails hfails => exact .fails hfails.graft
  | finished => exact absurd rfl (hdone _)
  | object hgathers => exact .object hgathers.graft
  | list hlists => exact .list hlists.graft
  | property hreads hp => exact .property hreads.graft hp
  | superMethod hsupers hm => exact .superMethod hsupers.graft hm
  | superIdle hsupers hname hm => exact .superIdle hsupers.graft hname hm
  | enter hcalls harity hlimit =>
    rw [graft_enter]
    exact .enter hcalls.graft harity hlimit
  | construct hcalls hconstructor harity hlimit =>
    rw [graft_enter]
    exact .construct hcalls.graft hconstructor harity hlimit
  | «instance» hcalls hconstructor harity hlimit =>
    exact .instance hcalls.graft hconstructor harity hlimit
  | native hcalls harity hlimit hv => exact .native hcalls.graft harity hlimit hv
  | nativeFails hcalls harity hlimit hstop => exact .nativeFails hcalls.graft harity hlimit hstop
  | idle hcalls hidle harity hlimit => exact .idle hcalls.graft hidle harity hlimit
  | @block body k =>
    have hbody : (runBody body (.leave scope k)).graft rest =
        runBody body (.graft rest (.leave scope k)) :=
      graft_runBody body _
    simp only [Next.graft, State.graft, hbody]
    exact .block
  | _ => constructor <;> assumption

end Steps

/-- A step has no part for what remains, unless there is nothing else to do. -/
theorem graft_step {limit : Nat} {s : State} (h : ∀ signal, s.control ≠ .finish signal .done) :
    (step limit s).graft rest = step limit (s.graft rest) :=
  ((transition_step limit s).graft h).eq_step

/-- Where a run on its own finishes with a signal, the machine goes on with the signal and what
remains. -/
theorem runFor_graft {limit n : Nat} {s : State} {signal : Signal} {heap : Heap} {console : Console}
    (h : runFor limit n s = .finished signal heap console) (rest : StmtCont) :
    ∃ k ≤ n, ∃ scope depth, runFor limit k (s.graft rest) =
      .running ⟨.finish signal rest, scope, depth, heap, console⟩ := by
  induction n generalizing s with
  | zero => cases h
  | succ n ih =>
    simp only [runFor] at h
    cases hstep : step limit s with
    | stopped =>
      rw [hstep] at h
      cases h
    | finished signal' heap' console' =>
      rw [hstep] at h
      obtain ⟨rfl, rfl, rfl⟩ := Next.finished.inj h
      have hcontrol := control_of_finished hstep
      obtain ⟨control, scope, depth, heap, console⟩ := s
      obtain rfl : control = .finish signal' .done := hcontrol
      cases hstep
      exact ⟨0, n.succ.zero_le, scope, depth, rfl⟩
    | running s' =>
      rw [hstep] at h
      obtain ⟨k, hk, scope, depth, hrun⟩ := ih h
      refine ⟨k + 1, Nat.succ_le_succ hk, scope, depth, ?_⟩
      have hcontrol : ∀ signal, s.control ≠ .finish signal .done := by
        intro signal hcontrol
        obtain ⟨control, scope, depth, heap, console⟩ := s
        obtain rfl : control = .finish signal .done := hcontrol
        cases hstep
      have hgraft : (step limit s).graft rest = step limit (s.graft rest) := graft_step hcontrol
      rw [hstep] at hgraft
      rw [runFor, ← hgraft]
      exact hrun

end Lox
