import Lox.Proofs.Evaluation.RootScope
import Lox.Proofs.Session.Agreement
import Lox.Proofs.Session.Staging
import Lox.Proofs.Syntax.Joining
import Lox.Proofs.Syntax.Sites

/-!
# A program in pieces

A source that has been run and the source that is run after it are worth one source, the two with a
line feed between them. Every stage composes: the tokens of the whole are those of the pieces, the
second moved; so are the statements; the second piece is resolved against the names that the first
has left in the root scope, which are those that resolution of the whole has come to at that place;
and evaluation goes on from the heap that the first piece has left.

What differs are places, and which function literals are told apart by the run they were written in
and which by their offsets alone. Neither can be seen by a program. The main theorem is
`run_in_pieces`.
-/

namespace Lox

open Code Resolve Grammar

/-! ## Marks of the pieces and of the whole -/

namespace Relabelling

/-- Marks without places, with the function literals of the pieces as they are. -/
def pieces : Relabelling where
  span _ := .emptyAt 0
  literal run keyword := (run, keyword)
  sameLiteral := Relabelling.sameLiteral_kept

/-- The function literal of a piece that one of the whole is, for pieces with a border between
them. -/
def pieceLiteral (border : Nat) : Nat → Span → Nat × Span
  | 0, keyword =>
    if keyword.offset ≤ border then (0, keyword)
      else (1, ⟨keyword.offset - (border + 1), keyword.length⟩)
  | run + 1, keyword => (run + 2, keyword)

/-- Literals of both pieces are told apart in the whole. -/
theorem sameLiteral_pieceLiteral (border run : Nat) (keyword : Span) (run' : Nat)
    (keyword' : Span) :
    ((pieceLiteral border run keyword).1 = (pieceLiteral border run' keyword').1 ∧
      (pieceLiteral border run keyword).2.offset = (pieceLiteral border run' keyword').2.offset) ↔
    run = run' ∧ keyword.offset = keyword'.offset := by
  cases run <;> cases run' <;> simp only [pieceLiteral] <;> grind

/-- Marks without places, with the function literals of the whole told apart as those of the pieces
are. -/
def whole (border : Nat) : Relabelling where
  span _ := .emptyAt 0
  literal := pieceLiteral border
  sameLiteral := sameLiteral_pieceLiteral border

end Relabelling

/-- Places up to a border stay, and those past it are taken back to it. -/
def Span.upTo (border : Nat) (s : Span) : Span := ⟨min s.offset border, s.length⟩

/-- The places of the first piece lie before the border. -/
theorem keeps_upTo (source : Text) :
    Keeps (Span.upTo source.length) (scan source).tokens (scan source).size := by
  intro s hs
  rcases hs.in_source with ⟨hoffset, -⟩ | rfl
  · rw [Span.upTo, Nat.min_eq_left hoffset.le]
  · rw [Span.upTo, Span.emptyAt, Nat.min_self]

theorem comp_into_upTo (border : Nat) :
    (Relabelling.whole border).comp (.into 0 (Span.upTo border)) =
      Relabelling.pieces.comp (.into 0 (Span.upTo border)) := by
  simp [Marks.comp, Marks.into, Relabelling.whole, Relabelling.pieces, Relabelling.pieceLiteral,
    Span.upTo, Function.comp_def]

theorem comp_into_shift (border : Nat) :
    (Relabelling.whole border).comp (.into 0 (Span.shift (border + 1))) =
      Relabelling.pieces.comp (.into 1 id) := by
  have hlater : ∀ offset, ¬ offset + (border + 1) ≤ border := by omega
  simp [Marks.comp, Marks.into, Relabelling.whole, Relabelling.pieces, Relabelling.pieceLiteral,
    Span.shift, Function.comp_def, hlater]

/-- The program of the first piece is the same to the whole and to the pieces. -/
theorem markStmts_first (source : Text) (root : StaticScope) :
    let program :=
      (resolveProgram 0 root (parse (scan source).tokens (scan source).size).stmts).value
    markStmts (Relabelling.whole source.length).toMarks program =
      markStmts Relabelling.pieces.toMarks program := by
  intro program
  have hkept : markStmts (.into 0 (Span.upTo source.length)) program = program :=
    (keeps_upTo source).markStmts_resolveProgram 0 root
  rw [← hkept, markStmts_markStmts, markStmts_markStmts, comp_into_upTo]

/-- So is that of the second, once it is moved and counts as one of the first run. -/
theorem markStmts_second (border : Nat) (source : Text) (root : StaticScope) :
    let program :=
      (resolveProgram 1 root (parse (scan source).tokens (scan source).size).stmts).value
    markStmts (Relabelling.whole border).toMarks
      (markStmts (.into 0 (Span.shift (border + 1))) program) =
      markStmts Relabelling.pieces.toMarks program := by
  intro program
  have hkeeps : Keeps id (scan source).tokens (scan source).size := fun _ _ => rfl
  have hkept : markStmts (.into 1 id) program = program := hkeeps.markStmts_resolveProgram 1 root
  rw [markStmts_markStmts, comp_into_shift, ← markStmts_markStmts, hkept]

/-! ## The stages before evaluation -/

/-- The second piece is resolved with what the first has declared. -/
theorem resolveStmts_append (run : Nat) (context : ClassContext) (ss ss' : List Stmt)
    (S : StaticScopes) :
    (resolveStmts run context (ss ++ ss') S).value = (resolveStmts run context ss S).value ++
        (resolveStmts run context ss' (resolveStmts run context ss S).scopes).value ∧
      (resolveStmts run context (ss ++ ss') S).diagnostics =
        (resolveStmts run context ss S).diagnostics ++
        (resolveStmts run context ss' (resolveStmts run context ss S).scopes).diagnostics := by
  induction ss generalizing S with
  | nil => exact ⟨rfl, rfl⟩
  | cons s ss ih =>
    obtain ⟨hvalue, hdiagnostics⟩ := ih (s.resolve run context S).scopes
    simp only [List.cons_append, resolveStmts, bind_value, bind_scopes, bind_diagnostics,
      pure_value, pure_scopes, pure_diagnostics, List.append_nil, List.append_assoc, hvalue,
      hdiagnostics, and_self]

/-- A source is handed on with the program that its stages make of it. -/
theorem analyse_of_clean {run : Nat} {root : StaticScope} {source : Text}
    (hscan : (scan source).diagnostics = [])
    (hparse : (parse (scan source).tokens (scan source).size).diagnostics = [])
    (hresolve : (resolveProgram run root
      (parse (scan source).tokens (scan source).size).stmts).diagnostics = []) :
    (analyse run root source).result =
      .ok (resolveProgram run root
        (parse (scan source).tokens (scan source).size).stmts).value := by
  simp [result_analyse, hscan, hparse, hresolve]

/-- The whole is handed on as the program of the first piece and that of the second, moved, if the
second is resolved against the names that resolution has come to after the first. -/
theorem analyse_whole {first second : Text} {root names : StaticScope}
    {program program' : List Stmt} (hfirst : (analyse 0 root first).result = .ok program)
    (hsecond : (analyse 1 names second).result = .ok program')
    (hnames : StaticScopes.Alike [names]
      (resolveStmts 0 .none (parse (scan first).tokens (scan first).size).stmts [root]).scopes)
    (hsign : ¬ (EndsInFunction (segments (scan first).tokens) ∧
      startsWith .minus (scan second).tokens)) :
    (analyse 0 root (first ++ 0x0A :: second)).result =
      .ok (program ++ markStmts (.into 0 (Span.shift (first.length + 1))) program') := by
  obtain ⟨hscan, hparse, hresolve, rfl⟩ := analyse_ok hfirst
  obtain ⟨hscan', hparse', hresolve', rfl⟩ := analyse_ok hsecond
  have hscanned := scan_join second (closed_of_scan hscan)
  rw [hscan, hscan'] at hscanned
  have hparsed :=
    parse_join (first.length + 1) hparse hparse'
      (fun hends => by simpa using fun hminus => hsign ⟨hends, hminus⟩)
      (first.length + 1 + second.length)
  obtain ⟨hvalue, -, hmoved⟩ := matches_resolveStmts (Span.shift (first.length + 1)) 1 0 .none
    (parse (scan second).tokens (scan second).size).stmts _ _ hnames
  rw [show (resolveStmts 1 .none _ [names]).diagnostics = [] from hresolve',
    List.forall₂_nil_left_iff] at hmoved
  obtain ⟨hjoined, hreports⟩ :=
    resolveStmts_append 0 .none (parse (scan first).tokens (scan first).size).stmts
      (markStmts (.moving (Span.shift (first.length + 1)))
        (parse (scan second).tokens (scan second).size).stmts) [root]
  have hclean := @analyse_of_clean 0 root (first ++ 0x0A :: second)
  simp only [hscanned, List.map_nil, List.append_nil, hparsed, resolveProgram, hreports, hmoved,
    hjoined, hvalue] at hclean
  exact hclean trivial trivial hresolve

/-- A source whose run ends without a diagnostic has a program, which completes. -/
theorem Session.program_of_completed {s : Session} {budget : Nat} {source : Text}
    (h : (s.run budget source).1.ending = .diagnosed []) :
    ∃ program heap console, s.program? source = some program ∧
      runProgram s.limit budget program s.heap s.console = ⟨.completed, heap, console⟩ ∧
      (s.run budget source).2 = ⟨heap, console, s.runs + 1, s.limit⟩ := by
  cases hresult : (analyse s.runs s.rootNames source).result with
  | error ds =>
    simp only [run, hresult, Ending.diagnosed.injEq] at h
    exact absurd h (ne_nil_of_analyse_error hresult)
  | ok program =>
    have hprogram : s.program? source = some program := by rw [program?, hresult]; rfl
    obtain ⟨hending, hafter⟩ := run_of_program?_eq_some budget hprogram
    rcases hrun : runProgram s.limit budget program s.heap
      s.console with ⟨_ | stop | _, heap, console⟩
    · rw [hrun] at hafter
      exact ⟨program, heap, console, hprogram, hrun, hafter⟩
    · rw [hending, hrun] at h
      cases stop <;> cases h
    · rw [hending, hrun] at h
      cases h

/-! ## Evaluation -/

/-- A program that completes is followed by the next. -/
theorem runProgram_append {limit budget : Nat} {program : List Stmt} {heap heap' : Heap}
    {console console' : Console}
    (h : runProgram limit budget program heap console = ⟨.completed, heap', console'⟩)
    (more : List Stmt) :
    runProgram limit budget (program ++ more) heap console =
      runProgram limit budget more heap' console' := by
  induction program generalizing heap console with
  | nil =>
    obtain ⟨rfl, rfl⟩ : heap = heap' ∧ console = console' := by simpa [runProgram] using h
    rfl
  | cons s rest ih =>
    simp only [runProgram, List.cons_append] at h ⊢
    rcases hfirst : runStmt limit budget s heap console with ⟨_ | _ | _, heap₁, console₁⟩
    · simp only [hfirst] at h ⊢
      exact ih h
    · simp [hfirst] at h
    · simp [hfirst] at h

namespace Session

theorem root_lt_size_fresh (console : Console) (limit : Nat) :
    Heap.root < (fresh console limit).heap.scopes.size := Nat.zero_lt_one

/-- A program that is run in two pieces, the first of which ends well, is worth the program that is
run whole. The sign is the one exception: after a function literal that ends without a semicolon, a
minus sign goes on from the literal. -/
theorem run_in_pieces (console : Console) (limit budget : Nat) (first second : Text)
    (hplaced : LiteralsPlaced first)
    (hfirst : ((fresh console limit).run budget first).1.ending = .diagnosed [])
    (hsecond : (((fresh console limit).run budget first).2.program? second).isSome)
    (hsign : ¬ (EndsInFunction (segments (scan first).tokens) ∧
      startsWith .minus (scan second).tokens)) :
    ((fresh console limit).program? (first ++ 0x0A :: second)).isSome ∧
      Session.Agrees (fun _ _ => True) ((fresh console limit).run budget (first ++ 0x0A :: second))
        (((fresh console limit).run budget first).2.run budget second) := by
  obtain ⟨program, heap, console', hprogram, hrun, hafter⟩ := program_of_completed hfirst
  obtain ⟨program', hprogram'⟩ := Option.isSome_iff_exists.mp hsecond
  obtain ⟨hscan, hparse, hclean, hvalue⟩ := analyse_ok (program?_eq_some hprogram)
  rw [hafter] at hprogram' ⊢
  obtain ⟨-, -, -, hvalue'⟩ := analyse_ok (program?_eq_some hprogram')
  -- Resolution of the whole comes to the second piece with the names that the first has left in the
  -- root scope.
  have hnames :
      StaticScopes.Alike [heap.rootNames]
        (resolveStmts 0 .none (parse (scan first).tokens (scan first).size).stmts
          [(fresh console limit).rootNames]).scopes :=
    rootNames_runProgram (every_tidy (shaped_of_parse hparse) (hplaced hscan hparse)) hclean
      (.refl _) (root_lt_size_fresh console limit) (hvalue ▸ hrun)
  have hwhole : (fresh console limit).program? (first ++ 0x0A :: second) =
      some (program ++ markStmts (.into 0 (Span.shift (first.length + 1))) program') :=
    congrArg Except.toOption
      (analyse_whole (program?_eq_some hprogram) (program?_eq_some hprogram') hnames hsign)
  -- The whole and the pieces are one program with other marks.
  have hmarks : markStmts (Relabelling.whole first.length).toMarks
        (program ++ markStmts (.into 0 (Span.shift (first.length + 1))) program') =
      markStmts Relabelling.pieces.toMarks (program ++ program') := by
    rw [markStmts_append, markStmts_append, ← hvalue, ← hvalue']
    exact congrArg₂ _ (markStmts_first first _) (markStmts_second first.length second _)
  have halike := runProgram_alike _ _ hmarks limit budget console
  have hpieces : runProgram limit budget (program ++ program') (fresh console limit).heap console =
      runProgram limit budget program' heap console' := runProgram_append hrun program'
  rw [hpieces] at halike
  exact ⟨Option.isSome_iff_exists.mpr ⟨_, hwhole⟩,
    agrees_of_mark hwhole hprogram' halike fun _ _ _ _ _ _ => trivial⟩

instance (ending : Ending) : Decidable (ending = .diagnosed []) :=
  match ending with
  | .diagnosed [] => isTrue rfl
  | .diagnosed (_ :: _) => isFalse nofun
  | .faulted _ => isFalse nofun
  | .exhausted => isFalse nofun

/-- The second piece calls functions of the first, one of which keeps a name of it alive. -/
theorem run_in_pieces_closure :
    let first := utf8 "let n = nil; fun f(x) \x7b n = x; return fun () \x7b return n; \x7d; \x7d"
    let second := utf8 "let g = f(f); print g(); \x7b const f = g; n(f); n.f; \x7d"
    ((fresh ⟨[], [], none, none⟩ 10).run 100 first).1.ending = .diagnosed [] ∧
      (((fresh ⟨[], [], none, none⟩ 10).run 100 first).2.program? second).isSome ∧
      ((fresh ⟨[], [], none, none⟩ 10).program? (first ++ 0x0A :: second)).isSome ∧
      Session.Agrees (fun _ _ => True)
        ((fresh ⟨[], [], none, none⟩ 10).run 100 (first ++ 0x0A :: second))
        (((fresh ⟨[], [], none, none⟩ 10).run 100 first).2.run 100 second) := by
  intro first second
  have hwithin :
      placedWithin 20 (.stmts (parse (scan first).tokens (scan first).size).stmts) = true := by
    decide +kernel
  have hfirst : ((fresh ⟨[], [], none, none⟩ 10).run 100 first).1.ending = .diagnosed [] := by
    decide +kernel
  have hsecond : (((fresh ⟨[], [], none, none⟩ 10).run 100 first).2.program? second).isSome := by
    decide +kernel
  have hsign : ¬ startsWith .minus (scan second).tokens := by decide +kernel
  exact ⟨hfirst, hsecond, run_in_pieces ⟨[], [], none, none⟩ 10 100 first second
    (fun _ _ => everyPlaced_of_placedWithin hwithin) hfirst hsecond fun h => hsign h.2⟩

end Session

end Lox
