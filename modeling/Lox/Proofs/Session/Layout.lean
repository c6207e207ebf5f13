import Lox.Listing
import Lox.Proofs.Session.Blame
import Lox.Proofs.Syntax.Layout

/-!
# Layout does not change meaning

Two sources that scan to tokens alike differ in their layout only. They have the same outline or
diagnostics that agree, resolution fills the same slots, and their runs agree. Diagnostics that
agree are about the same problem, and stand at places that correspond: tokens of the same index, the
same pair of brackets, or the ends of the two sources.

Evaluation tells function literals apart by their offsets. So the marks that take the program of one
source to that of the other have to keep different offsets different, also those that no token
starts at: these are counted as of another run (`layoutLiteral`). The main theorem is
`layout_irrelevant`.
-/

namespace Lox

namespace LaidOut

variable {ts ts' : List Token} {size size' : Nat} (h : LaidOut ts size ts' size')

/-! ## Function literals -/

open Classical in
/-- A site that starts where a span does, the span itself if it can be. -/
noncomputable def anchor (_ : LaidOut ts size ts' size') (s : Span) : Option Span :=
  if IsSite ts size s then some s
  else if hsite : ∃ site, IsSite ts size site ∧ site.offset = s.offset
    then some hsite.choose else none

/-- A site is its own anchor. -/
theorem anchor_of_mem {s : Span} (hs : IsSite ts size s) : h.anchor s = some s := if_pos hs

theorem anchor_some {s site : Span} (hs : h.anchor s = some site) :
    IsSite ts size site ∧ site.offset = s.offset := by
  unfold anchor at hs
  split_ifs at hs with hmem hsite
  · cases hs
    exact ⟨hmem, rfl⟩
  · cases hs
    exact hsite.choose_spec

theorem anchor_none {s site : Span} (hs : h.anchor s = none) (hsite : IsSite ts size site) :
    site.offset ≠ s.offset := by
  intro hoffset
  unfold anchor at hs
  split_ifs at hs with hmem hstart
  exact hstart ⟨site, hsite, hoffset⟩

/-- The function literal of the other source that one is. Runs are doubled to make room for spans
that start at no site. -/
noncomputable def layoutLiteral (run : Nat) (keyword : Span) : Nat × Span :=
  match h.anchor keyword with
  | some site => (2 * run, h.place site)
  | none => (2 * run + 1, keyword)

/-- Literals at other places are told apart as before. -/
theorem sameLiteral_layoutLiteral (run : Nat) (keyword : Span) (run' : Nat) (keyword' : Span) :
    ((h.layoutLiteral run keyword).1 = (h.layoutLiteral run' keyword').1 ∧
      (h.layoutLiteral run keyword).2.offset = (h.layoutLiteral run' keyword').2.offset) ↔
    run = run' ∧ keyword.offset = keyword'.offset := by
  unfold layoutLiteral
  cases hs : h.anchor keyword with
  | some site =>
    obtain ⟨hsite, hoffset⟩ := h.anchor_some hs
    cases hs' : h.anchor keyword' with
    | some site' =>
      obtain ⟨hsite', hoffset'⟩ := h.anchor_some hs'
      have hiff := h.offset_iff (h.sameSite_place site) (h.sameSite_place site')
      rw [h.snap_of_mem hsite, h.snap_of_mem hsite', hoffset, hoffset'] at hiff
      dsimp only
      rw [hiff]
      omega
    | none =>
      have hapart := h.anchor_none hs' hsite
      dsimp only
      omega
  | none =>
    cases hs' : h.anchor keyword' with
    | some site' =>
      obtain ⟨hsite', hoffset'⟩ := h.anchor_some hs'
      have hapart := h.anchor_none hs hsite'
      dsimp only
      omega
    | none =>
      dsimp only
      omega

/-- The marks that take a program of the one source to that of the other. -/
noncomputable def relabelling : Relabelling where
  span := h.place
  literal := h.layoutLiteral
  sameLiteral := h.sameLiteral_layoutLiteral

/-- The program of the other source is that of the one with these marks. -/
theorem markStmts_relabelling (root : StaticScope) :
    markStmts h.relabelling.toMarks (resolveProgram 0 root (parse ts size).stmts).value =
      (resolveProgram 0 root (parse ts' size').stmts).value := by
  have hkeeps : Keeps h.snap ts size := fun _ hs => h.snap_of_mem hs
  have hcomp : h.relabelling.toMarks.comp (.into 0 h.snap) =
      (Marks.into 0 h.place).comp (.into 0 h.snap) := by
    simp only [Marks.comp, Marks.into, relabelling, layoutLiteral, h.anchor_of_mem (h.snap_mem _),
      Nat.mul_zero]
  rw [h.value_resolveProgram, ← hkeeps.markStmts_resolveProgram 0 root, markStmts_markStmts,
    markStmts_markStmts, hcomp]

end LaidOut

/-! ## Results that agree -/

section Results

variable {α : Type} {same : Span → Span → Prop} {R : α → α → Prop}

/-- Two results that belong together, or diagnostics in the place of both that agree. -/
inductive ResultsAgree (same : Span → Span → Prop) (R : α → α → Prop) :
    Except (List Diagnostic) α → Except (List Diagnostic) α → Prop
  | given {a a' : α} : R a a' → ResultsAgree same R (.ok a) (.ok a')
  | refused {ds ds' : List Diagnostic} : List.Forall₂ (Diagnostic.Agrees same) ds ds' →
      ResultsAgree same R (.error ds) (.error ds')

/-- A stage that reports anything ends both, and otherwise both go on. -/
theorem resultsAgree_stage {ds ds' : List Diagnostic}
    (hds : List.Forall₂ (Diagnostic.Agrees same) ds ds')
    {result result' : Except (List Diagnostic) α} (h : ResultsAgree same R result result') :
    ResultsAgree same R (if ds.isEmpty then result else .error ds)
      (if ds'.isEmpty then result' else .error ds') := by
  cases hds with
  | nil => exact h
  | cons hd hrest => exact .refused (.cons hd hrest)

end Results

/-! ## Sources laid out in two ways -/

/-- The marks of a tree taken away: its shape, its names and its slots are left. -/
def Marks.blank : Marks := ⟨fun _ => .emptyAt 0, fun _ _ => (0, .emptyAt 0)⟩

theorem markStmts_blank (m : Marks) (program : List Stmt) :
    markStmts .blank (markStmts m program) = markStmts .blank program := by
  rw [markStmts_markStmts]
  rfl

/-- Two sources that scan without a diagnostic, to tokens that are alike one by one. -/
structure SameTokens (source source' : Text) : Prop where
  clean : (scan source).diagnostics = []
  clean' : (scan source').diagnostics = []
  alike : List.Forall₂ Token.Alike (scan source).tokens (scan source').tokens

/-- To compare the tokens of two sources is to compare their kinds and lexemes. -/
theorem sameTokens_of_keys {source source' : Text} (hclean : (scan source).diagnostics.isEmpty)
    (hclean' : (scan source').diagnostics.isEmpty)
    (hkeys : (scan source).tokens.map (fun t => (t.kind, t.lexeme)) =
      (scan source').tokens.map fun t => (t.kind, t.lexeme)) : SameTokens source source' := by
  rw [← List.forall₂_eq_eq_eq, List.forall₂_map_left_iff, List.forall₂_map_right_iff] at hkeys
  exact ⟨List.isEmpty_iff.mp hclean, List.isEmpty_iff.mp hclean',
    hkeys.imp fun _ _ hkey => Prod.mk.inj hkey⟩

/-- Places of two sources at which sites that correspond are blamed. -/
def SourcesPlace (source source' : Text) : Span → Span → Prop :=
  SamePlace (scan source).tokens (scan source).size (scan source').tokens (scan source').size

namespace SameTokens

variable {source source' : Text} (hsame : SameTokens source source')

include hsame

/-- Sources with the same tokens are laid out differently at most. -/
theorem laidOut :
    LaidOut (scan source).tokens (scan source).size (scan source').tokens (scan source').size :=
  ⟨hsame.alike, ordered_scan source, ordered_scan source'⟩

/-- Their trees are listed alike. -/
theorem listTree_agrees :
    ResultsAgree (SourcesPlace source source') (· = ·) (listTree source) (listTree source') := by
  simp only [listTree, hsame.clean, hsame.clean', List.isEmpty_nil, if_true]
  refine resultsAgree_stage hsame.laidOut.diagnostics_parse ?_
  rw [hsame.laidOut.stmts_parse, outline_markStmts]
  exact .given rfl

/-- They are analysed alike. -/
theorem analyse_agrees (run : Nat) (root : StaticScope) :
    ResultsAgree (SourcesPlace source source') (fun _ _ => True) (analyse run root source).result
      (analyse run root source').result := by
  have h := hsame.laidOut
  rw [result_analyse, result_analyse]
  simp only [hsame.clean, hsame.clean', List.isEmpty_nil, if_true]
  exact resultsAgree_stage h.diagnostics_parse
    (resultsAgree_stage (h.diagnostics_resolveProgram run root) (.given trivial))

end SameTokens

namespace Session

/-- Programs of sources that are laid out in two ways run alike in a new session. -/
theorem agrees_of_laidOut {source source' : Text}
    (h : LaidOut (scan source).tokens (scan source).size (scan source').tokens (scan source').size)
    {console : Console} {limit : Nat} (budget : Nat) {program program' : List Stmt}
    (hprogram : (fresh console limit).program? source = some program)
    (hprogram' : (fresh console limit).program? source' = some program') :
    Session.Agrees (SourcesPlace source source') ((fresh console limit).run budget source)
      ((fresh console limit).run budget source') := by
  obtain ⟨-, -, -, hvalue⟩ := analyse_ok (program?_eq_some hprogram)
  obtain ⟨-, -, -, hvalue'⟩ := analyse_ok (program?_eq_some hprogram')
  have hmarks : markStmts h.relabelling.toMarks program = program' := by
    rw [← hvalue, ← hvalue']
    exact h.markStmts_relabelling _
  have hrun : runProgram limit budget program' (fresh console limit).heap console =
      (runProgram limit budget program (fresh console limit).heap console).mark h.relabelling := by
    rw [← runProgram_mark, hmarks, mark_fresh]
  -- Each run keeps to the sites of its source.
  have hbase := siteOf_ending (List.mem_singleton_self source)
  have hbase' := siteOf_ending (List.mem_singleton_self source')
  have hstays :=
    runProgram_siteOf budget hbase (List.mem_singleton_self source) hprogram
      (mark_fresh _ console limit)
  have hstays' :=
    runProgram_siteOf budget hbase' (List.mem_singleton_self source') hprogram'
      (mark_fresh _ console limit)
  refine agrees_of_mark hprogram hprogram' (hrun.symm.trans hstays'.symm) ?_
  intro problem site problem' site' houtcome houtcome'
  obtain ⟨_, hmem, hsite⟩ := mem_of_blame_onto hbase hstays houtcome
  rw [List.mem_singleton.mp hmem] at hsite
  have hplace : site' = h.place site := by
    have hmoved := congrArg Ended.outcome hrun
    rw [Ended.mark, show (runProgram limit budget program _ console).outcome = _ from houtcome,
      show (runProgram limit budget program' _ console).outcome = _ from houtcome'] at hmoved
    simp only [Outcome.mark, Stop.mark, Outcome.stopped.injEq, Stop.blame.injEq] at hmoved
    exact hmoved.2
  have hcorresponds := h.sameSite_place site
  rw [h.snap_of_mem hsite, ← hplace] at hcorresponds
  exact ⟨site, site', hcorresponds, rfl, rfl⟩

/-- Layout does not change meaning: two sources with tokens that are alike have outlines that are
the same or diagnostics that agree, are resolved to the same slots, and run alike. -/
theorem layout_irrelevant (console : Console) (limit budget : Nat) (source source' : Text)
    (hsame : SameTokens source source') :
    ResultsAgree (SourcesPlace source source') (· = ·) (listTree source) (listTree source') ∧
      (∀ run root,
        markStmts .blank
          (resolveProgram run root (parse (scan source').tokens (scan source').size).stmts).value =
          markStmts .blank
            (resolveProgram run root (parse (scan source).tokens (scan source).size).stmts).value) ∧
      Session.Agrees (SourcesPlace source source') ((fresh console limit).run budget source)
        ((fresh console limit).run budget source') := by
  refine ⟨hsame.listTree_agrees, fun run root => ?_, ?_⟩
  · rw [hsame.laidOut.value_resolveProgram, markStmts_blank]
  · have hagrees := hsame.analyse_agrees (fresh console limit).runs (fresh console limit).rootNames
    generalize hresult :
      (analyse (fresh console limit).runs (fresh console limit).rootNames source).result = result,
      hresult' :
      (analyse (fresh console limit).runs (fresh console limit).rootNames source').result =
      result' at hagrees
    cases hagrees with
    | given =>
      exact agrees_of_laidOut hsame.laidOut budget (congrArg Except.toOption hresult)
        (congrArg Except.toOption hresult')
    | refused hds =>
      rw [run_of_error budget hresult, run_of_error budget hresult']
      exact ⟨rfl, hds, rfl⟩

/-- The same program on one line and on several, with a comment and blanks in brackets. -/
theorem layout_irrelevant_comment :
    let source := utf8 "let l=[nil];fun f(x)\x7breturn x[nil];\x7dprint f;f(l);"
    let source' := utf8 "let l = [nil]; // one element\n\nfun f(x) \x7b\n  return x[ nil ];\n\x7d\nprint f; f(l);"
    SameTokens source source' ∧
      ResultsAgree (SourcesPlace source source') (· = ·) (listTree source) (listTree source') ∧
      Session.Agrees (SourcesPlace source source') ((fresh ⟨[], [], none, none⟩ 10).run 100 source)
        ((fresh ⟨[], [], none, none⟩ 10).run 100 source') := by
  intro source source'
  have hsame : SameTokens source source' :=
    sameTokens_of_keys (by decide +kernel) (by decide +kernel) (by decide +kernel)
  have hall := layout_irrelevant ⟨[], [], none, none⟩ 10 100 source source' hsame
  exact ⟨hsame, hall.1, hall.2.2⟩

end Session

end Lox
