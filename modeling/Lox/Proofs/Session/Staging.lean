import Lox.Listing
import Lox.Proofs.Resolution.Marks
import Lox.Proofs.Token.Partition
import Lox.Session

/-!
# Runs in stages

A run goes through its stages up to the first that reports anything. So its diagnostics are all of
one stage, the log tells which, and the listings of a source give up with just the diagnostics of
the stages that they share with a run. A run that is ended before evaluation has not touched the
session.

A run that ends with a fault, or not at all, has passed every stage but the last: to the log and the
listings it looks like one that resolution has ended with no diagnostic (`EndsAt .resolve []`). The
main theorem is `run_staged`.
-/

namespace Lox

/-- The stages up to one, in the order in which they happen. -/
def Stage.upTo : Stage → List Stage
  | scan => [scan]
  | parse => [scan, parse]
  | resolve => [scan, parse, resolve]
  | runtime => [scan, parse, resolve, runtime]

/-- The diagnostics that a listing gives up with. -/
def reports {α : Type} : Except (List Diagnostic) α → List Diagnostic
  | .error ds => ds
  | .ok _ => []

/-- What the log of a run and the listings of its source say if a stage is the last and has given
these diagnostics. -/
structure EndsAt (last : Stage) (ds : List Diagnostic) (source : Text) (log : List StageRecord) :
    Prop where
  /-- All diagnostics are of the last stage. -/
  stage : ∀ d ∈ ds, d.stage = last
  /-- The log has the stages up to the last. -/
  stages : log.map StageRecord.stage = last.upTo
  /-- Every stage before the last has nothing to report, and the last has these diagnostics. -/
  counts : log.map StageRecord.diagnostics = List.replicate (last.upTo.length - 1) 0 ++ [ds.length]
  /-- The listing of tokens gives up with the diagnostics of scanning. -/
  tokens : reports (listTokens source) = if last = .scan then ds else []
  /-- The outline gives up with the diagnostics of scanning or parsing. -/
  tree : reports (listTree source) = if last = .scan ∨ last = .parse then ds else []

/-! ## The stages before evaluation -/

/-- The first stage that reports anything ends the analysis of a source. -/
theorem result_analyse (run : Nat) (root : StaticScope) (source : Text) :
    let parsed := parse (scan source).tokens (scan source).size
    let resolved := resolveProgram run root parsed.stmts
    (analyse run root source).result =
      if (scan source).diagnostics.isEmpty then
        if parsed.diagnostics.isEmpty then
          if resolved.diagnostics.isEmpty then .ok resolved.value else .error resolved.diagnostics
        else .error parsed.diagnostics
      else .error (scan source).diagnostics := by
  simp only [analyse]
  split_ifs <;> rfl

theorem stage_of_mem_scan {source : Text} {d : Diagnostic} (h : d ∈ (scan source).diagnostics) :
    d.stage = .scan := by
  rw [scan_eq] at h
  obtain ⟨p, hp, hd⟩ := List.mem_filterMap.mp h
  exact ((lies_of_mem_placed hp).blamed hd).1

theorem stage_of_mem_parse {ts : List Token} {size : Nat} {d : Diagnostic}
    (h : d ∈ (parse ts size).diagnostics) : d.stage = .parse := by
  obtain ⟨⟨_, f | _⟩, _, hd⟩ := List.mem_filterMap.mp h
  · cases hd
    rfl
  · cases hd

theorem stage_of_mem_resolve {run : Nat} {root : StaticScope} {program : List Stmt} {d : Diagnostic}
    (h : d ∈ (resolveProgram run root program).diagnostics) : d.stage = .resolve := by
  have hmoved :=
    (matches_resolveStmts id run run .none program [root] [root] (.cons (.refl root) .nil)).2.2
  have hstage := hmoved.imp fun _ _ h => And.intro h.stage h
  exact ((List.forall₂_and_left _ _).mp hstage).1 d h

/-- The stages before evaluation end at the first that reports anything, or hand a program on. -/
theorem analyse_endsAt (run : Nat) (root : StaticScope) (source : Text) :
    match (analyse run root source).result with
    | .error ds =>
      ∃ last, last ≠ .runtime ∧ ds ≠ [] ∧ EndsAt last ds source (analyse run root source).log
    | .ok _ => EndsAt .resolve [] source (analyse run root source).log := by
  by_cases hscan : (scan source).diagnostics = []
  · by_cases hparse : (parse (scan source).tokens (scan source).size).diagnostics = []
    · by_cases hresolve :
        (resolveProgram run root
          (parse (scan source).tokens (scan source).size).stmts).diagnostics = []
      · simp only [analyse, hscan, hparse, hresolve, List.isEmpty_nil, if_true, List.length_nil]
        exact ⟨nofun, rfl, rfl, by simp [listTokens, hscan, reports],
          by simp [listTree, hscan, hparse, reports]⟩
      · simp only [analyse, hscan, hparse, List.isEmpty_iff, hresolve, if_true, if_false,
          List.length_nil]
        exact ⟨.resolve, nofun, hresolve, fun d hd => stage_of_mem_resolve hd, rfl, rfl,
          by simp [listTokens, hscan, reports], by simp [listTree, hscan, hparse, reports]⟩
    · simp only [analyse, hscan, List.isEmpty_iff, hparse, if_true, if_false, List.length_nil]
      exact ⟨.parse, nofun, hparse, fun d hd => stage_of_mem_parse hd, rfl, rfl,
        by simp [listTokens, hscan, reports], by simp [listTree, hscan, hparse, reports]⟩
  · simp only [analyse, List.isEmpty_iff, hscan, if_false]
    exact ⟨.scan, nofun, hscan, fun d hd => stage_of_mem_scan hd, rfl, rfl,
      by simp [listTokens, hscan, reports], by simp [listTree, hscan, reports]⟩

/-- A stage that ends a run has something to report. -/
theorem ne_nil_of_analyse_error {run : Nat} {root : StaticScope} {source : Text}
    {ds : List Diagnostic} (h : (analyse run root source).result = .error ds) : ds ≠ [] := by
  have hends := analyse_endsAt run root source
  rw [h] at hends
  obtain ⟨_, _, hne, _⟩ := hends
  exact hne

namespace Session

/-! ## Runs -/

/-- A run that is ended before evaluation leaves the root scope and the console as they were. -/
theorem run_of_error {s : Session} {source : Text} {ds : List Diagnostic} (budget : Nat)
    (h : (analyse s.runs s.rootNames source).result = .error ds) :
    s.run budget source = (⟨.diagnosed ds, (analyse s.runs s.rootNames source).log⟩,
      { s with runs := s.runs + 1 }) := by
  simp only [run, h]

/-- A run that gets as far as evaluation goes through all stages, unless evaluation does not end in
the usual way. -/
theorem endsAt_runtime {source : Text} {log : List StageRecord} (h : EndsAt .resolve [] source log)
    (tokens statements : Nat) {ds : List Diagnostic} (hstage : ∀ d ∈ ds, d.stage = .runtime) :
    EndsAt .runtime ds source (log ++ runtimeLog tokens statements (.diagnosed ds)) where
  stage := hstage
  stages := by rw [List.map_append, h.stages]; rfl
  counts := by rw [List.map_append, h.counts]; rfl
  tokens := h.tokens
  tree := h.tree

/-- What evaluation reports is of the last stage. -/
theorem stage_of_mem_endingOf {outcome : Outcome} {ds : List Diagnostic} {d : Diagnostic}
    (h : endingOf outcome = .diagnosed ds) (hd : d ∈ ds) : d.stage = .runtime := by
  cases outcome with
  | completed =>
    cases h
    cases hd
  | exhausted => cases h
  | stopped stop =>
    cases stop with
    | fault fault => cases h
    | blame problem site =>
      cases h
      rw [List.mem_singleton.mp hd]
      rfl

/-- A run is staged, and what ends it before evaluation leaves the session as it was. -/
theorem run_staged (budget : Nat) (s : Session) (source : Text) :
    match (s.run budget source).1.ending with
    | .diagnosed ds => ∃ last, EndsAt last ds source (s.run budget source).1.log ∧
        (last = .runtime → ds.length ≤ 1) ∧
        (last ≠ .runtime → ds ≠ [] ∧ (s.run budget source).2 = { s with runs := s.runs + 1 })
    | .faulted _ | .exhausted => EndsAt .resolve [] source (s.run budget source).1.log := by
  have hstatic := analyse_endsAt s.runs s.rootNames source
  cases hresult : (analyse s.runs s.rootNames source).result with
  | error ds =>
    simp only [hresult] at hstatic
    obtain ⟨last, hlast, hds, hends⟩ := hstatic
    rw [run_of_error budget hresult]
    exact ⟨last, hends, fun h => absurd h hlast, fun _ => ⟨hds, rfl⟩⟩
  | ok program =>
    simp only [hresult] at hstatic
    simp only [run, hresult, conclude]
    cases (execute s.limit budget program 0 s.heap s.console).1.outcome with
    | completed =>
      exact ⟨.runtime, endsAt_runtime hstatic _ _ nofun, fun _ => by simp, fun h => absurd rfl h⟩
    | exhausted => simpa [endingOf, runtimeLog] using hstatic
    | stopped stop =>
      cases stop with
      | blame problem site =>
        refine ⟨.runtime, endsAt_runtime hstatic _ _ fun d hd => ?_,
          fun _ => by simp, fun h => absurd rfl h⟩
        rw [List.mem_singleton.mp hd]
        rfl
      | fault fault => simpa [endingOf, runtimeLog] using hstatic

end Session

end Lox
