import Lox.Command
import Lox.Proofs.Report.Place
import Lox.Proofs.Session.Blame
import Lox.Proofs.Session.Transcript

/-!
# The prompt is a session

The prompt reads lines, and what it does with them is what one session does with the sources that
they are: a blank line is none, the line `:quit` ends the input, and any other line is a source with
a semicolon added. What the command writes is the transcript of that session, with each report
rendered against its own source.

So nothing is carried from one line to the next but what the session holds. After a line that fails,
the next ones are run as they would be in any session with the same root scope and the same input
left. The main theorem is `prompt_is_session`.
-/

namespace Lox

/-! ## Lines -/

/-- The lines of what is entered: those that a line feed ends, without a carriage return before it,
and what follows the last line feed, if that is anything. -/
def enteredLines (t : Text) : List Text :=
  (sourceLines t).dropLast.map Text.withoutReturn ++ (sourceLines t).getLast?.toList.filter
    (!·.isEmpty)

section Unbroken

variable {t : Text} (h : 0x0A ∉ t)

include h

/-- A text without a line feed is passed over in a search for one. -/
theorem ne_break_of_mem : ∀ b ∈ t, (b != 0x0A) = true := by
  intro b hb
  simpa using fun heq : b = 0x0A => h (heq ▸ hb)

theorem sourceLines_of_not_mem : sourceLines t = [t] := by
  have hlength := length_sourceLines t
  rw [List.count_eq_zero_of_not_mem h] at hlength
  obtain ⟨line, hline⟩ := List.length_eq_one_iff.mp hlength
  have hhead := head?_sourceLines t
  rw [List.takeWhile_eq_self_iff.mpr (ne_break_of_mem h), hline, List.head?_cons] at hhead
  rw [hline, Option.some.inj hhead]

end Unbroken

namespace Text

theorem nextLine_append {first rest : Text} (hfirst : 0x0A ∉ first)
    (hshort : first.length < window) :
    nextLine (first ++ 0x0A :: rest) = (⟨withoutReturn first, true⟩, rest) := by
  obtain ⟨room, hroom⟩ := Nat.exists_eq_add_of_lt hshort
  have hseen : (first ++ 0x0A :: rest).take window = first ++ 0x0A :: rest.take room := by
    rw [hroom, Nat.add_assoc, List.take_length_add_append, List.take_succ_cons]
  have hline : ((first ++ 0x0A :: rest).take window).takeWhile (· != 0x0A) = first := by
    rw [hseen, List.takeWhile_append_of_pos (ne_break_of_mem hfirst)]
    simp
  have hrest : (first ++ 0x0A :: rest).drop (first.length + 1) = rest := by
    rw [List.drop_length_add_append]
    rfl
  have hended : first.length < ((first ++ 0x0A :: rest).take window).length := by
    rw [hseen]
    simp
  simp only [nextLine, hline, if_pos hended, hrest]

theorem nextLine_of_not_mem {t : Text} (h : 0x0A ∉ t) (hshort : t.length < window) :
    nextLine t = (⟨t, true⟩, []) := by
  have hseen : t.take window = t := List.take_of_length_le hshort.le
  have hline : t.takeWhile (· != 0x0A) = t := List.takeWhile_eq_self_iff.mpr (ne_break_of_mem h)
  simp only [nextLine, hseen, hline, lt_irrefl, if_false, if_pos hshort]

/-- Lines that are shorter than the window are read whole, one by one. -/
theorem readLines_eq {t : Text} (h : ∀ line ∈ sourceLines t, line.length < window) :
    t.readLines.map Line.bytes = enteredLines t := by
  induction hn : t.length using Nat.strongRecOn generalizing t with
  | ind n ih =>
    subst hn
    rw [readLines]
    by_cases hempty : t = []
    · rw [dif_pos hempty, hempty]
      rfl
    · rw [dif_neg hempty]
      by_cases hbreak : 0x0A ∈ t
      · obtain ⟨first, rest, rfl, hfirst⟩ := List.eq_append_cons_of_mem hbreak
        have hlines : sourceLines (first ++ 0x0A :: rest) = first :: sourceLines rest := by
          rw [sourceLines_append, sourceLines_of_not_mem hfirst]
          rfl
        rw [hlines] at h
        obtain ⟨last, more, hrest⟩ := List.exists_cons_of_ne_nil (sourceLines_ne_nil rest)
        have hrec :=
          ih rest.length (by simp; omega)
            (fun line hline => h line (List.mem_cons_of_mem _ hline)) rfl
        simp only [nextLine_append hfirst (h first List.mem_cons_self), List.map_cons, hrec,
          enteredLines, hlines, hrest, List.dropLast_cons_cons, List.getLast?_cons_cons,
          List.cons_append]
      · have hlines := sourceLines_of_not_mem hbreak
        rw [hlines] at h
        simp [nextLine_of_not_mem hbreak (h t List.mem_cons_self), readLines, enteredLines,
          hlines, hempty]

end Text

/-! ## The loop -/

namespace Entry

/-- The sources of lines that are entered: the lines before the first that says to quit, but not the
blank ones, each with a semicolon added. -/
def sources (lines : List Text) : List Text :=
  ((lines.takeWhile fun line => line.trim != quitWord).filter fun line => !line.trim.isEmpty).map
    (· ++ utf8 ";")

/-- Whether a line says to quit. -/
def quits (lines : List Text) : Bool := lines.any fun line => line.trim == quitWord

/-- The sources of lines, and whether one says to quit, by what the first line is. -/
theorem sources_cons (line : Text) (rest : List Text) :
    (sources (line :: rest), quits (line :: rest)) = match ofLine line with
      | .blank => (sources rest, quits rest)
      | .quit => ([], true)
      | .source text => (text :: sources rest, quits rest) := by
  have hword : quitWord ≠ [] := by decide
  by_cases hblank : line.trim = []
  · have hentry : ofLine line = .blank := by simp [ofLine, hblank]
    simp [hentry, sources, quits, hblank, hword, hword.symm]
  · by_cases hquit : line.trim = quitWord
    · have hentry : ofLine line = .quit := by simp [ofLine, hquit, hword]
      simp [hentry, sources, quits, hquit]
    · have hentry : ofLine line = .source (line ++ utf8 ";") := by simp [ofLine, hblank, hquit]
      simp [hentry, sources, quits, hblank, hquit]

end Entry

/-- Nothing about stages is written if the log leaves out its finest lines. -/
theorem Reporting.ofRun_of_coarse {r : Reporting} (hlevel : r.level.writes .debug = false)
    (source : Text) {report : RunReport} (h : report.ending.crash? = none) :
    r.ofRun source report = reportAll r.color source report.ending.diagnostics := by
  have hlog : r.level.write (report.log.map (LogLine.ofStage r.elapsed)) = [] := by
    simp [LogLevel.write, LogLine.ofStage, hlevel, List.filter_map, Function.comp_def]
  rw [ofRun, hlog, List.nil_append]
  cases hending : report.ending with
  | diagnosed ds => rfl
  | faulted | exhausted =>
    rw [hending] at h
    cases h

/-- The prompt does with lines what its session does with their sources, as long as each run comes
to an end. -/
theorem Prompt.run_eq {r : Reporting} (hlevel : r.level.writes .debug = false) (budget : Nat)
    (lines : List Text) (p : Prompt)
    (hends : ∀ step ∈ p.session.transcript budget (Entry.sources lines),
      step.report.ending.crash? = none) :
    (p.run budget lines).ended = (if Entry.quits lines then .quit else .endOfInput) ∧
      (p.run budget lines).prompt.session = p.session.through budget (Entry.sources lines) ∧
      (p.run budget lines).errors r =
        ((p.session.transcript budget (Entry.sources lines)).map fun step =>
        reportAll r.color step.source step.report.ending.diagnostics).flatten := by
  induction lines generalizing p with
  | nil => exact ⟨rfl, rfl, rfl⟩
  | cons line rest ih =>
    obtain ⟨hsources, hquits⟩ := Prod.mk.inj (Entry.sources_cons line rest)
    rw [hsources] at hends
    rw [hsources, hquits, run]
    cases hentry : Entry.ofLine line with
    | blank =>
      rw [hentry] at hends
      exact ih p hends
    | quit => exact ⟨rfl, rfl, rfl⟩
    | source text =>
      rw [hentry] at hends
      obtain ⟨hnone, hrest⟩ := List.forall_mem_cons.mp hends
      obtain ⟨hended, hsession, herrors⟩ := ih (p.enter budget line text).2 hrest
      have hnone : (p.enter budget line text).1.ending.crash? = none := hnone
      simp only [hnone]
      refine ⟨hended, hsession, ?_⟩
      exact congrArg₂ (· ++ ·) (Reporting.ofRun_of_coarse hlevel text hnone) herrors

namespace Command

/-- Without arguments and with no settings but the usual ones, the command prompts. -/
theorem runEntering_prompt (budget : Nat) {i : Invocation} (harguments : i.arguments = [])
    (hsettings : readSettings .initial (i.files.read (configPath .initial)) = .ok .default)
    (lines : List Text) :
    runEntering budget i lines =
      runPrompt budget i ⟨Settings.default.colorEnabled && i.terminal, .warn, i.elapsed⟩
        .default lines := by
  have hjob : jobOf i.arguments = .ok (.initial, .prompt) := by
    rw [harguments]
    rfl
  have hconfigured : configure .initial (i.files.read (configPath .initial)) =
      .ok (.default, .warn) := by
    rw [configure, hsettings]
    decide +kernel
  rw [runEntering, hjob]
  simp only [hconfigured]
  rfl

/-- Nothing is written about a history that has no path or whose file can be made. -/
theorem saveHistory_quiet (r : Reporting) {files : Files} {path : Text} (h : History)
    (hpath : path.isEmpty = true ∨ ∃ place, files.make path = .ok place) :
    (saveHistory r files path h).2 = [] := by
  rw [saveHistory]
  by_cases hempty : path.isEmpty = true
  · rw [if_pos hempty]
  · obtain ⟨place, hplace⟩ := hpath.resolve_left hempty
    rw [if_neg hempty, hplace]

/-- What the command does with lines that end the prompt in the usual way. -/
theorem runPrompt_of_ended (budget : Nat) {i : Invocation} {r : Reporting} (settings : Settings)
    {quits : Bool} (lines : List Text)
    (hpath : (History.path i.home settings.historyFile).isEmpty = true ∨
      ∃ place, i.files.make (History.path i.home settings.historyFile) = .ok place) :
    let prompted := Prompt.run budget
      ⟨session settings i.input, loadHistory i.files (History.path i.home settings.historyFile)⟩
        lines
    let result := runPrompt budget i r settings lines
    prompted.ended = (if quits then .quit else .endOfInput) →
      result.exit = .code .ok ∧
      result.output = banner ++ prompted.prompt.session.console.output ++
        (if quits then [] else utf8 "\n") ∧
      result.errors = prompted.errors r := by
  intro prompted result hended
  have hquiet := saveHistory_quiet r prompted.prompt.history hpath
  cases quits with
  | false | true => simp [result, runPrompt, prompted, hended, hquiet]

/-- What the prompt does is what one session does with the sources that are entered, whatever lines
the prompt gets. The command writes what the session prints after the banner and, unless a line says
to quit, a line feed at the end; it reports what each run reports against the source of that run;
and it exits well. After some of the sources, whether they failed or not, the others do what they do
in any session that resumes there: a line leaves nothing to the next ones but the heap and the
input. The lines of a text are an instance: those that are shorter than the window are read
whole. -/
theorem prompt_is_session (budget : Nat) (i : Invocation) (lines : List Text)
    (harguments : i.arguments = [])
    (hsettings : readSettings .initial (i.files.read (configPath .initial)) = .ok .default)
    (hhistory : (History.path i.home []).isEmpty = true ∨
      ∃ place, i.files.make (History.path i.home []) = .ok place)
    (hends : ∀ step ∈ (Session.fresh ⟨[], i.input, none, none⟩ defaultCallLimit).transcript budget
        (Entry.sources lines), step.report.ending.crash? = none) :
    let start := Session.fresh ⟨[], i.input, none, none⟩ defaultCallLimit
    let steps := start.transcript budget (Entry.sources lines)
    let result := runEntering budget i lines
    (∃ c, result.exit = .code c ∧ c.number = 0) ∧
    result.output =
      banner ++ (steps.map Session.Step.output).flatten ++
        (if Entry.quits lines then [] else utf8 "\n") ∧
    result.errors = (steps.map fun step =>
      reportAll (Settings.default.colorEnabled && i.terminal) step.source
        step.report.ending.diagnostics).flatten ∧
    (∀ before after, Entry.sources lines = before ++ after →
      ∀ s, (start.through budget before).Resumes s →
        s.transcript budget after = steps.drop before.length) ∧
    (lines = i.lines.readLines.map Line.bytes → run budget i = result) ∧
    ((∀ line ∈ sourceLines i.lines, line.length < Text.window) →
      i.lines.readLines.map Line.bytes = enteredLines i.lines) := by
  intro start steps result
  let r : Reporting := ⟨Settings.default.colorEnabled && i.terminal, .warn, i.elapsed⟩
  have hcoarse : r.level.writes .debug = false := rfl
  obtain ⟨hended, hsession, herrors⟩ :=
    Prompt.run_eq hcoarse budget lines
      ⟨session .default i.input,
        loadHistory i.files (History.path i.home Settings.default.historyFile)⟩ hends
  obtain ⟨hexit, hwritten, hreported⟩ := runPrompt_of_ended budget .default lines hhistory hended
  have hprinted : (start.through budget (Entry.sources lines)).console.output =
      (steps.map Session.Step.output).flatten :=
    Session.output_through start (Entry.sources lines)
  have hresult : result = runPrompt budget i r .default lines :=
    runEntering_prompt budget harguments hsettings lines
  refine ⟨?_, ?_, ?_, ?_, fun hlines => ?_, Text.readLines_eq⟩
  · rw [hresult]
    exact ⟨.ok, hexit, rfl⟩
  · rw [hresult, hwritten, hsession, ← hprinted]
    rfl
  · rw [hresult]
    exact hreported.trans herrors
  · intro before after hsources s hs
    have hsteps : steps = start.transcript budget before ++
        (start.through budget before).transcript budget after := by
      rw [← Session.transcript_append, ← hsources]
    rw [hsteps, List.drop_left' (Session.length_transcript start before)]
    exact Session.transcript_of_resumes ((Session.settled_fresh _ _).through before) hs after
  · rw [run, ← hlines]

/-- The first line fails once it has read a line of the input, and the next one reads the other. -/
theorem prompt_is_session_reading :
    let i : Invocation :=
      ⟨[], utf8 "one\ntwo\n", utf8 "print -read(nil)\r\n\nprint read(nil)\n :quit\nprint 1", [],
      some (utf8 "."), false, []⟩
    let failing := utf8 "print -read(nil);"
    Entry.sources (enteredLines i.lines) = [failing, utf8 "print read(nil);"] ∧
    (∃ c, (run 20 i).exit = .code c ∧ c.number = 0) ∧
    (run 20 i).output = banner ++ utf8 "two\n\n" ∧
    (run 20 i).errors = reportAll false failing
      [⟨.runtime (.operand .negate .string), ⟨6, 1⟩⟩] := by
  intro i failing
  have hread : i.lines.readLines.map Line.bytes = enteredLines i.lines :=
    Text.readLines_eq (by decide +kernel)
  have hsources : Entry.sources (enteredLines i.lines) = [failing, utf8 "print read(nil);"] := by
    decide +kernel
  let steps :=
    (Session.fresh ⟨[], i.input, none, none⟩ defaultCallLimit).transcript 20
      [failing, utf8 "print read(nil);"]
  have hends : ∀ step ∈ steps, step.report.ending.crash? = none := by
    have hnone : steps.all (·.report.ending.crash?.isNone) = true := by decide +kernel
    simpa using hnone
  have hsettings : readSettings .initial (i.files.read (configPath .initial)) = .ok .default := by
    decide +kernel
  have hhistory : ∃ place, i.files.make (History.path i.home []) = .ok place := by
    have hmade : (i.files.make (History.path i.home [])).toOption.isSome = true := by decide +kernel
    cases hmake : i.files.make (History.path i.home []) with
    | ok place => exact ⟨place, rfl⟩
    | error problem =>
      rw [hmake] at hmade
      cases hmade
  obtain ⟨hexit, houtput, herrors, -, hrun, -⟩ :=
    prompt_is_session 20 i (enteredLines i.lines) rfl hsettings (.inr hhistory)
      (by rw [hsources]; exact hends)
  rw [← hrun hread.symm] at hexit houtput herrors
  rw [hsources] at houtput herrors
  refine ⟨hsources, hexit, houtput.trans ?_, herrors.trans ?_⟩
  · decide +kernel
  · decide +kernel

end Command

end Lox
