import Lox.Findings
import Lox.Proofs.Parser.Language
import Lox.Proofs.Scan.Layout

/-!
# A run reports and writes its findings

Every source has findings (`Findings.exists_ofSource`). A run of the source on any sink reports
their diagnostics in order, and it writes the tokens that are asked for and, as long as the sink
remembers no error, the tree (`run_of_findings`). The sinks say what becomes of the reports: all
remember that there were any, and a console writes them out.
-/

namespace Lox

variable {ρ : Type} [Reporter ρ] {source : Text} {f : Findings} {wording : Wording}

deriving instance DecidableEq for Findings

namespace Findings

lemma ofSource_of_parse {scan answer after} (scanned : Scan.ofSource source = .ok scan)
    (term : Terminated scan.tokens)
    (parsed : Parser.State.parse ⟨[], scan.tokens, 0⟩ = .ok (answer, after)) :
    ofSource source = .ok ⟨scan, answer⟩ := by
  have start := Parser.ofTokens_eq_ok_iff.mpr ⟨term, rfl⟩
  simp only [ofSource, scanned, start, parsed, bind, Except.bind]
  rfl

/-- The findings of a source are those of its scan and of a call of the parser on its tokens. -/
lemma exists_ofSource (source : Text) :
    ∃ f after, ofSource source = .ok f ∧ Scan.ofSource source = .ok f.scan ∧
      Terminated f.scan.tokens ∧
      Parser.State.parse ⟨[], f.scan.tokens, 0⟩ = .ok (f.answer, after) := by
  obtain ⟨cuts, scan, scanned, cut, reading⟩ := exists_reading (.start source)
  obtain ⟨words, stop, eq, _⟩ := reading.lexical cut
  have term : Terminated scan.tokens := eq ▸ .append words ⟨_, rfl, rfl⟩
  have start : Parser.Standing scan.tokens ⟨[], scan.tokens, 0⟩ := ⟨rfl, term, rfl⟩
  obtain ⟨answer, after, parsed⟩ := Parser.exists_parse start.term start.within
  exact ⟨⟨scan, answer⟩, after, ofSource_of_parse scanned term parsed, scanned, term, parsed⟩

/-- There is something to report exactly where there is an error. -/
lemma diagnostics_ne_nil_iff : f.diagnostics wording ≠ [] ↔ f.HasError := by
  rw [diagnostics, HasError, Ne, List.append_eq_nil_iff, List.map_eq_nil_iff,
    List.map_eq_nil_iff, not_and_or, syntaxErrors]
  cases f.answer <;> simp

/-- After the reports the sink remembers an error if it did before or the source has one. -/
lemma hadError_report [LawfulReporter ρ] {reporter : ρ} :
    Reporter.hadError (f.report wording reporter) = true ↔
      Reporter.hadError reporter = true ∨ f.HasError := by
  rw [← diagnostics_ne_nil_iff, report]
  induction f.diagnostics wording generalizing reporter with
  | nil => simp
  | cons d ds ih =>
    rw [List.foldl_cons, ih]
    simp [LawfulReporter.hadError_report]

/-- A console writes the reports below what it has written. -/
lemma written_report {console : Console} :
    (f.report wording console).written =
      console.written ++ (f.diagnostics wording).flatMap (·.toText ++ ['\n']) := by
  rw [report]
  induction f.diagnostics wording generalizing console with
  | nil => exact (List.append_nil _).symm
  | cons d ds ih =>
    have first : (Reporter.report console d).written = console.written ++ (d.toText ++ ['\n']) := by
      simp [Console.written, Reporter.report]
    rw [List.foldl_cons, ih, first, List.flatMap_cons, List.append_assoc]

/-- The diagnostics are the errors of the scan and then the error of the parser. -/
lemma report_eq (reporter : ρ) :
    f.report wording reporter =
      match f.answer with
      | .ok _ => f.scan.reportErrors wording reporter
      | .error e => Reporter.report (f.scan.reportErrors wording reporter) e.diagnostic := by
  rw [report, diagnostics, List.foldl_append, List.foldl_map, List.foldl_map, syntaxErrors]
  cases f.answer <;> rfl

/-- Without an error there is a tree to write. -/
lemma exists_answer (free : ¬ f.HasError) : f.scan.errors = [] ∧ ∃ e, f.answer = .ok e := by
  obtain ⟨errors, answers⟩ := not_or.mp free
  refine ⟨not_not.mp errors, ?_⟩
  cases answer : f.answer with
  | ok e => exact ⟨e, rfl⟩
  | error e => exact absurd ⟨e, answer⟩ answers

end Findings

/-- A run reports the diagnostics of the source to the sink. It depends on the sink after that
whether it writes the tree. -/
lemma run_of_findings (settings : Settings) (reporter : ρ)
    (found : Findings.ofSource source = .ok f) :
    run settings source reporter =
      .ok (f.dump settings ++
          (if Reporter.hadError (f.report settings.wording reporter) then [] else f.tree),
        f.report settings.wording reporter) := by
  obtain ⟨_, after, found', scanned, term, parsed⟩ := Findings.exists_ofSource source
  rw [found] at found'
  cases found'
  have start := Parser.ofTokens_eq_ok_iff.mpr ⟨term, rfl⟩
  rw [Findings.report_eq]
  cases answer : f.answer with
  | ok e =>
    rw [answer] at parsed
    have reports : Parser.State.parseReporting _ (f.scan.reportErrors settings.wording reporter) =
        _ := Parser.State.parseReporting_of_ok parsed
    simp only [run, scanned, start, reports, bind, Except.bind, Findings.tree, answer]
    rfl
  | error e =>
    rw [answer] at parsed
    have reports : Parser.State.parseReporting _ (f.scan.reportErrors settings.wording reporter) =
        _ := Parser.State.parseReporting_of_error parsed
    simp only [run, scanned, start, reports, bind, Except.bind, Findings.tree, answer, ite_self]
    rfl

end Lox
