import Lox.Commands
import Lox.Proofs.Session.Findings

/-!
# Runs that share a sink

A sink remembers an error exactly as long as no reset is behind the run of a faulty source, whatever
else is run before and after it (`exists_perform`). The last run of any commands writes its tree if
and only if no error is remembered after it, so no run is silent, and after an error none writes a
tree until there is a reset.
-/

namespace Lox

variable {ρ : Type} [Reporter ρ] {reset : ρ → ρ} {commands commands' : List Command}
  {reporter between after : ρ} {outs outs' : List Text} {settings : Settings} {source : Text}
  {f : Findings}

/-- A run comes before the commands behind it. -/
lemma perform_run {out} (first : run settings source reporter = .ok (out, between))
    (rest : perform reset commands between = .ok (outs, after)) :
    perform reset (.run settings source :: commands) reporter = .ok (out :: outs, after) := by
  simp only [perform, first, rest, bind, Except.bind]
  rfl

lemma perform_append (first : perform reset commands reporter = .ok (outs, between))
    (rest : perform reset commands' between = .ok (outs', after)) :
    perform reset (commands ++ commands') reporter = .ok (outs ++ outs', after) := by
  induction commands generalizing reporter outs with
  | nil =>
    cases first
    exact rest
  | cons command commands ih =>
    cases command with
    | reset => exact ih first
    | run settings source =>
      obtain ⟨f, _, found, _⟩ := Findings.exists_ofSource source
      have run := run_of_findings settings reporter found
      cases eq : perform reset commands (f.report settings.wording reporter) with
      | error fault =>
        simp [perform, run, eq, bind, Except.bind] at first
      | ok answer =>
        rw [perform_run run eq] at first
        cases first
        exact perform_run run (ih eq)

lemma faulty_iff (found : Findings.ofSource source = .ok f) : Faulty source ↔ f.HasError := by
  constructor
  · rintro ⟨f', found', error⟩
    rw [found] at found'
    cases found'
    exact error
  · intro error
    exact ⟨f, found, error⟩

lemma unforgotten_run_iff (found : Findings.ofSource source = .ok f) :
    Unforgotten (.run settings source :: commands) ↔
      f.HasError ∧ .reset ∉ commands ∨ Unforgotten commands := by
  constructor
  · intro unforgotten
    cases unforgotten with
    | here faulty none => exact .inl ⟨(faulty_iff found).mp faulty, none⟩
    | behind unforgotten => exact .inr unforgotten
  · rintro (⟨error, none⟩ | unforgotten)
    · exact .here ((faulty_iff found).mpr error) none
    · exact .behind unforgotten

lemma unforgotten_reset_iff : Unforgotten (.reset :: commands) ↔ Unforgotten commands := by
  constructor
  · intro unforgotten
    cases unforgotten with
    | behind unforgotten => exact unforgotten
  · exact .behind

/-- Commands can be performed, and after them the sink remembers an error if there is one in a run
behind the last reset, or if it remembered one and there is no reset. -/
lemma exists_perform [LawfulReporter ρ] (reset : ρ → ρ) (commands : List Command) (reporter : ρ)
    (forgets : .reset ∈ commands → ∀ reporter, Reporter.hadError (reset reporter) = false) :
    ∃ outs after, perform reset commands reporter = .ok (outs, after) ∧
      (Reporter.hadError after = true ↔
        Reporter.hadError reporter = true ∧ .reset ∉ commands ∨ Unforgotten commands) := by
  induction commands generalizing reporter with
  | nil =>
    refine ⟨[], reporter, rfl, fun error => .inl ⟨error, List.not_mem_nil⟩, ?_⟩
    rintro (⟨error, _⟩ | unforgotten)
    · exact error
    · cases unforgotten
  | cons command commands ih =>
    have ih := fun reporter => ih reporter fun mem => forgets (List.mem_cons_of_mem _ mem)
    cases command with
    | run settings source =>
      obtain ⟨f, _, found, _⟩ := Findings.exists_ofSource source
      obtain ⟨outs, after, done, remembers⟩ := ih (f.report settings.wording reporter)
      refine ⟨_, after, perform_run (run_of_findings settings reporter found) done, ?_⟩
      rw [remembers, Findings.hadError_report, unforgotten_run_iff found]
      have mem : Command.reset ∉ .run settings source :: commands ↔ .reset ∉ commands := by simp
      rw [mem, or_and_right, or_assoc]
    | reset =>
      obtain ⟨outs, after, done, remembers⟩ := ih (reset reporter)
      refine ⟨outs, after, done, ?_⟩
      rw [remembers, forgets List.mem_cons_self, unforgotten_reset_iff]
      simp

/-- What the last run of commands comes to, on a sink that remembers no error at first. -/
lemma exists_lastRun [LawfulReporter ρ] (reset : ρ → ρ) (commands : List Command)
    (settings : Settings) (source : Text) (clean : Reporter.hadError reporter = false)
    (forgets : .reset ∈ commands → ∀ reporter, Reporter.hadError (reset reporter) = false) :
    ∃ f outs between out after, Findings.ofSource source = .ok f ∧
      perform reset commands reporter = .ok (outs, between) ∧
      run settings source between = .ok (out, after) ∧
      perform reset (commands ++ [.run settings source]) reporter = .ok (outs ++ [out], after) ∧
      LastRun (commands ++ [.run settings source]) settings f out (Reporter.hadError after) := by
  obtain ⟨f, _, found, _⟩ := Findings.exists_ofSource source
  obtain ⟨outs, between, done, _⟩ := exists_perform reset commands reporter forgets
  have last := run_of_findings settings between found
  have alone : perform reset [.run settings source] between = _ := perform_run last rfl
  have whole := perform_append done alone
  refine ⟨f, outs, between, _, _, found, done, last, whole, ?_, ?_, ?_⟩
  · obtain ⟨_, _, whole', remembers⟩ :=
      exists_perform reset (commands ++ [.run settings source]) reporter (by simpa using forgets)
    rw [whole] at whole'
    cases whole'
    rw [remembers, clean]
    simp
  · intro error
    rw [if_pos error, List.append_nil]
  · intro remembered
    have free : ¬ (Reporter.hadError between = true ∨ f.HasError) :=
      mt Findings.hadError_report.mpr (Bool.eq_false_iff.mp remembered)
    obtain ⟨errors, e, answer⟩ := Findings.exists_answer (not_or.mp free).2
    refine ⟨errors, e, answer, ?_⟩
    rw [remembered, Findings.tree, answer, List.append_assoc]
    rfl

/-- On a console that is reset at times, and on a log that never is, any commands can be performed.
The last run of them leaves an error behind in the sink exactly if a run behind the last reset is of
a faulty source. Then it writes the tokens alone, if they are asked for, and otherwise its source is
without an error and it writes its tree behind them. -/
theorem lastRun_perform :
    (∀ commands settings source, ∃ f outs between out after,
      Findings.ofSource source = .ok f ∧
      perform Console.reset commands Console.fresh = .ok (outs, between) ∧
      run settings source between = .ok (out, after) ∧
      perform Console.reset (commands ++ [.run settings source]) Console.fresh =
        .ok (outs ++ [out], after) ∧
      LastRun (commands ++ [.run settings source]) settings f out (Reporter.hadError after)) ∧
    ∀ commands settings source, .reset ∉ commands → ∃ f outs between out after,
      Findings.ofSource source = .ok f ∧
      perform id commands Log.empty = .ok (outs, between) ∧
      run settings source between = .ok (out, after) ∧
      perform id (commands ++ [.run settings source]) Log.empty = .ok (outs ++ [out], after) ∧
      LastRun (commands ++ [.run settings source]) settings f out (Reporter.hadError after) := by
  constructor
  · intro commands settings source
    exact exists_lastRun Console.reset commands settings source rfl fun _ _ => rfl
  · intro commands settings source none
    exact exists_lastRun id commands settings source rfl fun mem => absurd mem none

/-- A string behind a stray character: its tree is not written to a log, and neither is it to a
console until there is a reset. -/
theorem lastRun_perform_string :
    (∃ outs between after,
      perform Console.reset [.run ⟨false, .full⟩ ['@'], .reset] Console.fresh =
        .ok (outs, between) ∧
      run ⟨false, .full⟩ ['"', 'a', '"'] between = .ok (['a', '\n'], after)) ∧
    Command.reset ∉ [.run ⟨false, .full⟩ ['@']] ∧
    ∃ outs between after,
      perform id [.run ⟨false, .full⟩ ['@']] Log.empty = .ok (outs, between) ∧
      run ⟨false, .full⟩ ['"', 'a', '"'] between = .ok ([], after) := by
  have stray : Findings.ofSource ['@'] =
      .ok ⟨⟨[.eof 1], [⟨.unexpectedCharacter '@', 1⟩]⟩, .error ⟨.expectedExpression, .eof 1⟩⟩ := by
    decide +kernel
  have string : Findings.ofSource ['"', 'a', '"'] =
      .ok ⟨⟨[⟨.string ['a'], ['"', 'a', '"'], 1⟩, .eof 1], []⟩,
        .ok (.literal (.string ['a']))⟩ := by
    decide +kernel
  obtain ⟨onConsole, onLog⟩ := lastRun_perform
  have none : Command.reset ∉ [.run ⟨false, .full⟩ ['@']] := by simp
  refine ⟨?_, none, ?_⟩
  · obtain ⟨f, outs, between, out, after, found, done, run, _, last⟩ :=
      onConsole [.run ⟨false, .full⟩ ['@'], .reset] ⟨false, .full⟩ ['"', 'a', '"']
    rw [string] at found
    cases found
    have forgotten : Reporter.hadError after = false := by
      rw [Bool.eq_false_iff, Ne, last.hadError_iff, List.cons_append, unforgotten_run_iff stray,
        List.cons_append, unforgotten_reset_iff, List.nil_append, unforgotten_run_iff string]
      rintro (⟨_, none⟩ | ⟨error | ⟨_, error⟩, _⟩ | unforgotten)
      · exact none List.mem_cons_self
      · exact error rfl
      · cases error
      · cases unforgotten
    obtain ⟨_, e, answer, rfl⟩ := last.out_of_no_error forgotten
    cases answer
    exact ⟨outs, between, after, done, run⟩
  · obtain ⟨f, outs, between, out, after, found, done, run, _, last⟩ :=
      onLog [.run ⟨false, .full⟩ ['@']] ⟨false, .full⟩ ['"', 'a', '"'] none
    rw [string] at found
    cases found
    have faulty : Faulty ['@'] := ⟨_, stray, .inr ⟨_, rfl⟩⟩
    have remembered := last.hadError_iff.mpr (.here faulty (by simp))
    cases last.out_of_error remembered
    exact ⟨outs, between, after, done, run⟩

end Lox
