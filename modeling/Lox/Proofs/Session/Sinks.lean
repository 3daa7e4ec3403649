import Lox.Commands
import Lox.Proofs.Session.Findings
import Mathlib.Data.List.Forall2

/-!
# Sinks that cannot be told apart

A run asks its sink one thing, whether there was an error. So two sinks that answer alike and go on
to answer alike whatever both are told make no difference to what is written: `Alike` says this of a
relation between sinks, and it goes through the reports of one source, one run (`Alike.run`) and all
runs (`Alike.runAll`). A fresh console and an empty log are such sinks, and what the console has
written are the entries of the log (`runAll_console_log`).
-/

namespace Lox

variable {ρ σ : Type} [Reporter ρ] [Reporter σ] {R : ρ → σ → Prop} {r : ρ} {s : σ}

/-- Related sinks answer alike, and are still related when both take the same report. -/
structure Alike (R : ρ → σ → Prop) : Prop where
  hadError {r : ρ} {s : σ} : R r s → Reporter.hadError r = Reporter.hadError s
  report {r : ρ} {s : σ} (d : Diagnostic) : R r s → R (Reporter.report r d) (Reporter.report s d)

namespace Alike

/-- Related sinks are still related when both take the reports about a source. -/
lemma findings (alike : Alike R) (related : R r s) (wording : Wording) (f : Findings) :
    R (f.report wording r) (f.report wording s) :=
  List.foldl_rel related fun d _ _ _ => alike.report d

/-- A run writes the same on related sinks. -/
lemma run (alike : Alike R) (related : R r s) (settings : Settings) (source : Text) :
    ∃ out r' s', Lox.run settings source r = .ok (out, r') ∧
      Lox.run settings source s = .ok (out, s') ∧ R r' s' := by
  obtain ⟨f, _, found, _⟩ := Findings.exists_ofSource source
  have related' := alike.findings related settings.wording f
  have onS := run_of_findings settings s found
  rw [← alike.hadError related'] at onS
  exact ⟨_, _, _, run_of_findings settings r found, onS, related'⟩

end Alike

/-- A run comes before the runs behind it. -/
lemma runAll_cons {settings source out} {r r' : ρ} {sources steps}
    (first : run settings source r = .ok (out, r')) (rest : runAll sources r' = .ok steps) :
    runAll ((settings, source) :: sources) r = .ok ((out, r') :: steps) := by
  simp only [runAll, first, rest, bind, Except.bind]
  rfl

/-- All runs write the same on related sinks, and the sinks are related after each of them. -/
lemma Alike.runAll (alike : Alike R) (related : R r s) (sources : List (Settings × Text)) :
    ∃ steps steps', Lox.runAll sources r = .ok steps ∧ Lox.runAll sources s = .ok steps' ∧
      steps.length = sources.length ∧
      List.Forall₂ (fun a b => a.1 = b.1 ∧ R a.2 b.2) steps steps' := by
  induction sources generalizing r s with
  | nil => exact ⟨[], [], rfl, rfl, rfl, .nil⟩
  | cons source sources ih =>
    obtain ⟨out, r', s', onR, onS, related⟩ := alike.run related source.1 source.2
    obtain ⟨steps, steps', restR, restS, length, all⟩ := ih related
    exact ⟨_, _, runAll_cons onR restR, runAll_cons onS restS, congrArg (· + 1) length,
      .cons ⟨rfl, related⟩ all⟩

/-- A console that has written the entries of a log, and no entry is forgotten. -/
structure Console.Shows (console : Console) (log : Log) : Prop where
  lines : console.lines.toList = log.entries.toList.map Diagnostic.toText
  hadError : console.hadError = Reporter.hadError log

namespace Console.Shows

lemma fresh : Shows .fresh .empty := ⟨rfl, rfl⟩

lemma alike : Alike Shows where
  hadError shows := shows.hadError
  report d shows := by
    refine ⟨?_, (LawfulReporter.hadError_report _ d).symm⟩
    simp [Reporter.report, shows.lines]

variable {console : Console} {log : Log}

/-- Each entry of the log is written with a line break behind it. -/
lemma written_eq_flatMap (shows : Shows console log) :
    console.written = log.entries.toList.flatMap (·.toText ++ ['\n']) := by
  rw [written, shows.lines, List.flatMap_map]

end Console.Shows

/-- The lines of a text, each with its line break, are the text with one more line break, unless
there are none. -/
lemma flatMap_newline (lines : List Text) :
    lines.flatMap (· ++ ['\n']) =
      if lines.isEmpty then [] else ['\n'].intercalate lines ++ ['\n'] := by
  induction lines with
  | nil => rfl
  | cons line lines ih =>
    rw [List.flatMap_cons, ih]
    cases lines with
    | nil => simp
    | cons next lines => simp [List.intercalate_cons_cons]

/-- What a console has written is the log with a line break behind it, unless the log is empty. -/
lemma Console.Shows.written_eq_toText {console : Console} {log : Log} (shows : Shows console log) :
    console.written = if log.entries.isEmpty then [] else log.toText ++ ['\n'] := by
  rw [written, shows.lines, flatMap_newline, Log.toText]
  simp

/-- Whatever sources are run one after the other, each run writes the same on a console as on a log.
After each of them both sinks say the same of errors, and what the console has written so far are
the entries of the log in order, each with a line break behind it: the log itself and a last line
break, unless it is empty. -/
theorem runAll_console_log (sources : List (Settings × Text)) :
    ∃ onConsole onLog, runAll sources Console.fresh = .ok onConsole ∧
      runAll sources Log.empty = .ok onLog ∧ onConsole.length = sources.length ∧
      List.Forall₂ (fun step step' => step.1 = step'.1 ∧
          Reporter.hadError step.2 = Reporter.hadError step'.2 ∧
          step.2.written = step'.2.entries.toList.flatMap (·.toText ++ ['\n']) ∧
          step.2.written = if step'.2.entries.isEmpty then [] else step'.2.toText ++ ['\n'])
        onConsole onLog := by
  obtain ⟨onConsole, onLog, run, run', length, all⟩ :=
    Console.Shows.alike.runAll Console.Shows.fresh sources
  refine ⟨onConsole, onLog, run, run', length, all.imp fun step step' ⟨out, shows⟩ => ?_⟩
  exact ⟨out, shows.hadError, shows.written_eq_flatMap, shows.written_eq_toText⟩

end Lox
