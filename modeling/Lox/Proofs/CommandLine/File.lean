import Lox.CommandLine
import Lox.Proofs.Session.Findings

/-!
# Files in the language

A file is run without an error exactly if no segment of it is a fault and its tokens begin with an
expression. Which errors there are otherwise is the sum of the two: the faults of the scan, and the
error of the tokens that are left.
-/

namespace Lox

open Lox.Parser

variable {settings : Settings} {contents : List UInt8} {source : Text} {f : Findings}
  {cuts : List (Segment × Text)} {scan : Scan}

/-- A source is scanned without an error if no segment is a fault. -/
lemma Reading.errors_eq_nil_iff {line} (reading : Reading line cuts scan) :
    scan.errors = [] ↔ ∀ piece ∈ cuts, piece.1.cause? = none := by
  rw [← List.map_eq_nil_iff, reading.map_cause, List.filterMap_eq_nil_iff]

namespace Findings

/-- The tree is the expression that the tokens begin with. -/
lemma answer_eq_ok_iff {after e} (term : Terminated f.scan.tokens)
    (parsed : State.parse ⟨[], f.scan.tokens, 0⟩ = .ok (f.answer, after)) :
    f.answer = .ok e ↔ BeginsWith f.scan.tokens e := by
  rw [← parse_eq_ok_iff term, parsed]
  simp

/-- There is a syntax error exactly where the tokens begin with no expression, at a token that
cannot follow those in front of it. -/
lemma syntaxErrors_cases {after} (term : Terminated f.scan.tokens)
    (parsed : State.parse ⟨[], f.scan.tokens, 0⟩ = .ok (f.answer, after)) :
    (∃ e, BeginsWith f.scan.tokens e) ∧ f.syntaxErrors = [] ∨
      (∀ e, ¬ BeginsWith f.scan.tokens e) ∧ ∃ error w rest, f.syntaxErrors = [error] ∧
        f.scan.tokens = w ++ error.token :: rest ∧
        Blocked (some maxNesting) 0 Level.all w error := by
  rw [syntaxErrors]
  cases answer : f.answer with
  | ok e => exact .inl ⟨⟨e, (answer_eq_ok_iff term parsed).mp answer⟩, rfl⟩
  | error error =>
    rw [answer] at parsed
    obtain ⟨w, rest, eq, blk, _⟩ := blocked_of_parse term within_zero parsed
    refine .inr ⟨fun e begins => ?_, error, w, rest, rfl, eq, blk⟩
    obtain ⟨_, parsed'⟩ := (parse_eq_ok_iff term).mpr begins
    rw [parsed] at parsed'
    cases parsed'

/-- There is no error exactly if there is none of the scan and the tokens begin with an
expression. -/
lemma not_hasError_iff {after} (term : Terminated f.scan.tokens)
    (parsed : State.parse ⟨[], f.scan.tokens, 0⟩ = .ok (f.answer, after)) :
    ¬ f.HasError ↔ f.scan.errors = [] ∧ ∃ e, BeginsWith f.scan.tokens e := by
  constructor
  · intro free
    obtain ⟨errors, e, answer⟩ := exists_answer free
    exact ⟨errors, e, (answer_eq_ok_iff term parsed).mp answer⟩
  · rintro ⟨errors, e, begins⟩ (error | ⟨error, answer⟩)
    · exact error errors
    · rw [(answer_eq_ok_iff term parsed).mpr begins] at answer
      cases answer

end Findings

namespace CommandLine

/-- A file is run on a fresh console, and its exit code says whether the console remembers an error
after that. -/
lemma runFile_of_findings (valid : Text.ofBytes? contents = some source)
    (found : Findings.ofSource source = .ok f) :
    runFile settings (some contents) =
      .ok ⟨if Reporter.hadError (f.report settings.wording Console.fresh) then dataError else 0,
        f.dump settings ++
          if Reporter.hadError (f.report settings.wording Console.fresh) then [] else f.tree,
        (f.diagnostics settings.wording).flatMap (·.toText ++ ['\n'])⟩ := by
  have written : (f.report settings.wording Console.fresh).written = _ := Findings.written_report
  simp only [runFile, valid, run_of_findings settings Console.fresh found, written, bind,
    Except.bind]
  rfl

/-- A file with an error ends with the exit code for faulty data, and its errors are written. -/
lemma runFile_of_hasError (valid : Text.ofBytes? contents = some source)
    (found : Findings.ofSource source = .ok f) (error : f.HasError) :
    runFile settings (some contents) =
      .ok ⟨dataError, f.dump settings,
        (f.diagnostics settings.wording).flatMap (·.toText ++ ['\n'])⟩ := by
  have remembers : Reporter.hadError (f.report settings.wording Console.fresh) = true :=
    Findings.hadError_report.mpr (.inr error)
  rw [runFile_of_findings valid found, remembers, if_pos rfl, if_pos rfl, List.append_nil]

/-- A file without an error ends well, and its tree is written. -/
lemma runFile_of_answer {e} (valid : Text.ofBytes? contents = some source)
    (found : Findings.ofSource source = .ok f) (free : ¬ f.HasError) (answer : f.answer = .ok e) :
    runFile settings (some contents) = .ok ⟨0, f.dump settings ++ e.toText ++ ['\n'], []⟩ := by
  have forgets : Reporter.hadError (f.report settings.wording Console.fresh) = false :=
    Bool.eq_false_iff.mpr fun error => (Findings.hadError_report.mp error).elim nofun free
  have none : f.diagnostics settings.wording = [] :=
    not_not.mp (mt Findings.diagnostics_ne_nil_iff.mp free)
  rw [runFile_of_findings valid found, forgets, none, Findings.tree, answer, List.append_assoc]
  rfl

/-- The language of files. A file that is UTF-8 is run without an error exactly if no segment of its
source is a fault and its tokens begin with an expression; then the tree of the expression is
written, and no error. Any other file ends with the exit code for faulty data, and no tree is
written. Its errors are one for each fault in order, and then one for the tokens if they begin with
no expression. -/
theorem runFile_language (settings : Settings) (valid : Text.ofBytes? contents = some source) :
    ∃ cuts scan outcome, Cut source cuts ∧ Scan.ofSource source = .ok scan ∧
      scan.errors.map LexicalError.cause = cuts.filterMap (·.1.cause?) ∧
      runFile settings (some contents) = .ok outcome ∧
      (outcome.exitCode = 0 ↔
        (∀ piece ∈ cuts, piece.1.cause? = none) ∧ ∃ e, BeginsWith scan.tokens e) ∧
      (outcome.exitCode = 0 → ∀ e, BeginsWith scan.tokens e →
        outcome.stdout = (if settings.tokens then scan.dump else []) ++ e.toText ++ ['\n'] ∧
          outcome.stderr = []) ∧
      (outcome.exitCode ≠ 0 →
        outcome.exitCode = 65 ∧ outcome.stdout = (if settings.tokens then scan.dump else []) ∧
        ∃ syntaxErrors : List ParseError,
          outcome.stderr =
            scan.errors.flatMap (fun e => (e.diagnostic settings.wording).toText ++ ['\n']) ++
              syntaxErrors.flatMap (fun e => e.diagnostic.toText ++ ['\n']) ∧
          ((∃ e, BeginsWith scan.tokens e) ∧ syntaxErrors = [] ∨
            (∀ e, ¬ BeginsWith scan.tokens e) ∧ ∃ error w rest, syntaxErrors = [error] ∧
              scan.tokens = w ++ error.token :: rest ∧
              Blocked (some maxNesting) 0 Level.all w error)) := by
  obtain ⟨cuts, scan, scanned, cut, reading⟩ := exists_reading (.start source)
  obtain ⟨f, after, found, scanned', term, parsed⟩ := Findings.exists_ofSource source
  have same : f.scan = scan := Except.ok.inj (scanned'.symm.trans scanned)
  subst same
  have accepted := Findings.not_hasError_iff term parsed
  rw [reading.errors_eq_nil_iff] at accepted
  by_cases error : f.HasError
  · refine ⟨cuts, f.scan, _, cut, scanned, reading.map_cause, runFile_of_hasError valid found error,
      ⟨nofun, fun yes => absurd error (accepted.mpr yes)⟩, nofun, fun _ => ⟨rfl, rfl, ?_⟩⟩
    refine ⟨f.syntaxErrors, ?_, Findings.syntaxErrors_cases term parsed⟩
    rw [Findings.diagnostics, List.flatMap_append, List.flatMap_map, List.flatMap_map]
  · obtain ⟨_, e, answer⟩ := Findings.exists_answer error
    refine ⟨cuts, f.scan, _, cut, scanned, reading.map_cause,
      runFile_of_answer valid found error answer, ⟨fun _ => accepted.mp error, fun _ => rfl⟩,
      fun _ e' begins => ⟨?_, rfl⟩, fun fails => absurd rfl fails⟩
    rw [(Findings.answer_eq_ok_iff term parsed).mpr begins] at answer
    cases answer
    rfl

/-- Behind a stray character a string has a tree, which is not written. -/
theorem runFile_language_stray :
    Text.ofBytes? [64, 34, 97, 34] = some "@\"a\"".toList ∧
      ∃ outcome, runFile ⟨false, .full⟩ (some [64, 34, 97, 34]) = .ok outcome ∧
        outcome.exitCode = 65 ∧ outcome.stdout = [] ∧
        outcome.stderr = "[line 1] Error: Unexpected character '@' [ASCII: 64]\n".toList := by
  have valid : Text.ofBytes? [64, 34, 97, 34] = some "@\"a\"".toList := by decide +kernel
  have scanned : Scan.ofSource "@\"a\"".toList =
      .ok ⟨[⟨.string ['a'], "\"a\"".toList, 1⟩, .eof 1], [⟨.unexpectedCharacter '@', 1⟩]⟩ := by
    decide +kernel
  obtain ⟨cuts, scan, outcome, _, scanned', causes, done, exitCode, _, fails⟩ :=
    runFile_language ⟨false, .full⟩ valid
  rw [scanned] at scanned'
  cases scanned'
  have ne : outcome.exitCode ≠ 0 := by
    intro eq
    rw [List.filterMap_eq_nil_iff.mpr (exitCode.mp eq).1] at causes
    cases causes
  have begins : BeginsWith [⟨.string ['a'], "\"a\"".toList, 1⟩, .eof 1]
      (.literal (.string ['a'])) :=
    ⟨_, _, [], rfl, (Derives.literal rfl).of_nil, Nat.zero_le _, rfl⟩
  obtain ⟨exitCode, stdout, syntaxErrors, stderr, ⟨_, rfl⟩ | ⟨none, _⟩⟩ := fails ne
  · have text : outcome.stderr =
        "[line 1] Error: Unexpected character '@' [ASCII: 64]\n".toList := by
      rw [stderr]
      decide +kernel
    exact ⟨valid, outcome, done, exitCode, stdout, text⟩
  · exact absurd begins (none _)

end CommandLine

end Lox
