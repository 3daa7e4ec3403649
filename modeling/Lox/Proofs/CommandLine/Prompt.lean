import Lox.Proofs.CommandLine.File
import Mathlib.Data.List.Forall2

/-!
# The prompt runs each line like a file

At the prompt every line is run on one console, which forgets its errors behind each. So a line
writes what it writes as a file of its own (`exists_runLine?`), and the prompt writes the outcomes
of the lines one after the other, up to the end of the input or the first line that is not UTF-8.
-/

namespace Lox.CommandLine

/-- The lines that bytes are cut into: each has its line break at its end and nowhere else, and only
the last one may lack it. -/
inductive IsLines : List (List UInt8) → List UInt8 → Prop where
  | nil : IsLines [] []
  | last {line : List UInt8} :
    line ≠ [] →
    lineBreak ∉ line →
    IsLines [line] line
  | line {line input : List UInt8} {lines : List (List UInt8)} :
    lineBreak ∉ line →
    IsLines lines input →
    IsLines ((line ++ [lineBreak]) :: lines) (line ++ lineBreak :: input)

variable {settings : Settings} {console : Console} {input line : List UInt8}
  {lines : List (List UInt8)}

lemma splitLines_append (no : lineBreak ∉ line) :
    splitLines (line ++ lineBreak :: input) = (line ++ [lineBreak]) :: splitLines input := by
  induction line with
  | nil => rw [List.nil_append, splitLines, if_pos rfl, List.nil_append]
  | cons byte line ih =>
    obtain ⟨ne, no⟩ := List.ne_and_not_mem_of_not_mem_cons no
    rw [List.cons_append, splitLines, if_neg (Ne.symm ne), ih no]
    rfl

lemma splitLines_of_not_mem (ne : line ≠ []) (no : lineBreak ∉ line) :
    splitLines line = [line] := by
  induction line with
  | nil => exact absurd rfl ne
  | cons byte line ih =>
    obtain ⟨ne', no⟩ := List.ne_and_not_mem_of_not_mem_cons no
    rw [splitLines, if_neg (Ne.symm ne')]
    cases line with
    | nil => rfl
    | cons byte' line => rw [ih (List.cons_ne_nil _ _) no]

/-- Bytes are cut into lines in one way, which is that of the prompt. -/
lemma isLines_iff : IsLines lines input ↔ lines = splitLines input := by
  constructor
  · intro cut
    induction cut with
    | nil => rfl
    | last ne no => exact (splitLines_of_not_mem ne no).symm
    | line no _ ih => rw [splitLines_append no, ih]
  · rintro rfl
    induction input with
    | nil => exact .nil
    | cons byte input ih =>
      rw [splitLines]
      by_cases eq : byte = lineBreak
      · rw [if_pos eq, eq]
        have nil : lineBreak ∉ ([] : List UInt8) := List.not_mem_nil
        exact IsLines.line nil ih
      · have ne : lineBreak ≠ byte := Ne.symm eq
        rw [if_neg eq]
        generalize splitLines input = lines at ih
        cases ih with
        | nil => exact .last (List.cons_ne_nil _ _) (List.not_mem_cons_of_ne_of_not_mem ne nofun)
        | last _ no =>
          exact .last (List.cons_ne_nil _ _) (List.not_mem_cons_of_ne_of_not_mem ne no)
        | line no cut =>
          have no := List.not_mem_cons_of_ne_of_not_mem ne no
          exact IsLines.line no cut

/-- On a console that remembers no error a line writes what it writes as a file, and its errors are
forgotten. -/
lemma exists_runLine? (settings : Settings) {source} (valid : Text.ofBytes? line = some source)
    (clean : console.hadError = false) :
    ∃ outcome after, runFile settings (some line) = .ok outcome ∧
      runLine? settings line console = .ok (some (outcome.stdout, after)) ∧
      after.hadError = false ∧ after.written = console.written ++ outcome.stderr := by
  obtain ⟨f, _, found, _⟩ := Findings.exists_ofSource source
  have same : Reporter.hadError (f.report settings.wording console) =
      Reporter.hadError (f.report settings.wording Console.fresh) := by
    have clean : Reporter.hadError console = Reporter.hadError Console.fresh := clean
    rw [Bool.eq_iff_iff, Findings.hadError_report, Findings.hadError_report, clean]
  have run := run_of_findings settings console found
  rw [same] at run
  refine ⟨_, (f.report settings.wording console).reset, runFile_of_findings valid found, ?_, rfl,
    Findings.written_report⟩
  simp only [runLine?, valid, run, bind, Except.bind]
  rfl

/-- What the lines leave behind as files of their own. -/
def FileOutcomes (settings : Settings) (lines : List (List UInt8)) (outcomes : List Outcome) :
    Prop :=
  List.Forall₂ (fun line outcome => runFile settings (some line) = .ok outcome) lines outcomes

/-- Wherever the prompt is in front of these lines, it ends with this exit code, and this is the
last that it writes to either stream. -/
def EndsWith (settings : Settings) (lines : List (List UInt8)) (exitCode : UInt32)
    (message : Text) : Prop :=
  ∀ console : Console, console.hadError = false →
    promptLines settings lines console = .ok ⟨exitCode, promptMark, console.written ++ message⟩

lemma endsWith_nil : EndsWith settings [] 0 [] := by
  intro console _
  rw [List.append_nil]
  rfl

lemma endsWith_invalid (invalid : Text.ofBytes? line = none) :
    EndsWith settings (line :: lines) 1 invalidInput := by
  intro console _
  simp only [promptLines, runLine?, invalid, bind, Except.bind]
  rfl

/-- Lines that can be run write what they write as files, in front of what the prompt ends with. -/
lemma promptLines_append {front : List (List UInt8)} {exitCode message}
    (ends : EndsWith settings lines exitCode message)
    (valid : ∀ line ∈ front, (Text.ofBytes? line).isSome) (console : Console)
    (clean : console.hadError = false) :
    ∃ outcomes, FileOutcomes settings front outcomes ∧
      promptLines settings (front ++ lines) console =
        .ok ⟨exitCode, promptMark ++ outcomes.flatMap (·.stdout ++ promptMark),
          console.written ++ outcomes.flatMap Outcome.stderr ++ message⟩ := by
  induction front generalizing console with
  | nil =>
    refine ⟨[], .nil, ?_⟩
    rw [List.nil_append, ends console clean]
    simp
  | cons line front ih =>
    obtain ⟨first, valid⟩ := List.forall_mem_cons.mp valid
    obtain ⟨source, first⟩ := Option.isSome_iff_exists.mp first
    obtain ⟨outcome, after, file, run, clean', written⟩ :=
      exists_runLine? settings first clean
    obtain ⟨outcomes, files, rest⟩ := ih valid after clean'
    refine ⟨outcome :: outcomes, .cons file files, ?_⟩
    rw [written] at rest
    simp only [List.cons_append, promptLines, run, rest, List.flatMap_cons, List.append_assoc, bind,
      Except.bind]
    rfl

/-- The prompt is a sequence of file runs. Its input is cut into lines in one way. If all lines are
UTF-8 it writes its mark, and behind what each line writes as a file the mark again; the errors are
those of the files one after the other. At a line that is not UTF-8 it ends in the same way behind
the lines in front, with another exit code and a message of its own. -/
theorem prompt_eq_files (settings : Settings) (input : List UInt8) :
    ∃ lines, (∀ lines', IsLines lines' input ↔ lines' = lines) ∧
      ((∀ line ∈ lines, (Text.ofBytes? line).isSome) →
        ∃ outcomes, FileOutcomes settings lines outcomes ∧
          prompt settings input =
            .ok ⟨0, promptMark ++ outcomes.flatMap (·.stdout ++ promptMark),
              outcomes.flatMap Outcome.stderr⟩) ∧
      ∀ front line rest, lines = front ++ line :: rest →
        (∀ line ∈ front, (Text.ofBytes? line).isSome) → Text.ofBytes? line = none →
        ∃ outcomes, FileOutcomes settings front outcomes ∧
          prompt settings input =
            .ok ⟨1, promptMark ++ outcomes.flatMap (·.stdout ++ promptMark),
              outcomes.flatMap Outcome.stderr ++ invalidInput⟩ := by
  refine ⟨splitLines input, fun _ => isLines_iff, fun valid => ?_, ?_⟩
  · obtain ⟨outcomes, files, run⟩ := promptLines_append endsWith_nil valid .fresh rfl
    rw [List.append_nil, List.append_nil] at run
    exact ⟨outcomes, files, run⟩
  · intro front line rest split valid invalid
    obtain ⟨outcomes, files, run⟩ :=
      promptLines_append (endsWith_invalid invalid) valid .fresh rfl
    rw [← split] at run
    exact ⟨outcomes, files, run⟩

/-- A line with an error, a line with a tree and a line that is not UTF-8. -/
theorem prompt_eq_files_invalid :
    (∀ line ∈ [[33, 10], [34, 97, 34, 10]], (Text.ofBytes? line).isSome) ∧
      Text.ofBytes? [255] = none ∧
      prompt ⟨false, .full⟩ [33, 10, 34, 97, 34, 10, 255] =
        .ok ⟨1, "> > a\n> ".toList,
          "[line 2] Error at end: Expect expression.\n".toList ++ invalidInput⟩ := by
  have valid : ∀ line ∈ [[33, 10], [34, 97, 34, 10]], (Text.ofBytes? line).isSome := by
    decide +kernel
  have invalid : Text.ofBytes? [255] = none := by decide +kernel
  have bang : runFile ⟨false, .full⟩ (some [33, 10]) =
      .ok ⟨65, [], "[line 2] Error at end: Expect expression.\n".toList⟩ := by
    have source : Text.ofBytes? [33, 10] = some ['!', '\n'] := by decide +kernel
    have found : Findings.ofSource ['!', '\n'] =
        .ok ⟨⟨[⟨.punctuator .bang, ['!'], 1⟩, .eof 2], []⟩,
          .error ⟨.expectedExpression, .eof 2⟩⟩ := by
      decide +kernel
    exact runFile_of_hasError source found (.inr ⟨_, rfl⟩)
  have string : runFile ⟨false, .full⟩ (some [34, 97, 34, 10]) = .ok ⟨0, "a\n".toList, []⟩ := by
    have source : Text.ofBytes? [34, 97, 34, 10] = some ['"', 'a', '"', '\n'] := by decide +kernel
    have found : Findings.ofSource ['"', 'a', '"', '\n'] =
        .ok ⟨⟨[⟨.string ['a'], ['"', 'a', '"'], 1⟩, .eof 2], []⟩,
          .ok (.literal (.string ['a']))⟩ := by
      decide +kernel
    exact runFile_of_answer source found (fun error => by cases error <;> simp_all) rfl
  obtain ⟨lines, cut, _, ends⟩ := prompt_eq_files ⟨false, .full⟩ [33, 10, 34, 97, 34, 10, 255]
  have split : [[33, 10], [34, 97, 34, 10]] ++ [255] :: [] = lines :=
    (cut _).mp (isLines_iff.mpr rfl)
  obtain ⟨outcomes, files, run⟩ := ends _ _ _ split.symm valid invalid
  obtain _ | ⟨first, second | ⟨second, ⟨⟩⟩⟩ := files
  rw [bang] at first
  rw [string] at second
  cases first
  cases second
  exact ⟨valid, invalid, run⟩

end Lox.CommandLine
