import Lox.Proofs.Parser.Outcome
import Lox.Proofs.Scan.Reading
import Lox.Proofs.Segment.Blank
import Lox.Session

/-!
# Lines

The line of a token or an error is the number of line breaks in front of a place in the source,
counted from one. A piece of a cut source knows the text in front of it, and so its place.
-/

namespace Lox

lemma ParseError.line_diagnostic (e : ParseError) : e.diagnostic.line = e.token.line := by
  rw [ParseError.diagnostic]
  split <;> rfl

/-- A part of a cut source, with the text in front of it. -/
structure Piece where
  before : Text
  segment : Segment
  text : Text

namespace Piece

/-- The pieces of a cut, which begins behind the text `before`. -/
def ofCuts (before : Text) : List (Segment × Text) → List Piece
  | [] => []
  | (segment, t) :: cuts => ⟨before, segment, t⟩ :: ofCuts (before ++ t) cuts

/-- Where a token begins: its text and the line of its first character. -/
def tokenPlace? (p : Piece) : Option (Text × Nat) :=
  match p.segment with
  | .punctuator _ | .string | .number | .word => some (p.text, 1 + p.before.newlines)
  | .blank | .comment | .unclosedString | .stray _ => none

/-- The error that the piece is. A character is on the line that it stands on, and a string without
an end is on the last line of the source. -/
def error? (source : Text) (p : Piece) : Option LexicalError :=
  match p.segment with
  | .stray c => some ⟨.unexpectedCharacter c, 1 + p.before.newlines⟩
  | .unclosedString => some ⟨.unclosedString, 1 + source.newlines⟩
  | _ => none

/-- The pieces lie in the source. -/
lemma prefix_of_mem_ofCuts {p : Piece} {before cuts} (mem : p ∈ ofCuts before cuts) :
    p.before ++ p.text <+: before ++ cuts.flatMap Prod.snd := by
  induction cuts generalizing before with
  | nil => cases mem
  | cons piece cuts ih =>
    rw [List.flatMap_cons, ← List.append_assoc]
    cases mem with
    | head => exact List.prefix_append _ _
    | tail _ mem => exact ih mem

end Piece

/-- What a segment denotes begins where its piece does. -/
lemma Segment.Denotes.tokenPlace? {segment t kind before} (denotes : Denotes segment t kind) :
    Piece.tokenPlace? ⟨before, segment, t⟩ = some (t, 1 + before.newlines) := by
  cases denotes <;> rfl

lemma Segment.Spells.error? {segment t before source} (spells : Spells t segment) :
    Piece.error? source ⟨before, segment, t⟩ = none := by
  cases segment with
  | unclosedString => cases spells
  | stray => cases spells
  | _ => rfl

open Segment

lemma newlines_of_stray {c : Char} {rest : Text} (longest : IsLongest [] (c :: rest)) :
    Text.newlines [c] = 0 := by
  rw [Text.newlines_cons, if_neg longest.ne_newline]
  rfl

/-- The tokens and the errors of a reading are those of its pieces. -/
lemma Reading.pieces {before rest cuts scan} (cut : Cut rest cuts)
    (reading : Reading (1 + before.newlines) cuts scan) :
    (∃ words, scan.tokens = words ++ [.eof (1 + (before ++ rest).newlines)] ∧
      words.map (fun t => (t.lexeme, t.line)) =
        (Piece.ofCuts before cuts).filterMap Piece.tokenPlace?) ∧
    scan.errors = (Piece.ofCuts before cuts).filterMap (Piece.error? (before ++ rest)) := by
  induction cut generalizing before scan with
  | nil =>
    cases reading
    exact ⟨⟨[], by simp, rfl⟩, rfl⟩
  | @segment segment t rest cuts spells _ _ ih =>
    -- The text in front of the next piece is longer by this one.
    rw [← List.append_assoc, Piece.ofCuts, List.filterMap_cons_none spells.error?]
    cases reading with
    | token denotes reading =>
      rw [Nat.add_assoc, ← Text.newlines_append] at reading
      obtain ⟨⟨words, eq, places⟩, errors⟩ := ih reading
      refine ⟨⟨_ :: words, congrArg (_ :: ·) eq, ?_⟩, errors⟩
      rw [List.filterMap_cons_some denotes.tokenPlace?, List.map_cons, places]
    | blank reading =>
      rw [Nat.add_assoc, ← Text.newlines_append] at reading
      exact ih reading
    | comment reading =>
      rw [Nat.add_assoc, ← Text.newlines_append] at reading
      exact ih reading
    | unclosedString => cases spells
    | stray => cases spells
  | @unclosedString t _ =>
    cases reading with
    | token denotes => cases denotes
    | unclosedString reading =>
      cases reading
      rw [Nat.add_assoc, ← Text.newlines_append]
      exact ⟨⟨[], rfl, rfl⟩, rfl⟩
  | @stray c rest cuts _ longest _ ih =>
    cases reading with
    | token denotes => cases denotes
    | stray reading =>
      rw [newlines_of_stray longest, Nat.add_zero]
      rw [Nat.add_assoc, ← Text.newlines_append] at reading
      obtain ⟨tokens, errors⟩ := ih reading
      rw [List.append_assoc] at tokens errors
      exact ⟨tokens, congrArg (_ :: ·) errors⟩

private lemma pairwise_le_cons {m n : Nat} {l : List Nat} (le : m ≤ n)
    (h : (n :: l).Pairwise (· ≤ ·)) : (m :: n :: l).Pairwise (· ≤ ·) := by
  obtain ⟨first, _⟩ := List.pairwise_cons.mp h
  refine List.pairwise_cons.mpr ⟨List.forall_mem_cons.mpr ⟨le, fun x mem => ?_⟩, h⟩
  exact Nat.le_trans le (first x mem)

/-- Along a reading the lines never go back. -/
lemma Reading.pairwise_lines {line cuts scan} (reading : Reading line cuts scan) :
    (line :: scan.tokens.map Token.line).Pairwise (· ≤ ·) ∧
      (line :: scan.errors.map LexicalError.line).Pairwise (· ≤ ·) := by
  -- In each case what is behind the piece begins on a line that is no earlier.
  have later {line n : Nat} {l : List Nat} (h : ((line + n) :: l).Pairwise (· ≤ ·)) :
      (line :: l).Pairwise (· ≤ ·) :=
    (pairwise_le_cons (Nat.le_add_right line n) h).sublist
      (List.Sublist.cons_cons line (List.sublist_cons_self _ l))
  induction reading with
  | nil => exact ⟨pairwise_le_cons (Nat.le_refl _) (List.pairwise_singleton _ _),
      List.pairwise_singleton _ _⟩
  | token _ _ ih => exact ⟨pairwise_le_cons (Nat.le_refl _) (later ih.1), later ih.2⟩
  | blank _ ih => exact ⟨later ih.1, later ih.2⟩
  | comment _ ih => exact ⟨later ih.1, later ih.2⟩
  | unclosedString _ ih =>
    exact ⟨later ih.1, pairwise_le_cons (Nat.le_add_right _ _) ih.2⟩
  | stray _ ih => exact ⟨later ih.1, pairwise_le_cons (Nat.le_add_right _ _) ih.2⟩

/-- In front of tokens that end with the end marker a call gives an expression, or it reports one
error, on the line of the token that cannot follow those in front of it. -/
lemma Parser.parseReporting_or_blocked {ρ : Type} [Reporter ρ] {tokens} (term : Terminated tokens)
    (reporter : ρ) :
    (∃ tree after,
      State.parseReporting ⟨[], tokens, 0⟩ reporter = .ok (some tree, after, reporter)) ∨
    ∃ w e rest after, tokens = w ++ e.token :: rest ∧
      Blocked (some maxNesting) 0 Level.all w e ∧
      State.parseReporting ⟨[], tokens, 0⟩ reporter =
        .ok (none, after, Reporter.report reporter e.diagnostic) ∧
      e.diagnostic.line = e.token.line := by
  have out : Outcome (some maxNesting) Level.all ⟨[], tokens, 0⟩ _ :=
    expression_outcome term within_zero
  generalize eq : (expression (some maxNesting)).run ⟨[], tokens, 0⟩ = result at out
  cases out with
  | derived =>
    exact .inl ⟨_, _, State.parseReporting_of_ok (State.parse_of_run_ok eq)⟩
  | @blocked _ w rest _ e blk =>
    have run := State.parse_of_run_error eq
    exact .inr ⟨w, e, rest, _, rfl, blk, State.parseReporting_of_error run, e.line_diagnostic⟩

open Lox.Parser in
/-- Lines are exact. A token is on the line of its first character and the end marker on the line of
the end, an unexpected character is on its own line and a string without an end on the last one.
Along the tokens and along the errors the lines never go back. The parser takes the tokens, and its
error is on the line of the token that is in the way. -/
theorem Scan.ofSource_lines (source : Text) :
    ∃ cuts scan words, Scan.ofSource source = .ok scan ∧ Cut source cuts ∧
      (∀ p ∈ Piece.ofCuts [] cuts, p.before ++ p.text <+: source) ∧
      scan.tokens = words ++ [.eof (1 + source.newlines)] ∧
      words.map (fun t => (t.lexeme, t.line)) =
        (Piece.ofCuts [] cuts).filterMap Piece.tokenPlace? ∧
      scan.errors = (Piece.ofCuts [] cuts).filterMap (Piece.error? source) ∧
      (scan.tokens.map Token.line).Pairwise (· ≤ ·) ∧
      (scan.errors.map LexicalError.line).Pairwise (· ≤ ·) ∧
      ∃ start, State.ofTokens scan.tokens = .ok start ∧
        ∀ {ρ : Type} [Reporter ρ] (reporter : ρ),
          (∃ tree after, start.parseReporting reporter = .ok (some tree, after, reporter)) ∨
          ∃ w e rest after, scan.tokens = w ++ e.token :: rest ∧
            Blocked (some maxNesting) 0 Level.all w e ∧
            start.parseReporting reporter =
              .ok (none, after, Reporter.report reporter e.diagnostic) ∧
            e.diagnostic.line = e.token.line := by
  obtain ⟨cuts, scan, run, cut, reading⟩ := exists_reading (.start source)
  have cut : Cut source cuts := cut
  have reading : Reading (1 + Text.newlines []) cuts scan := reading
  obtain ⟨⟨words, eq, places⟩, errors⟩ := reading.pieces cut
  obtain ⟨tokenLines, errorLines⟩ := reading.pairwise_lines
  have term : Terminated scan.tokens := by
    rw [eq]
    exact .append words ⟨_, rfl, rfl⟩
  refine ⟨cuts, scan, words, run, cut, fun p mem => ?_, eq, places, errors, tokenLines.of_cons,
    errorLines.of_cons, _, ofTokens_eq_ok_iff.mpr ⟨term, rfl⟩, parseReporting_or_blocked term⟩
  have front := Piece.prefix_of_mem_ofCuts mem
  rwa [cut.join] at front

end Lox
