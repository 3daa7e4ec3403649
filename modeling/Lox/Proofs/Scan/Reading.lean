import Lox.Proofs.Segment.Unique

/-!
# Scanning reads the cut

A `Reading` says what scanning gives for a source that is cut: one token for each segment that
denotes one, one error for each fault, in order, and the end marker. Every source has one cut, and
its scan is the reading of it (`Scan.ofSource_reading`).
-/

namespace Lox

namespace Segment

/-- The kind of the token that a segment with this text is. Blanks, comments and faults are none. -/
inductive Denotes : Segment → Text → Token.Kind → Prop where
  | punctuator {p : Punctuator} :
    Denotes (punctuator p) p.spelling (.punctuator p)
  | string {inside : Text} :
    Denotes string ('"' :: inside ++ ['"']) (.string inside)
  | whole {t : Text} :
    t ≠ [] →
    (∀ c ∈ t, c.isDigit) →
    Denotes number t (.number (Decimal.mk (Nat.ofDigitChars 10 t 0) 0).toBinary64)
  | fraction {whole fraction : Text} :
    whole ≠ [] →
    (∀ c ∈ whole, c.isDigit) →
    fraction ≠ [] →
    (∀ c ∈ fraction, c.isDigit) →
    Denotes number (whole ++ '.' :: fraction)
      (.number
        (Decimal.mk (Nat.ofDigitChars 10 (whole ++ fraction) 0) (-fraction.length)).toBinary64)
  | keyword {k : Keyword} :
    Denotes word k.spelling (.keyword k)
  | identifier {t : Text} :
    (∀ k : Keyword, t ≠ k.spelling) →
    Denotes word t .identifier

end Segment

open Segment

/-- What scanning gives for a source that is cut and that starts on a line. A token has the line on
which it starts, and an error has the line on which it ends. -/
inductive Reading : Nat → List (Segment × Text) → Scan → Prop where
  | nil {line : Nat} :
    Reading line [] ⟨[.eof line], []⟩
  | token {line segment t kind cuts scan} :
    Denotes segment t kind →
    Reading (line + t.newlines) cuts scan →
    Reading line ((segment, t) :: cuts) ⟨⟨kind, t, line⟩ :: scan.tokens, scan.errors⟩
  | blank {line t cuts scan} :
    Reading (line + t.newlines) cuts scan →
    Reading line ((blank, t) :: cuts) scan
  | comment {line t cuts scan} :
    Reading (line + t.newlines) cuts scan →
    Reading line ((comment, t) :: cuts) scan
  | unclosedString {line t cuts scan} :
    Reading (line + t.newlines) cuts scan →
    Reading line ((unclosedString, t) :: cuts)
      ⟨scan.tokens, ⟨.unclosedString, line + t.newlines⟩ :: scan.errors⟩
  | stray {line c t cuts scan} :
    Reading (line + t.newlines) cuts scan →
    Reading line ((stray c, t) :: cuts)
      ⟨scan.tokens, ⟨.unexpectedCharacter c, line + t.newlines⟩ :: scan.errors⟩

variable {t : Text} {segment : Segment} {kind kind' : Token.Kind}

lemma ofNumeral?_whole (ne : t ≠ []) (all : ∀ c ∈ t, c.isDigit) :
    Decimal.ofNumeral? t = some ⟨Nat.ofDigitChars 10 t 0, 0⟩ := by
  have some : t.isEmpty = false := List.isEmpty_eq_false_iff.mpr ne
  rw [Decimal.ofNumeral?, List.takeWhile_eq_self_iff.mpr all, List.dropWhile_eq_nil_iff.mpr all]
  simp only [some, Bool.false_eq_true, if_false]

lemma ofNumeral?_fraction {whole fraction : Text} (ne : whole ≠ [])
    (all : ∀ c ∈ whole, c.isDigit) (ne' : fraction ≠ []) (all' : ∀ c ∈ fraction, c.isDigit) :
    Decimal.ofNumeral? (whole ++ '.' :: fraction) =
      some ⟨Nat.ofDigitChars 10 (whole ++ fraction) 0, -fraction.length⟩ := by
  have some : whole.isEmpty = false := List.isEmpty_eq_false_iff.mpr ne
  have some' : fraction.isEmpty = false := List.isEmpty_eq_false_iff.mpr ne'
  rw [Decimal.ofNumeral?, takeWhile_append_cons all rfl, dropWhile_append_cons all rfl]
  simp only [some, some', List.all_eq_true.mpr all', Bool.not_true, Bool.or_self,
    Bool.false_eq_true, if_false]

lemma exists_ofNumeral? (numeral : IsNumeral t) : ∃ d, Decimal.ofNumeral? t = some d := by
  obtain ⟨ne, all⟩ | ⟨whole, fraction, rfl, ne, all, ne', all'⟩ := numeral
  · exact ⟨_, ofNumeral?_whole ne all⟩
  · exact ⟨_, ofNumeral?_fraction ne all ne' all'⟩

/-- What a segment denotes is the kind of token that it is scanned as. -/
lemma kind?_of_denotes (h : Denotes segment t kind) : segment.kind? t = .ok (some kind) := by
  cases h with
  | punctuator => rfl
  | string =>
    rw [kind?, Text.unquote_quoted]
    rfl
  | whole ne all => rw [kind?, ofNumeral?_whole ne all]
  | fraction ne all ne' all' => rw [kind?, ofNumeral?_fraction ne all ne' all']
  | keyword => rw [kind?, Keyword.ofText?_spelling]
  | identifier no => rw [kind?, Keyword.ofText?_eq_none no]

lemma denotes_unique (h : Denotes segment t kind) (h' : Denotes segment t kind') :
    kind = kind' := by
  have same := (kind?_of_denotes h).symm.trans (kind?_of_denotes h')
  cases same
  rfl

/-- A segment of a class separates tokens or denotes one. -/
lemma denotes_of_spells (h : Spells t segment) :
    segment = blank ∨ segment = comment ∨ ∃ kind, Denotes segment t kind := by
  cases segment with
  | blank => exact .inl rfl
  | comment => exact .inr (.inl rfl)
  | punctuator p =>
    cases h
    exact .inr (.inr ⟨_, .punctuator⟩)
  | string =>
    obtain ⟨inside, rfl, _⟩ := h
    exact .inr (.inr ⟨_, .string⟩)
  | number =>
    obtain ⟨ne, all⟩ | ⟨whole, fraction, rfl, ne, all, ne', all'⟩ := h
    · exact .inr (.inr ⟨_, .whole ne all⟩)
    · exact .inr (.inr ⟨_, .fraction ne all ne' all'⟩)
  | word =>
    by_cases reserved : ∃ k : Keyword, t = k.spelling
    · obtain ⟨k, rfl⟩ := reserved
      exact .inr (.inr ⟨_, .keyword⟩)
    · exact .inr (.inr ⟨_, .identifier (not_exists.mp reserved)⟩)
  | unclosedString => cases h
  | stray => cases h

/-- A cut is read in one way only. -/
theorem Reading.unique {line cuts scan scan'} (h : Reading line cuts scan)
    (h' : Reading line cuts scan') : scan' = scan := by
  induction h generalizing scan' with
  | nil =>
    cases h'
    rfl
  | token denotes _ ih =>
    cases h' with
    | token denotes' h' => rw [ih h', denotes_unique denotes denotes']
    | _ => cases denotes
  | blank _ ih =>
    cases h' with
    | token denotes => cases denotes
    | blank h' => exact ih h'
  | comment _ ih =>
    cases h' with
    | token denotes => cases denotes
    | comment h' => exact ih h'
  | unclosedString _ ih =>
    cases h' with
    | token denotes => cases denotes
    | unclosedString h' => rw [ih h']
  | stray _ ih =>
    cases h' with
    | token denotes => cases denotes
    | stray h' => rw [ih h']

/-- The errors of a reading are those that its segments are. -/
lemma Reading.map_cause {line cuts scan} (reading : Reading line cuts scan) :
    scan.errors.map LexicalError.cause = cuts.filterMap (cause? ·.1) := by
  induction reading with
  | nil => rfl
  | @token _ segment _ _ _ _ denotes _ ih =>
    have none : segment.cause? = none := by cases denotes <;> rfl
    simp only [List.filterMap_cons, none]
    exact ih
  | blank _ ih => exact ih
  | comment _ ih => exact ih
  | unclosedString _ ih => exact congrArg (_ :: ·) ih
  | stray _ ih => exact congrArg (_ :: ·) ih

/-- What one round of scanning adds continues a reading. -/
lemma reading_cons {line cuts scan} (spells : segment.cause? = none → Spells t segment)
    (reading : Reading (line + t.newlines) cuts scan) :
    ∃ kind?, segment.kind? t = .ok kind? ∧
      Reading line ((segment, t) :: cuts)
        ⟨(kind?.map (⟨·, t, line⟩)).toList ++ scan.tokens,
          (segment.cause?.map (⟨·, line + t.newlines⟩)).toList ++ scan.errors⟩ := by
  cases ok : segment.cause? with
  | none =>
    obtain rfl | rfl | ⟨kind, denotes⟩ := denotes_of_spells (spells ok)
    · exact ⟨none, rfl, .blank reading⟩
    · exact ⟨none, rfl, .comment reading⟩
    · exact ⟨some kind, kind?_of_denotes denotes, .token denotes reading⟩
  | some cause =>
    cases segment with
    | unclosedString =>
      cases ok
      exact ⟨none, rfl, .unclosedString reading⟩
    | stray c =>
      cases ok
      exact ⟨none, rfl, .stray reading⟩
    | _ => cases ok

/-- Scanning from a cursor reads a cut of what lies ahead. -/
lemma exists_reading (start : Cursor) :
    ∃ cuts scan, Scan.ofCursor start = .ok scan ∧ Cut start.rest cuts ∧
      Reading start.line cuts scan := by
  -- Each round leaves less ahead, so the induction is on how much lies ahead.
  generalize size : start.rest.length = n
  induction n using Nat.strong_induction_on generalizing start with
  | _ n ih =>
    cases ahead : start.rest with
    | nil => exact ⟨[], _, Scan.ofCursor_of_nil ahead, .nil, .nil⟩
    | cons c t =>
      have shorter : (start.skip ((atFront c t).2 + 1)).rest.length < n := by
        rw [← size, Cursor.rest_skip, ahead, List.length_drop, List.length_cons]
        omega
      obtain ⟨cuts, scan, run, cut, reading⟩ := ih _ shorter _ rfl
      rw [Cursor.rest_skip, ahead] at cut
      rw [Cursor.line_skip, ahead] at reading
      obtain ⟨kind?, kind, reading⟩ := reading_cons spells_atFront reading
      exact ⟨_, _, Scan.ofCursor_of_cons ahead rfl kind run, cut_atFront cut, reading⟩

/-- A source is cut into longest segments in one way, without a loss, and its scan is the reading of
this cut from line one. -/
theorem Scan.ofSource_reading (source : Text) :
    ∃ cuts scan, Scan.ofSource source = .ok scan ∧
      Cut source cuts ∧ (∀ cuts', Cut source cuts' → cuts' = cuts) ∧
      cuts.flatMap Prod.snd = source ∧ (∀ piece ∈ cuts, piece.2 ≠ []) ∧
      ∀ scan', Reading 1 cuts scan' ↔ scan' = scan := by
  obtain ⟨cuts, scan, run, cut, reading⟩ := exists_reading (.start source)
  refine ⟨cuts, scan, run, cut, fun _ => cut.unique, cut.join, cut.ne_nil, fun scan' => ?_⟩
  constructor
  · exact reading.unique
  · rintro rfl
    exact reading

end Lox
