import Lox.Proofs.Number.Plain
import Lox.Proofs.Session.Findings

/-!
# Numerals as sources

A numeral is a source with one number, and the tree of that number is written as a numeral of the
same number exactly where it is written without an exponent (`written_numeral_iff`). The language
has no exponents: a numeral with one behind it is scanned as a number and a word, or where the
exponent is negative as a number, the word `e`, a minus and another number
(`Scan.ofSource_exponent`).
-/

namespace Lox

namespace Segment

variable {c : Char} {t u : Text} {segment : Segment} {d : Decimal}

lemma not_spells_numeral_e (numeral : IsNumeral t) : ¬ Spells (t ++ 'e' :: u) segment := by
  intro spells
  obtain ⟨c, t, rfl, digit⟩ := numeral.exists_cons
  have number := atFront_of_spells spells
  rw [atFront_of_isDigit digit] at number
  subst number
  have whole : IsNumeral (c :: t ++ 'e' :: u) := spells
  exact whole.ne_e 'e' (List.mem_append_right _ List.mem_cons_self) rfl

lemma not_spells_e_minus : ¬ Spells ('e' :: '-' :: u) segment := by
  intro spells
  have word := atFront_of_spells spells
  rw [atFront_of_isLetter rfl] at word
  subst word
  obtain ⟨_, _, eq, _, all⟩ := spells
  cases eq
  exact absurd (all '-' List.mem_cons_self) (by decide)

lemma not_spells_minus_cons : ¬ Spells ('-' :: c :: u) segment := by
  intro spells
  have minus := atFront_of_spells spells
  have found : Punctuator.atFront? ('-' :: c :: u) = some .minus := rfl
  rw [atFront_of_other rfl (fun both => absurd both.1 (by decide)) (by decide) rfl rfl, found]
    at minus
  subst minus
  cases spells

lemma e_cons_ne_spelling (all : ∀ c ∈ t, c.isDigit) (k : Keyword) : 'e' :: t ≠ k.spelling := by
  intro eq
  cases k <;> cases eq
  exact absurd (all 'l' List.mem_cons_self) (by decide)

lemma denotes_numeral (numeral : IsNumeral t) (read : Decimal.ofNumeral? t = some d) :
    Denotes .number t (.number d.toBinary64) := by
  have spells : Spells t .number := numeral
  obtain eq | eq | ⟨kind, denotes⟩ := denotes_of_spells spells
  · cases eq
  · cases eq
  · have same := kind?_of_denotes denotes
    rw [kind?, read] at same
    cases same
    exact denotes

lemma IsNumeral.newline_notMem (numeral : IsNumeral t) : '\n' ∉ t :=
  fun mem => absurd (numeral.mem mem) (by decide)

end Segment

open Segment

/-- The text is scanned without an error and as these tokens, all of them on this line. -/
def OnLine (line : Nat) (t : Text) (words : List Token) : Prop :=
  ∃ cuts, Cut t cuts ∧ Reading line cuts ⟨words ++ [.eof line], []⟩

namespace OnLine

variable {line : Nat} {t rest : Text} {words : List Token} {segment : Segment} {kind : Token.Kind}

lemma nil : OnLine line [] [] := ⟨[], .nil, .nil⟩

lemma cons (denotes : Denotes segment t kind) (spells : Spells t segment)
    (longest : IsLongest t (t ++ rest)) (flat : '\n' ∉ t) (behind : OnLine line rest words) :
    OnLine line (t ++ rest) (⟨kind, t, line⟩ :: words) := by
  obtain ⟨cuts, cut, reading⟩ := behind
  have same : line + t.newlines = line := by
    rw [Text.newlines, List.count_eq_zero.mpr flat, Nat.add_zero]
  rw [← same] at reading
  have reading := Reading.token denotes reading
  rw [same] at reading
  exact ⟨_, .segment spells longest cut, reading⟩

lemma single (denotes : Denotes segment t kind) (spells : Spells t segment) (flat : '\n' ∉ t) :
    OnLine line t [⟨kind, t, line⟩] := by
  have longest : IsLongest t (t ++ []) := by
    rw [List.append_nil]
    exact isLongest_self t
  have reads : OnLine line (t ++ []) _ := cons denotes spells longest flat nil
  rwa [List.append_nil] at reads

lemma ofSource (reads : OnLine 1 t words) : Scan.ofSource t = .ok ⟨words ++ [.eof 1], []⟩ := by
  obtain ⟨cuts, cut, reading⟩ := reads
  exact Scan.ofSource_of_reading cut reading

end OnLine

namespace Scan

variable {t : Text} {d : Decimal}

/-- The scan of a source that is a number and nothing else. -/
def ofNumber (x : Binary64) (t : Text) : Scan := ⟨[⟨.number x, t, 1⟩, .eof 1], []⟩

lemma ofSource_numeral (numeral : IsNumeral t) (read : Decimal.ofNumeral? t = some d) :
    ofSource t = .ok (ofNumber d.toBinary64 t) :=
  (OnLine.single (denotes_numeral numeral read) numeral numeral.newline_notMem).ofSource

/-- The tokens that an exponent is scanned as. -/
def exponentTokens : Int → List Token
  | .ofNat n => [⟨.identifier, 'e' :: Text.ofNat n, 1⟩]
  | .negSucc n =>
    [⟨.identifier, ['e'], 1⟩, ⟨.punctuator .minus, ['-'], 1⟩,
      ⟨.number (Decimal.mk (n + 1) 0).toBinary64, Text.ofNat (n + 1), 1⟩]

lemma onLine_e (n : Nat) : OnLine 1 ('e' :: Text.ofNat n) (exponentTokens n) := by
  have all : ∀ c ∈ Text.ofNat n, c.isDigit := fun c => Text.isDigit_of_mem_ofNat
  have parts : ∀ c ∈ Text.ofNat n, isWordPart c := fun c mem => by
    rw [isWordPart, all c mem, Bool.or_true]
  have flat : '\n' ∉ 'e' :: Text.ofNat n := by
    rintro (_ | ⟨_, mem⟩)
    exact absurd (all _ mem) (by decide)
  have word : Spells ('e' :: Text.ofNat n) .word := ⟨'e', _, rfl, rfl, parts⟩
  exact .single (.identifier (e_cons_ne_spelling all)) word flat

lemma onLine_e_minus (n : Nat) :
    OnLine 1 ('e' :: '-' :: Text.ofNat (n + 1)) (exponentTokens (.negSucc n)) := by
  have ne : Text.ofNat (n + 1) ≠ [] := Nat.toDigits_ne_nil
  have all : ∀ c ∈ Text.ofNat (n + 1), c.isDigit := fun c => Text.isDigit_of_mem_ofNat
  have read : Decimal.ofNumeral? (Text.ofNat (n + 1)) = some ⟨n + 1, 0⟩ := by
    rw [ofNumeral?_whole ne all, Text.ofNat, Nat.ofDigitChars_ten_toDigits]
  have numeral : IsNumeral (Text.ofNat (n + 1)) := .inl ⟨ne, all⟩
  have number : OnLine 1 (Text.ofNat (n + 1)) _ :=
    .single (denotes_numeral numeral read) numeral numeral.newline_notMem
  have minus : IsLongest ['-'] (['-'] ++ Text.ofNat (n + 1)) := by
    obtain ⟨c, rest, eq⟩ := List.exists_cons_of_ne_nil ne
    rw [eq]
    exact (isLongest_self _).append_cons fun _ _ => not_spells_minus_cons
  have difference := number.cons (.punctuator (p := .minus)) rfl minus (by decide)
  have nothing (p : Char → Prop) : ∀ c ∈ [], p c := List.forall_mem_nil p
  have word : Spells ['e'] .word := ⟨'e', [], rfl, rfl, nothing _⟩
  have longest : IsLongest ['e'] (['e'] ++ '-' :: Text.ofNat (n + 1)) :=
    (isLongest_self _).append_cons fun _ _ => not_spells_e_minus
  exact difference.cons (.identifier (e_cons_ne_spelling (nothing _))) word longest (by decide)

/-- A numeral with an exponent behind it is not one number. -/
lemma ofSource_exponent (numeral : IsNumeral t) (read : Decimal.ofNumeral? t = some d) (n : Int) :
    ofSource (t ++ 'e' :: Text.ofInt n) =
      .ok ⟨⟨.number d.toBinary64, t, 1⟩ :: exponentTokens n ++ [.eof 1], []⟩ := by
  have exponent : OnLine 1 ('e' :: Text.ofInt n) (exponentTokens n) := by
    cases n with
    | ofNat n => exact onLine_e n
    | negSucc n => exact onLine_e_minus n
  have longest : IsLongest t (t ++ 'e' :: Text.ofInt n) :=
    (isLongest_self t).append_cons fun _ _ => not_spells_numeral_e numeral
  have number := denotes_numeral numeral read
  exact (OnLine.cons number numeral longest numeral.newline_notMem exponent).ofSource

end Scan

variable {t : Text} {d : Decimal} {m : Nat}

open Lox.Parser in
lemma Findings.ofSource_numeral (numeral : IsNumeral t) (read : Decimal.ofNumeral? t = some d) :
    ofSource t =
      .ok ⟨Scan.ofNumber d.toBinary64 t, .ok (.literal (.number d.toBinary64))⟩ := by
  have term : Terminated (Scan.ofNumber d.toBinary64 t).tokens := ⟨_, rfl, rfl⟩
  have begins : BeginsWith (Scan.ofNumber d.toBinary64 t).tokens
      (.literal (.number d.toBinary64)) :=
    ⟨_, _, [], rfl, (Derives.literal rfl).of_nil, Nat.zero_le _, rfl⟩
  obtain ⟨after, parsed⟩ := (parse_eq_ok_iff term).mpr begins
  exact ofSource_of_parse (Scan.ofSource_numeral numeral read) term parsed

/-- Without an exponent the text of a finite number is a numeral, and scanned as the number. -/
lemma Scan.ofSource_shortest (finite : m < Binary64.infinityMagnitude)
    (no : 'e' ∉ (Decimal.shortest m).toText) :
    IsFraction (Decimal.shortest m).toText ∧
      ofSource (Decimal.shortest m).toText =
        .ok (ofNumber (.ofMagnitude m) (Decimal.shortest m).toText) := by
  obtain ⟨fraction, d, read, value⟩ := Decimal.isFraction_toText no
  have same : d.toBinary64 = .ofMagnitude m := by
    rw [Decimal.toBinary64, Decimal.magnitude_eq_of_value_eq value,
      Decimal.magnitude_shortest finite]
  have scanned := ofSource_numeral fraction.isNumeral read
  rw [same] at scanned
  exact ⟨fraction, scanned⟩

/-- A numeral alone is a source without errors, and it is parsed as its number. If the number is
finite, its tree is written as digits around a point, and scanned from there as the same number and
nothing else, exactly where the number is zero or in the range of `Binary64.IsPlain`. Anywhere else
an exponent is written, which is scanned as further tokens. -/
theorem written_numeral_iff (numeral : IsNumeral t) :
    ∃ x text,
      Findings.ofSource t = .ok ⟨Scan.ofNumber x t, .ok (.literal (.number x))⟩ ∧
      (Expr.literal (.number x)).toText = text ∧
      (x.magnitude < Binary64.infinityMagnitude →
        (IsFraction text ∧ Scan.ofSource text = .ok (Scan.ofNumber x text) ↔ x.IsPlain) ∧
        (¬ x.IsPlain → ∃ front d n, text = front ++ 'e' :: Text.ofInt n ∧
          IsNumeral front ∧ Decimal.ofNumeral? front = some d ∧
          Scan.ofSource text =
            .ok ⟨⟨.number d.toBinary64, front, 1⟩ :: Scan.exponentTokens n ++ [.eof 1], []⟩)) := by
  obtain ⟨d, read⟩ := exists_ofNumeral? numeral
  refine ⟨d.toBinary64, _, Findings.ofSource_numeral numeral read, rfl, fun finite => ?_⟩
  have plain := Binary64.e_notMem_shortest_iff finite
  have magnitude : d.toBinary64.magnitude = d.magnitude :=
    Binary64.magnitude_ofMagnitude d.magnitude_le
  rw [magnitude] at finite plain
  have text : (Expr.literal (.number d.toBinary64)).toText =
      (Decimal.shortest d.magnitude).toText := Binary64.toText_ofMagnitude finite
  rw [text]
  refine ⟨⟨fun written => ?_, fun isPlain => ?_⟩, fun notPlain => ?_⟩
  · exact plain.mp fun mem => written.1.isNumeral.ne_e 'e' mem rfl
  · exact Scan.ofSource_shortest finite (plain.mpr isPlain)
  · obtain ⟨front, n, eq, numeral'⟩ :=
      Decimal.exists_exponent (not_not.mp fun no => notPlain (plain.mp no))
    obtain ⟨d', read'⟩ := exists_ofNumeral? numeral'
    refine ⟨front, d', n, eq, numeral', read', ?_⟩
    rw [eq]
    exact Scan.ofSource_exponent numeral' read' n

theorem written_numeral_iff_tenth :
    IsNumeral "0.10".toList ∧
      ∃ x : Binary64, x.magnitude < Binary64.infinityMagnitude ∧ x.IsPlain ∧
        Findings.ofSource "0.10".toList =
          .ok ⟨Scan.ofNumber x "0.10".toList, .ok (.literal (.number x))⟩ ∧
        (Expr.literal (.number x)).toText = "0.1".toList ∧ IsFraction "0.1".toList ∧
        Scan.ofSource "0.1".toList = .ok (Scan.ofNumber x "0.1".toList) := by
  have numeral : IsNumeral "0.10".toList :=
    .inr ⟨['0'], ['1', '0'], rfl, by decide, Text.forall_of_all rfl, by decide,
      Text.forall_of_all rfl⟩
  obtain ⟨x, text, found, written, reads⟩ := written_numeral_iff numeral
  have tenth : Findings.ofSource "0.10".toList =
      .ok ⟨Scan.ofNumber ⟨0x3FB999999999999A⟩ "0.10".toList,
        .ok (.literal (.number ⟨0x3FB999999999999A⟩))⟩ := by decide +kernel
  cases found.symm.trans tenth
  have finite : (Binary64.mk 0x3FB999999999999A).magnitude < Binary64.infinityMagnitude := by
    decide +kernel
  have shown : (Expr.literal (.number ⟨0x3FB999999999999A⟩)).toText = "0.1".toList := by
    decide +kernel
  rw [shown] at written
  subst written
  have isPlain : (Binary64.mk 0x3FB999999999999A).IsPlain := by
    refine .inr ⟨(Decimal.pow_le_value_iff _ 1070).mpr (by decide +kernel), not_le.mp fun le => ?_⟩
    exact absurd ((Decimal.pow_le_value_iff _ 1090).mp le) (by decide +kernel)
  obtain ⟨fraction, scanned⟩ := (reads finite).1.mpr isPlain
  exact ⟨numeral, _, finite, isPlain, tenth, shown, fraction, scanned⟩

/-- Ten to the sixteenth is written with an exponent, and not scanned as a number from there. -/
theorem written_numeral_exponent :
    IsNumeral "10000000000000000".toList ∧
      ∃ x : Binary64, x.magnitude < Binary64.infinityMagnitude ∧
        Findings.ofSource "10000000000000000".toList =
          .ok ⟨Scan.ofNumber x "10000000000000000".toList, .ok (.literal (.number x))⟩ ∧
        (Expr.literal (.number x)).toText = "1e16".toList ∧ ¬ IsFraction "1e16".toList ∧
        Scan.ofSource "1e16".toList =
          .ok ⟨[⟨.number ⟨0x3FF0000000000000⟩, ['1'], 1⟩, ⟨.identifier, "e16".toList, 1⟩, .eof 1],
            []⟩ := by
  have numeral : IsNumeral "10000000000000000".toList :=
    .inl ⟨by decide, Text.forall_of_all rfl⟩
  have no : ¬ IsFraction "1e16".toList := fun fraction =>
    fraction.isNumeral.ne_e 'e' (by decide) rfl
  refine ⟨numeral, ⟨0x4341C37937E08000⟩, ?_, ?_, ?_, no, ?_⟩
  all_goals decide +kernel

end Lox
