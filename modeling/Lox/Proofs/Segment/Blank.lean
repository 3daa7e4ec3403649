import Lox.Proofs.Segment.Unique

/-!
# Blanks end segments

A blank is a segment of its own, and of the other classes only comments and strings have texts with
a blank in them (`Spells.of_blank_mem`). So what is in front of a blank is cut as if the source
ended there, unless it is a comment or a string that goes on (`IsLongest.append_blank`).
-/

namespace Lox.Segment

variable {b : Char} {t u source rest : Text} {segment : Segment}

lemma isWordPart_of_isBlank (blank : isBlank b) : isWordPart b = false := by
  simp only [isBlank, Bool.or_eq_true, decide_eq_true_eq] at blank
  obtain ((rfl | rfl) | rfl) | rfl := blank <;> rfl

lemma isDigit_of_isBlank (blank : isBlank b) : b.isDigit = false :=
  (Bool.or_eq_false_iff.mp (isWordPart_of_isBlank blank)).2

lemma isBlank_of_mem_spelling {p : Punctuator} (mem : b ∈ p.spelling) : isBlank b = false := by
  have all : p.spelling.all (!isBlank ·) := by cases p <;> rfl
  exact Bool.not_eq_true' _ ▸ List.all_eq_true.mp all b mem

/-- A text of a class with a blank in it is the blank alone, a comment or a string. -/
lemma Spells.of_blank_mem (spells : Spells u segment) (blank : isBlank b) (mem : b ∈ u) :
    u = [b] ∨ segment = .comment ∨ segment = .string := by
  cases segment with
  | blank =>
    obtain ⟨c, rfl, _⟩ := spells
    rw [List.mem_singleton.mp mem]
    exact .inl rfl
  | comment => exact .inr (.inl rfl)
  | punctuator p =>
    cases spells
    exact absurd blank (Bool.not_eq_true _ ▸ isBlank_of_mem_spelling mem)
  | string => exact .inr (.inr rfl)
  | number =>
    have no : ¬ b.isDigit := Bool.not_eq_true _ ▸ isDigit_of_isBlank blank
    obtain ⟨_, all⟩ | ⟨whole, fraction, rfl, _, all, _, all'⟩ := spells
    · exact absurd (all _ mem) no
    · obtain mem | mem := List.mem_append.mp mem
      · exact absurd (all _ mem) no
      · cases mem with
        | head => cases blank
        | tail _ mem => exact absurd (all' _ mem) no
  | word =>
    obtain ⟨c, parts, rfl, letter, all⟩ := spells
    cases mem with
    | head =>
      rw [not_isBlank_of_isLetter letter] at blank
      cases blank
    | tail _ mem => exact absurd (all _ mem) (Bool.not_eq_true _ ▸ isWordPart_of_isBlank blank)
  | unclosedString => cases spells
  | stray => cases spells

/-- A text of a class that begins with a quote has another. -/
lemma Spells.quote_mem (spells : Spells ('"' :: u) segment) : '"' ∈ u := by
  have front := atFront_of_spells spells
  rw [atFront_quote] at front
  split at front
  · cases front
    obtain ⟨inside, eq, _⟩ := spells
    rw [List.cons_append] at eq
    cases eq
    exact List.mem_append_right inside List.mem_cons_self
  · cases front
    cases spells

/-- A source that begins with a text of a class has its first string closed. -/
lemma Spells.quote_mem_of_append (spells : Spells t segment) {inside : Text}
    (eq : t ++ rest = '"' :: inside) : '"' ∈ inside := by
  obtain ⟨c, u, rfl⟩ := List.exists_cons_of_ne_nil (ne_nil_of_spells spells)
  rw [List.cons_append, List.cons.injEq] at eq
  obtain ⟨rfl, rfl⟩ := eq
  exact List.mem_append_left rest spells.quote_mem

/-- What begins with two slashes and goes as far as the longest segment has a line break in it, or
there is one behind it. -/
lemma IsLongest.newline_mem {c : Char} {line : Text} (longest : IsLongest t (source ++ c :: rest))
    (ne : c ≠ '\n') (short : t.length ≤ source.length) (eq : source = '/' :: '/' :: line) :
    '\n' ∈ line := by
  refine by_contra fun no => ?_
  -- With the character behind it the comment would be longer.
  have comment : Spells ('/' :: '/' :: (line ++ [c])) .comment := by
    refine ⟨line ++ [c], rfl, fun mem => ?_⟩
    obtain mem | mem := List.mem_append.mp mem
    · exact no mem
    · exact ne (List.mem_singleton.mp mem).symm
  have front : '/' :: '/' :: (line ++ [c]) <+: source ++ c :: rest := ⟨rest, by simp [eq]⟩
  have le := longest _ _ front comment
  rw [eq] at short
  simp only [List.length_append, List.length_cons, List.length_nil] at le short
  omega

/-- A character that is no segment is no line break. -/
lemma IsLongest.ne_newline {c : Char} (longest : IsLongest [] (c :: rest)) : c ≠ '\n' := by
  rintro rfl
  have spells : Spells ['\n'] blank := ⟨_, rfl, rfl⟩
  exact not_isLongest_nil spells longest

lemma isLongest_self (t : Text) : IsLongest t t := fun _ _ front _ => front.length_le

/-- A character that no class goes on with ends what is in front of it. -/
lemma IsLongest.append_cons (longest : IsLongest t source)
    (no : ∀ u segment, ¬ Spells (source ++ b :: u) segment) :
    IsLongest t (source ++ b :: rest) := by
  intro segment u front spells
  obtain within | ⟨v, rfl⟩ :=
    List.prefix_or_prefix_of_prefix front (List.prefix_append source (b :: rest))
  · exact longest segment u within spells
  · cases v with
    | nil =>
      rw [List.append_nil] at spells ⊢
      exact longest segment source List.prefix_rfl spells
    | cons x v =>
      obtain ⟨rfl, _⟩ := List.cons_prefix_cons.mp ((List.prefix_append_right_inj source).mp front)
      exact absurd spells (no v segment)

/-- A blank ends what is in front of it, unless a string or a comment goes on there. -/
lemma IsLongest.append_blank (blank : isBlank b) (longest : IsLongest t source) (ne : source ≠ [])
    (strings : ∀ inside, source = '"' :: inside → '"' ∈ inside)
    (comments : ∀ line, source = '/' :: '/' :: line → '\n' ∈ line ∨ b = '\n') :
    IsLongest t (source ++ b :: rest) := by
  refine longest.append_cons fun u segment spells => ?_
  -- A text that takes the blank would be a comment or a string that goes on.
  obtain ⟨c, s, rfl⟩ := List.exists_cons_of_ne_nil ne
  have mem : b ∈ c :: s ++ b :: u := List.mem_append_right _ List.mem_cons_self
  obtain eq | rfl | rfl := spells.of_blank_mem blank mem
  · rw [List.cons_append, List.cons.injEq, List.append_eq_nil_iff] at eq
    cases eq.2.2
  · obtain ⟨line, eq, no⟩ := spells
    rw [List.cons_append, List.cons.injEq] at eq
    obtain ⟨rfl, eq⟩ := eq
    cases s with
    | nil =>
      cases eq
      cases blank
    | cons y s =>
      cases eq
      obtain mem | rfl := comments s rfl
      · exact absurd (List.mem_append_left _ mem) no
      · exact absurd (List.mem_append_right s List.mem_cons_self) no
  · obtain ⟨inside, eq, no⟩ := spells
    rw [List.cons_append, List.cons_append, List.cons.injEq] at eq
    obtain ⟨rfl, eq⟩ := eq
    have eq := congrArg List.dropLast eq
    rw [List.dropLast_append_cons, List.dropLast_concat] at eq
    rw [← eq] at no
    exact absurd (List.mem_append_left _ (strings s rfl)) no

end Lox.Segment
