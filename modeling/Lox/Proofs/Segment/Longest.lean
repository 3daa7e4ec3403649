import Lox.Scan
import Lox.Segment.Cut
import Mathlib.Data.List.TakeWhile

/-!
# The segment at the front is the longest

The front of a source is cut by looks at one or two characters and by runs of characters of one
kind; the classes of `Spells` know nothing of either. Here the two meet. `Shape` lists what the
front can be, with what was seen there (`shape_atFront`). Each shape spells its text
(`spells_atFront`), and a front part of any class is no longer than the segment that is cut off
(`le_atFront`), so it is the longest one, and a fault stands only where no front part is of a class.
-/

namespace Lox.Segment

variable {c : Char} {t u v w : Text} {segment : Segment} {p : Char → Bool}

lemma length_le_takeWhile (front : u <+: t) (all : ∀ x ∈ u, p x) :
    u.length ≤ (t.takeWhile p).length := by
  obtain ⟨v, rfl⟩ := front
  rw [List.takeWhile_append_of_pos all, List.length_append]
  exact Nat.le_add_right _ _

/-- A text is a run, or there is a first character that ends one. -/
lemma all_or_exists_append (p : Char → Bool) (t : Text) :
    (∀ x ∈ t, p x) ∨ ∃ u x v, t = u ++ x :: v ∧ (∀ y ∈ u, p y) ∧ p x = false := by
  induction t with
  | nil => exact .inl nofun
  | cons c t ih =>
    cases eq : p c with
    | false => exact .inr ⟨[], c, t, rfl, nofun, eq⟩
    | true =>
      obtain all | ⟨u, x, v, rfl, all, no⟩ := ih
      · exact .inl (List.forall_mem_cons.mpr ⟨eq, all⟩)
      · exact .inr ⟨c :: u, x, v, rfl, List.forall_mem_cons.mpr ⟨eq, all⟩, no⟩

lemma takeWhile_append_cons {x : Char} (all : ∀ y ∈ u, p y) (no : p x = false) :
    (u ++ x :: v).takeWhile p = u := by
  rw [List.takeWhile_append_of_pos all, List.takeWhile_cons_of_neg (Bool.not_eq_true _ ▸ no),
    List.append_nil]

lemma dropWhile_append_cons {x : Char} (all : ∀ y ∈ u, p y) (no : p x = false) :
    (u ++ x :: v).dropWhile p = x :: v := by
  rw [List.dropWhile_append_of_pos all, List.dropWhile_cons_of_neg (Bool.not_eq_true _ ▸ no)]

lemma take_length_takeWhile : t.take (t.takeWhile p).length = t.takeWhile p :=
  (List.prefix_iff_eq_take.mp (List.takeWhile_prefix p)).symm

lemma le_numberTail : (t.takeWhile Char.isDigit).length ≤ numberTail t := by
  rw [numberTail]
  split
  · split <;> omega
  · exact Nat.le_refl _

lemma numberTail_point {d : Char} (whole : ∀ x ∈ u, x.isDigit) (digit : d.isDigit) :
    numberTail (u ++ '.' :: d :: v) = u.length + 2 + (v.takeWhile Char.isDigit).length := by
  rw [numberTail, takeWhile_append_cons whole rfl, dropWhile_append_cons whole rfl]
  exact if_pos digit

/-- The first quote behind a quote ends the string. -/
lemma atFront_string (no : '"' ∉ u) : atFront '"' (u ++ '"' :: v) = (string, u.length + 1) := by
  have all : ∀ x ∈ u, decide (x ≠ '"') := fun x mem => decide_eq_true fun e => no (e ▸ mem)
  rw [atFront_quote, takeWhile_append_cons all rfl, if_pos (by simp)]

/-- A digit and what goes on with it are a numeral. -/
lemma isNumeral_take (digit : c.isDigit) : IsNumeral ((c :: t).take (numberTail t + 1)) := by
  rw [List.take_succ_cons]
  obtain all | ⟨u, x, v, rfl, all, no⟩ := all_or_exists_append Char.isDigit t
  · have tail : numberTail t = t.length := by
      rw [numberTail, List.dropWhile_eq_nil_iff.mpr all, List.takeWhile_eq_self_iff.mpr all]
    rw [tail, List.take_length]
    exact .inl ⟨List.cons_ne_nil _ _, List.forall_mem_cons.mpr ⟨digit, all⟩⟩
  · have whole : IsNumeral (c :: (u ++ x :: v).take u.length) := by
      rw [List.take_left]
      exact .inl ⟨List.cons_ne_nil _ _, List.forall_mem_cons.mpr ⟨digit, all⟩⟩
    rw [numberTail, takeWhile_append_cons all no, dropWhile_append_cons all no]
    -- Behind the digits, only a point in front of another digit goes on with the number.
    split
    case h_1 d f eq =>
      cases eq
      by_cases digit' : d.isDigit
      · rw [if_pos digit', Nat.add_assoc, List.take_length_add_append, Nat.add_comm 2,
          List.take_succ_cons, List.take_succ_cons, take_length_takeWhile]
        exact .inr ⟨c :: u, d :: f.takeWhile Char.isDigit, rfl, List.cons_ne_nil _ _,
          List.forall_mem_cons.mpr ⟨digit, all⟩, List.cons_ne_nil _ _,
          List.forall_mem_cons.mpr ⟨digit', fun _ mem => List.mem_takeWhile_imp mem⟩⟩
      · rw [if_neg digit']
        exact whole
    case h_2 => exact whole

/-- Behind its first digit a numeral goes on with digits, or with digits around a point. -/
lemma cases_of_isNumeral (h : IsNumeral (c :: u)) :
    c.isDigit ∧ ((∀ x ∈ u, x.isDigit) ∨
      ∃ whole d fraction, u = whole ++ '.' :: d :: fraction ∧
        (∀ x ∈ whole, x.isDigit) ∧ d.isDigit ∧ ∀ x ∈ fraction, x.isDigit) := by
  obtain ⟨_, all⟩ | ⟨whole, fraction, eq, ne, all, ne', all'⟩ := h
  · obtain ⟨digit, all⟩ := List.forall_mem_cons.mp all
    exact ⟨digit, .inl all⟩
  · obtain ⟨nil, _⟩ | ⟨whole, rfl, rfl⟩ := List.cons_eq_append_iff.mp eq
    · exact absurd nil ne
    · obtain ⟨digit, all⟩ := List.forall_mem_cons.mp all
      obtain ⟨d, fraction, rfl⟩ := List.exists_cons_of_ne_nil ne'
      obtain ⟨digit', all'⟩ := List.forall_mem_cons.mp all'
      exact ⟨digit, .inr ⟨whole, d, fraction, rfl, all, digit', all'⟩⟩

/-- A numeral at the front ends no later than the number that is cut off. -/
lemma le_numberTail_of_isNumeral (h : IsNumeral (c :: u)) (front : u <+: t) :
    c.isDigit ∧ u.length ≤ numberTail t := by
  obtain ⟨digit, all | ⟨whole, d, fraction, rfl, all, digit', all'⟩⟩ := cases_of_isNumeral h
  · exact ⟨digit, Nat.le_trans (length_le_takeWhile front all) le_numberTail⟩
  · obtain ⟨v, rfl⟩ := front
    have le := length_le_takeWhile (List.prefix_append fraction v) all'
    refine ⟨digit, ?_⟩
    rw [List.append_assoc, List.cons_append, List.cons_append, numberTail_point all digit',
      List.length_append, List.length_cons, List.length_cons]
    omega

lemma ne_nil_of_spells (h : Spells t segment) : t ≠ [] := by
  rintro rfl
  cases segment with
  | blank => obtain ⟨_, eq, _⟩ := h; cases eq
  | comment => obtain ⟨_, eq, _⟩ := h; cases eq
  | punctuator p => cases p <;> cases h
  | string => obtain ⟨_, eq, _⟩ := h; cases eq
  | number =>
    obtain ⟨ne, _⟩ | ⟨whole, _, eq, _⟩ := h
    · exact ne rfl
    · cases whole <;> cases eq
  | word => obtain ⟨_, _, eq, _⟩ := h; cases eq
  | unclosedString => cases h
  | stray => cases h

/-- The first character of a punctuator begins no other class but the comments. -/
lemma head_spelling {q : Punctuator} (h : c :: u = q.spelling) :
    isBlank c = false ∧ c ≠ '"' ∧ c.isDigit = false ∧ isLetter c = false := by
  cases q <;> cases h <;> decide

/-- A front part of a class is no longer than the segment that is cut off, which is no fault. -/
lemma le_atFront (h : Spells (c :: u) segment) (front : u <+: t) :
    u.length ≤ (atFront c t).2 ∧ (atFront c t).1.cause? = none := by
  cases segment with
  | blank =>
    obtain ⟨_, eq, blank⟩ := h
    cases eq
    rw [atFront_of_isBlank blank]
    exact ⟨Nat.le_refl _, rfl⟩
  | comment =>
    obtain ⟨line, eq, no⟩ := h
    cases eq
    obtain ⟨v, rfl⟩ := front
    rw [List.cons_append, atFront_comment]
    refine ⟨length_le_takeWhile (List.prefix_append _ v) fun x mem => decide_eq_true ?_, rfl⟩
    rintro rfl
    cases mem with
    | tail _ mem => exact no mem
  | punctuator q =>
    -- Of the punctuators a slash alone can be the front part of another class, the comments.
    by_cases comment : c = '/' ∧ t.head? = some '/'
    · obtain ⟨rfl, head⟩ := comment
      obtain ⟨t, rfl⟩ := List.head?_eq_some_iff.mp head
      have eq : u = [] := by
        cases q <;> cases h
        rfl
      rw [atFront_comment, eq]
      exact ⟨Nat.zero_le _, rfl⟩
    · obtain ⟨blank, quote, digit, letter⟩ := head_spelling h
      have front : q.spelling <+: c :: t := h ▸ List.cons_prefix_cons.mpr ⟨rfl, front⟩
      rw [atFront_of_other blank comment quote digit letter]
      cases found : Punctuator.atFront? (c :: t) with
      | none => exact absurd front (Punctuator.atFront?_eq_none found q)
      | some q' =>
        have le := (Punctuator.atFront?_eq_some found).2 q front
        rw [← h] at le
        exact ⟨Nat.le_sub_one_of_lt le, rfl⟩
  | string =>
    obtain ⟨inside, eq, no⟩ := h
    rw [List.cons_append] at eq
    cases eq
    obtain ⟨v, rfl⟩ := front
    rw [List.append_assoc, List.singleton_append, atFront_string no, List.length_append]
    exact ⟨Nat.le_refl _, rfl⟩
  | number =>
    obtain ⟨digit, le⟩ := le_numberTail_of_isNumeral h front
    rw [atFront_of_isDigit digit]
    exact ⟨le, rfl⟩
  | word =>
    obtain ⟨_, parts, eq, letter, all⟩ := h
    cases eq
    rw [atFront_of_isLetter letter]
    exact ⟨length_le_takeWhile front all, rfl⟩
  | unclosedString => cases h
  | stray => cases h

/-- The segment that is cut off is the longest. -/
lemma isLongest_take : IsLongest ((c :: t).take ((atFront c t).2 + 1)) (c :: t) := by
  intro segment u front h
  obtain ⟨x, u, rfl⟩ := List.exists_cons_of_ne_nil (ne_nil_of_spells h)
  obtain ⟨rfl, front'⟩ := List.cons_prefix_cons.mp front
  obtain ⟨le, _⟩ := le_atFront h front'
  rw [List.length_take]
  exact Nat.le_min.mpr ⟨Nat.succ_le_succ le, front.length_le⟩

/-- A fault is cut off only where no front part is of a class. -/
lemma isLongest_nil (fault : (atFront c t).1.cause? ≠ none) : IsLongest [] (c :: t) := by
  intro segment u front h
  obtain ⟨x, u, rfl⟩ := List.exists_cons_of_ne_nil (ne_nil_of_spells h)
  obtain ⟨rfl, front'⟩ := List.cons_prefix_cons.mp front
  exact absurd (le_atFront h front').2 fault

/-- What the front of a source can be, with what was seen there. -/
inductive Shape : Char → Text → Segment × Nat → Prop where
  | blank {c : Char} {t : Text} :
    isBlank c →
    Shape c t (blank, 0)
  | comment {t : Text} :
    Shape '/' ('/' :: t) (comment, (('/' :: t).takeWhile (· ≠ '\n')).length)
  | string {inside t : Text} :
    '"' ∉ inside →
    Shape '"' (inside ++ '"' :: t) (string, inside.length + 1)
  | unclosedString {t : Text} :
    '"' ∉ t →
    Shape '"' t (unclosedString, t.length)
  | number {c : Char} {t : Text} :
    c.isDigit →
    Shape c t (number, numberTail t)
  | word {c : Char} {t : Text} :
    isLetter c →
    Shape c t (word, (t.takeWhile isWordPart).length)
  | punctuator {c : Char} {t : Text} {q : Punctuator} :
    q.spelling <+: c :: t →
    Shape c t (punctuator q, q.spelling.length - 1)
  | stray {c : Char} {t : Text} :
    c ≠ '"' →
    Shape c t (stray c, 0)

lemma shape_atFront (c : Char) (t : Text) : Shape c t (atFront c t) := by
  cases blank : isBlank c with
  | true =>
    rw [atFront_of_isBlank blank]
    exact .blank blank
  | false =>
    by_cases comment : c = '/' ∧ t.head? = some '/'
    · obtain ⟨rfl, head⟩ := comment
      obtain ⟨t, rfl⟩ := List.head?_eq_some_iff.mp head
      exact .comment
    · by_cases quote : c = '"'
      · subst quote
        obtain all | ⟨inside, x, t, rfl, all, no⟩ := all_or_exists_append (· ≠ '"') t
        · rw [atFront_quote, List.takeWhile_eq_self_iff.mpr all, if_neg (Nat.lt_irrefl _)]
          exact .unclosedString fun mem => of_decide_eq_true (all _ mem) rfl
        · have eq : x = '"' := Decidable.not_not.mp (of_decide_eq_false no)
          subst eq
          have no : '"' ∉ inside := fun mem => of_decide_eq_true (all _ mem) rfl
          rw [atFront_string no]
          exact .string no
      · cases digit : c.isDigit with
        | true =>
          rw [atFront_of_isDigit digit]
          exact .number digit
        | false =>
          cases letter : isLetter c with
          | true =>
            rw [atFront_of_isLetter letter]
            exact .word letter
          | false =>
            rw [atFront_of_other blank comment quote digit letter]
            cases found : Punctuator.atFront? (c :: t) with
            | some q => exact .punctuator (Punctuator.atFront?_eq_some found).1
            | none => exact .stray quote

/-- A segment that is no fault spells the text that is cut off. -/
lemma spells_atFront (ok : (atFront c t).1.cause? = none) :
    Spells ((c :: t).take ((atFront c t).2 + 1)) (atFront c t).1 := by
  have shape := shape_atFront c t
  generalize atFront c t = front at shape ok
  cases shape with
  | blank blank => exact ⟨c, rfl, blank⟩
  | @comment t =>
    refine ⟨t.takeWhile (· ≠ '\n'), ?_, fun mem => ?_⟩
    · rw [List.take_succ_cons, take_length_takeWhile]
      rfl
    · have ne := List.mem_takeWhile_imp mem
      cases ne
  | @string inside t no =>
    refine ⟨inside, ?_, no⟩
    rw [List.take_succ_cons, List.take_length_add_append]
    rfl
  | unclosedString => cases ok
  | number digit => exact isNumeral_take digit
  | word letter =>
    rw [List.take_succ_cons, take_length_takeWhile]
    exact ⟨c, _, rfl, letter, fun _ mem => List.mem_takeWhile_imp mem⟩
  | @punctuator _ _ q front =>
    have pos : 0 < q.spelling.length := by cases q <;> decide
    dsimp only
    rw [Nat.sub_add_cancel pos, ← List.prefix_iff_eq_take.mp front]
    rfl
  | stray => cases ok

end Lox.Segment
