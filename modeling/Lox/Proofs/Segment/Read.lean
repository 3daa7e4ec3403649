import Lox.Proofs.Cursor.Moves
import Lox.Proofs.Segment.Longest
import Lox.Scan.Rounds

/-!
# Reading the segment at the front

A round of a scan reads its segment by looks at one or two characters and by runs, and the segment
at the front of a text is told apart from the text alone. They are the same segment, and the cursor
stops behind it (`read_eq`).
-/

namespace Lox

namespace Segment

variable {c : Cursor} {x : Char} {t : Text} {p q : Punctuator}

/-- No punctuator goes on behind `q` but those that end in an equals sign. -/
lemma atFront_of_spelling (single : q.spelling = [x]) (slash : ¬ (x = '/' ∧ t.head? = some '/'))
    (equal : t.head? ≠ some '=') : atFront x t = (punctuator q, 0) := by
  obtain ⟨blank, quote, digit, letter⟩ := head_spelling single.symm
  have found : Punctuator.atFront? (x :: t) = some q := by
    cases t with
    | nil => cases q <;> cases single <;> rfl
    | cons y t =>
      have ne : ('=' == y) = false := beq_eq_false_iff_ne.mpr fun e => equal (e ▸ rfl)
      cases q <;> cases single <;>
        simp [Punctuator.atFront?, Punctuator.all, Punctuator.spelling, List.isPrefixOf, ne]
  rw [atFront_of_other blank slash quote digit letter, found]
  simp only [single, List.length_singleton]

lemma readEither_eq (long : p.spelling = [x, '=']) (single : q.spelling = [x]) :
    readEither '=' p q c = ((atFront x c.rest).1, c.skip (atFront x c.rest).2) := by
  have slash : x ≠ '/' := by
    rintro rfl
    cases p <;> cases long
  by_cases equal : c.rest.head? = some '='
  · obtain ⟨t, ahead⟩ := List.head?_eq_some_iff.mp equal
    have front : atFront x ('=' :: t) = (punctuator p, 1) := by
      cases p <;> cases long <;> rfl
    rw [readEither, Cursor.eat_of_pos ahead, ahead, front]
  · rw [readEither, Cursor.eat_of_neg equal,
      atFront_of_spelling single (fun both => slash both.1) equal]
    rfl

lemma readSlash_eq :
    readSlash c = ((atFront '/' c.rest).1, c.skip (atFront '/' c.rest).2) := by
  by_cases slash : c.rest.head? = some '/'
  · obtain ⟨t, ahead⟩ := List.head?_eq_some_iff.mp slash
    rw [readSlash, Cursor.eat_of_pos ahead, ahead, atFront_comment]
    dsimp only
    rw [Cursor.eatWhile, Cursor.skip_skip, Cursor.rest_skip, ahead]
    simp [Nat.add_comm]
  · have front : atFront '/' c.rest = (punctuator .slash, 0) := by
      rw [atFront_of_other rfl (fun both => slash both.2) (by decide) rfl rfl]
      rfl
    rw [readSlash, Cursor.eat_of_neg slash, front]
    rfl

lemma readString_eq :
    readString c = ((atFront '"' c.rest).1, c.skip (atFront '"' c.rest).2) := by
  have ahead := Cursor.rest_eatWhile (· ≠ '"') c
  obtain all | ⟨inside, x, t, split, all, no⟩ := all_or_exists_append (· ≠ '"') c.rest
  · rw [List.dropWhile_eq_nil_iff.mpr all] at ahead
    have unclosed : (c.eatWhile (· ≠ '"')).rest.head? ≠ some '"' := by
      rw [ahead]
      exact nofun
    rw [readString, Cursor.eat_of_neg unclosed, atFront_quote,
      if_neg (by rw [List.takeWhile_eq_self_iff.mpr all]; exact Nat.lt_irrefl _)]
    rfl
  · have eq : x = '"' := Decidable.not_not.mp (of_decide_eq_false no)
    subst eq
    rw [split, dropWhile_append_cons all no] at ahead
    rw [readString, Cursor.eat_of_pos ahead, split,
      atFront_string fun mem => of_decide_eq_true (all _ mem) rfl,
      Cursor.eatWhile, Cursor.skip_skip, split, takeWhile_append_cons all no]

/-- Two looks see a point in front of a digit. -/
lemma point_iff : (c.peek? = some '.' ∧ c.peekNext?.any Char.isDigit) ↔
    ∃ d fraction, c.rest = '.' :: d :: fraction ∧ d.isDigit := by
  rw [Cursor.peek?, Cursor.peekNext?]
  rcases c.rest with _ | ⟨y, _ | ⟨d, fraction⟩⟩ <;> simp [and_assoc]

lemma readNumber_eq : readNumber c = (number, c.skip (numberTail c.rest)) := by
  have ahead := Cursor.rest_eatWhile Char.isDigit c
  by_cases point : (c.eatWhile Char.isDigit).peek? = some '.' ∧
      (c.eatWhile Char.isDigit).peekNext?.any Char.isDigit
  · rw [readNumber, if_pos point]
    obtain ⟨d, fraction, tail, digit⟩ := point_iff.mp point
    have join := List.takeWhile_append_dropWhile (p := Char.isDigit) (l := c.rest)
    rw [← ahead, tail] at join
    have size : numberTail c.rest = (c.rest.takeWhile Char.isDigit).length + 2 +
        (fraction.takeWhile Char.isDigit).length := by
      conv => lhs; rw [← join]
      exact numberTail_point (fun _ => List.mem_takeWhile_imp) digit
    rw [Cursor.eatWhile, Cursor.rest_skip, tail, List.drop_succ_cons, List.drop_zero,
      List.takeWhile_cons_of_pos digit, Cursor.eatWhile, Cursor.skip_skip, Cursor.skip_skip, size,
      List.length_cons, Nat.add_comm _ 1, ← Nat.add_assoc, ← Nat.add_assoc]
  · rw [readNumber, if_neg point, numberTail]
    split
    case h_1 d fraction tail =>
      rw [if_neg fun digit => point (point_iff.mpr ⟨d, fraction, ahead.trans tail, digit⟩)]
      rfl
    case h_2 => rfl

/-- A character that begins nothing stands alone. -/
lemma atFront_stray (blank : isBlank x = false) (quote : x ≠ '"') (digit : x.isDigit = false)
    (letter : isLetter x = false) (no : ∀ q : Punctuator, ¬ q.spelling <+: x :: t) :
    atFront x t = (stray x, 0) := by
  have slash : x ≠ '/' := by
    rintro rfl
    exact no .slash (List.cons_prefix_cons.mpr ⟨rfl, List.nil_prefix⟩)
  rw [atFront_of_other blank (fun both => slash both.1) quote digit letter]
  cases found : Punctuator.atFront? (x :: t) with
  | none => rfl
  | some q => exact absurd (Punctuator.atFront?_eq_some found).1 (no q)

/-- Looks and runs read the segment at the front. -/
lemma read_eq (x : Char) (c : Cursor) :
    read x c = ((atFront x c.rest).1, c.skip (atFront x c.rest).2) := by
  unfold read
  split
  case h_21 =>
    -- None of the characters above.
    cases digit : x.isDigit with
    | true =>
      rw [atFront_of_isDigit digit]
      exact readNumber_eq
    | false =>
      cases letter : isLetter x with
      | true =>
        rw [atFront_of_isLetter letter]
        rfl
      | false =>
        have blank : isBlank x = false := by
          rw [Bool.eq_false_iff]
          intro blank
          simp only [isBlank, Bool.or_eq_true, decide_eq_true_eq] at blank
          obtain ((rfl | rfl) | rfl) | rfl := blank <;> contradiction
        have no (q : Punctuator) : ¬ q.spelling <+: x :: c.rest := by
          intro front
          cases q <;> obtain ⟨rfl, _⟩ := List.cons_prefix_cons.mp front <;> contradiction
        rw [atFront_stray blank ‹_› digit letter no]
        rfl
  all_goals first
    | rfl
    | exact readEither_eq rfl rfl
    | exact readSlash_eq
    | exact readString_eq

end Segment

end Lox
