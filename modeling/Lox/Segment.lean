import Lox.Token.Punctuator

/-!
# Segments

A source is cut from the left into segments, and each is the longest front part of what is left that
belongs to a lexical class. Where no front part belongs to one, the segment is a fault: a string
without an end takes all that is left, and any other character stands alone.
-/

namespace Lox

inductive Segment where
  /-- A blank: a space, a tab, a carriage return or a line break. -/
  | blank
  /-- Two slashes and the rest of the line. -/
  | comment
  | punctuator (p : Punctuator)
  /-- Quotes around characters that are no quotes. -/
  | string
  /-- Digits, or digits around a point. -/
  | number
  /-- A letter and the letters and digits behind it. -/
  | word
  /-- A quote and no other quote behind it. -/
  | unclosedString
  /-- A character that begins no other segment. -/
  | stray (c : Char)
  deriving DecidableEq, Repr

namespace Segment

/-- The characters that only separate tokens. -/
def isBlank (c : Char) : Bool := c = ' ' || c = '\r' || c = '\t' || c = '\n'

/-- The characters that begin a word. Letters are those of ASCII, and the underscore is one. -/
def isLetter (c : Char) : Bool := c.isAlpha || c = '_'

def isWordPart (c : Char) : Bool := isLetter c || c.isDigit

theorem not_isBlank_of_isDigit {c : Char} (h : c.isDigit) : isBlank c = false := by
  rw [Bool.eq_false_iff]
  intro blank
  simp only [isBlank, Bool.or_eq_true, decide_eq_true_eq] at blank
  obtain ((rfl | rfl) | rfl) | rfl := blank <;> cases h

theorem not_isBlank_of_isLetter {c : Char} (h : isLetter c) : isBlank c = false := by
  rw [Bool.eq_false_iff]
  intro blank
  simp only [isBlank, Bool.or_eq_true, decide_eq_true_eq] at blank
  obtain ((rfl | rfl) | rfl) | rfl := blank <;> cases h

theorem not_isDigit_of_isLetter {c : Char} (h : isLetter c) : c.isDigit = false := by
  rw [Bool.eq_false_iff]
  intro digit
  have le : c.toNat ≤ '9'.toNat := (Char.isDigit_iff_toNat.mp digit).2
  obtain letter | underscore := Bool.or_eq_true_iff.mp h
  · obtain upper | lower := Bool.or_eq_true_iff.mp letter
    · have ge : 'A'.toNat ≤ c.toNat := UInt32.le_iff_toNat_le.mp (of_decide_eq_true upper).1
      exact absurd (Nat.le_trans ge le) (by decide)
    · have ge : 'a'.toNat ≤ c.toNat :=
        UInt32.le_iff_toNat_le.mp (of_decide_eq_true (Bool.and_eq_true_iff.mp lower).1)
      exact absurd (Nat.le_trans ge le) (by decide)
  · rw [of_decide_eq_true underscore] at le
    exact absurd le (by decide)

/-- How many characters at the front of a text continue a number behind its first digit. A point
belongs to the number only if a digit follows. -/
def numberTail (t : Text) : Nat :=
  let whole := (t.takeWhile Char.isDigit).length
  match t.dropWhile Char.isDigit with
  | '.' :: d :: fraction =>
    if d.isDigit then whole + 2 + (fraction.takeWhile Char.isDigit).length else whole
  | _ => whole

/-- The segment at the front of `c :: t`, and how many characters of `t` belong to it. -/
def atFront (c : Char) (t : Text) : Segment × Nat :=
  if isBlank c then (blank, 0)
  else if c = '/' ∧ t.head? = some '/' then (comment, (t.takeWhile (· ≠ '\n')).length)
  else if c = '"' then
    let inside := (t.takeWhile (· ≠ '"')).length
    if inside < t.length then (string, inside + 1) else (unclosedString, inside)
  else if c.isDigit then (number, numberTail t)
  else if isLetter c then (word, (t.takeWhile isWordPart).length)
  else
    match Punctuator.atFront? (c :: t) with
    | some p => (punctuator p, p.spelling.length - 1)
    | none => (stray c, 0)

variable {c : Char} {t : Text}

theorem atFront_of_isBlank (h : isBlank c) : atFront c t = (blank, 0) := by
  rw [atFront, if_pos h]

theorem atFront_comment :
    atFront '/' ('/' :: t) = (comment, (('/' :: t).takeWhile (· ≠ '\n')).length) := rfl

theorem atFront_quote :
    atFront '"' t =
      if (t.takeWhile (· ≠ '"')).length < t.length then
        (string, (t.takeWhile (· ≠ '"')).length + 1)
      else (unclosedString, (t.takeWhile (· ≠ '"')).length) := rfl

theorem atFront_of_isDigit (h : c.isDigit) : atFront c t = (number, numberTail t) := by
  have slash : c ≠ '/' := fun e => by rw [e] at h; cases h
  have quote : c ≠ '"' := fun e => by rw [e] at h; cases h
  simp [atFront, not_isBlank_of_isDigit h, slash, quote, h]

theorem atFront_of_isLetter (h : isLetter c) :
    atFront c t = (word, (t.takeWhile isWordPart).length) := by
  have slash : c ≠ '/' := fun e => by rw [e] at h; cases h
  have quote : c ≠ '"' := fun e => by rw [e] at h; cases h
  simp [atFront, not_isBlank_of_isLetter h, slash, quote, not_isDigit_of_isLetter h, h]

/-- The front where no class but the punctuators is left. -/
theorem atFront_of_other (blank : isBlank c = false) (comment : ¬ (c = '/' ∧ t.head? = some '/'))
    (quote : c ≠ '"') (digit : c.isDigit = false) (letter : isLetter c = false) :
    atFront c t =
      match Punctuator.atFront? (c :: t) with
      | some p => (punctuator p, p.spelling.length - 1)
      | none => (stray c, 0) := by
  simp [atFront, blank, comment, quote, digit, letter]

end Segment

end Lox
