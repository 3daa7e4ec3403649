import Lox.Segment

/-!
# Cuts

What it is to cut a source into segments, said without a scanner: the texts that a segment can have,
and the rule that the longest one wins.
-/

namespace Lox

namespace Segment

/-- Digits, or digits around a point. -/
def IsNumeral (t : Text) : Prop :=
  (t ≠ [] ∧ ∀ c ∈ t, c.isDigit) ∨
    ∃ whole fraction : Text, t = whole ++ '.' :: fraction ∧
      whole ≠ [] ∧ (∀ c ∈ whole, c.isDigit) ∧ fraction ≠ [] ∧ ∀ c ∈ fraction, c.isDigit

/-- The text `t` is one of a lexical class. The faults are in no class. -/
def Spells (t : Text) : Segment → Prop
  | blank => ∃ c, t = [c] ∧ isBlank c
  | comment => ∃ line, t = '/' :: '/' :: line ∧ '\n' ∉ line
  | punctuator p => t = p.spelling
  | string => ∃ inside, t = '"' :: inside ++ ['"'] ∧ '"' ∉ inside
  | number => IsNumeral t
  | word => ∃ c parts, t = c :: parts ∧ isLetter c ∧ ∀ x ∈ parts, isWordPart x
  | unclosedString | stray _ => False

/-- No front part of a source is longer than `t` and in a lexical class. -/
def IsLongest (t source : Text) : Prop :=
  ∀ segment u, u <+: source → Spells u segment → u.length ≤ t.length

end Segment

open Segment in
/-- A source cut into segments with their texts. -/
inductive Cut : Text → List (Segment × Text) → Prop where
  | nil : Cut [] []
  | segment {segment t rest cuts} :
    Spells t segment →
    IsLongest t (t ++ rest) →
    Cut rest cuts →
    Cut (t ++ rest) ((segment, t) :: cuts)
  | unclosedString {t} :
    IsLongest [] ('"' :: t) →
    Cut ('"' :: t) [(unclosedString, '"' :: t)]
  | stray {c rest cuts} :
    c ≠ '"' →
    IsLongest [] (c :: rest) →
    Cut rest cuts →
    Cut (c :: rest) ((stray c, [c]) :: cuts)

end Lox
