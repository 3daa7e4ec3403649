import Lox.Text

/-!
# Punctuators

The brackets, separators and operators of Lox, and what the operators among them join. Binary
operators have a level; operators of one level join from the left.
-/

namespace Lox

inductive Level where
  | equality | comparison | term | factor
  deriving DecidableEq, Repr

/-- All levels, from the one that binds loosest to the one that binds tightest. -/
def Level.all : List Level := [.equality, .comparison, .term, .factor]

inductive Punctuator where
  | leftParen | rightParen | leftBrace | rightBrace
  | comma | dot | minus | plus | semicolon | slash | star
  | bang | bangEqual | equal | equalEqual
  | greater | greaterEqual | less | lessEqual
  deriving DecidableEq, Repr

namespace Punctuator

/-- All punctuators, each behind those that it is the beginning of. -/
def all : List Punctuator :=
  [bangEqual, equalEqual, greaterEqual, lessEqual, bang, equal, greater, less,
    leftParen, rightParen, leftBrace, rightBrace, comma, dot, minus, plus, semicolon, slash, star]

/-- The punctuator as it is written in a source. -/
def spelling : Punctuator → Text
  | leftParen => ['(']
  | rightParen => [')']
  | leftBrace => ['\x7b']
  | rightBrace => ['\x7d']
  | comma => [',']
  | dot => ['.']
  | minus => ['-']
  | plus => ['+']
  | semicolon => [';']
  | slash => ['/']
  | star => ['*']
  | bang => ['!']
  | bangEqual => ['!', '=']
  | equal => ['=']
  | equalEqual => ['=', '=']
  | greater => ['>']
  | greaterEqual => ['>', '=']
  | less => ['<']
  | lessEqual => ['<', '=']

def name : Punctuator → Text
  | leftParen => "LeftParen".toList
  | rightParen => "RightParen".toList
  | leftBrace => "LeftBrace".toList
  | rightBrace => "RightBrace".toList
  | comma => "Comma".toList
  | dot => "Dot".toList
  | minus => "Minus".toList
  | plus => "Plus".toList
  | semicolon => "Semicolon".toList
  | slash => "Slash".toList
  | star => "Star".toList
  | bang => "Bang".toList
  | bangEqual => "BangEqual".toList
  | equal => "Equal".toList
  | equalEqual => "EqualEqual".toList
  | greater => "Greater".toList
  | greaterEqual => "GreaterEqual".toList
  | less => "Less".toList
  | lessEqual => "LessEqual".toList

/-- The longest punctuator at the front of a text. -/
def atFront? (t : Text) : Option Punctuator := all.find? (·.spelling.isPrefixOf t)

theorem mem_all (p : Punctuator) : p ∈ all := by cases p <;> decide

theorem pairwise_all : all.Pairwise fun p q => q.spelling.length ≤ p.spelling.length := by decide

/-- No longer punctuator is at the front than the one that is found. -/
theorem atFront?_eq_some {t : Text} {p : Punctuator} (h : atFront? t = some p) :
    p.spelling <+: t ∧ ∀ q : Punctuator, q.spelling <+: t →
      q.spelling.length ≤ p.spelling.length := by
  obtain ⟨found, before, behind, split, skipped⟩ := List.find?_eq_some_iff_append.mp h
  refine ⟨List.isPrefixOf_iff_prefix.mp found, fun q front => ?_⟩
  have mem := mem_all q
  have sorted := pairwise_all
  rw [split] at mem sorted
  obtain mem | mem := List.mem_append.mp mem
  · have no := skipped q mem
    rw [List.isPrefixOf_iff_prefix.mpr front] at no
    cases no
  · obtain _ | ⟨_, mem⟩ := mem
    · exact Nat.le_refl _
    · exact (List.pairwise_cons.mp (List.pairwise_append.mp sorted).2.1).1 q mem

/-- None is at the front where none is found. -/
theorem atFront?_eq_none {t : Text} (h : atFront? t = none) (p : Punctuator) :
    ¬ p.spelling <+: t := by
  intro front
  have no := List.find?_eq_none.mp h p (mem_all p)
  exact no (List.isPrefixOf_iff_prefix.mpr front)

def level? : Punctuator → Option Level
  | bangEqual | equalEqual => some .equality
  | greater | greaterEqual | less | lessEqual => some .comparison
  | minus | plus => some .term
  | slash | star => some .factor
  | _ => none

/-- Whether the punctuator is an operator in front of a single operand. -/
def isUnary : Punctuator → Bool
  | bang | minus => true
  | _ => false

end Punctuator

end Lox
