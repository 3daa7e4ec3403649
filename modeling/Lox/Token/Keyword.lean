import Lox.Text

/-!
# Keywords

The reserved words of Lox.
-/

namespace Lox

inductive Keyword where
  | andWord | classWord | elseWord | falseWord | forWord | funWord | ifWord | nilWord
  | orWord | printWord | returnWord | superWord | thisWord | trueWord | varWord | whileWord
  deriving DecidableEq, Repr

namespace Keyword

def all : List Keyword :=
  [.andWord, .classWord, .elseWord, .falseWord, .forWord, .funWord, .ifWord, .nilWord,
    .orWord, .printWord, .returnWord, .superWord, .thisWord, .trueWord, .varWord, .whileWord]

/-- The word as it is written in a source. -/
def spelling : Keyword → Text
  | .andWord => "and".toList
  | .classWord => "class".toList
  | .elseWord => "else".toList
  | .falseWord => "false".toList
  | .forWord => "for".toList
  | .funWord => "fun".toList
  | .ifWord => "if".toList
  | .nilWord => "nil".toList
  | .orWord => "or".toList
  | .printWord => "print".toList
  | .returnWord => "return".toList
  | .superWord => "super".toList
  | .thisWord => "this".toList
  | .trueWord => "true".toList
  | .varWord => "var".toList
  | .whileWord => "while".toList

/-- The name of the kind of token: the word with a capital. -/
def name (k : Keyword) : Text := k.spelling.modifyHead Char.toUpper

/-- The reserved word with this spelling. -/
def ofText? (word : Text) : Option Keyword := all.find? (·.spelling = word)

theorem ofText?_spelling (k : Keyword) : ofText? k.spelling = some k := by cases k <;> rfl

theorem ofText?_eq_none {word : Text} (h : ∀ k : Keyword, word ≠ k.spelling) :
    ofText? word = none := by
  apply List.find?_eq_none.mpr
  intro k _ found
  exact h k (of_decide_eq_true found).symm

def startsStatement (k : Keyword) : Bool :=
  [.classWord, .funWord, .varWord, .forWord, .ifWord, .whileWord, .printWord,
    .returnWord].contains k

end Keyword

end Lox
