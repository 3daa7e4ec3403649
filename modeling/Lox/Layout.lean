import Lox.Segment.Cut
import Lox.Token

/-!
# Layout

The freedom in writing lexemes down: between them may stand blanks and comments, which separate them
and mean nothing else.
-/

namespace Lox

/-- What separates tokens and is none: blanks, and comments with the breaks that end their lines. -/
inductive Gap : Text → Prop where
  | nil : Gap []
  | blank {c : Char} {t : Text} :
    Segment.isBlank c →
    Gap t →
    Gap (c :: t)
  | comment {line t : Text} :
    '\n' ∉ line →
    Gap t →
    Gap ('/' :: '/' :: line ++ '\n' :: t)

/-- Lexemes one after the other, each with a gap behind it that begins with a blank. -/
inductive Layout : List Text → Text → Prop where
  | nil : Layout [] []
  | cons {c : Char} {lexeme gap t : Text} {lexemes : List Text} :
    Segment.isBlank c →
    Gap gap →
    Layout lexemes t →
    Layout (lexeme :: lexemes) (lexeme ++ c :: gap ++ t)

/-- The token without its line. -/
def Token.unplaced (t : Token) : Token := { t with line := 0 }

end Lox
