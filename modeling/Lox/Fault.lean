/-!
# Faults

The parts of the library rely on each other's promises and check them. A fault says which promise
was broken. It is never an answer to a faulty source: those are reported as diagnostics.
-/

namespace Lox

/-- A broken promise between two parts of the library. -/
inductive Fault where
  /-- A slice between cursors over different sources. -/
  | differentSources
  /-- A slice that ends before it begins. -/
  | reversedSlice
  /-- A slice with an end inside a character or outside the source. -/
  | splitCharacter
  /-- A string lexeme without a quote at each end. -/
  | unquotedString
  /-- A number lexeme that is not a numeral. -/
  | malformedNumeral
  /-- A token list that does not end with the end marker. -/
  | unterminatedTokens
  /-- A token asked for outside the token list. -/
  | tokenOutOfRange
  deriving DecidableEq, Repr

end Lox
