import Lox.Text

/-!
# Diagnostics

What is reported about a faulty source, and the sinks that take the reports: a log keeps them, a
console writes them out as they come and can forget that there were any.
-/

namespace Lox

structure Diagnostic where
  line : Nat
  /-- The place on the line, or nothing where only the line is known. -/
  place : Text
  message : Text
  deriving DecidableEq, Repr

namespace Diagnostic

def onLine (line : Nat) (message : Text) : Diagnostic := ⟨line, [], message⟩

/-- A report about a token, given by its lexeme, or about the end of the source. -/
def atLexeme (line : Nat) (lexeme? : Option Text) (message : Text) : Diagnostic :=
  match lexeme? with
  | some lexeme => ⟨line, '\'' :: lexeme ++ ['\''], message⟩
  | none => ⟨line, "end".toList, message⟩

def toText (d : Diagnostic) : Text :=
  let place := if d.place.isEmpty then [] else " at ".toList ++ d.place
  "[line ".toList ++ Text.ofNat d.line ++ "] Error".toList ++ place ++ ": ".toList ++ d.message

end Diagnostic

/-- A sink for reports. -/
class Reporter (ρ : Type) where
  report : ρ → Diagnostic → ρ
  /-- Whether a report was taken that is not forgotten. -/
  hadError : ρ → Bool

/-- A sink that remembers an error as soon as there is a report. -/
class LawfulReporter (ρ : Type) [Reporter ρ] : Prop where
  hadError_report (reporter : ρ) (d : Diagnostic) :
    Reporter.hadError (Reporter.report reporter d) = true

/-- A sink that keeps all reports in order. -/
structure Log where
  entries : Array Diagnostic
  deriving DecidableEq, Repr

namespace Log

def empty : Log := ⟨#[]⟩

/-- The texts of the entries, one on a line and no line break at the end. -/
def toText (log : Log) : Text := ['\n'].intercalate (log.entries.toList.map Diagnostic.toText)

instance : Reporter Log where
  report log d := ⟨log.entries.push d⟩
  hadError log := !log.entries.isEmpty

instance : LawfulReporter Log where
  hadError_report log d := by simp [Reporter.hadError, Reporter.report]

end Log

/-- A sink that writes every report out at once and remembers only that there was one. -/
structure Console where
  /-- The lines written so far. -/
  lines : Array Text
  hadError : Bool
  deriving DecidableEq, Repr

namespace Console

def fresh : Console := ⟨#[], false⟩

/-- Forgets that there were reports. What is written stays written. -/
def reset (console : Console) : Console := { console with hadError := false }

/-- All that is written, each line with its line break. -/
def written (console : Console) : Text := console.lines.toList.flatMap (· ++ ['\n'])

instance : Reporter Console where
  report console d := ⟨console.lines.push d.toText, true⟩
  hadError := Console.hadError

instance : LawfulReporter Console where
  hadError_report _ _ := rfl

end Console

end Lox
