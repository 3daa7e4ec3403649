import Lox.Session

/-!
# Findings

What there is in a source, apart from the sink that it is reported to: the tokens and the lexical
errors, and the tree that the tokens are or the error that they come to. A run reports and writes
its findings and nothing else.
-/

namespace Lox

structure Findings where
  scan : Scan
  answer : Except ParseError Expr

namespace Findings

def ofSource (source : Text) : Except Fault Findings := do
  let scan ← Scan.ofSource source
  let start ← Parser.State.ofTokens scan.tokens
  let (answer, _) ← start.parse
  return ⟨scan, answer⟩

/-- The error of the tokens, if they begin with no expression. -/
def syntaxErrors (f : Findings) : List ParseError :=
  match f.answer with
  | .ok _ => []
  | .error e => [e]

/-- The reports about a source in order: the lexical errors, and the error of the tokens. -/
def diagnostics (wording : Wording) (f : Findings) : List Diagnostic :=
  f.scan.errors.map (LexicalError.diagnostic wording) ++ f.syntaxErrors.map ParseError.diagnostic

/-- The sink after the reports. -/
def report {ρ : Type} [Reporter ρ] (wording : Wording) (f : Findings) (reporter : ρ) : ρ :=
  (f.diagnostics wording).foldl Reporter.report reporter

/-- The tokens as they are written, where they are asked for. -/
def dump (settings : Settings) (f : Findings) : Text :=
  if settings.tokens then f.scan.dump else []

/-- The tree as it is written, on a line of its own, where there is one. -/
def tree (f : Findings) : Text :=
  match f.answer with
  | .ok e => e.toText ++ ['\n']
  | .error _ => []

/-- There is a lexical error, or the tokens begin with no expression. -/
def HasError (f : Findings) : Prop := f.scan.errors ≠ [] ∨ ∃ e, f.answer = .error e

end Findings

/-- A run of the source has something to report. -/
def Faulty (source : Text) : Prop := ∃ f, Findings.ofSource source = .ok f ∧ f.HasError

end Lox
