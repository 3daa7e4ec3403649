import Lox.Expr.Printer
import Lox.Parser.Expression
import Lox.Scan

/-!
# Sessions

Running a source: it is scanned and parsed, errors are reported, and its tree is printed if there
was no error. Sources run one after the other share a sink for their reports.
-/

namespace Lox

/-- What to write, and how. -/
structure Settings where
  tokens : Bool
  wording : Wording
  deriving DecidableEq, Repr

namespace Parser

/-- Parses one expression and reports the error if there is none. -/
def State.parseReporting {ρ : Type} [Reporter ρ] (s : State) (reporter : ρ) :
    Except Fault (Option Expr × State × ρ) := do
  match ← s.parse with
  | (.ok e, s) => return (some e, s, reporter)
  | (.error e, s) => return (none, s, Reporter.report reporter e.diagnostic)

variable {ρ : Type} [Reporter ρ] {s s' : State} {reporter reporter' : ρ}

theorem State.parseReporting_of_ok {e : Expr} (h : s.parse = .ok (.ok e, s')) :
    s.parseReporting reporter = .ok (some e, s', reporter) := by
  rw [State.parseReporting, h]
  rfl

theorem State.parseReporting_of_error {e : ParseError} (h : s.parse = .ok (.error e, s')) :
    s.parseReporting reporter = .ok (none, s', Reporter.report reporter e.diagnostic) := by
  rw [State.parseReporting, h]
  rfl

/-- A call that gives an expression has parsed it and reports nothing. -/
theorem State.parse_of_parseReporting_some {e : Expr}
    (h : s.parseReporting reporter = .ok (some e, s', reporter')) :
    s.parse = .ok (.ok e, s') ∧ reporter' = reporter := by
  match run : s.parse with
  | .ok (.ok _, _) =>
    rw [parseReporting_of_ok run] at h
    cases h
    exact ⟨rfl, rfl⟩
  | .ok (.error _, _) =>
    rw [parseReporting_of_error run] at h
    cases h
  | .error _ =>
    rw [parseReporting, run] at h
    cases h

/-- A call that gives no expression has failed and reports its error. -/
theorem State.parse_of_parseReporting_none
    (h : s.parseReporting reporter = .ok (none, s', reporter')) :
    ∃ e, s.parse = .ok (.error e, s') ∧ reporter' = Reporter.report reporter e.diagnostic := by
  match run : s.parse with
  | .ok (.ok _, _) =>
    rw [parseReporting_of_ok run] at h
    cases h
  | .ok (.error e, _) =>
    rw [parseReporting_of_error run] at h
    cases h
    exact ⟨e, rfl, rfl⟩
  | .error _ =>
    rw [parseReporting, run] at h
    cases h

end Parser

/-- Runs a source, and gives what is written and the sink after it. As long as the sink remembers an
error, of this source or an earlier one, no tree is written. -/
def run {ρ : Type} [Reporter ρ] (settings : Settings) (source : Text) (reporter : ρ) :
    Except Fault (Text × ρ) := do
  let scan ← Scan.ofSource source
  let dump := if settings.tokens then scan.dump else []
  let start ← Parser.State.ofTokens scan.tokens
  let (tree?, _, reporter) ← start.parseReporting (scan.reportErrors settings.wording reporter)
  let tree :=
    match tree? with
    | some e => if Reporter.hadError reporter then [] else e.toText ++ ['\n']
    | none => []
  return (dump ++ tree, reporter)

end Lox
