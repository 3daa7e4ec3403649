import Lox.Findings

/-!
# Commands

Runs of sources, one after the other on one sink, and resets between them.
-/

namespace Lox

inductive Command where
  | run (settings : Settings) (source : Text)
  /-- Makes the sink forget the errors so far. -/
  | reset

/-- Performs commands on a sink that forgets by `reset`. Gives what each run writes, and the sink
after all. -/
def perform {ρ : Type} [Reporter ρ] (reset : ρ → ρ) :
    List Command → ρ → Except Fault (List Text × ρ)
  | [], reporter => return ([], reporter)
  | .run settings source :: commands, reporter => do
    let (out, reporter) ← run settings source reporter
    let (outs, reporter) ← perform reset commands reporter
    return (out :: outs, reporter)
  | .reset :: commands, reporter => perform reset commands (reset reporter)

/-- Runs sources on one sink, one after the other. Gives what each run writes, with the sink after
it. -/
def runAll {ρ : Type} [Reporter ρ] : List (Settings × Text) → ρ → Except Fault (List (Text × ρ))
  | [], _ => return []
  | (settings, source) :: sources, reporter => do
    let (out, reporter) ← run settings source reporter
    return (out, reporter) :: (← runAll sources reporter)

/-- A run of a faulty source is among the commands, and there is no reset behind it. -/
inductive Unforgotten : List Command → Prop where
  | here {settings source commands} :
    Faulty source →
    .reset ∉ commands →
    Unforgotten (.run settings source :: commands)
  | behind {command commands} :
    Unforgotten commands →
    Unforgotten (command :: commands)

/-- What the last run of the commands, of a source with findings `f`, writes, and what the sink says
of errors after it. -/
structure LastRun (commands : List Command) (settings : Settings) (f : Findings) (out : Text)
    (hadError : Bool) : Prop where
  hadError_iff : hadError = true ↔ Unforgotten commands
  /-- With an error that is not forgotten the tokens are all that is written. -/
  out_of_error : hadError = true → out = f.dump settings
  /-- Without one the source has no error, and its tree is written behind the tokens. -/
  out_of_no_error : hadError = false →
    f.scan.errors = [] ∧ ∃ e, f.answer = .ok e ∧ out = f.dump settings ++ e.toText ++ ['\n']

end Lox
