import Lox.Parser.State

/-!
# Recovery

After an error the parser can go on at the next boundary between statements: behind a semicolon, in
front of a word that begins a statement, or at the end.
-/

namespace Lox.Parser

variable {t last : Token} {behind ahead : List Token} {depth bound : Nat}

/-- Skips tokens until the last one read is a semicolon or the next one begins a statement or is the
end. Like the loops of the expression parser it is bounded by the number of tokens ahead. -/
def skipToBoundary : Nat → ParserM Unit
  | 0 => throw (.fault .tokenOutOfRange)
  | bound + 1 => do
    let next ← peek
    if next.kind = .eof then return
    else if (← previous).kind = .punctuator .semicolon then return
    else if next.kind.startsStatement then return
    else
      _ ← advance
      skipToBoundary bound

theorem run_skipToBoundary_of_eof (h : t.kind = .eof) :
    (skipToBoundary (bound + 1)).run ⟨behind, t :: ahead, depth⟩ =
      .ok () ⟨behind, t :: ahead, depth⟩ := by
  simp [skipToBoundary, h]

theorem run_skipToBoundary_of_boundary
    (h : last.kind = .punctuator .semicolon ∨ t.kind.startsStatement) :
    (skipToBoundary (bound + 1)).run ⟨last :: behind, t :: ahead, depth⟩ =
      .ok () ⟨last :: behind, t :: ahead, depth⟩ := by
  by_cases eof : t.kind = .eof
  · exact run_skipToBoundary_of_eof eof
  · by_cases semicolon : last.kind = .punctuator .semicolon
    · simp [skipToBoundary, eof, semicolon]
    · simp [skipToBoundary, eof, run_map, h.resolve_left semicolon]

theorem run_skipToBoundary_of_inside (eof : t.kind ≠ .eof)
    (semicolon : last.kind ≠ .punctuator .semicolon) (starts : t.kind.startsStatement = false) :
    (skipToBoundary (bound + 1)).run ⟨last :: behind, t :: ahead, depth⟩ =
      (skipToBoundary bound).run ⟨t :: last :: behind, ahead, depth⟩ := by
  simp [skipToBoundary, eof, semicolon, starts, run_advance_of_ne_eof eof]

/-- Reads a token, and then the tokens up to the next boundary between statements. -/
def synchronize : ParserM Unit := do
  _ ← advance
  skipToBoundary (← get).ahead.length

theorem run_synchronize_of_eof (h : t.kind = .eof) :
    synchronize.run ⟨behind, t :: ahead, depth⟩ = .ok () ⟨behind, t :: ahead, depth⟩ := by
  simp [synchronize, run_advance_of_eof h, run_skipToBoundary_of_eof h]

theorem run_synchronize_of_ne_eof (h : t.kind ≠ .eof) :
    synchronize.run ⟨behind, t :: ahead, depth⟩ =
      (skipToBoundary ahead.length).run ⟨t :: behind, ahead, depth⟩ := by
  simp [synchronize, run_advance_of_ne_eof h]

/-- Synchronizes from a state. -/
def State.synchronize (s : State) : Except Fault State :=
  match Parser.synchronize.run s with
  | .ok () s => .ok s
  | .error (.fault f) _ => .error f
  | .error (.error _) s => .ok s

theorem State.synchronize_of_run_ok {s s' : State} (h : Parser.synchronize.run s = .ok () s') :
    s.synchronize = .ok s' := by
  rw [State.synchronize, h]

end Lox.Parser
