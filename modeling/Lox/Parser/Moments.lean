import Lox.Parser.Openings
import Lox.Parser.Recovery

/-!
# Moments of a call

The parser with a record of what it does to its state: each look at a token, each step over one and
each operand that is opened or closed, with the state in front of it. It takes the same steps as the
parser that keeps no record, and the record decides nothing.
-/

namespace Lox.Parser

/-- What a parser does to its state. -/
inductive Action where
  /-- Looks at the next token. -/
  | peek
  /-- Looks at the token read last. -/
  | previous
  /-- Reads the next token, except that an end marker stays unread. -/
  | advance
  /-- Opens an operand. -/
  | enter
  /-- Closes an operand. -/
  | leave
  deriving DecidableEq, Repr

/-- An action, and the state in front of it. -/
structure Moment where
  action : Action
  state : State
  deriving DecidableEq, Repr

/-- A state, and the moments before it. -/
structure Recorded where
  state : State
  moments : List Moment
  deriving DecidableEq, Repr

/-- A parser that keeps a record. -/
abbrev RecordingM := EStateM Stop Recorded

namespace Recording

variable {α : Type} {start : Recorded} {t : Token} {behind ahead : List Token} {depth : Nat}
  {moments : List Moment}

/-- Runs a parser that leaves its state alone. -/
def plain (parser : ParserM α) : RecordingM α := fun start =>
  match parser.run start.state with
  | .ok a state => .ok a { start with state }
  | .error e state => .error e { start with state }

theorem run_plain (parser : ParserM α) :
    (plain parser).run start =
      match parser.run start.state with
      | .ok a state => .ok a ⟨state, start.moments⟩
      | .error e state => .error e ⟨state, start.moments⟩ := rfl

/-- Records the action that a parser is. -/
def act (action : Action) (parser : ParserM α) : RecordingM α := fun start =>
  let moments := start.moments ++ [⟨action, start.state⟩]
  match parser.run start.state with
  | .ok a state => .ok a ⟨state, moments⟩
  | .error e state => .error e ⟨state, moments⟩

theorem run_act (action : Action) (parser : ParserM α) :
    (act action parser).run start =
      match parser.run start.state with
      | .ok a state => .ok a ⟨state, start.moments ++ [⟨action, start.state⟩]⟩
      | .error e state => .error e ⟨state, start.moments ++ [⟨action, start.state⟩]⟩ := rfl

def peek : RecordingM Token := act .peek Parser.peek

def previous : RecordingM Token := act .previous Parser.previous

def advance : RecordingM Token := act .advance Parser.advance

def accept? (p : Token.Kind → Bool) : RecordingM (Option Token) := do
  if p (← peek).kind then return some (← advance)
  else return none

def expect (p : Punctuator) (cause : ParseError.Cause) : RecordingM Token := do
  let token ← peek
  if token.kind = .punctuator p then advance
  else plain (refuse cause token)

def nested (limit : Option Nat) (parser : RecordingM α) : RecordingM α := do
  let depth := (← plain get).depth
  if limit.any (· ≤ depth) then plain (refuse .tooDeeplyNested (← previous))
  act .enter (modify fun s => { s with depth := s.depth + 1 })
  try parser
  finally act .leave (modify fun s => { s with depth := s.depth - 1 })

theorem run_nested_of_limit {limit : Option Nat} {parser : RecordingM α}
    (h : limit.any (· ≤ depth)) :
    (nested limit parser).run ⟨⟨t :: behind, ahead, depth⟩, moments⟩ =
      .error (.error ⟨.tooDeeplyNested, t⟩) ⟨⟨t :: behind, ahead, depth⟩,
        moments ++ [⟨.previous, ⟨t :: behind, ahead, depth⟩⟩]⟩ := by
  simp [nested, previous, h, run_plain, run_act]

theorem run_nested_of_free {limit : Option Nat} {parser : RecordingM α}
    (h : limit.any (· ≤ depth) = false) :
    (nested limit parser).run ⟨⟨behind, ahead, depth⟩, moments⟩ =
      match parser.run ⟨⟨behind, ahead, depth + 1⟩,
          moments ++ [⟨.enter, ⟨behind, ahead, depth⟩⟩]⟩ with
      | .ok a s =>
        .ok a ⟨{ s.state with depth := s.state.depth - 1 }, s.moments ++ [⟨.leave, s.state⟩]⟩
      | .error e s =>
        .error e
          ⟨{ s.state with depth := s.state.depth - 1 }, s.moments ++ [⟨.leave, s.state⟩]⟩ := by
  simp only [nested, run_plain, run_act, h, EStateM.run_bind, EStateM.run_get, Bool.false_eq_true,
    if_false, EStateM.run_modify, tryFinally, run_map]
  simp only [EStateM.run, tryFinally']
  cases parser _ <;> rfl

def joinLeft (level : Level) (operand : RecordingM Expr) : Nat → Expr → RecordingM Expr
  | 0, _ => throw (.fault .tokenOutOfRange)
  | bound + 1, left => do
    match ← accept? (·.level? = some level) with
    | some operator => joinLeft level operand bound (.binary left operator (← operand))
    | none => return left

def climb (operand : RecordingM Expr) : List Level → RecordingM Expr
  | [] => operand
  | level :: tighter => do
    let left ← climb operand tighter
    joinLeft level (climb operand tighter) (← plain get).ahead.length left

def primary (limit : Option Nat) (expression : RecordingM Expr) : RecordingM Expr := do
  let token ← peek
  if token.kind = .punctuator .leftParen then
    _ ← advance
    let inner ← nested limit expression
    _ ← expect .rightParen .expectedRightParen
    return .grouping inner
  else
    match Literal.ofKind? token.kind with
    | some value =>
      _ ← advance
      return .literal value
    | none => plain (refuse .expectedExpression token)

def unary (limit : Option Nat) : Nat → RecordingM Expr
  | 0 => throw (.fault .tokenOutOfRange)
  | bound + 1 => do
    match ← accept? Token.Kind.isUnary with
    | some operator => return .unary operator (← nested limit (unary limit bound))
    | none => primary limit (climb (unary limit bound) Level.all)

def expression (limit : Option Nat) : RecordingM Expr := do
  climb (unary limit (← plain get).ahead.length) Level.all

def skipToBoundary : Nat → RecordingM Unit
  | 0 => throw (.fault .tokenOutOfRange)
  | bound + 1 => do
    let next ← peek
    if next.kind = .eof then return
    else if (← previous).kind = .punctuator .semicolon then return
    else if next.kind.startsStatement then return
    else
      _ ← advance
      skipToBoundary bound

def synchronize : RecordingM Unit := do
  _ ← advance
  skipToBoundary (← plain get).ahead.length

end Recording

/-- Parses one expression, and gives the moments of the call in order. -/
def State.parseRecording (s : State) : Except Fault (Except ParseError Expr × Recorded) :=
  settle ((Recording.expression (some maxNesting)).run ⟨s, []⟩)

/-- Synchronizes, and gives the moments of the call in order. -/
def State.synchronizeRecording (s : State) : Except Fault Recorded :=
  match Recording.synchronize.run ⟨s, []⟩ with
  | .ok () s => .ok s
  | .error (.fault f) _ => .error f
  | .error (.error _) s => .ok s

end Lox.Parser
