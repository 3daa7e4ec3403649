import Lox.Parser.Expression

/-!
# Openings

The expression parser without a limit, which notes each operand that it opens: the state behind the
unary operator or the parenthesis, where as many are open as the depth of the state says. It takes
the same steps as the parser of expressions, and the notes decide nothing.
-/

namespace Lox.Parser

/-- What a run comes to. A state comes back unless there is a fault. -/
def settle {σ : Type} : EStateM.Result Stop σ Expr → Except Fault (Except ParseError Expr × σ)
  | .ok e s => .ok (.ok e, s)
  | .error (.error e) s => .ok (.error e, s)
  | .error (.fault f) _ => .error f

theorem State.parse_eq_settle (s : State) :
    s.parse = settle ((expression (some maxNesting)).run s) := by
  rw [State.parse, Parser.parse]
  cases (expression (some maxNesting)).run s with
  | ok e s => rfl
  | error e s => cases e <;> rfl

/-- Parses one expression, however deep. -/
def State.parseUnlimited (s : State) : Except Fault (Except ParseError Expr × State) :=
  settle ((expression none).run s)

/-- A state, and the states in which operands were opened before it. -/
structure Noted where
  state : State
  openings : List State
  deriving DecidableEq, Repr

/-- A parser that notes where it opens operands. -/
abbrev NotingM := EStateM Stop Noted

namespace Noting

variable {α : Type} {start : Noted}

/-- Runs a parser that opens no operands. -/
def plain (parser : ParserM α) : NotingM α := fun start =>
  match parser.run start.state with
  | .ok a state => .ok a { start with state }
  | .error e state => .error e { start with state }

theorem run_plain (parser : ParserM α) :
    (plain parser).run start =
      match parser.run start.state with
      | .ok a state => .ok a ⟨state, start.openings⟩
      | .error e state => .error e ⟨state, start.openings⟩ := rfl

/-- Notes the state, and runs a parser one level deeper. There is no limit on the levels. -/
def nested (parser : NotingM α) : NotingM α := do
  modify fun s => ⟨{ s.state with depth := s.state.depth + 1 }, s.openings ++ [s.state]⟩
  try parser
  finally modify fun s => { s with state := { s.state with depth := s.state.depth - 1 } }

theorem run_nested (parser : NotingM α) :
    (nested parser).run start =
      match parser.run ⟨{ start.state with depth := start.state.depth + 1 },
          start.openings ++ [start.state]⟩ with
      | .ok a s => .ok a { s with state := { s.state with depth := s.state.depth - 1 } }
      | .error e s =>
        .error e { s with state := { s.state with depth := s.state.depth - 1 } } := by
  simp only [nested, EStateM.run_bind, EStateM.run_modify, tryFinally, run_map]
  simp only [EStateM.run, tryFinally']
  cases parser _ <;> rfl

def joinLeft (level : Level) (operand : NotingM Expr) : Nat → Expr → NotingM Expr
  | 0, _ => throw (.fault .tokenOutOfRange)
  | bound + 1, left => do
    match ← plain (accept? (·.level? = some level)) with
    | some operator => joinLeft level operand bound (.binary left operator (← operand))
    | none => return left

def climb (operand : NotingM Expr) : List Level → NotingM Expr
  | [] => operand
  | level :: tighter => do
    let left ← climb operand tighter
    joinLeft level (climb operand tighter) (← plain get).ahead.length left

def primary (expression : NotingM Expr) : NotingM Expr := do
  let token ← plain peek
  if token.kind = .punctuator .leftParen then
    _ ← plain advance
    let inner ← nested expression
    _ ← plain (expect .rightParen .expectedRightParen)
    return .grouping inner
  else
    match Literal.ofKind? token.kind with
    | some value =>
      _ ← plain advance
      return .literal value
    | none => plain (refuse .expectedExpression token)

def unary : Nat → NotingM Expr
  | 0 => throw (.fault .tokenOutOfRange)
  | bound + 1 => do
    match ← plain (accept? Token.Kind.isUnary) with
    | some operator => return .unary operator (← nested (unary bound))
    | none => primary (climb (unary bound) Level.all)

def expression : NotingM Expr := do
  climb (unary (← plain get).ahead.length) Level.all

end Noting

/-- Parses one expression, however deep, and gives the openings in the order of their tokens. -/
def State.parseNoting (s : State) : Except Fault (Except ParseError Expr × Noted) :=
  settle (Noting.expression.run ⟨s, []⟩)

end Lox.Parser
