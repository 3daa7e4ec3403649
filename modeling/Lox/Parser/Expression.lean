import Lox.Expr
import Lox.Parser.State

/-!
# Parsing expressions

Expressions are read from the left by one look at the next token. Each level of binary operators
joins operands of the tighter levels from the left; the tightest operands are unary operators with
their operand, literals, and expressions between parentheses.

Loops and recursion are bounded by the number of tokens ahead. The bound is never what ends them:
each step reads a token, and where no token is ahead there is none to look at.
-/

namespace Lox.Parser

variable {t : Token} {s : State} {behind ahead : List Token} {depth bound : Nat}

/-- How many unary operators and parentheses may be open at once. -/
def maxNesting : Nat := 256

/-- Joins `left` with the operands behind it as long as an operator of the level is in between. -/
def joinLeft (level : Level) (operand : ParserM Expr) : Nat → Expr → ParserM Expr
  | 0, _ => throw (.fault .tokenOutOfRange)
  | bound + 1, left => do
    match ← accept? (·.level? = some level) with
    | some operator => joinLeft level operand bound (.binary left operator (← operand))
    | none => return left

theorem run_joinLeft_of_ne {level : Level} {operand : ParserM Expr} {left : Expr}
    (h : t.kind.level? ≠ some level) :
    (joinLeft level operand (bound + 1) left).run ⟨behind, t :: ahead, depth⟩ =
      .ok left ⟨behind, t :: ahead, depth⟩ := by
  have no : decide (t.kind.level? = some level) = false := decide_eq_false h
  simp [joinLeft, run_accept?_of_neg (p := (·.level? = some level)) no]

theorem run_joinLeft_of_eq {level : Level} {operand : ParserM Expr} {left : Expr}
    (h : t.kind.level? = some level) :
    (joinLeft level operand (bound + 1) left).run ⟨behind, t :: ahead, depth⟩ =
      match operand.run ⟨t :: behind, ahead, depth⟩ with
      | .ok right s => (joinLeft level operand bound (.binary left t right)).run s
      | .error e s => .error e s := by
  have yes : decide (t.kind.level? = some level) = true := decide_eq_true h
  simp only [joinLeft, EStateM.run_bind,
    run_accept?_of_pos (p := (·.level? = some level)) yes rfl]
  cases operand.run ⟨t :: behind, ahead, depth⟩ <;> rfl

/-- An expression with operators of the given levels, the loosest first, between operands. -/
def climb (operand : ParserM Expr) : List Level → ParserM Expr
  | [] => operand
  | level :: tighter => do
    let left ← climb operand tighter
    joinLeft level (climb operand tighter) (← get).ahead.length left

theorem run_climb_cons {operand : ParserM Expr} {level : Level} {tighter : List Level} :
    (climb operand (level :: tighter)).run s =
      match (climb operand tighter).run s with
      | .ok left s => (joinLeft level (climb operand tighter) s.ahead.length left).run s
      | .error e s => .error e s := by
  simp only [climb, EStateM.run_bind]
  cases (climb operand tighter).run s <;> rfl

/-- A literal, or an expression between parentheses. -/
def primary (limit : Option Nat) (expression : ParserM Expr) : ParserM Expr := do
  let token ← peek
  if token.kind = .punctuator .leftParen then
    _ ← advance
    let inner ← nested limit expression
    _ ← expect .rightParen .expectedRightParen
    return .grouping inner
  else
    match Literal.ofKind? token.kind with
    | some value =>
      _ ← advance
      return .literal value
    | none => refuse .expectedExpression token

theorem run_primary_of_leftParen {limit : Option Nat} {expression : ParserM Expr}
    (h : t.kind = .punctuator .leftParen) :
    (primary limit expression).run ⟨behind, t :: ahead, depth⟩ =
      match (nested limit expression).run ⟨t :: behind, ahead, depth⟩ with
      | .ok inner s =>
        match (expect .rightParen .expectedRightParen).run s with
        | .ok _ s => .ok (.grouping inner) s
        | .error e s => .error e s
      | .error e s => .error e s := by
  have ne : t.kind ≠ .eof := by simp [h]
  simp only [primary, EStateM.run_bind, run_peek_cons, h, if_true, run_advance_of_ne_eof ne]
  cases (nested limit expression).run ⟨t :: behind, ahead, depth⟩ with
  | error => rfl
  | ok inner s => dsimp only; cases (expect .rightParen .expectedRightParen).run s <;> rfl

theorem run_primary_of_literal {limit : Option Nat} {expression : ParserM Expr} {value : Literal}
    (h : Literal.ofKind? t.kind = some value) :
    (primary limit expression).run ⟨behind, t :: ahead, depth⟩ =
      .ok (.literal value) ⟨t :: behind, ahead, depth⟩ := by
  have paren : t.kind ≠ .punctuator .leftParen := fun e => by simp [e, Literal.ofKind?] at h
  have eof : t.kind ≠ .eof := fun e => by simp [e, Literal.ofKind?] at h
  simp [primary, paren, h, run_map, run_advance_of_ne_eof eof]

theorem run_primary_of_none {limit : Option Nat} {expression : ParserM Expr}
    (paren : t.kind ≠ .punctuator .leftParen) (h : Literal.ofKind? t.kind = none) :
    (primary limit expression).run ⟨behind, t :: ahead, depth⟩ =
      .error (.error ⟨.expectedExpression, t⟩) ⟨behind, t :: ahead, depth⟩ := by
  simp [primary, paren, h]

/-- A unary operator with its operand, or a primary. -/
def unary (limit : Option Nat) : Nat → ParserM Expr
  | 0 => throw (.fault .tokenOutOfRange)
  | bound + 1 => do
    match ← accept? Token.Kind.isUnary with
    | some operator => return .unary operator (← nested limit (unary limit bound))
    | none => primary limit (climb (unary limit bound) Level.all)

theorem run_unary_of_isUnary {limit : Option Nat} (h : t.kind.isUnary) :
    (unary limit (bound + 1)).run ⟨behind, t :: ahead, depth⟩ =
      match (nested limit (unary limit bound)).run ⟨t :: behind, ahead, depth⟩ with
      | .ok right s => .ok (.unary t right) s
      | .error e s => .error e s := by
  simp only [unary, EStateM.run_bind, run_accept?_of_pos h rfl]
  cases (nested limit (unary limit bound)).run ⟨t :: behind, ahead, depth⟩ <;> rfl

theorem run_unary_of_not_isUnary {limit : Option Nat} (h : t.kind.isUnary = false) :
    (unary limit (bound + 1)).run ⟨behind, t :: ahead, depth⟩ =
      (primary limit (climb (unary limit bound) Level.all)).run ⟨behind, t :: ahead, depth⟩ := by
  simp [unary, run_accept?_of_neg h]

/-- An expression, with a limit on how many unary operators and parentheses may be open at once. -/
def expression (limit : Option Nat) : ParserM Expr := do
  climb (unary limit (← get).ahead.length) Level.all

theorem run_expression {limit : Option Nat} :
    (expression limit).run s = (climb (unary limit s.ahead.length) Level.all).run s := by
  rw [expression, EStateM.run_bind, EStateM.run_get]

/-- Parses one expression and leaves the tokens behind it unread. -/
def parse : ParserM Expr := expression (some maxNesting)

/-- Parses one expression from a state. A state comes back whether or not there is one. -/
def State.parse (s : State) : Except Fault (Except ParseError Expr × State) :=
  match Parser.parse.run s with
  | .ok e s => .ok (.ok e, s)
  | .error (.error e) s => .ok (.error e, s)
  | .error (.fault f) _ => .error f

theorem State.parse_of_run_ok {s' : State} {e : Expr}
    (h : (expression (some maxNesting)).run s = .ok e s') : s.parse = .ok (.ok e, s') := by
  rw [State.parse, Parser.parse, h]

theorem State.parse_of_run_error {s' : State} {e : ParseError}
    (h : (expression (some maxNesting)).run s = .error (.error e) s') :
    s.parse = .ok (.error e, s') := by
  rw [State.parse, Parser.parse, h]

end Lox.Parser
