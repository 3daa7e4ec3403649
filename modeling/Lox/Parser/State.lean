import Lox.Diagnostic
import Lox.Fault
import Lox.Token

/-!
# Parser states

A parser moves over a token list that ends with the end marker, one token at a time and never past
an end marker. It counts how many operands it is inside of. Tokens are looked at through checks, so
that a look outside the list is a fault and not a wrong answer. Each step of a parser comes with its
outcome on a state, which is all that is used of it elsewhere.
-/

namespace Lox

/-- Why the tokens are no expression. -/
inductive ParseError.Cause where
  | expectedExpression
  | expectedRightParen
  | tooDeeplyNested
  deriving DecidableEq, Repr

/-- A token at which the tokens are no expression. -/
structure ParseError where
  cause : ParseError.Cause
  token : Token
  deriving DecidableEq, Repr

namespace ParseError

def Cause.message : Cause → Text
  | expectedExpression => "Expect expression.".toList
  | expectedRightParen => "Expect ')' after expression.".toList
  | tooDeeplyNested => "Expression nesting too deep.".toList

def diagnostic (e : ParseError) : Diagnostic :=
  .atLexeme e.token.line (if e.token.kind = .eof then none else some e.token.lexeme)
    e.cause.message

end ParseError

namespace Parser

/-- A position in a token list, and the number of operands the parser is inside of. -/
structure State where
  /-- The tokens read, the last one first. -/
  behind : List Token
  ahead : List Token
  /-- How many unary operators and parentheses are open. -/
  depth : Nat
  deriving DecidableEq, Repr

namespace State

/-- The position in front of a token list, which has to end with the end marker. -/
def ofTokens (tokens : List Token) : Except Fault State :=
  match tokens.getLast? with
  | some ⟨.eof, _, _⟩ => .ok ⟨[], tokens, 0⟩
  | _ => .error .unterminatedTokens

def index (s : State) : Nat := s.behind.length

end State

/-- Why a parser stops before it has an answer. -/
inductive Stop where
  | error (e : ParseError)
  | fault (f : Fault)
  deriving DecidableEq, Repr

/-- A parser: it reads tokens, and gives an answer or stops where it is. -/
abbrev ParserM := EStateM Stop State

variable {α : Type} {t : Token} {s : State} {behind ahead : List Token} {depth : Nat}

theorem run_map {ε σ β : Type} (f : α → β) (p : EStateM ε σ α) {s : σ} :
    (f <$> p).run s = match p.run s with
      | .ok a s => .ok (f a) s
      | .error e s => .error e s := by
  simp only [EStateM.run, Functor.map, EStateM.map]
  cases p s <;> rfl

/-- Stops at a token. -/
def refuse (cause : ParseError.Cause) (token : Token) : ParserM α :=
  throw (.error ⟨cause, token⟩)

@[simp] theorem run_refuse (cause : ParseError.Cause) :
    (refuse cause t : ParserM α).run s = .error (.error ⟨cause, t⟩) s := rfl

/-- The next token, which is not read. -/
def peek : ParserM Token := do
  match (← get).ahead with
  | token :: _ => return token
  | [] => throw (.fault .tokenOutOfRange)

@[simp] theorem run_peek_cons :
    peek.run ⟨behind, t :: ahead, depth⟩ = .ok t ⟨behind, t :: ahead, depth⟩ := rfl

@[simp] theorem run_peek_nil :
    peek.run ⟨behind, [], depth⟩ = .error (.fault .tokenOutOfRange) ⟨behind, [], depth⟩ := rfl

/-- The token read last. -/
def previous : ParserM Token := do
  match (← get).behind with
  | token :: _ => return token
  | [] => throw (.fault .tokenOutOfRange)

@[simp] theorem run_previous_cons :
    previous.run ⟨t :: behind, ahead, depth⟩ = .ok t ⟨t :: behind, ahead, depth⟩ := rfl

@[simp] theorem run_previous_nil :
    previous.run ⟨[], ahead, depth⟩ = .error (.fault .tokenOutOfRange) ⟨[], ahead, depth⟩ := rfl

/-- Reads the next token, except that an end marker stays unread. -/
def advance : ParserM Token := do
  let s ← get
  match s.ahead with
  | [] => throw (.fault .tokenOutOfRange)
  | token :: ahead =>
    unless token.kind = .eof do
      set { s with behind := token :: s.behind, ahead }
    return token

theorem run_advance_of_ne_eof (h : t.kind ≠ .eof) :
    advance.run ⟨behind, t :: ahead, depth⟩ = .ok t ⟨t :: behind, ahead, depth⟩ := by
  simp [advance, h, run_map]

theorem run_advance_of_eof (h : t.kind = .eof) :
    advance.run ⟨behind, t :: ahead, depth⟩ = .ok t ⟨behind, t :: ahead, depth⟩ := by
  simp [advance, h]

/-- Reads the next token if its kind satisfies `p`. -/
def accept? (p : Token.Kind → Bool) : ParserM (Option Token) := do
  if p (← peek).kind then return some (← advance)
  else return none

theorem run_accept?_of_neg {p : Token.Kind → Bool} (h : p t.kind = false) :
    (accept? p).run ⟨behind, t :: ahead, depth⟩ = .ok none ⟨behind, t :: ahead, depth⟩ := by
  simp [accept?, h]

theorem run_accept?_of_pos {p : Token.Kind → Bool} (h : p t.kind) (eof : p .eof = false) :
    (accept? p).run ⟨behind, t :: ahead, depth⟩ = .ok (some t) ⟨t :: behind, ahead, depth⟩ := by
  have ne : t.kind ≠ .eof := fun e => by simp [e, eof] at h
  simp [accept?, h, run_map, run_advance_of_ne_eof ne]

/-- Reads a punctuator, and stops for `cause` in front of any other token. -/
def expect (p : Punctuator) (cause : ParseError.Cause) : ParserM Token := do
  let token ← peek
  if token.kind = .punctuator p then advance
  else refuse cause token

theorem run_expect_of_eq {p : Punctuator} {cause : ParseError.Cause}
    (h : t.kind = .punctuator p) :
    (expect p cause).run ⟨behind, t :: ahead, depth⟩ = .ok t ⟨t :: behind, ahead, depth⟩ := by
  simp [expect, h, run_advance_of_ne_eof]

theorem run_expect_of_ne {p : Punctuator} {cause : ParseError.Cause}
    (h : t.kind ≠ .punctuator p) :
    (expect p cause).run ⟨behind, t :: ahead, depth⟩ =
      .error (.error ⟨cause, t⟩) ⟨behind, t :: ahead, depth⟩ := by
  simp [expect, h]

/-- Runs a parser one level deeper, and comes back to the level it started from, whatever the
outcome. With a limit on the levels there is none below it: the parser stops at the token that asked
for one more, which is the one read last. -/
def nested (limit : Option Nat) (parser : ParserM α) : ParserM α := do
  let depth := (← get).depth
  if limit.any (· ≤ depth) then refuse .tooDeeplyNested (← previous)
  modify fun s => { s with depth := s.depth + 1 }
  try parser
  finally modify fun s => { s with depth := s.depth - 1 }

theorem run_nested_of_limit {limit : Option Nat} {parser : ParserM α} (h : limit.any (· ≤ depth)) :
    (nested limit parser).run ⟨t :: behind, ahead, depth⟩ =
      .error (.error ⟨.tooDeeplyNested, t⟩) ⟨t :: behind, ahead, depth⟩ := by
  simp [nested, h]

theorem run_nested_of_free {limit : Option Nat} {parser : ParserM α}
    (h : limit.any (· ≤ depth) = false) :
    (nested limit parser).run ⟨behind, ahead, depth⟩ =
      match parser.run ⟨behind, ahead, depth + 1⟩ with
      | .ok a s => .ok a { s with depth := s.depth - 1 }
      | .error e s => .error e { s with depth := s.depth - 1 } := by
  simp only [nested, h, EStateM.run_bind, EStateM.run_get, Bool.false_eq_true, if_false,
    EStateM.run_modify, tryFinally, run_map]
  simp only [EStateM.run, tryFinally']
  cases parser ⟨behind, ahead, depth + 1⟩ <;> rfl

end Parser

end Lox
