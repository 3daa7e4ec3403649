import Lox.Scan

/-!
# Rounds of a scan

A scan in rounds. Each round starts where the one before it stopped, reads a character, and from
there on looks at no more than two characters ahead of its cursor before it reads on. All it keeps
is the two cursors, and the text between them is taken from the source when it is asked for.
-/

namespace Lox

namespace Segment

/-- Reads on behind the first character of a punctuator. It is `longer` if `x` follows. -/
def readEither (x : Char) (longer single : Punctuator) (c : Cursor) : Segment × Cursor :=
  match c.eat x with
  | (true, c) => (punctuator longer, c)
  | (false, c) => (punctuator single, c)

def readSlash (c : Cursor) : Segment × Cursor :=
  match c.eat '/' with
  | (true, c) => (comment, c.eatWhile (· ≠ '\n'))
  | (false, c) => (punctuator .slash, c)

def readString (c : Cursor) : Segment × Cursor :=
  match (c.eatWhile (· ≠ '"')).eat '"' with
  | (true, c) => (string, c)
  | (false, c) => (unclosedString, c)

def readNumber (c : Cursor) : Segment × Cursor :=
  let c := c.eatWhile Char.isDigit
  if c.peek? = some '.' ∧ c.peekNext?.any Char.isDigit then
    (number, (c.skip 1).eatWhile Char.isDigit)
  else (number, c)

/-- Reads the segment that begins with `x`, behind which the cursor stands. -/
def read (x : Char) (c : Cursor) : Segment × Cursor :=
  match x with
  | '(' => (punctuator .leftParen, c)
  | ')' => (punctuator .rightParen, c)
  | '\x7b' => (punctuator .leftBrace, c)
  | '\x7d' => (punctuator .rightBrace, c)
  | ',' => (punctuator .comma, c)
  | '.' => (punctuator .dot, c)
  | '-' => (punctuator .minus, c)
  | '+' => (punctuator .plus, c)
  | ';' => (punctuator .semicolon, c)
  | '*' => (punctuator .star, c)
  | '!' => readEither '=' .bangEqual .bang c
  | '=' => readEither '=' .equalEqual .equal c
  | '<' => readEither '=' .lessEqual .less c
  | '>' => readEither '=' .greaterEqual .greater c
  | '/' => readSlash c
  | ' ' => (blank, c)
  | '\r' => (blank, c)
  | '\t' => (blank, c)
  | '\n' => (blank, c)
  | '"' => readString c
  | x =>
    if x.isDigit then readNumber c
    else if isLetter x then (word, c.eatWhile isWordPart)
    else (stray x, c)

end Segment

namespace Scan

/-- One round: where it starts, what it reads and where it stops. -/
structure Round where
  start : Cursor
  segment : Segment
  stop : Cursor

/-- The round from a cursor. There is none at the end of the source. -/
def round? (start : Cursor) : Option Round :=
  start.next?.map fun (x, behind) =>
    let (segment, stop) := Segment.read x behind
    ⟨start, segment, stop⟩

/-- The text of a round, taken from between its cursors. -/
def Round.lexeme (r : Round) : Except Fault Text := r.start.sliceUntil r.stop

/-- Rounds one after the other, from one cursor to another. -/
inductive Rounds : Cursor → List Round → Cursor → Prop where
  | nil {c} :
    Rounds c [] c
  | cons {start round rounds last} :
    round? start = some round →
    Rounds round.stop rounds last →
    Rounds start (round :: rounds) last

/-- What rounds give that stop at the end of the source. -/
def ofRounds (last : Cursor) : List Round → Except Fault Scan
  | [] => .ok ⟨[.eof last.line], []⟩
  | r :: rounds => do
    let lexeme ← r.lexeme
    let token? := (← r.segment.kind? lexeme).map (⟨·, lexeme, r.start.line⟩)
    let error? := r.segment.cause?.map (⟨·, r.stop.line⟩)
    let following ← ofRounds last rounds
    return ⟨token?.toList ++ following.tokens, error?.toList ++ following.errors⟩

end Scan

end Lox
