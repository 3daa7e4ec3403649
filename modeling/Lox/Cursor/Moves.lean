import Lox.Cursor

/-!
# Moves of cursors

What a cursor is asked to do, what it answers, and which characters it reads by that. Cursors are
held side by side: each is moved on its own, and a copy of one is another from then on.
-/

namespace Lox.Cursor

inductive Move where
  | next
  | peek
  | peekNext
  | eat (x : Char)
  | eatIf (p : Char → Bool)
  | eatWhile (p : Char → Bool)

inductive Answer where
  /-- The character that is read or looked at, if there is one. -/
  | seen (x? : Option Char)
  /-- Whether a character is read. -/
  | eaten (yes : Bool)
  | done
  deriving DecidableEq, Repr

/-- Makes one move. -/
def make (c : Cursor) : Move → Answer × Cursor
  | .next =>
    match c.next? with
    | some (x, after) => (.seen (some x), after)
    | none => (.seen none, c)
  | .peek => (.seen c.peek?, c)
  | .peekNext => (.seen c.peekNext?, c)
  | .eat x => (.eaten (c.eat x).1, (c.eat x).2)
  | .eatIf p => (.eaten (c.eatIf p).1, (c.eatIf p).2)
  | .eatWhile p => (.done, c.eatWhile p)

/-- Makes moves one after the other. Gives the answers, and the cursor after all. -/
def makeAll : List Move → Cursor → List Answer × Cursor
  | [], c => ([], c)
  | move :: moves, c =>
    let (answer, between) := c.make move
    let (answers, after) := between.makeAll moves
    (answer :: answers, after)

/-- What a move answers, told from what lies ahead alone. -/
def Move.answer (ahead : Text) : Move → Answer
  | .next | .peek => .seen ahead[0]?
  | .peekNext => .seen ahead[1]?
  | .eat x => .eaten (ahead[0]?.any (· == x))
  | .eatIf p => .eaten (ahead[0]?.any p)
  | .eatWhile _ => .done

/-- The characters that a move reads, at the front of what lies ahead. -/
def Move.front (ahead : Text) : Move → Text
  | .next => ahead.take 1
  | .peek | .peekNext => []
  | .eat x => (ahead.take 1).takeWhile (· == x)
  | .eatIf p => (ahead.take 1).takeWhile p
  | .eatWhile p => ahead.takeWhile p

/-- The characters that moves read, one after the other. -/
def frontOfAll : List Move → Text → Text
  | [], _ => []
  | move :: moves, ahead =>
    move.front ahead ++ frontOfAll moves (ahead.drop (move.front ahead).length)

/-- What is done with one of the cursors that are held. -/
inductive Step where
  | move (i : Nat) (move : Move)
  /-- A copy of it is held as well. -/
  | copy (i : Nat)

def perform (held : List Cursor) : Step → List Cursor
  | .move i move => held.modify i fun c => (c.make move).2
  | .copy i => held ++ held[i]?.toList

/-- The cursor is held after some steps, where all that was held before is one at the start of the
source. -/
def Reachable (source : Text) (c : Cursor) : Prop :=
  ∃ steps : List Step, c ∈ steps.foldl perform [start source]

/-- The cursor stands behind the characters `front` of the source. -/
structure Stands (source front : Text) (c : Cursor) : Prop where
  same : c.source = source
  split : source = front ++ c.rest
  line : c.line = 1 + front.newlines

end Lox.Cursor
