import Lox.Cursor
import Lox.Diagnostic
import Lox.Number.Decimal
import Lox.Segment
import Lox.Token

/-!
# Scanning

Scanning turns a source into tokens and lexical errors. It never stops at an error, and the tokens
always end with the end marker.
-/

namespace Lox

inductive LexicalError.Cause where
  | unexpectedCharacter (c : Char)
  | unclosedString
  deriving DecidableEq, Repr

/-- A segment that is no token, and the line on which it ends. -/
structure LexicalError where
  cause : LexicalError.Cause
  line : Nat
  deriving DecidableEq, Repr

/-- How much a message says. -/
inductive Wording where
  | full
  | terse
  deriving DecidableEq, Repr

namespace LexicalError

def Cause.message (wording : Wording) : Cause → Text
  | unexpectedCharacter c =>
    match wording with
    | .full =>
      "Unexpected character '".toList ++ c :: "' [ASCII: ".toList ++ Text.ofNat c.toNat ++ [']']
    | .terse => "Unexpected character.".toList
  | unclosedString => "Unclosed string.".toList

def diagnostic (wording : Wording) (e : LexicalError) : Diagnostic :=
  .onLine e.line (e.cause.message wording)

end LexicalError

/-- The text between the quotes of a string. -/
def Text.unquote (lexeme : Text) : Except Fault Text :=
  match lexeme with
  | '"' :: inside =>
    if inside.getLast? = some '"' then .ok inside.dropLast else .error .unquotedString
  | _ => .error .unquotedString

theorem Text.unquote_quoted (inside : Text) : unquote ('"' :: inside ++ ['"']) = .ok inside := by
  rw [List.cons_append, unquote, List.getLast?_concat, if_pos rfl, List.dropLast_concat]

namespace Segment

/-- The kind of the token that a segment with this text is, if it is one. -/
def kind? (segment : Segment) (lexeme : Text) : Except Fault (Option Token.Kind) :=
  match segment with
  | punctuator p => .ok (some (.punctuator p))
  | string => lexeme.unquote.map (some <| .string ·)
  | number =>
    match Decimal.ofNumeral? lexeme with
    | some d => .ok (some (.number d.toBinary64))
    | none => .error .malformedNumeral
  | word =>
    match Keyword.ofText? lexeme with
    | some k => .ok (some (.keyword k))
    | none => .ok (some .identifier)
  | blank | comment | unclosedString | stray _ => .ok none

/-- Why a segment is an error, if it is one. -/
def cause? : Segment → Option LexicalError.Cause
  | unclosedString => some .unclosedString
  | stray c => some (.unexpectedCharacter c)
  | _ => none

end Segment

structure Scan where
  tokens : List Token
  errors : List LexicalError
  deriving DecidableEq, Repr

namespace Scan

/-- Scans what lies ahead of a cursor. A token has the line on which it starts, and an error has the
line on which it ends. -/
def ofCursor (start : Cursor) : Except Fault Scan :=
  match _h : start.rest with
  | [] => .ok ⟨[.eof start.line], []⟩
  | c :: t => do
    let (segment, more) := Segment.atFront c t
    let stop := start.skip (more + 1)
    let lexeme ← start.sliceUntil stop
    let token? := (← segment.kind? lexeme).map (⟨·, lexeme, start.line⟩)
    let error? := segment.cause?.map (⟨·, stop.line⟩)
    let following ← ofCursor stop
    return ⟨token?.toList ++ following.tokens, error?.toList ++ following.errors⟩
termination_by start.rest.length
decreasing_by simp only [Cursor.rest_skip, List.length_drop, _h, List.length_cons]; omega

theorem ofCursor_of_nil {start : Cursor} (h : start.rest = []) :
    ofCursor start = .ok ⟨[.eof start.line], []⟩ := by
  rw [ofCursor]
  split
  · rfl
  · rename_i eq
    rw [h] at eq
    cases eq

/-- One round: what the segment at the front is comes before what lies behind it. -/
theorem ofCursor_of_cons {start : Cursor} {c t more kind? scan} {segment : Segment}
    (h : start.rest = c :: t) (front : Segment.atFront c t = (segment, more))
    (kind : segment.kind? ((c :: t).take (more + 1)) = .ok kind?)
    (following : ofCursor (start.skip (more + 1)) = .ok scan) :
    ofCursor start = .ok
      ⟨(kind?.map (⟨·, (c :: t).take (more + 1), start.line⟩)).toList ++ scan.tokens,
        (segment.cause?.map
          (⟨·, start.line + Text.newlines ((c :: t).take (more + 1))⟩)).toList ++ scan.errors⟩ := by
  rw [ofCursor]
  split
  · rename_i eq
    rw [h] at eq
    cases eq
  · rename_i eq
    rw [h] at eq
    cases eq
    rw [← h] at kind ⊢
    simp only [front, Cursor.sliceUntil_skip, Cursor.line_skip, bind, Except.bind, kind, following]
    rfl

def ofSource (source : Text) : Except Fault Scan := ofCursor (.start source)

/-- The tokens, one on a line: the kind, the quoted lexeme and the line number. -/
def dump (s : Scan) : Text :=
  s.tokens.flatMap fun t =>
    t.kind.name ++ ' ' :: t.lexeme.quote ++ ' ' :: Text.ofNat t.line ++ ['\n']

def reportErrors {ρ : Type} [Reporter ρ] (wording : Wording) (s : Scan) (reporter : ρ) : ρ :=
  s.errors.foldl (fun reporter e => Reporter.report reporter (e.diagnostic wording)) reporter

end Scan

end Lox
