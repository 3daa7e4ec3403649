import Lox.Proofs.Scan.Layout
import Lox.Proofs.Scan.Lines

/-!
# Line breaks part a source

A line break between two texts parts their scans, unless a string of the first is still open at the
break. Whatever else is in front of it ends there as at the end of a source, since the break is a
blank and ends comments as well (`IsLongest.append_blank`). What is behind the break is cut as a
source of its own and read from a later line on (`Reading.down`).
-/

namespace Lox

/-- The token further down in a source. -/
def Token.down (lines : Nat) (t : Token) : Token := { t with line := t.line + lines }

/-- The error further down in a source. -/
def LexicalError.down (lines : Nat) (e : LexicalError) : LexicalError :=
  { e with line := e.line + lines }

/-- The scan of a text further down in a source. -/
def Scan.down (lines : Nat) (s : Scan) : Scan :=
  ⟨s.tokens.map (.down lines), s.errors.map (.down lines)⟩

open Segment

variable {a b : Text} {line : Nat} {cuts cuts' : List (Segment × Text)} {scan scan' : Scan}

/-- In front of a line break a source is cut as it is on its own. -/
lemma Cut.append_newline (cut : Cut a cuts) (closed : ∀ piece ∈ cuts, piece.1 ≠ .unclosedString)
    (cut' : Cut b cuts') : Cut (a ++ '\n' :: b) (cuts ++ (blank, ['\n']) :: cuts') := by
  induction cut with
  | nil => exact cut_cons (u := []) (atFront_of_isBlank rfl) cut'
  | @segment segment t rest cuts spells longest _ ih =>
    obtain ⟨_, closed⟩ := List.forall_mem_cons.mp closed
    have filled : t ++ rest ≠ [] := List.append_ne_nil_of_left_ne_nil (ne_nil_of_spells spells) _
    have longest : IsLongest t (t ++ rest ++ '\n' :: b) :=
      longest.append_blank rfl filled (fun _ => spells.quote_mem_of_append) fun _ _ => .inr rfl
    rw [List.append_assoc] at longest ⊢
    exact .segment spells longest (ih closed)
  | unclosedString => exact absurd rfl (closed _ List.mem_cons_self)
  | @stray c rest cuts ne longest _ ih =>
    obtain ⟨_, closed⟩ := List.forall_mem_cons.mp closed
    refine .stray ne (longest.append_blank rfl (List.cons_ne_nil c rest) ?_ fun _ _ => .inr rfl)
      (ih closed)
    intro inside eq
    cases eq
    exact absurd rfl ne

lemma Reading.tokens_ne_nil (reading : Reading line cuts scan) : scan.tokens ≠ [] := by
  induction reading with
  | nil => exact List.cons_ne_nil _ _
  | token => exact List.cons_ne_nil _ _
  | blank _ ih => exact ih
  | comment _ ih => exact ih
  | unclosedString _ ih => exact ih
  | stray _ ih => exact ih

/-- Further down in a source the same is read on later lines. -/
lemma Reading.down (lines : Nat) (reading : Reading line cuts scan) :
    Reading (line + lines) cuts (scan.down lines) := by
  induction reading with
  | nil => exact .nil
  | token denotes _ ih =>
    rw [Nat.add_right_comm] at ih
    exact .token denotes ih
  | blank _ ih =>
    rw [Nat.add_right_comm] at ih
    exact .blank ih
  | comment _ ih =>
    rw [Nat.add_right_comm] at ih
    exact .comment ih
  | @unclosedString line t cuts scan _ ih =>
    rw [Nat.add_right_comm] at ih
    have reading := Reading.unclosedString ih
    rwa [Nat.add_right_comm] at reading
  | @stray line c t cuts scan _ ih =>
    rw [Nat.add_right_comm] at ih
    have reading := Reading.stray (c := c) ih
    rwa [Nat.add_right_comm] at reading

/-- Cuts one behind the other are read one after the other, and the first end marker is dropped. -/
lemma Reading.append (reading : Reading line cuts scan)
    (reading' : Reading (line + Text.newlines (cuts.flatMap Prod.snd)) cuts' scan') :
    Reading line (cuts ++ cuts')
      ⟨scan.tokens.dropLast ++ scan'.tokens, scan.errors ++ scan'.errors⟩ := by
  induction reading with
  | nil => exact reading'
  | token denotes reading ih =>
    rw [List.flatMap_cons, Text.newlines_append, ← Nat.add_assoc] at reading'
    rw [List.dropLast_cons_of_ne_nil reading.tokens_ne_nil]
    exact .token denotes (ih reading')
  | blank _ ih =>
    rw [List.flatMap_cons, Text.newlines_append, ← Nat.add_assoc] at reading'
    exact .blank (ih reading')
  | comment _ ih =>
    rw [List.flatMap_cons, Text.newlines_append, ← Nat.add_assoc] at reading'
    exact .comment (ih reading')
  | unclosedString _ ih =>
    rw [List.flatMap_cons, Text.newlines_append, ← Nat.add_assoc] at reading'
    exact .unclosedString (ih reading')
  | stray _ ih =>
    rw [List.flatMap_cons, Text.newlines_append, ← Nat.add_assoc] at reading'
    exact .stray (ih reading')

/-- No segment is a string without an end if no error is one. -/
lemma Reading.ne_unclosedString (reading : Reading line cuts scan)
    (closed : ∀ e ∈ scan.errors, e.cause ≠ .unclosedString) :
    ∀ piece ∈ cuts, piece.1 ≠ .unclosedString := by
  rintro ⟨segment, t⟩ mem rfl
  have cause : LexicalError.Cause.unclosedString ∈ scan.errors.map LexicalError.cause := by
    rw [reading.map_cause]
    exact List.mem_filterMap.mpr ⟨_, mem, rfl⟩
  obtain ⟨e, mem, eq⟩ := List.mem_map.mp cause
  exact closed e mem eq

/-- A line break parts a source. Unless a string is open in front of it, the scan is that of the
text in front, without its end marker, and then that of the text behind, further down by the lines
in front. -/
theorem Scan.ofSource_append_newline (a b : Text) :
    ∃ scan words stop scan', Scan.ofSource a = .ok scan ∧ Scan.ofSource b = .ok scan' ∧
      scan.tokens = words ++ [.eof stop] ∧ (∀ w ∈ words, w.kind ≠ .eof) ∧
      ((∀ e ∈ scan.errors, e.cause ≠ .unclosedString) →
        Scan.ofSource (a ++ '\n' :: b) =
          .ok ⟨words ++ scan'.tokens.map (.down (1 + a.newlines)),
            scan.errors ++ scan'.errors.map (.down (1 + a.newlines))⟩) := by
  obtain ⟨cuts, scan, run, cut, reading⟩ := exists_reading (.start a)
  obtain ⟨cuts', scan', run', cut', reading'⟩ := exists_reading (.start b)
  obtain ⟨words, stop, eq, lexical⟩ := reading.lexical cut
  refine ⟨scan, words, stop, scan', run, run', eq, fun w mem => (lexical w mem).ne_eof, ?_⟩
  intro closed
  have joined := cut.append_newline (reading.ne_unclosedString closed) cut'
  have behind : Reading (1 + Text.newlines (cuts.flatMap Prod.snd)) ((blank, ['\n']) :: cuts')
      (scan'.down (1 + a.newlines)) := by
    have reading' := reading'.down (1 + a.newlines)
    rw [Nat.add_comm] at reading'
    rw [cut.join]
    exact .blank reading'
  have last : scan.tokens.dropLast = words := by rw [eq, List.dropLast_concat]
  rw [← last]
  exact Scan.ofSource_of_reading joined (reading.append behind)

/-- A break between `!` and `=` keeps them apart, and the lines of the second text go on. -/
theorem Scan.ofSource_bang_newline :
    Scan.ofSource "!\n=\"\n".toList =
      .ok ⟨[⟨.punctuator .bang, ['!'], 1⟩, ⟨.punctuator .equal, ['='], 2⟩, .eof 3],
        [⟨.unclosedString, 3⟩]⟩ := by
  have run : Scan.ofSource ['!'] = .ok ⟨[⟨.punctuator .bang, ['!'], 1⟩, .eof 1], []⟩ := by
    decide +kernel
  have run' : Scan.ofSource "=\"\n".toList =
      .ok ⟨[⟨.punctuator .equal, ['='], 1⟩, .eof 2], [⟨.unclosedString, 2⟩]⟩ := by
    decide +kernel
  obtain ⟨scan, words, stop, scan', eq, eq', tokens, _, joined⟩ :=
    Scan.ofSource_append_newline ['!'] "=\"\n".toList
  rw [run] at eq
  rw [run'] at eq'
  cases eq
  cases eq'
  have split := congrArg List.dropLast tokens
  rw [List.dropLast_concat] at split
  cases split
  exact joined (List.forall_mem_nil _)

end Lox
