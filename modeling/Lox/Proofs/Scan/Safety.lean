import Lox.Proofs.Cursor.Position
import Lox.Proofs.Scan.Reading
import Lox.Proofs.Segment.Read

/-!
# Scanning is safe

Every cursor of a scan is a position in its source (`Cursor.Within`), and a round leaves less ahead
than it found (`safe_of_round?`). So the rounds come to an end, and the text of each can be taken
from the source and read as what its segment is (`Round.Safe`). Where that holds of all rounds no
promise is broken (`exists_ofRounds`).
-/

namespace Lox

open Segment

variable {source front t : Text} {x : Char} {c : Cursor} {segment : Segment}

/-- A position in this source. -/
structure Cursor.Within (source : Text) (c : Cursor) : Prop where
  same : c.source = source
  suffix : c.rest <:+ source

lemma Cursor.within_start (source : Text) : (start source).Within source :=
  ⟨rfl, List.suffix_refl source⟩

lemma Cursor.Within.skip (within : c.Within source) (n : Nat) : (c.skip n).Within source := by
  refine ⟨(source_skip n c).trans within.same, ?_⟩
  rw [rest_skip]
  exact (List.drop_suffix n _).trans within.suffix

/-- Reading leaves less ahead. -/
lemma Cursor.length_rest_skip_lt (h : c.rest = x :: t) (n : Nat) :
    (c.skip (n + 1)).rest.length < c.rest.length := by
  rw [rest_skip, h, List.drop_succ_cons, List.length_drop, List.length_cons]
  omega

namespace Scan

variable {start last : Cursor} {r : Round} {rounds : List Round}

/-- The text of a segment can be read as what the segment is: a string has a quote of one byte at
each end, and a number is a numeral, which is all that is asked of a text that is converted. -/
structure Legible (segment : Segment) (lexeme : Text) : Prop where
  string : segment = .string → 2 ≤ lexeme.utf8Size ∧
    lexeme.slice? 0 1 = some ['"'] ∧
    lexeme.slice? (lexeme.utf8Size - 1) lexeme.utf8Size = some ['"'] ∧
    ∃ inside, lexeme.slice? 1 (lexeme.utf8Size - 1) = some inside ∧ lexeme.unquote = .ok inside
  number : segment = .number → IsNumeral lexeme ∧ ∃ d, Decimal.ofNumeral? lexeme = some d

/-- Nothing goes wrong in a round, and it reads at least one character. -/
structure Round.Safe (source : Text) (r : Round) : Prop where
  sources : r.start.source = source ∧ r.stop.source = source
  reads : r.stop.rest.length < r.start.rest.length
  inOrder : r.start.offset ≤ r.stop.offset
  boundaries : source.IsBoundary r.start.offset ∧ source.IsBoundary r.stop.offset
  lexeme : ∃ lexeme, r.lexeme = .ok lexeme ∧
    source.slice? r.start.offset r.stop.offset = some lexeme ∧ Legible r.segment lexeme

/-- The round from a cursor reads the segment at the front. -/
lemma round?_of_cons (h : start.rest = x :: t) :
    round? start = some ⟨start, (atFront x t).1, start.skip ((atFront x t).2 + 1)⟩ := by
  have behind : (start.skip 1).rest = t := by
    rw [Cursor.rest_skip, h, List.drop_succ_cons, List.drop_zero]
  rw [round?, Cursor.next?_of_cons h, Option.map_some]
  dsimp only
  rw [read_eq, behind, Cursor.skip_skip, Nat.add_comm]

lemma round?_of_nil (h : start.rest = []) : round? start = none := by
  simp only [round?, Cursor.next?, h, Option.map_none]

lemma round?_eq_some (h : round? start = some r) :
    ∃ x t, start.rest = x :: t ∧
      r = ⟨start, (atFront x t).1, start.skip ((atFront x t).2 + 1)⟩ := by
  cases ahead : start.rest with
  | nil =>
    rw [round?_of_nil ahead] at h
    cases h
  | cons x t =>
    rw [round?_of_cons ahead] at h
    cases h
    exact ⟨x, t, rfl, rfl⟩

lemma legible_of_spells (spells : segment.cause? = none → Spells t segment) :
    Legible segment t where
  string := by
    rintro rfl
    obtain ⟨inside, rfl, _⟩ := spells rfl
    have size : Text.utf8Size ('"' :: inside ++ ['"']) = Text.utf8Size ('"' :: inside) + 1 :=
      Text.utf8Size_append _ _
    have opening := Text.slice?_append [] ['"'] (inside ++ ['"'])
    have between := Text.slice?_append ['"'] inside ['"']
    have closing := Text.slice?_append ('"' :: inside) ['"'] []
    rw [List.append_nil] at closing
    rw [size, Nat.add_sub_cancel]
    refine ⟨?_, opening, ?_, inside, between, Text.unquote_quoted inside⟩
    · rw [Text.utf8Size_cons]
      exact Nat.succ_le_succ (Nat.le_add_right 1 _)
    · rwa [size] at closing
  number := by
    rintro rfl
    have numeral : IsNumeral t := spells rfl
    exact ⟨numeral, exists_ofNumeral? numeral⟩

/-- Where the text of a segment is legible it is the text of a token or of none. -/
lemma Legible.exists_kind? (legible : Legible segment t) : ∃ kind?, segment.kind? t = .ok kind? := by
  cases segment with
  | string =>
    obtain ⟨_, _, _, inside, _, unquote⟩ := legible.string rfl
    rw [kind?, unquote]
    exact ⟨_, rfl⟩
  | number =>
    obtain ⟨_, d, numeral⟩ := legible.number rfl
    rw [kind?, numeral]
    exact ⟨_, rfl⟩
  | word =>
    rw [kind?]
    split
    · exact ⟨_, rfl⟩
    · exact ⟨_, rfl⟩
  | _ => exact ⟨_, rfl⟩

/-- A round from a position in a source is safe, and it stops at a position in the source. -/
lemma safe_of_round? (within : start.Within source) (h : round? start = some r) :
    r.start = start ∧ r.Safe source ∧ r.stop.Within source := by
  obtain ⟨x, t, ahead, rfl⟩ := round?_eq_some h
  have within' := within.skip ((atFront x t).2 + 1)
  have legible := legible_of_spells (spells_atFront (c := x) (t := t))
  have slice := start.sliceUntil_skip ((atFront x t).2 + 1)
  rw [← ahead] at legible
  generalize (atFront x t).2 = more at within' legible slice
  obtain ⟨front, split⟩ := within.suffix
  have cut : source = front ++ start.rest.take (more + 1) ++ (start.skip (more + 1)).rest := by
    rw [Cursor.rest_skip, List.append_assoc, List.take_append_drop, split]
  have first := Cursor.offset_of_append (within.same.trans split.symm)
  have last := Cursor.offset_of_append (within'.same.trans cut)
  refine ⟨rfl, ⟨⟨within.same, within'.same⟩, ?_, ?_, ⟨?_, ?_⟩, _, slice, ?_, legible⟩, within'⟩
  · exact Cursor.length_rest_skip_lt ahead more
  · rw [first, last, Text.utf8Size_append]
    exact Nat.le_add_right _ _
  · exact ⟨front, _, split.symm, first.symm⟩
  · exact ⟨_, _, cut, last.symm⟩
  · have sliced := Text.slice?_append front (start.rest.take (more + 1)) (start.skip (more + 1)).rest
    rwa [← cut, ← first, ← last] at sliced

/-- All rounds of a run are safe, and each has read a character of what was ahead. -/
lemma Rounds.safe (run : Rounds start rounds last) (within : start.Within source) :
    rounds.length + last.rest.length ≤ start.rest.length ∧ ∀ r ∈ rounds, r.Safe source := by
  induction run with
  | nil => exact ⟨by rw [List.length_nil, Nat.zero_add], nofun⟩
  | cons next _ ih =>
    obtain ⟨rfl, safe, within'⟩ := safe_of_round? within next
    obtain ⟨le, all⟩ := ih within'
    refine ⟨?_, List.forall_mem_cons.mpr ⟨safe, all⟩⟩
    have reads := safe.reads
    rw [List.length_cons]
    omega

lemma exists_rounds (start : Cursor) :
    ∃ rounds last, Rounds start rounds last ∧ last.isAtEnd := by
  -- Each round leaves less ahead, so the induction is on how much lies ahead.
  generalize size : start.rest.length = n
  induction n using Nat.strong_induction_on generalizing start with
  | _ n ih =>
    cases ahead : start.rest with
    | nil => exact ⟨[], start, .nil, List.isEmpty_iff.mpr ahead⟩
    | cons x t =>
      have shorter := size ▸ Cursor.length_rest_skip_lt ahead (atFront x t).2
      obtain ⟨rounds, last, run, atEnd⟩ := ih _ shorter _ rfl
      exact ⟨_ :: rounds, last, .cons (round?_of_cons ahead) run, atEnd⟩

/-- Rounds that are all safe give a scan. -/
lemma exists_ofRounds (last : Cursor) (safe : ∀ r ∈ rounds, r.Safe source) :
    ∃ scan, ofRounds last rounds = .ok scan := by
  induction rounds with
  | nil => exact ⟨_, rfl⟩
  | cons r rounds ih =>
    obtain ⟨safe, all⟩ := List.forall_mem_cons.mp safe
    obtain ⟨lexeme, slice, _, legible⟩ := safe.lexeme
    obtain ⟨kind?, kind⟩ := legible.exists_kind?
    obtain ⟨scan, following⟩ := ih all
    rw [ofRounds, slice]
    simp only [bind, Except.bind, kind, following]
    exact ⟨_, rfl⟩

/-- Scanning from a cursor is what the rounds from there give. -/
lemma ofCursor_eq_ofRounds (run : Rounds start rounds last) (atEnd : last.isAtEnd) :
    ofCursor start = ofRounds last rounds := by
  induction run with
  | nil => exact ofCursor_of_nil (List.isEmpty_iff.mp atEnd)
  | @cons start _ _ _ next _ ih =>
    obtain ⟨x, t, ahead, rfl⟩ := round?_eq_some next
    rw [ofCursor]
    split
    case h_1 eq =>
      rw [ahead] at eq
      cases eq
    case h_2 eq =>
      rw [ahead] at eq
      cases eq
      rw [ofRounds, ← ih atEnd]
      rfl

/-- Whatever the source, each round is safe and there are no more rounds than characters. The rounds
come to the end of the source, and the scan is what they give. -/
theorem ofSource_safe (source : Text) :
    (∀ rounds last, Rounds (.start source) rounds last →
      rounds.length + last.rest.length ≤ source.length ∧ ∀ r ∈ rounds, r.Safe source) ∧
    ∃ rounds last scan, Rounds (.start source) rounds last ∧ last.isAtEnd ∧
      ofRounds last rounds = .ok scan ∧ ofSource source = .ok scan := by
  have safe {rounds last} (run : Rounds (.start source) rounds last) :=
    run.safe (Cursor.within_start source)
  refine ⟨fun _ _ => safe, ?_⟩
  obtain ⟨rounds, last, run, atEnd⟩ := exists_rounds (.start source)
  obtain ⟨scan, ok⟩ := exists_ofRounds last (safe run).2
  exact ⟨rounds, last, scan, run, atEnd, ok, (ofCursor_eq_ofRounds run atEnd).trans ok⟩

end Scan

end Lox
