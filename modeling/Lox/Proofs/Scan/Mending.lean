import Lox.Proofs.Scan.LineBreak

/-!
# Faults are isolated

A source is mended by a blank in place of each character that begins no segment, and by leaving out
a string that has no end. What is mended is cut as the source is, with the blanks for the faults
(`Cut.mend`): a blank ends the segment in front of it just where the fault did, and the end of the
text ends it where the quote did. So a fault has no part in how its neighbours are scanned.
-/

namespace Lox

open Segment

variable {line : Nat} {t source rest before : Text} {segment : Segment}
  {cuts : List (Segment × Text)} {scan : Scan}

/-- A piece of a cut in which the faults are mended. -/
def Segment.mend : Segment × Text → List (Segment × Text)
  | (stray _, _) => [(blank, [' '])]
  | (unclosedString, _) => []
  | piece => [piece]

/-- The source with a blank in place of each stray character and without a string that has no end,
which is the last of the pieces. -/
def mended (cuts : List (Segment × Text)) : Text := (cuts.flatMap mend).flatMap Prod.snd

lemma mended_cons (piece : Segment × Text) (cuts : List (Segment × Text)) :
    mended (piece :: cuts) = (mend piece).flatMap Prod.snd ++ mended cuts := by
  rw [mended, List.flatMap_cons, List.flatMap_append]
  rfl

/-- A segment of a class is no fault. -/
lemma Segment.Spells.mend (spells : Spells t segment) : mend (segment, t) = [(segment, t)] := by
  cases segment with
  | unclosedString => cases spells
  | stray => cases spells
  | _ => rfl

lemma Segment.Spells.mended_cons (spells : Spells t segment) :
    mended ((segment, t) :: cuts) = t ++ mended cuts := by
  rw [Lox.mended_cons, spells.mend]
  simp

/-- A source and what is mended of it go the same way up to the first fault. -/
lemma Cut.common (cut : Cut source cuts) :
    mended cuts <+: source ∨ ∃ front c u v, source = front ++ c :: u ∧
      mended cuts = front ++ ' ' :: v ∧ c ≠ '\n' := by
  induction cut with
  | nil => exact .inl List.prefix_rfl
  | @segment segment t rest cuts spells _ _ ih =>
    rw [spells.mended_cons]
    obtain same | ⟨front, c, u, v, rfl, eq, ne⟩ := ih
    · exact .inl ((List.prefix_append_right_inj t).mpr same)
    · refine .inr ⟨t ++ front, c, u, v, (List.append_assoc ..).symm, ?_, ne⟩
      rw [eq, List.append_assoc]
  | unclosedString => exact .inl List.nil_prefix
  | @stray c rest cuts _ longest _ _ =>
    exact .inr ⟨[], c, rest, mended cuts, rfl, rfl, longest.ne_newline⟩

/-- Mending what is behind a segment leaves it the longest. -/
lemma Segment.Spells.isLongest_mended (spells : Spells t segment)
    (longest : IsLongest t (t ++ rest)) (cut : Cut rest cuts) : IsLongest t (t ++ mended cuts) := by
  obtain same | ⟨front, c, u, v, rfl, eq, ne⟩ := cut.common
  · intro segment u front
    exact longest segment u (front.trans ((List.prefix_append_right_inj t).mpr same))
  · rw [eq, ← List.append_assoc]
    rw [← List.append_assoc] at longest
    have within : IsLongest t (t ++ front) := fun segment u front' =>
      longest segment u (front'.trans (List.prefix_append _ _))
    have short : t.length ≤ (t ++ front).length := (List.prefix_append t front).length_le
    have filled : t ++ front ≠ [] := List.append_ne_nil_of_left_ne_nil (ne_nil_of_spells spells) _
    exact within.append_blank rfl filled (fun _ => spells.quote_mem_of_append)
      fun _ eq => .inl (longest.newline_mem ne short eq)

/-- What is mended is cut as the source is. -/
lemma Cut.mend (cut : Cut source cuts) : Cut (mended cuts) (cuts.flatMap mend) := by
  induction cut with
  | nil => exact .nil
  | segment spells longest cut ih =>
    rw [spells.mended_cons, List.flatMap_cons, spells.mend]
    exact .segment spells (spells.isLongest_mended longest cut) ih
  | unclosedString => exact .nil
  | stray _ _ _ ih => exact cut_cons (u := []) (atFront_of_isBlank rfl) ih

/-- What is mended is read as the source is, up to the line of its end. -/
lemma Reading.mend (cut : Cut source cuts) (reading : Reading line cuts scan) :
    ∃ words stop, scan.tokens = words ++ [.eof stop] ∧
      Reading line (cuts.flatMap mend) ⟨words ++ [.eof (line + (mended cuts).newlines)], []⟩ := by
  induction cut generalizing line scan with
  | nil =>
    cases reading
    exact ⟨[], line, rfl, .nil⟩
  | @segment segment t rest cuts spells _ _ ih =>
    rw [spells.mended_cons, List.flatMap_cons, spells.mend, Text.newlines_append, ← Nat.add_assoc]
    cases reading with
    | token denotes reading =>
      obtain ⟨words, stop, eq, mends⟩ := ih reading
      exact ⟨_ :: words, stop, congrArg (_ :: ·) eq, .token denotes mends⟩
    | blank reading =>
      obtain ⟨words, stop, eq, mends⟩ := ih reading
      exact ⟨words, stop, eq, .blank mends⟩
    | comment reading =>
      obtain ⟨words, stop, eq, mends⟩ := ih reading
      exact ⟨words, stop, eq, .comment mends⟩
    | unclosedString => cases spells
    | stray => cases spells
  | unclosedString =>
    cases reading with
    | token denotes => cases denotes
    | unclosedString reading =>
      cases reading
      exact ⟨[], _, rfl, .nil⟩
  | @stray c rest cuts _ longest _ ih =>
    cases reading with
    | token denotes => cases denotes
    | stray reading =>
      rw [newlines_of_stray longest] at reading
      obtain ⟨words, stop, eq, mends⟩ := ih reading
      exact ⟨words, stop, eq, .blank mends⟩

/-- Only the last error can be a string without an end. -/
lemma Reading.ne_of_mem_dropLast (cut : Cut source cuts) (reading : Reading line cuts scan) :
    ∀ e ∈ scan.errors.dropLast, e.cause ≠ .unclosedString := by
  induction cut generalizing line scan with
  | nil =>
    cases reading
    exact nofun
  | segment spells _ _ ih =>
    cases reading with
    | token _ reading =>
      have later := ih reading
      exact later
    | blank reading => exact ih reading
    | comment reading => exact ih reading
    | unclosedString => cases spells
    | stray => cases spells
  | unclosedString =>
    cases reading with
    | token denotes => cases denotes
    | unclosedString reading =>
      cases reading
      exact nofun
  | stray _ _ _ ih =>
    cases reading with
    | token denotes => cases denotes
    | @stray _ _ _ _ scan reading =>
      have later := ih reading
      obtain ⟨tokens, errors⟩ := scan
      cases errors with
      | nil => exact nofun
      | cons e errors => exact List.forall_mem_cons.mpr ⟨nofun, later⟩

/-- What is mended has as many lines as the source, unless a part is left out. -/
lemma Cut.newlines_mended (cut : Cut source cuts)
    (closed : ∀ piece ∈ cuts, piece.1 ≠ .unclosedString) :
    (mended cuts).newlines = source.newlines := by
  induction cut with
  | nil => rfl
  | segment spells _ _ ih =>
    obtain ⟨_, closed⟩ := List.forall_mem_cons.mp closed
    rw [spells.mended_cons, Text.newlines_append, Text.newlines_append, ih closed]
  | unclosedString => exact absurd rfl (closed _ List.mem_cons_self)
  | @stray c rest cuts _ longest _ ih =>
    obtain ⟨_, closed⟩ := List.forall_mem_cons.mp closed
    rw [mended_cons, Text.newlines_append, ih closed, Text.newlines_cons, if_neg longest.ne_newline]
    rfl

/-- Where a part is left out, the lines are those in front of it. -/
lemma Cut.newlines_mended_of_mem {p : Piece} (cut : Cut source cuts)
    (mem : p ∈ Piece.ofCuts before cuts) (unclosed : p.segment = .unclosedString) :
    (before ++ mended cuts).newlines = p.before.newlines := by
  induction cut generalizing before with
  | nil => cases mem
  | segment spells _ _ ih =>
    cases mem with
    | head =>
      cases unclosed
      cases spells
    | tail _ mem =>
      rw [spells.mended_cons, ← List.append_assoc]
      exact ih mem
  | unclosedString =>
    cases mem with
    | head =>
      rw [Text.newlines_append]
      rfl
    | tail _ mem => cases mem
  | @stray c rest cuts _ longest _ ih =>
    cases mem with
    | head => cases unclosed
    | tail _ mem =>
      have later := ih mem
      have filled : Text.newlines ((Segment.mend (.stray c, [c])).flatMap Prod.snd) = 0 := rfl
      rw [Text.newlines_append, Text.newlines_append, newlines_of_stray longest] at later
      rw [mended_cons, Text.newlines_append, Text.newlines_append, filled, Nat.zero_add]
      exact later

/-- Faults are isolated. In place of the pieces that are reported as errors, what is mended has
blanks, and it ends in front of a string that has no end. It is cut as the source is, it is scanned
without an error and as the same tokens, and the end marker is on the line of the new end. A string
without an end can only be the last error. -/
theorem Scan.ofSource_mended (source : Text) :
    ∃ cuts scan words, Scan.ofSource source = .ok scan ∧
      Cut source cuts ∧ (∀ cuts', Cut source cuts' → cuts' = cuts) ∧
      scan.errors = (Piece.ofCuts [] cuts).filterMap (Piece.error? source) ∧
      scan.tokens = words ++ [.eof (1 + source.newlines)] ∧
      Cut (mended cuts) (cuts.flatMap mend) ∧
      Scan.ofSource (mended cuts) = .ok ⟨words ++ [.eof (1 + (mended cuts).newlines)], []⟩ ∧
      ((∀ e ∈ scan.errors, e.cause ≠ .unclosedString) →
        (mended cuts).newlines = source.newlines) ∧
      (∀ p ∈ Piece.ofCuts [] cuts, p.segment = .unclosedString →
        (mended cuts).newlines = p.before.newlines) ∧
      ∀ e ∈ scan.errors.dropLast, e.cause ≠ .unclosedString := by
  obtain ⟨cuts, scan, run, cut, reading⟩ := exists_reading (.start source)
  have cut : Cut source cuts := cut
  obtain ⟨words, stop, eq, mends⟩ := reading.mend cut
  have reading' : Reading (1 + Text.newlines []) cuts scan := reading
  obtain ⟨⟨words', eq', _⟩, errors⟩ := reading'.pieces cut
  rw [List.nil_append] at eq' errors
  obtain ⟨rfl, _⟩ := List.append_inj' (eq.symm.trans eq') rfl
  refine ⟨cuts, scan, words, run, cut, fun _ => cut.unique, errors, eq', cut.mend,
    Scan.ofSource_of_reading cut.mend mends, ?_, fun p => cut.newlines_mended_of_mem,
    reading.ne_of_mem_dropLast cut⟩
  intro closed
  exact cut.newlines_mended (reading.ne_unclosedString closed)

/-- A stray character between `!` and `=` keeps them apart, as a blank does. -/
theorem Scan.ofSource_mended_bang :
    ∃ words, Scan.ofSource "!?=\"\n".toList =
        .ok ⟨words ++ [.eof 2], [⟨.unexpectedCharacter '?', 1⟩, ⟨.unclosedString, 2⟩]⟩ ∧
      words.map Token.kind = [.punctuator .bang, .punctuator .equal] ∧
      Scan.ofSource "! =".toList = .ok ⟨words ++ [.eof 1], []⟩ := by
  have run : Scan.ofSource "!?=\"\n".toList =
      .ok ⟨[⟨.punctuator .bang, ['!'], 1⟩, ⟨.punctuator .equal, ['='], 1⟩, .eof 2],
        [⟨.unexpectedCharacter '?', 1⟩, ⟨.unclosedString, 2⟩]⟩ := by
    decide +kernel
  have cut : Cut "!?=\"\n".toList
      [(.punctuator .bang, ['!']), (.stray '?', ['?']), (.punctuator .equal, ['=']),
        (.unclosedString, ['"', '\n'])] := by
    have string : Cut ['"', '\n'] [(.unclosedString, ['"', '\n'])] :=
      .unclosedString (isLongest_nil nofun)
    have equal : Cut ['=', '"', '\n']
        [(.punctuator .equal, ['=']), (.unclosedString, ['"', '\n'])] :=
      cut_cons (u := []) rfl string
    exact cut_cons (u := []) rfl (.stray (by decide) (isLongest_nil nofun) equal)
  obtain ⟨cuts, scan, words, run', _, only, _, tokens, _, mends, _⟩ :=
    Scan.ofSource_mended "!?=\"\n".toList
  cases only _ cut
  rw [run] at run'
  cases run'
  have split := congrArg List.dropLast tokens
  rw [List.dropLast_concat] at split
  cases split
  exact ⟨_, run, rfl, mends⟩

end Lox
