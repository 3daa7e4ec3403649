import Lox.Layout
import Lox.Proofs.Parser.Relabel
import Lox.Proofs.Scan.Reading
import Lox.Proofs.Segment.Blank
import Lox.Session

/-!
# Layout does not matter

The lexemes of a source, written down with any gaps between them, are scanned as the same tokens on
other lines. A blank ends whatever segment it stands behind (`atFront_append`), so each lexeme is
cut off as it was in the source, and what is cut off of a gap denotes nothing.
-/

namespace Lox

namespace Segment

variable {c b : Char} {u rest : Text} {segment : Segment}

/-- No punctuator goes on with a blank. -/
lemma atFront?_spelling_append (q : Punctuator) (blank : isBlank b) :
    Punctuator.atFront? (q.spelling ++ b :: rest) = some q := by
  simp only [isBlank, Bool.or_eq_true, decide_eq_true_eq] at blank
  obtain ((rfl | rfl) | rfl) | rfl := blank <;> cases q <;> rfl

/-- A numeral in front of a blank is all of the number there. -/
lemma numberTail_append (numeral : IsNumeral (c :: u)) (blank : isBlank b) :
    numberTail (u ++ b :: rest) = u.length := by
  have no := isDigit_of_isBlank blank
  obtain ⟨_, all | ⟨whole, d, fraction, rfl, all, digit, all'⟩⟩ := cases_of_isNumeral numeral
  · rw [numberTail, takeWhile_append_cons all no, dropWhile_append_cons all no]
    split
    case h_1 eq =>
      -- The blank would be a point.
      cases eq
      cases blank
    case h_2 => rfl
  · rw [List.append_assoc, List.cons_append, List.cons_append, numberTail_point all digit,
      takeWhile_append_cons all' no, List.length_append, List.length_cons, List.length_cons]
    omega

/-- A blank ends the segment in front of it, and a line break ends a comment. -/
lemma atFront_append (spells : Spells (c :: u) segment) (blank : isBlank b)
    (ends : segment = comment → b = '\n') :
    atFront c (u ++ b :: rest) = (segment, u.length) := by
  cases segment with
  | blank =>
    obtain ⟨_, eq, front⟩ := spells
    cases eq
    exact atFront_of_isBlank front
  | comment =>
    obtain ⟨line, eq, no⟩ := spells
    cases eq
    cases ends rfl
    have all : ∀ x ∈ '/' :: line, decide (x ≠ '\n') :=
      List.forall_mem_cons.mpr ⟨rfl, fun x mem => decide_eq_true fun e => no (e ▸ mem)⟩
    rw [List.cons_append, atFront_comment, ← List.cons_append, takeWhile_append_cons all rfl]
  | punctuator q =>
    obtain ⟨notBlank, quote, digit, letter⟩ := head_spelling spells
    -- Behind a slash stands the blank, so no comment begins here.
    have alone : ¬ (c = '/' ∧ (u ++ b :: rest).head? = some '/') := by
      rintro ⟨rfl, head⟩
      have eq : u = [] := by
        cases q <;> cases spells
        rfl
      rw [eq] at head
      cases head
      cases blank
    have spelling : c :: u = q.spelling := spells
    have found : Punctuator.atFront? (c :: u ++ b :: rest) = some q := by
      rw [spelling]
      exact atFront?_spelling_append q blank
    rw [atFront_of_other notBlank alone quote digit letter, ← List.cons_append, found]
    dsimp only
    rw [← spelling]
    rfl
  | string =>
    obtain ⟨inside, eq, no⟩ := spells
    rw [List.cons_append] at eq
    cases eq
    rw [List.append_assoc, List.singleton_append, atFront_string no, List.length_append]
    rfl
  | number =>
    obtain ⟨digit, _⟩ := cases_of_isNumeral spells
    rw [atFront_of_isDigit digit, numberTail_append spells blank]
  | word =>
    obtain ⟨_, _, eq, letter, all⟩ := spells
    cases eq
    rw [atFront_of_isLetter letter, takeWhile_append_cons all (isWordPart_of_isBlank blank)]
  | unclosedString => cases spells
  | stray => cases spells

/-- Cutting off a segment that is at the front cuts the source. -/
lemma cut_cons {cuts} (front : atFront c (u ++ rest) = (segment, u.length)) (cut : Cut rest cuts) :
    Cut (c :: u ++ rest) ((segment, c :: u) :: cuts) := by
  have whole : Cut ((c :: (u ++ rest)).drop ((atFront c (u ++ rest)).2 + 1)) cuts := by
    rw [front, List.drop_succ_cons, List.drop_left]
    exact cut
  have whole := cut_atFront whole
  rwa [front, List.take_succ_cons, List.take_left] at whole

end Segment

open Segment

variable {line : Nat} {cuts : List (Segment × Text)} {scan : Scan} {source : Text} {w : Token}

/-- The token is what a segment with its lexeme denotes. -/
def Lexical (w : Token) : Prop :=
  ∃ segment, Spells w.lexeme segment ∧ Denotes segment w.lexeme w.kind

lemma Lexical.ne_eof (lexical : Lexical w) : w.kind ≠ .eof := by
  obtain ⟨kind, _, _⟩ := w
  obtain ⟨segment, _, denotes⟩ := lexical
  rintro rfl
  cases denotes

/-- The text of such a token tells its kind. -/
lemma Lexical.kind_unique {w' : Token} (lexical : Lexical w) (lexical' : Lexical w')
    (eq : w.lexeme = w'.lexeme) : w.kind = w'.kind := by
  obtain ⟨segment, spells, denotes⟩ := lexical
  obtain ⟨segment', spells', denotes'⟩ := lexical'
  rw [← eq] at spells' denotes'
  rw [← spells_unique spells spells'] at denotes'
  exact denotes_unique denotes denotes'

/-- Scanning gives tokens that segments denote, and the end marker. -/
lemma Reading.lexical (cut : Cut source cuts) (reading : Reading line cuts scan) :
    ∃ words stop, scan.tokens = words ++ [.eof stop] ∧ ∀ w ∈ words, Lexical w := by
  induction reading generalizing source with
  | nil => exact ⟨[], _, rfl, nofun⟩
  | token denotes _ ih =>
    cases cut with
    | segment spells _ cut =>
      obtain ⟨words, stop, eq, lexical⟩ := ih cut
      exact ⟨_ :: words, stop, congrArg (_ :: ·) eq,
        List.forall_mem_cons.mpr ⟨⟨_, spells, denotes⟩, lexical⟩⟩
    | unclosedString => cases denotes
    | stray => cases denotes
  | blank _ ih =>
    cases cut with
    | segment _ _ cut => exact ih cut
  | comment _ ih =>
    cases cut with
    | segment _ _ cut => exact ih cut
  | unclosedString _ ih =>
    cases cut with
    | segment spells => cases spells
    | unclosedString => exact ih .nil
  | stray _ ih =>
    cases cut with
    | segment spells => cases spells
    | stray _ _ cut => exact ih cut

/-- From any line on the text is scanned without an error and as these tokens, up to their lines. -/
def ReadsAs (t : Text) (words : List Token) : Prop :=
  ∀ line, ∃ cuts scan, Cut t cuts ∧ Reading line cuts scan ∧ scan.errors = [] ∧
    scan.tokens.map Token.unplaced = words.map Token.unplaced ++ [.eof 0]

namespace ReadsAs

variable {c b : Char} {u rest : Text} {words : List Token}

lemma nil : ReadsAs [] [] := fun _ => ⟨[], _, .nil, .nil, rfl, rfl⟩

lemma blank (blank : isBlank c) (reads : ReadsAs rest words) : ReadsAs (c :: rest) words := by
  intro line
  obtain ⟨cuts, scan, cut, reading, same⟩ := reads (line + Text.newlines [c])
  have front : atFront c ([] ++ rest) = (.blank, 0) := atFront_of_isBlank blank
  exact ⟨_, scan, cut_cons front cut, .blank reading, same⟩

/-- A comment takes the rest of its line. -/
lemma comment {text : Text} (no : '\n' ∉ text) (reads : ReadsAs ('\n' :: rest) words) :
    ReadsAs ('/' :: '/' :: text ++ '\n' :: rest) words := by
  intro line
  obtain ⟨cuts, scan, cut, reading, same⟩ := reads (line + Text.newlines ('/' :: '/' :: text))
  have spells : Spells ('/' :: '/' :: text) .comment := ⟨text, rfl, no⟩
  exact ⟨_, scan, cut_cons (atFront_append spells rfl fun _ => rfl) cut, .comment reading, same⟩

lemma gap {gap : Text} (gaps : Gap gap) (reads : ReadsAs rest words) :
    ReadsAs (gap ++ rest) words := by
  induction gaps with
  | nil => exact reads
  | blank blank _ ih => exact ih.blank blank
  | comment no _ ih =>
    rw [List.append_assoc]
    exact (ih.blank rfl).comment no

/-- A blank behind a lexeme ends its token. -/
lemma cons (lexical : Lexical w) (blank : isBlank b) (reads : ReadsAs (b :: rest) words) :
    ReadsAs (w.lexeme ++ b :: rest) (w :: words) := by
  intro line
  obtain ⟨kind, lexeme, _⟩ := w
  obtain ⟨segment, spells, denotes⟩ := lexical
  obtain ⟨cuts, scan, cut, reading, errors, same⟩ := reads (line + lexeme.newlines)
  have ends : segment = .comment → b = '\n' := by
    rintro rfl
    cases denotes
  obtain ⟨c, u, rfl⟩ := List.exists_cons_of_ne_nil (ne_nil_of_spells spells)
  exact ⟨_, _, cut_cons (atFront_append spells blank ends) cut, .token denotes reading, errors,
    congrArg (_ :: ·) same⟩

/-- However lexemes are laid out, they are read as the tokens that they are the lexemes of. -/
lemma of_layout {t : Text} (lexical : ∀ w ∈ words, Lexical w)
    (layout : Layout (words.map Token.lexeme) t) : ReadsAs t words := by
  induction words generalizing t with
  | nil =>
    cases layout
    exact .nil
  | cons w words ih =>
    obtain ⟨first, lexical⟩ := List.forall_mem_cons.mp lexical
    cases layout with
    | cons blank gaps layout =>
      rw [List.append_assoc]
      exact .cons first blank (((ih lexical layout).gap gaps).blank blank)

end ReadsAs

/-- The scan of a source is the one that its cut is read as. -/
lemma Scan.ofSource_of_reading {source : Text} (cut : Cut source cuts)
    (reading : Reading 1 cuts scan) : Scan.ofSource source = .ok scan := by
  obtain ⟨cuts', scan', run, cut', reading'⟩ := exists_reading (.start source)
  rw [cut.unique cut'] at reading'
  rw [← reading.unique reading']
  exact run

lemma ParseError.place_diagnostic {e e' : ParseError}
    (same : e'.relabel Token.unplaced = e.relabel Token.unplaced) :
    e'.cause = e.cause ∧ e'.diagnostic.place = e.diagnostic.place := by
  obtain ⟨cause, kind, lexeme, _⟩ := e
  obtain ⟨cause', kind', lexeme', _⟩ := e'
  cases same
  refine ⟨rfl, ?_⟩
  rw [diagnostic, diagnostic]
  dsimp only
  split <;> rfl

open Lox.Parser in
/-- Layout does not matter. The lexemes of a source, faulty or not, are scanned without an error and
as the tokens of the source on other lines, whatever gaps they are laid out with. From these tokens
the parser makes the same tree, up to the lines of its operators, or it fails for the same cause at
the same place of the line. -/
theorem Scan.ofSource_layout (source : Text) :
    ∃ scan words stop start, Scan.ofSource source = .ok scan ∧
      scan.tokens = words ++ [.eof stop] ∧ (∀ w ∈ words, w.kind ≠ .eof) ∧
      State.ofTokens scan.tokens = .ok start ∧
      ∀ front t, Gap front → Layout (words.map Token.lexeme) t →
        ∃ scan' start', Scan.ofSource (front ++ t) = .ok scan' ∧ scan'.errors = [] ∧
          scan'.tokens.map Token.unplaced = scan.tokens.map Token.unplaced ∧
          State.ofTokens scan'.tokens = .ok start' ∧
          ∀ {ρ : Type} [Reporter ρ] (reporter : ρ),
            (∃ (e e' : Expr) (after after' : State),
              start.parseReporting reporter = .ok (some e, after, reporter) ∧
              start'.parseReporting reporter = .ok (some e', after', reporter) ∧
              e'.relabel Token.unplaced = e.relabel Token.unplaced) ∨
            ∃ (e e' : ParseError) (after after' : State),
              start.parseReporting reporter =
                .ok (none, after, Reporter.report reporter e.diagnostic) ∧
              start'.parseReporting reporter =
                .ok (none, after', Reporter.report reporter e'.diagnostic) ∧
              e'.cause = e.cause ∧ e'.diagnostic.place = e.diagnostic.place := by
  obtain ⟨cuts, scan, run, cut, reading⟩ := exists_reading (.start source)
  obtain ⟨words, stop, eq, lexical⟩ := reading.lexical cut
  have term : Terminated scan.tokens := eq ▸ .append words ⟨_, rfl, rfl⟩
  refine ⟨scan, words, stop, _, run, eq, fun w mem => (lexical w mem).ne_eof,
    ofTokens_eq_ok_iff.mpr ⟨term, rfl⟩, ?_⟩
  intro front t gaps layout
  have reads := (ReadsAs.of_layout lexical layout).gap gaps
  obtain ⟨cuts', scan', cut', reading', errors, same⟩ := reads 1
  obtain ⟨words', stop', eq', _⟩ := reading'.lexical cut'
  have term' : Terminated scan'.tokens := eq' ▸ .append words' ⟨_, rfl, rfl⟩
  have same : scan'.tokens.map Token.unplaced = scan.tokens.map Token.unplaced := by
    rw [same, eq, List.map_append]
    rfl
  refine ⟨scan', _, Scan.ofSource_of_reading cut' reading', errors, same,
    ofTokens_eq_ok_iff.mpr ⟨term', rfl⟩, fun reporter => ?_⟩
  obtain ⟨e, e', after, after', run, run', agree⟩ | ⟨e, e', after, after', run, run', agree⟩ :=
    parse_congr (f := Token.unplaced) (fun _ => rfl) same term term'
  · exact .inl ⟨e, e', after, after', State.parseReporting_of_ok run,
      State.parseReporting_of_ok run', agree⟩
  · exact .inr ⟨e, e', after, after', State.parseReporting_of_error run,
      State.parseReporting_of_error run', ParseError.place_diagnostic agree⟩

/-- `!nil` with a tab in front, a comment behind the operator and a break behind the word. -/
theorem Scan.ofSource_layout_nil :
    ∃ scan', Scan.ofSource "\t! //?\nnil\n".toList = .ok scan' ∧ scan'.errors = [] ∧
      scan'.tokens.map Token.unplaced =
        [⟨.punctuator .bang, ['!'], 0⟩, ⟨.keyword .nilWord, "nil".toList, 0⟩, .eof 0] := by
  have cut : Cut "!nil".toList [(.punctuator .bang, ['!']), (.word, "nil".toList)] :=
    cut_cons (u := []) rfl (cut_cons (u := ['i', 'l']) rfl .nil)
  have reading : Reading 1 [(.punctuator .bang, ['!']), (.word, "nil".toList)]
      ⟨[⟨.punctuator .bang, ['!'], 1⟩, ⟨.keyword .nilWord, "nil".toList, 1⟩, .eof 1], []⟩ :=
    .token (.punctuator (p := .bang)) (.token (.keyword (k := .nilWord)) .nil)
  have run := Scan.ofSource_of_reading cut reading
  obtain ⟨scan, words, stop, _, run', eq, _, _, layouts⟩ := Scan.ofSource_layout "!nil".toList
  rw [run] at run'
  cases run'
  have split := congrArg List.dropLast eq
  rw [List.dropLast_concat] at split
  cases split
  have no : '\n' ∉ ['?'] := by decide
  have gap : Gap "//?\n".toList := .comment no .nil
  obtain ⟨scan', _, run, errors, same, _⟩ := layouts ['\t'] _ (.blank rfl .nil)
    (.cons (c := ' ') rfl gap (.cons (c := '\n') rfl .nil .nil))
  exact ⟨scan', run, errors, same⟩

end Lox
