import Lox.Proofs.Session.Findings
import Lox.Proofs.Text.Quoted

/-!
# Written tokens are read back

A token is written on a line of its own, whatever its lexeme is, and the line tells the name of its
kind, the lexeme and the line number, and what follows (`Token.line_append_inj`). No other token has
the name of the end marker, so the lines of the tokens are told from whatever is written behind
them (`dump_append_inj`). Of a token that was scanned the lexeme tells the rest: its kind with the
value in it.
-/

namespace Lox

variable {rest rest' : Text}

namespace Token

variable {t t' : Token} {kind : Kind}

/-- The token as it is written, without the break at the end of the line. -/
def dumped (t : Token) : Text :=
  t.kind.name ++ ' ' :: t.lexeme.quote ++ ' ' :: Text.ofNat t.line

lemma Kind.ne_of_mem_name : ∀ c ∈ kind.name, c ≠ ' ' ∧ c ≠ '\n' := by
  have all : kind.name.all fun c => c ≠ ' ' ∧ c ≠ '\n' := by
    cases kind with
    | punctuator p => cases p <;> rfl
    | keyword k => cases k <;> rfl
    | _ => rfl
  exact Text.forall_of_all all

/-- Only the end marker has its name. -/
lemma Kind.name_eq_iff : kind.name = Kind.eof.name ↔ kind = .eof := by
  constructor
  · intro eq
    cases kind with
    | punctuator p => cases p <;> cases eq
    | keyword k => cases k <;> cases eq
    | eof => rfl
    | _ => cases eq
  · rintro rfl
    rfl

lemma newline_notMem_dumped (t : Token) : '\n' ∉ t.dumped := by
  intro mem
  simp only [dumped, List.mem_append, List.mem_cons, Char.reduceEq, false_or] at mem
  obtain (mem | mem) | mem := mem
  · exact (Kind.ne_of_mem_name _ mem).2 rfl
  · exact Text.newline_notMem_quote _ mem
  · exact absurd (Text.isDigit_of_mem_ofNat mem) (by decide)

/-- A written token tells its parts and what follows it. -/
lemma dumped_append_inj (eq : t.dumped ++ '\n' :: rest = t'.dumped ++ '\n' :: rest') :
    t.kind.name = t'.kind.name ∧ t.lexeme = t'.lexeme ∧ t.line = t'.line ∧ rest = rest' := by
  simp only [dumped, List.append_assoc, List.cons_append] at eq
  obtain ⟨name, eq⟩ := Text.front_unique (fun c mem => (Kind.ne_of_mem_name c mem).1)
    (fun c mem => (Kind.ne_of_mem_name c mem).1) (by simp) (by simp) eq
  obtain ⟨lexeme, eq⟩ := Text.quote_append_inj (List.cons.inj eq).2
  obtain ⟨line, eq⟩ := Text.front_unique (fun c => Text.isDigit_of_mem_ofNat)
    (fun c => Text.isDigit_of_mem_ofNat) (by simp) (by simp) (List.cons.inj eq).2
  exact ⟨name, lexeme, Text.eq_of_ofNat_eq line, (List.cons.inj eq).2⟩

end Token

/-- Tokens as they are written, each on a line. -/
def dumpLines (tokens : List Token) : Text := tokens.flatMap fun t => t.dumped ++ ['\n']

variable {words words' : List Token} {stop stop' : Nat}

lemma dumpLines_cons (t : Token) (tokens : List Token) :
    dumpLines (t :: tokens) ++ rest = t.dumped ++ '\n' :: (dumpLines tokens ++ rest) := by
  simp only [dumpLines, List.flatMap_cons, List.append_assoc, List.cons_append, List.nil_append]

/-- The lines up to the end marker tell the tokens and what follows them. -/
lemma dumpLines_append_inj (lexical : ∀ w ∈ words, Lexical w) (lexical' : ∀ w ∈ words', Lexical w)
    (eq : dumpLines (words ++ [.eof stop]) ++ rest = dumpLines (words' ++ [.eof stop']) ++ rest') :
    words ++ [.eof stop] = words' ++ [.eof stop'] ∧ rest = rest' := by
  induction words generalizing words' with
  | nil =>
    cases words' with
    | nil =>
      simp only [List.nil_append, dumpLines_cons] at eq ⊢
      obtain ⟨_, _, line, tail⟩ := Token.dumped_append_inj eq
      cases line
      exact ⟨rfl, tail⟩
    | cons w' words' =>
      simp only [List.nil_append, List.cons_append, dumpLines_cons] at eq
      -- One list ends here and the other does not.
      have name := (Token.dumped_append_inj eq).1
      have marker := Token.Kind.name_eq_iff.mp name.symm
      exact absurd marker (lexical' w' List.mem_cons_self).ne_eof
  | cons w words ih =>
    obtain ⟨scanned, lexical⟩ := List.forall_mem_cons.mp lexical
    cases words' with
    | nil =>
      simp only [List.nil_append, List.cons_append, dumpLines_cons] at eq
      have name := (Token.dumped_append_inj eq).1
      exact absurd (Token.Kind.name_eq_iff.mp name) scanned.ne_eof
    | cons w' words' =>
      obtain ⟨scanned', lexical'⟩ := List.forall_mem_cons.mp lexical'
      simp only [List.cons_append, dumpLines_cons] at eq
      obtain ⟨_, lexeme, line, tail⟩ := Token.dumped_append_inj eq
      have kind := scanned.kind_unique scanned' lexeme
      have same : w = w' := by
        cases w
        cases w'
        cases kind
        cases lexeme
        cases line
        rfl
      obtain ⟨words, behind⟩ := ih lexical lexical' tail
      exact ⟨by rw [same, List.cons_append, List.cons_append, words], behind⟩

lemma Scan.exists_words {source : Text} {scan : Scan} (scanned : Scan.ofSource source = .ok scan) :
    ∃ words stop, scan.tokens = words ++ [.eof stop] ∧ ∀ w ∈ words, Lexical w := by
  obtain ⟨cuts, scan, run, cut, reading⟩ := exists_reading (.start source)
  cases run.symm.trans scanned
  exact reading.lexical cut

variable {ρ σ : Type} [Reporter ρ] [Reporter σ]

/-- What is written behind the tokens: the tree, unless the sink remembers an error. -/
def Findings.shown (f : Findings) (reporter : ρ) : Text :=
  if Reporter.hadError reporter then [] else f.tree

/-- A run that is asked for the tokens writes each of them on a line of its own, and then the tree.
A run of any source on any sink that writes the same has found the same tokens and has written the
same tree, or none as well. -/
theorem run_tokens_lossless (wording : Wording) (source : Text) (reporter : ρ) :
    ∃ f after, Findings.ofSource source = .ok f ∧
      run ⟨true, wording⟩ source reporter =
        .ok (dumpLines f.scan.tokens ++ f.shown after, after) ∧
      (∀ t ∈ f.scan.tokens, '\n' ∉ t.dumped) ∧
      ∀ wording' source' (reporter' after' : σ),
        run ⟨true, wording'⟩ source' reporter' =
          .ok (dumpLines f.scan.tokens ++ f.shown after, after') →
        ∃ f', Findings.ofSource source' = .ok f' ∧ f'.scan.tokens = f.scan.tokens ∧
          f'.shown after' = f.shown after := by
  obtain ⟨f, _, found, scanned, _⟩ := Findings.exists_ofSource source
  refine ⟨f, _, found, run_of_findings _ _ found, fun t _ => t.newline_notMem_dumped, ?_⟩
  intro wording' source' reporter' after' same
  obtain ⟨f', _, found', scanned', _⟩ := Findings.exists_ofSource source'
  rw [run_of_findings _ _ found'] at same
  obtain ⟨out, rfl⟩ := Prod.mk.inj (Except.ok.inj same)
  obtain ⟨words, stop, eq, lexical⟩ := Scan.exists_words scanned
  obtain ⟨words', stop', eq', lexical'⟩ := Scan.exists_words scanned'
  have out : dumpLines f'.scan.tokens ++ f'.shown (f'.report wording' reporter') =
      dumpLines f.scan.tokens ++ f.shown (f.report wording reporter) := out
  rw [eq, eq'] at out
  obtain ⟨tokens, tree⟩ := dumpLines_append_inj lexical' lexical out
  exact ⟨f', found', by rw [eq, eq', tokens], tree⟩

/-- A string with a line break in it is on one line among the tokens and on two as a tree. With a
blank behind it the same is written, so the same was found. -/
theorem run_tokens_lossless_string :
    ∃ f f', Findings.ofSource "\"a\nb\"".toList = .ok f ∧
      Findings.ofSource "\"a\nb\" ".toList = .ok f' ∧ f'.scan.tokens = f.scan.tokens ∧
      run ⟨true, .full⟩ "\"a\nb\"".toList Log.empty =
        .ok ("Str \"\\\"a\\nb\\\"\" 1\nEof \"\" 2\na\nb\n".toList, Log.empty) := by
  have run' : run ⟨true, .full⟩ "\"a\nb\"".toList Log.empty =
      .ok ("Str \"\\\"a\\nb\\\"\" 1\nEof \"\" 2\na\nb\n".toList, Log.empty) := by
    decide +kernel
  have run'' : run ⟨true, .full⟩ "\"a\nb\" ".toList Log.empty =
      .ok ("Str \"\\\"a\\nb\\\"\" 1\nEof \"\" 2\na\nb\n".toList, Log.empty) := by
    decide +kernel
  obtain ⟨f, after, found, writes, _, only⟩ :=
    run_tokens_lossless (σ := Log) .full "\"a\nb\"".toList Log.empty
  rw [run'] at writes
  obtain ⟨out, rfl⟩ := Prod.mk.inj (Except.ok.inj writes)
  rw [out] at run''
  obtain ⟨f', found', tokens, _⟩ := only _ _ _ _ run''
  exact ⟨f, f', found, found', tokens, run'⟩

end Lox
