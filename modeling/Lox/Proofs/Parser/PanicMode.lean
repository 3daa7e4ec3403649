import Lox.Proofs.Parser.Completeness
import Lox.Proofs.Parser.Reachable
import Mathlib.Data.List.Forall2

/-!
# Panic mode

The parser goes over a list of stretches, which are tokens without a boundary and the semicolon that
closes them. In each round it parses once and synchronizes once. What a round comes to is decided by
its stretch alone: no expression and no error goes beyond the semicolon (`exists_decides`), and from
wherever the call has left the parser, synchronizing leads right behind the semicolon
(`synchronize_through`). So the rounds give one answer for each stretch, the one that a parser of
its own gives for it, and a fault of one stretch is reported once and touches no other.
-/

namespace Lox

namespace Token.Kind

/-- The tokens at which a parser stops when it synchronizes. -/
def isBoundary (k : Kind) : Bool := k = .punctuator .semicolon || k = .eof || k.startsStatement

lemma not_isBoundary {k : Kind} (h : k.isBoundary = false) :
    k ≠ .punctuator .semicolon ∧ k ≠ .eof ∧ k.startsStatement = false := by
  simpa [isBoundary, and_assoc] using h

/-- The tokens of expressions. -/
def InExpression (k : Kind) : Prop :=
  k.level? ≠ none ∨ k.isUnary ∨ Literal.ofKind? k ≠ none ∨ k = .punctuator .leftParen ∨
    k = .punctuator .rightParen

lemma InExpression.ne_semicolon {k : Kind} (h : k.InExpression) : k ≠ .punctuator .semicolon := by
  rintro rfl
  obtain level | un | lit | opens | closes := h
  · exact level rfl
  · cases un
  · exact lit rfl
  · cases opens
  · cases closes

end Token.Kind

lemma Derives.inExpression {levels w e} (der : Derives levels w e) :
    ∀ t ∈ w, t.kind.InExpression := by
  induction der with
  | tighter _ ih => exact ih
  | binary _ eq _ ihl ihr =>
    have right := List.forall_mem_cons.mpr ⟨.inl (eq ▸ Option.some_ne_none _), ihr⟩
    exact List.forall_mem_append.mpr ⟨ihl, right⟩
  | unary un _ ih => exact List.forall_mem_cons.mpr ⟨.inr (.inl un), ih⟩
  | literal lit =>
    exact List.forall_mem_singleton.mpr (.inr (.inr (.inl (lit ▸ Option.some_ne_none _))))
  | grouping opens _ closes ih =>
    have closing := List.forall_mem_append.mpr
      ⟨ih, List.forall_mem_singleton.mpr (.inr (.inr (.inr (.inr closes))))⟩
    exact List.forall_mem_cons.mpr ⟨.inr (.inr (.inr (.inl opens))), closing⟩

lemma Blocked.inExpression {limit depth levels w e} (blk : Blocked limit depth levels w e) :
    ∀ t ∈ w, t.kind.InExpression := by
  induction blk with
  | tighter _ ih => exact ih
  | right der _ eq _ ih =>
    have right := List.forall_mem_cons.mpr ⟨.inl (eq ▸ Option.some_ne_none _), ih⟩
    exact List.forall_mem_append.mpr ⟨der.inExpression, right⟩
  | unary un _ _ ih => exact List.forall_mem_cons.mpr ⟨.inr (.inl un), ih⟩
  | inside opens _ _ ih => exact List.forall_mem_cons.mpr ⟨.inr (.inr (.inr (.inl opens))), ih⟩
  | tooDeep _ _ => exact nofun
  | unclosed opens der _ _ _ =>
    exact List.forall_mem_cons.mpr ⟨.inr (.inr (.inr (.inl opens))), der.inExpression⟩
  | noOperand _ _ _ => exact nofun

lemma Blocked.ne_semicolon {limit depth levels w e} (blk : Blocked limit depth levels w e)
    (cause : e.cause = .tooDeeplyNested) : e.token.kind ≠ .punctuator .semicolon := by
  obtain un | opens := blk.opens cause
  · exact Token.Kind.InExpression.ne_semicolon (.inr (.inl un))
  · exact Token.Kind.InExpression.ne_semicolon (.inr (.inr (.inr (.inl opens))))

/-- Tokens between two boundaries, with the semicolon behind them. -/
structure Stretch where
  tokens : List Token
  semicolon : Token
  inside : ∀ t ∈ tokens, t.kind.isBoundary = false
  closes : semicolon.kind = .punctuator .semicolon

namespace Stretch

def toList (s : Stretch) : List Token := s.tokens ++ [s.semicolon]

/-- The tokens of stretches one behind the other. -/
def join (stretches : List Stretch) : List Token := stretches.flatMap toList

end Stretch

namespace Parser

variable {semicolon : Token} {v rest : List Token}

/-- What a call that gives this answer leaves in the sink. -/
def reportAnswer {ρ : Type} [Reporter ρ] (reporter : ρ) : Except ParseError Expr → ρ
  | .ok _ => reporter
  | .error e => Reporter.report reporter e.diagnostic

/-- Parses and synchronizes `n` times. -/
def State.rounds {ρ : Type} [Reporter ρ] :
    Nat → State → ρ → Except Fault (List (Option Expr) × State × ρ)
  | 0, s, reporter => return ([], s, reporter)
  | n + 1, s, reporter => do
    let (tree?, s, reporter) ← s.parseReporting reporter
    let s ← s.synchronize
    let (trees, s, reporter) ← s.rounds n reporter
    return (tree? :: trees, s, reporter)

lemma parseReporting_of_parse {ρ : Type} [Reporter ρ] {s done : State} {answer}
    (run : s.parse = .ok (answer, done)) (reporter : ρ) :
    s.parseReporting reporter = .ok (answer.toOption, done, reportAnswer reporter answer) := by
  cases answer with
  | ok e => exact State.parseReporting_of_ok run
  | error e => exact State.parseReporting_of_error run

/-- One round, and the rounds behind it. -/
lemma State.rounds_succ {ρ : Type} [Reporter ρ] {s done s' s'' : State} {reporter reporter' : ρ}
    {answer trees n} (run : s.parse = .ok (answer, done)) (sync : done.synchronize = .ok s')
    (more : s'.rounds n (reportAnswer reporter answer) = .ok (trees, s'', reporter')) :
    s.rounds (n + 1) reporter = .ok (answer.toOption :: trees, s'', reporter') := by
  simp only [State.rounds, parseReporting_of_parse run, bind, Except.bind, sync, more]
  rfl

/-- Skipping to a boundary ends behind the semicolon if no other boundary is in between. -/
lemma skipToBoundary_through {last behind depth bound}
    (inside : ∀ t ∈ v, t.kind.isBoundary = false) (closes : semicolon.kind = .punctuator .semicolon)
    (term : Terminated rest) (ne : last.kind ≠ .punctuator .semicolon)
    (len : (v ++ semicolon :: rest).length ≤ bound) :
    (skipToBoundary bound).run ⟨last :: behind, v ++ semicolon :: rest, depth⟩ =
      .ok () ⟨semicolon :: v.reverse ++ last :: behind, rest, depth⟩ := by
  induction v generalizing last behind bound with
  | nil =>
    -- The semicolon is read, and the next look at what is behind ends the loop.
    have eof : semicolon.kind ≠ .eof := by simp [closes]
    have starts : semicolon.kind.startsStatement = false := by rw [closes]; rfl
    obtain ⟨bound, rfl, short⟩ := exists_succ_of_cons_le len
    obtain ⟨t, rest, rfl⟩ := term.exists_cons
    obtain ⟨bound, rfl, _⟩ := exists_succ_of_cons_le short
    rw [List.nil_append, run_skipToBoundary_of_inside eof ne starts]
    exact run_skipToBoundary_of_boundary (.inl closes)
  | cons t v ih =>
    obtain ⟨inside₁, inside⟩ := List.forall_mem_cons.mp inside
    obtain ⟨semi, eof, starts⟩ := Token.Kind.not_isBoundary inside₁
    obtain ⟨bound, rfl, short⟩ := exists_succ_of_cons_le len
    rw [List.cons_append, run_skipToBoundary_of_inside eof ne starts, ih inside semi short]
    simp

/-- Synchronizing leads behind the semicolon from wherever no other boundary is in between. -/
lemma synchronize_through (behind depth)
    (inside : ∀ t ∈ v, t.kind.isBoundary = false) (closes : semicolon.kind = .punctuator .semicolon)
    (term : Terminated rest) :
    State.synchronize ⟨behind, v ++ semicolon :: rest, depth⟩ =
      .ok ⟨semicolon :: v.reverse ++ behind, rest, depth⟩ := by
  apply State.synchronize_of_run_ok
  cases v with
  | nil =>
    have eof : semicolon.kind ≠ .eof := by simp [closes]
    obtain ⟨t, rest, rfl⟩ := term.exists_cons
    rw [List.nil_append, run_synchronize_of_ne_eof eof]
    exact run_skipToBoundary_of_boundary (.inl closes)
  | cons t v =>
    obtain ⟨inside₁, inside⟩ := List.forall_mem_cons.mp inside
    obtain ⟨semi, eof, _⟩ := Token.Kind.not_isBoundary inside₁
    rw [List.cons_append, run_synchronize_of_ne_eof eof,
      skipToBoundary_through inside closes term semi (Nat.le_refl _)]
    simp

/-- Tokens of an expression in front of a semicolon are all in front of it. -/
lemma exists_append_of_inExpression {w u tail : List Token}
    (part : ∀ t ∈ w, t.kind.InExpression) (closes : semicolon.kind = .punctuator .semicolon)
    (eq : w ++ u = v ++ semicolon :: tail) : ∃ x, v = w ++ x ∧ u = x ++ semicolon :: tail := by
  obtain ⟨x, left, right⟩ | ⟨x, left, right⟩ := List.append_eq_append_iff.mp eq
  · exact ⟨x, left, right⟩
  · cases x with
    | nil => exact ⟨[], by simpa using left.symm, by simpa using right.symm⟩
    | cons t x =>
      rw [List.cons_append] at right
      cases right
      have mem : semicolon ∈ w := by simp [left]
      exact absurd closes (part semicolon mem).ne_semicolon

/-- An error inside of a stretch, or at its semicolon, leaves the parser in front of the end of the
stretch. -/
lemma synchronize_stopAt {e : ParseError} {rest'} (behind depth)
    (inside : ∀ t ∈ v, t.kind.isBoundary = false) (closes : semicolon.kind = .punctuator .semicolon)
    (term : Terminated rest) (split : v ++ semicolon :: rest = e.token :: rest')
    (opens : e.cause = .tooDeeplyNested → e.token.kind ≠ .punctuator .semicolon) :
    (stopAt e behind rest' depth).synchronize =
      .ok ⟨semicolon :: v.reverse ++ behind, rest, depth⟩ := by
  obtain ⟨cause, t⟩ := e
  cases cause with
  | tooDeeplyNested =>
    -- The token of the error is read already, so it is not the semicolon that is still to come.
    cases v with
    | nil =>
      cases split
      exact absurd closes (opens rfl)
    | cons t v =>
      cases split
      obtain ⟨_, inside⟩ := List.forall_mem_cons.mp inside
      have sync := synchronize_through (t :: behind) depth inside closes term
      simpa [stopAt] using sync
  | expectedExpression =>
    have sync := synchronize_through behind depth inside closes term
    rwa [split] at sync
  | expectedRightParen =>
    have sync := synchronize_through behind depth inside closes term
    rwa [split] at sync

/-- A round in front of the stretch gives the answer and leads behind the stretch, whatever is
around it. -/
def Decides (stretch : Stretch) (answer : Except ParseError Expr) : Prop :=
  ∀ behind rest, Terminated rest → ∃ done,
    State.parse ⟨behind, stretch.toList ++ rest, 0⟩ = .ok (answer, done) ∧
      done.synchronize = .ok ⟨stretch.toList.reverse ++ behind, rest, 0⟩

/-- A stretch alone decides what a round comes to. -/
lemma exists_decides (stretch : Stretch) : ∃ answer, Decides stretch answer := by
  obtain ⟨tokens, semicolon, inside, closes⟩ := stretch
  -- One run decides the answer: it derives an expression or is blocked, whatever is around.
  have term₁ : Terminated (tokens ++ semicolon :: [.eof 1]) := .append _ ⟨_, rfl, rfl⟩
  have out : Outcome (some maxNesting) Level.all ⟨[], tokens ++ semicolon :: [.eof 1], 0⟩ _ :=
    expression_outcome term₁ within_zero
  generalize eq : tokens ++ semicolon :: [.eof 1] = ahead at out
  generalize (expression (some maxNesting)).run _ = result at out
  cases out with
  | @derived _ w rest₁ _ e der fits _ free =>
    obtain ⟨v, rfl, rfl⟩ := exists_append_of_inExpression der.inExpression closes eq.symm
    obtain ⟨_, inside⟩ := List.forall_mem_append.mp inside
    refine ⟨.ok e, fun behind rest term => ?_⟩
    have free : NotJoined Level.all (v ++ semicolon :: rest) := by simpa [NotJoined] using free
    obtain ⟨t, rest', split⟩ : ∃ t rest', v ++ semicolon :: rest = t :: rest' :=
      List.exists_cons_of_ne_nil (by simp)
    rw [split] at free
    have run := parse_of_derives der behind t rest' 0 fits (level?_eq_none_iff.mpr (free t rfl))
    have sync := synchronize_through (w.reverse ++ behind) 0 inside closes term
    rw [← split] at run
    exact ⟨_, by simpa [Stretch.toList] using run, by simpa [Stretch.toList] using sync⟩
  | @blocked _ w rest₁ _ e blk =>
    obtain ⟨v, rfl, split₁⟩ := exists_append_of_inExpression blk.inExpression closes eq.symm
    obtain ⟨_, inside⟩ := List.forall_mem_append.mp inside
    refine ⟨.error e, fun behind rest term => ?_⟩
    obtain ⟨rest', split⟩ : ∃ rest', v ++ semicolon :: rest = e.token :: rest' := by
      cases v with
      | nil => cases split₁; exact ⟨rest, rfl⟩
      | cons t v => cases split₁; exact ⟨_, rfl⟩
    have run := parse_of_blocked blk behind rest'
    have sync := synchronize_stopAt (w.reverse ++ behind) 0 inside closes term split
      blk.ne_semicolon
    rw [← split] at run
    exact ⟨_, by simpa [Stretch.toList] using run, by simpa [Stretch.toList] using sync⟩

lemma exists_forall₂_decides (stretches : List Stretch) :
    ∃ answers, List.Forall₂ Decides stretches answers := by
  induction stretches with
  | nil => exact ⟨[], .nil⟩
  | cons stretch stretches ih =>
    obtain ⟨answer, decides⟩ := exists_decides stretch
    obtain ⟨answers, all⟩ := ih
    exact ⟨answer :: answers, .cons decides all⟩

variable {stretches : List Stretch} {answers : List (Except ParseError Expr)}

/-- So many rounds lead over so many stretches. -/
lemma rounds_of_decides {ρ : Type} [Reporter ρ] (decides : List.Forall₂ Decides stretches answers)
    (term : Terminated rest) (reporter : ρ) (behind i) (le : i ≤ stretches.length) :
    State.rounds i ⟨behind, Stretch.join stretches ++ rest, 0⟩ reporter =
      .ok ((answers.take i).map Except.toOption,
        ⟨(Stretch.join (stretches.take i)).reverse ++ behind,
          Stretch.join (stretches.drop i) ++ rest, 0⟩,
        (answers.take i).foldl reportAnswer reporter) := by
  induction decides generalizing reporter behind i with
  | nil =>
    cases Nat.le_zero.mp le
    rfl
  | @cons stretch answer stretches answers decides all ih =>
    cases i with
    | zero => rfl
    | succ i =>
      have term' : Terminated (Stretch.join stretches ++ rest) := term.append _
      obtain ⟨done, run, sync⟩ := decides behind _ term'
      have more := ih (reportAnswer reporter answer) (stretch.toList.reverse ++ behind) i
        (Nat.le_of_succ_le_succ le)
      have round := State.rounds_succ run sync more
      simpa [Stretch.join] using round

/-- Behind each of the stretches the parser gives the answer for the next one. -/
lemma parse_of_decides (decides : List.Forall₂ Decides stretches answers) (term : Terminated rest)
    (behind i answer) (some : answers[i]? = some answer) :
    ∃ done, State.parse ⟨behind, Stretch.join (stretches.drop i) ++ rest, 0⟩ =
      .ok (answer, done) := by
  induction decides generalizing i with
  | nil => cases some
  | @cons stretch _ stretches answers decides all ih =>
    cases i with
    | zero =>
      cases some
      obtain ⟨done, run, _⟩ := decides behind (Stretch.join stretches ++ rest) (term.append _)
      exact ⟨done, by simpa [Stretch.join] using run⟩
    | succ i => exact ih i some

/-- The answer for a stretch is that of a parser of its own. -/
lemma parse_alone_of_decides {stretch answer} (decides : Decides stretch answer)
    (term : Terminated rest) :
    ∃ start done, State.ofTokens (stretch.toList ++ rest) = .ok start ∧
      start.parse = .ok (answer, done) := by
  obtain ⟨done, run, _⟩ := decides [] rest term
  exact ⟨_, done, ofTokens_eq_ok_iff.mpr ⟨term.append _, rfl⟩, run⟩

/-- A parser on stretches gives, round by round, the answer of a parser that has only the stretch of
this round in front of it, and stands behind this stretch when the round is over. It reports the
errors among the answers and nothing else. -/
theorem rounds_join (stretches : List Stretch) (term : Terminated rest) :
    ∃ start answers,
      State.ofTokens (Stretch.join stretches ++ rest) = .ok start ∧
      List.Forall₂ (fun stretch answer => ∀ rest, Terminated rest → ∃ alone done,
        State.ofTokens (stretch.toList ++ rest) = .ok alone ∧
          alone.parse = .ok (answer, done)) stretches answers ∧
      ∀ i ≤ stretches.length, ∃ s : State,
        s = ⟨(Stretch.join (stretches.take i)).reverse,
          Stretch.join (stretches.drop i) ++ rest, 0⟩ ∧
        (∀ answer, answers[i]? = some answer → ∃ done, s.parse = .ok (answer, done)) ∧
        ∀ {ρ : Type} [Reporter ρ] (reporter : ρ),
          start.rounds i reporter = .ok ((answers.take i).map Except.toOption, s,
            (answers.take i).foldl reportAnswer reporter) := by
  obtain ⟨answers, decides⟩ := exists_forall₂_decides stretches
  refine ⟨_, answers, ofTokens_eq_ok_iff.mpr ⟨term.append _, rfl⟩, ?_, fun i le => ⟨_, rfl, ?_, ?_⟩⟩
  · exact decides.imp fun _ _ decides _ term => parse_alone_of_decides decides term
  · intro answer some
    exact parse_of_decides decides term _ i answer some
  · intro ρ _ reporter
    have run := rounds_of_decides decides term reporter [] i le
    rwa [List.append_nil] at run

private def nilToken : Token := ⟨.keyword .nilWord, "nil".toList, 1⟩

/-- `nil -;`, a semicolon, `(nil nil;` and `nil nil;`. -/
def faultyStretches : List Stretch :=
  [⟨[nilToken, ⟨.punctuator .minus, ['-'], 1⟩], ⟨.punctuator .semicolon, [';'], 1⟩,
      by decide, rfl⟩,
    ⟨[], ⟨.punctuator .semicolon, [';'], 2⟩, by decide, rfl⟩,
    ⟨[⟨.punctuator .leftParen, ['('], 1⟩, nilToken, nilToken],
      ⟨.punctuator .semicolon, [';'], 2⟩, by decide, rfl⟩,
    ⟨[nilToken, nilToken], ⟨.punctuator .semicolon, [';'], 3⟩, by decide, rfl⟩]

/-- Behind three faults the fourth round reads its `nil`. -/
theorem rounds_join_faulty :
    ∃ (start : State) (answers : List (Except ParseError Expr)),
      State.ofTokens (Stretch.join faultyStretches ++ [.eof 3]) = .ok start ∧
      answers.map Except.toOption = [none, none, none, some (.literal .nil)] ∧
      start.rounds 4 Log.empty = .ok (answers.map Except.toOption,
        ⟨(Stretch.join faultyStretches).reverse, [.eof 3], 0⟩,
        answers.foldl reportAnswer Log.empty) := by
  have term : Terminated [.eof 3] := ⟨_, rfl, rfl⟩
  obtain ⟨start, answers, eq, alone, rounds⟩ := rounds_join faultyStretches term
  obtain ⟨s, rfl, _, run⟩ := rounds 4 (Nat.le_refl _)
  have all : answers.take 4 = answers :=
    List.take_of_length_le (Nat.le_of_eq alone.length_eq.symm)
  have run := run Log.empty
  rw [all] at run
  obtain ⟨_, rfl⟩ := ofTokens_eq_ok_iff.mp eq
  refine ⟨_, answers, eq, ?_, run⟩
  obtain ⟨s, log, eval⟩ : ∃ s log, State.rounds 4 ⟨[], Stretch.join faultyStretches ++ [.eof 3], 0⟩
      Log.empty = .ok ([none, none, none, some (.literal .nil)], s, log) := ⟨_, _, rfl⟩
  rw [eval] at run
  exact (congrArg Prod.fst (Except.ok.inj run)).symm

end Parser

end Lox
