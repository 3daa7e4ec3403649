import Lox.Parser.Recovery
import Lox.Proofs.Parser.Outcome
import Lox.Session

/-!
# Reachable parser states

The states of one parser between its calls, whatever calls were made before. `Standing` is what all
of them share: the tokens behind and ahead make up the token list, the end marker is still ahead,
and nothing is open. Each call keeps it, since each call passes over tokens and undoes what it
opened (`derived_of_parse`, `blocked_of_parse`, `synchronize_passes`).

The main statement is soundness: the tokens that a call passes over derive the expression it gives,
and no operator is left that would go on with it.
-/

namespace Lox.Parser

variable {tokens w rest : List Token} {s s' : State} {e : Expr}

/-- The parser passes over the tokens `w` and nothing else is changed. -/
structure Passes (s : State) (w : List Token) (s' : State) : Prop where
  ahead : s.ahead = w ++ s'.ahead
  behind : s'.behind = w.reverse ++ s.behind
  depth : s'.depth = s.depth

/-- A parser between two calls on the token list. -/
structure Standing (tokens : List Token) (s : State) : Prop where
  split : s.behind.reverse ++ s.ahead = tokens
  term : Terminated s.ahead
  depth : s.depth = 0

lemma Standing.within (st : Standing tokens s) : Within (some maxNesting) s.depth := by
  rw [st.depth]
  exact within_zero

/-- The index of a state is where the tokens ahead of it begin. -/
lemma Standing.drop (st : Standing tokens s) : tokens.drop s.index = s.ahead := by
  rw [← st.split, State.index, ← List.length_reverse, List.drop_left]

lemma Standing.extract (st : Standing tokens s) (ahead : s.ahead = w ++ rest) :
    tokens.extract s.index (s.index + w.length) = w := by
  rw [List.extract_eq_take_drop, st.drop, ahead, Nat.add_sub_cancel_left, List.take_left]

lemma Standing.getElem? (st : Standing tokens s) (ahead : s.ahead = w ++ rest) :
    tokens[s.index + w.length]? = rest.head? := by
  rw [← List.getElem?_drop, st.drop, ahead, List.getElem?_append_right (Nat.le_refl _),
    Nat.sub_self, List.head?_eq_getElem?]

/-- Passing over tokens keeps the parser on its list. -/
lemma Passes.standing (pass : Passes s w s') (st : Standing tokens s)
    (term : Terminated s'.ahead) : Standing tokens s' := by
  refine ⟨?_, term, pass.depth.trans st.depth⟩
  rw [pass.behind, List.reverse_append, List.reverse_reverse, List.append_assoc, ← pass.ahead]
  exact st.split

lemma Passes.index (pass : Passes s w s') : s'.index = s.index + w.length := by
  rw [State.index, State.index, pass.behind, List.length_append, List.length_reverse, Nat.add_comm]

/-- In front of a terminated list a call comes to an answer. -/
lemma exists_parse (term : Terminated s.ahead) (fits : Within (some maxNesting) s.depth) :
    ∃ answer s', s.parse = .ok (answer, s') := by
  have out := expression_outcome term fits
  generalize eq : (expression (some maxNesting)).run s = result at out
  cases out with
  | derived => exact ⟨_, _, State.parse_of_run_ok eq⟩
  | blocked => exact ⟨_, _, State.parse_of_run_error eq⟩

/-- A call that gives an expression passes over tokens that derive it. -/
lemma derived_of_parse (term : Terminated s.ahead) (fits : Within (some maxNesting) s.depth)
    (run : s.parse = .ok (.ok e, s')) :
    ∃ w, Passes s w s' ∧ Derives Level.all w e ∧ s.depth + e.nesting ≤ maxNesting ∧
      Terminated s'.ahead ∧ NotJoined Level.all s'.ahead := by
  obtain ⟨behind, ahead, depth⟩ := s
  have out := expression_outcome term fits
  generalize eq : (expression (some maxNesting)).run ⟨behind, ahead, depth⟩ = result at out
  cases out with
  | @derived _ w rest _ e' der fits' term' free =>
    have run' := State.parse_of_run_ok eq
    rw [run] at run'
    cases run'
    exact ⟨w, ⟨rfl, rfl, rfl⟩, der, fits' _ rfl, term', free⟩
  | blocked blk =>
    have run' := State.parse_of_run_error eq
    rw [run] at run'
    cases run'

/-- A call that fails passes over tokens that are blocked by the token of the error, which it may
have read as well. -/
lemma blocked_of_parse {e : ParseError} (term : Terminated s.ahead)
    (fits : Within (some maxNesting) s.depth) (run : s.parse = .ok (.error e, s')) :
    ∃ w rest, s.ahead = w ++ e.token :: rest ∧ Blocked (some maxNesting) s.depth Level.all w e ∧
      s' = stopAt e (w.reverse ++ s.behind) rest s.depth := by
  obtain ⟨behind, ahead, depth⟩ := s
  have out := expression_outcome term fits
  generalize eq : (expression (some maxNesting)).run ⟨behind, ahead, depth⟩ = result at out
  cases out with
  | derived der fits term free =>
    have run' := State.parse_of_run_ok eq
    rw [run] at run'
    cases run'
  | @blocked _ w rest _ e' blk =>
    have run' := State.parse_of_run_error eq
    rw [run] at run'
    cases run'
    exact ⟨w, rest, rfl, blk, rfl⟩

/-- An error leaves the parser on its list. -/
lemma passes_stopAt {limit depth levels e} (blk : Blocked limit depth levels w e) (behind)
    (term : Terminated (w ++ e.token :: rest)) :
    ∃ v, Passes ⟨behind, w ++ e.token :: rest, depth⟩ v
        (stopAt e (w.reverse ++ behind) rest depth) ∧
      Terminated (stopAt e (w.reverse ++ behind) rest depth).ahead := by
  have ne := blk.ne_eof
  obtain ⟨cause, t⟩ := e
  cases cause with
  | tooDeeplyNested =>
    -- Only here the token of the error is read as well, and it is not the end marker.
    refine ⟨w ++ [t], ⟨?_, ?_, rfl⟩, term.of_append.tail (ne rfl)⟩
    · rw [List.append_assoc]; rfl
    · rw [List.reverse_append]; rfl
  | expectedExpression => exact ⟨w, ⟨rfl, rfl, rfl⟩, term.of_append⟩
  | expectedRightParen => exact ⟨w, ⟨rfl, rfl, rfl⟩, term.of_append⟩

/-- Every call of `parse` leaves the parser on its list. -/
lemma Standing.parse {answer} (st : Standing tokens s) (run : s.parse = .ok (answer, s')) :
    Standing tokens s' := by
  cases answer with
  | ok e =>
    obtain ⟨w, pass, _, _, term, _⟩ := derived_of_parse st.term st.within run
    exact pass.standing st term
  | error e =>
    obtain ⟨w, rest, eq, blk, rfl⟩ := blocked_of_parse st.term st.within run
    have term := eq ▸ st.term
    obtain ⟨v, pass, term⟩ := passes_stopAt blk s.behind term
    rw [← eq] at pass
    exact pass.standing st term

/-- Skipping to a boundary passes over tokens that the tokens ahead alone decide. -/
lemma skipToBoundary_passes (bound last ahead) (term : Terminated ahead)
    (len : ahead.length ≤ bound) :
    ∃ w rest, ahead = w ++ rest ∧ Terminated rest ∧ ∀ behind depth,
      (skipToBoundary bound).run ⟨last :: behind, ahead, depth⟩ =
        .ok () ⟨w.reverse ++ last :: behind, rest, depth⟩ := by
  induction bound generalizing last ahead with
  | zero =>
    exact absurd len (Nat.not_le_of_gt term.length_pos)
  | succ bound ih =>
    obtain ⟨t, rest, rfl⟩ := term.exists_cons
    by_cases eof : t.kind = .eof
    · exact ⟨[], _, rfl, term, fun _ _ => run_skipToBoundary_of_eof eof⟩
    · by_cases stops : last.kind = .punctuator .semicolon ∨ t.kind.startsStatement
      · exact ⟨[], _, rfl, term, fun _ _ => run_skipToBoundary_of_boundary stops⟩
      · obtain ⟨semicolon, starts⟩ := not_or.mp stops
        have starts := Bool.not_eq_true _ ▸ starts
        obtain ⟨w, rest', rfl, term', run⟩ :=
          ih t rest (term.tail eof) (Nat.le_of_succ_le_succ len)
        refine ⟨t :: w, rest', rfl, term', fun behind depth => ?_⟩
        rw [run_skipToBoundary_of_inside eof semicolon starts, run]
        simp

/-- Synchronizing passes over tokens that the tokens ahead alone decide. -/
lemma synchronize_passes {ahead} (term : Terminated ahead) :
    ∃ w rest, ahead = w ++ rest ∧ Terminated rest ∧ ∀ behind depth,
      State.synchronize ⟨behind, ahead, depth⟩ = .ok ⟨w.reverse ++ behind, rest, depth⟩ := by
  obtain ⟨t, rest, rfl⟩ := term.exists_cons
  by_cases eof : t.kind = .eof
  · refine ⟨[], _, rfl, term, fun behind depth => ?_⟩
    apply State.synchronize_of_run_ok
    exact run_synchronize_of_eof eof
  · obtain ⟨w, rest', rfl, term', run⟩ :=
      skipToBoundary_passes rest.length t rest (term.tail eof) (Nat.le_refl _)
    refine ⟨t :: w, rest', rfl, term', fun behind depth => ?_⟩
    apply State.synchronize_of_run_ok
    rw [run_synchronize_of_ne_eof eof, run]
    simp

/-- Synchronizing stops on the list. -/
lemma passes_of_synchronize (term : Terminated s.ahead) :
    ∃ w s', s.synchronize = .ok s' ∧ Passes s w s' ∧ Terminated s'.ahead := by
  obtain ⟨w, rest, eq, term', run⟩ := synchronize_passes term
  exact ⟨w, _, run s.behind s.depth, ⟨eq, rfl, rfl⟩, term'⟩

lemma Standing.synchronize (st : Standing tokens s) (run : s.synchronize = .ok s') :
    Standing tokens s' := by
  obtain ⟨w, s'', run', pass, term⟩ := passes_of_synchronize st.term
  rw [run] at run'
  cases run'
  exact pass.standing st term

/-- The states that calls of one parser on a token list lead to. -/
inductive Reachable (tokens : List Token) : State → Prop where
  | start {s : State} :
    State.ofTokens tokens = .ok s →
    Reachable tokens s
  | parse {s s' : State} {answer} :
    Reachable tokens s →
    s.parse = .ok (answer, s') →
    Reachable tokens s'
  | synchronize {s s' : State} :
    Reachable tokens s →
    s.synchronize = .ok s' →
    Reachable tokens s'

/-- A reachable state is between two calls on the list. -/
lemma Reachable.standing (reach : Reachable tokens s) : Standing tokens s := by
  induction reach with
  | start eq =>
    obtain ⟨term, rfl⟩ := ofTokens_eq_ok_iff.mp eq
    exact ⟨rfl, term, rfl⟩
  | parse _ run ih => exact ih.parse run
  | synchronize _ run ih => exact ih.synchronize run

/-- Wherever the parser stands, the tokens that a call passes over derive the expression it gives,
with no more open at once than the limit allows, and it stops at a token that is no binary
operator. -/
theorem derives_of_parseReporting {ρ : Type} [Reporter ρ] {reporter reporter' : ρ}
    (reach : Reachable tokens s)
    (run : s.parseReporting reporter = .ok (some e, s', reporter')) :
    s.index ≤ s'.index ∧
      Derives Level.all (tokens.extract s.index s'.index) e ∧
      e.nesting ≤ maxNesting ∧
      ∃ next, tokens[s'.index]? = some next ∧ next.kind.level? = none := by
  have st := reach.standing
  obtain ⟨run, _⟩ := State.parse_of_parseReporting_some run
  obtain ⟨w, pass, der, fits, term, free⟩ := derived_of_parse st.term st.within run
  rw [st.depth, Nat.zero_add] at fits
  rw [pass.index, st.extract pass.ahead, st.getElem? pass.ahead]
  refine ⟨Nat.le_add_right _ _, der, fits, ?_⟩
  obtain ⟨next, rest, eq⟩ := term.exists_cons
  rw [eq] at free ⊢
  exact ⟨next, rfl, level?_eq_none_iff.mpr (free next rfl)⟩

/-- `; ! nil - (true) * nil`, and a `nil` of its own. -/
def sampleTokens : List Token :=
  [⟨.punctuator .semicolon, [';'], 1⟩, ⟨.punctuator .bang, ['!'], 1⟩,
    ⟨.keyword .nilWord, "nil".toList, 1⟩, ⟨.punctuator .minus, ['-'], 1⟩,
    ⟨.punctuator .leftParen, ['('], 1⟩, ⟨.keyword .trueWord, "true".toList, 1⟩,
    ⟨.punctuator .rightParen, [')'], 1⟩, ⟨.punctuator .star, ['*'], 1⟩,
    ⟨.keyword .nilWord, "nil".toList, 1⟩, ⟨.keyword .nilWord, "nil".toList, 2⟩, .eof 2]

/-- The parser on `sampleTokens` behind the semicolon. -/
def sampleState : State := ⟨sampleTokens.take 1, sampleTokens.drop 1, 0⟩

/-- Behind the semicolon the parser reads up to the last `nil`. -/
theorem derives_behind_semicolon :
    ∃ s' e, Reachable sampleTokens sampleState ∧
      sampleState.parseReporting Log.empty = .ok (some e, s', Log.empty) ∧
      sampleState.index = 1 ∧ s'.index = 9 ∧ Derives Level.all (sampleTokens.extract 1 9) e := by
  have reach : Reachable sampleTokens sampleState := .synchronize (.start rfl) rfl
  obtain ⟨e, s', run, index⟩ : ∃ e s',
      sampleState.parseReporting Log.empty = .ok (some e, s', Log.empty) ∧ s'.index = 9 :=
    ⟨_, _, rfl, rfl⟩
  obtain ⟨_, der, _⟩ := derives_of_parseReporting reach run
  rw [index] at der
  exact ⟨s', e, reach, run, rfl, index, der⟩

end Lox.Parser
