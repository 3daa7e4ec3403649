import Lox.Proofs.Parser.Completeness
import Lox.Proofs.Parser.Reachable

/-!
# Viable prefixes

Errors are reported at the first impossible token. What is read in front of it can be completed to
an expression: a literal where an operand is missing, and a closing parenthesis for each one that is
open (`Blocked.completion`). With the token of the error it cannot be completed any more, since
blocked tokens are refused whatever is behind them (`parse_of_blocked`).
-/

namespace Lox.Parser

variable {tokens : List Token} {s s' : State}

/-- Blocked tokens are the front of an expression, which opens no more than the limit allows. -/
lemma Blocked.completion {limit depth levels w e} (blk : Blocked limit depth levels w e)
    (fits : Within limit depth) :
    ∃ v e', Derives levels (w ++ v) e' ∧ Within limit (depth + e'.nesting) := by
  -- A `nil` stands where an operand is missing.
  have nil : Derives [] [⟨.keyword .nilWord, "nil".toList, 1⟩] (.literal .nil) := .literal rfl
  induction blk with
  | tighter _ ih =>
    obtain ⟨v, e', der, fits⟩ := ih fits
    exact ⟨v, e', .tighter der, fits⟩
  | @right _ _ _ u v left _ operator der fitsl eq _ ih =>
    obtain ⟨v', right, der', fitsr⟩ := ih fits
    refine ⟨v', .binary left operator right, ?_, within_max_iff.mpr ⟨fitsl, fitsr⟩⟩
    rw [List.append_assoc]
    exact .binary der eq der'
  | unary un room _ ih =>
    obtain ⟨v, right, der, fits⟩ := ih room
    exact ⟨v, _, .unary un der, within_succ_add_iff.mpr fits⟩
  | @inside _ w _ opening opens room _ ih =>
    obtain ⟨v, inner, der, fits⟩ := ih room
    refine ⟨v ++ [⟨.punctuator .rightParen, [')'], 1⟩], .grouping inner, ?_,
      within_succ_add_iff.mpr fits⟩
    rw [← List.append_assoc]
    exact .grouping opens der rfl
  | tooDeep _ _ => exact ⟨_, _, nil, fits⟩
  | unclosed opens der fits' _ _ =>
    exact ⟨[⟨.punctuator .rightParen, [')'], 1⟩], _, .grouping opens der rfl,
      within_succ_add_iff.mpr fits'⟩
  | noOperand _ _ _ => exact ⟨_, _, nil, fits⟩

/-- A parser on blocked tokens, completed and ended, reads them all. -/
lemma parse_completion {w e} (blk : Blocked (some maxNesting) 0 Level.all w e) :
    ∃ more start e' done, Terminated more ∧ State.ofTokens (w ++ more) = .ok start ∧
      start.parse = .ok (.ok e', done) ∧ w.length ≤ done.index := by
  obtain ⟨v, e', der, fits⟩ := Blocked.completion blk within_zero
  have term : Terminated (v ++ [.eof 1]) := .append v ⟨_, rfl, rfl⟩
  have run := parse_of_derives der [] (.eof 1) [] 0 fits rfl
  rw [List.append_assoc] at run
  refine ⟨_, _, e', _, term, ofTokens_eq_ok_iff.mpr ⟨term.append w, rfl⟩, run, ?_⟩
  simp [State.index]

/-- The index of an error is that of its token, or behind it where the nesting is too deep. -/
lemma index_stopAt {e behind rest depth} :
    (stopAt e behind rest depth).index =
      behind.length + if e.cause = .tooDeeplyNested then 1 else 0 := by
  obtain ⟨cause, t⟩ := e
  cases cause <;> rfl

/-- Wherever the parser stands, a call that fails reports one error, at the first impossible token:
what it has read in front of the token is the front of an expression that it reads to the end, and
with the token any tokens behind it lead to the same error at the same place. The token itself is
read only where the nesting is too deep. -/
theorem first_impossible_token {ρ : Type} [Reporter ρ] {reporter reporter' : ρ}
    (reach : Reachable tokens s) (run : s.parseReporting reporter = .ok (none, s', reporter')) :
    ∃ e i, reporter' = Reporter.report reporter e.diagnostic ∧
      s.index ≤ i ∧ tokens[i]? = some e.token ∧
      s'.index = i + (if e.cause = .tooDeeplyNested then 1 else 0) ∧
      (∃ more start e' done, Terminated more ∧
        State.ofTokens (tokens.extract s.index i ++ more) = .ok start ∧
        start.parse = .ok (.ok e', done) ∧ (tokens.extract s.index i).length ≤ done.index) ∧
      ∀ behind rest, ∃ done,
        State.parse ⟨behind, tokens.extract s.index (i + 1) ++ rest, 0⟩ = .ok (.error e, done) ∧
          done.index - behind.length = s'.index - s.index := by
  have st := reach.standing
  obtain ⟨e, run, report⟩ := State.parse_of_parseReporting_none run
  obtain ⟨w, rest, ahead, blk, rfl⟩ := blocked_of_parse st.term st.within run
  rw [st.depth] at blk ⊢
  have ahead' : s.ahead = (w ++ [e.token]) ++ rest := by rw [ahead, List.append_assoc]; rfl
  have upTo := st.extract ahead'
  rw [List.length_append, ← Nat.add_assoc, List.length_singleton] at upTo
  refine ⟨e, s.index + w.length, report, Nat.le_add_right _ _, st.getElem? ahead, ?_, ?_, ?_⟩
  · rw [index_stopAt, List.length_append, List.length_reverse, Nat.add_comm w.length]
    rfl
  · rw [st.extract ahead]
    exact parse_completion blk
  · intro behind rest'
    rw [upTo, List.append_assoc]
    refine ⟨_, parse_of_blocked blk behind rest', ?_⟩
    rw [index_stopAt, index_stopAt, State.index, List.length_append, List.length_append]
    omega

/-- `; ( ! nil - *`. -/
def faultyTokens : List Token :=
  [⟨.punctuator .semicolon, [';'], 1⟩, ⟨.punctuator .leftParen, ['('], 1⟩,
    ⟨.punctuator .bang, ['!'], 1⟩, ⟨.keyword .nilWord, "nil".toList, 1⟩,
    ⟨.punctuator .minus, ['-'], 1⟩, ⟨.punctuator .star, ['*'], 2⟩, .eof 2]

/-- The parser on `faultyTokens` behind the semicolon. -/
def faultyState : State := ⟨faultyTokens.take 1, faultyTokens.drop 1, 0⟩

/-- Behind the semicolon the parser stops at the star, whatever comes after it. -/
theorem first_impossible_token_star :
    ∃ s' log e i, Reachable faultyTokens faultyState ∧
      faultyState.parseReporting Log.empty = .ok (none, s', log) ∧ s'.index = 5 ∧
      log = Reporter.report Log.empty (ParseError.diagnostic e) ∧
      faultyTokens[i]? = some e.token ∧
      ∀ behind rest, ∃ done,
        State.parse ⟨behind, faultyTokens.extract 1 (i + 1) ++ rest, 0⟩ =
          .ok (.error e, done) := by
  have reach : Reachable faultyTokens faultyState := .synchronize (.start rfl) rfl
  obtain ⟨s', log, run, index⟩ : ∃ s' log,
      faultyState.parseReporting Log.empty = .ok (none, s', log) ∧ s'.index = 5 :=
    ⟨_, _, rfl, rfl⟩
  obtain ⟨e, i, report, _, token, _, _, fails⟩ := first_impossible_token reach run
  refine ⟨s', log, e, i, reach, run, index, report, token, fun behind rest => ?_⟩
  obtain ⟨done, run', _⟩ := fails behind rest
  exact ⟨done, run'⟩

end Lox.Parser
