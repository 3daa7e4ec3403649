import Lox.Proofs.Parser.Safety
import Mathlib.Data.List.Forall2

/-!
# A parser keeps no history

What a call gives and how far it goes is decided by the tokens ahead of it, whatever is behind
(`exists_parse_behind`, `synchronize_passes`), and between two calls no operand is open. So in any
state that calls lead to, a call is that of a new parser on the tokens that are left. No call looks
back beyond the tokens that it has read itself.
-/

namespace Lox.Parser

variable {tokens ahead : List Token} {s s' : State}

/-- The tokens ahead decide what a call gives and how many tokens it reads. -/
lemma exists_parse_behind (term : Terminated ahead) :
    ∃ answer n, ∀ behind, ∃ s', State.parse ⟨behind, ahead, 0⟩ = .ok (answer, s') ∧
      s'.index = behind.length + n := by
  have start : Standing ahead ⟨[], ahead, 0⟩ := ⟨rfl, term, rfl⟩
  obtain ⟨answer, s', run⟩ := exists_parse start.term start.within
  cases answer with
  | ok e =>
    obtain ⟨w, pass, der, fits, term', free⟩ := derived_of_parse start.term start.within run
    obtain ⟨t, rest, eq⟩ := term'.exists_cons
    have split : ahead = w ++ t :: rest := eq ▸ pass.ahead
    rw [eq] at free
    refine ⟨.ok e, w.length, fun behind => ?_⟩
    have run := parse_of_derives der behind t rest 0 (within_some_iff.mpr fits)
      (level?_eq_none_iff.mpr (free t rfl))
    rw [← split] at run
    refine ⟨_, run, ?_⟩
    rw [State.index, List.length_append, List.length_reverse, Nat.add_comm]
  | error e =>
    obtain ⟨w, rest, split, blk, _⟩ := blocked_of_parse start.term start.within run
    have split : ahead = w ++ e.token :: rest := split
    refine ⟨.error e, w.length + if e.cause = .tooDeeplyNested then 1 else 0, fun behind => ?_⟩
    have run := parse_of_blocked blk behind rest
    rw [← split] at run
    refine ⟨_, run, ?_⟩
    rw [index_stopAt, List.length_append, List.length_reverse]
    omega

/-- A new parser on the tokens that are left has them ahead of it. -/
lemma Standing.ofTokens_drop (st : Standing tokens s) :
    State.ofTokens (tokens.drop s.index) = .ok ⟨[], s.ahead, 0⟩ := by
  rw [st.drop]
  exact ofTokens_eq_ok_iff.mpr ⟨st.term, rfl⟩

/-- Where a call looks back, the token is one that it has read. -/
def LooksBackWithin (tokens : List Token) (s : State) (moments : List Moment) : Prop :=
  ∀ m ∈ moments, m.action = .previous → ∃ t behind, m.state.behind = t :: behind ∧
    s.index ≤ behind.length ∧ tokens[behind.length]? = some t

lemma SafeCall.looksBackWithin {moments} (call : SafeCall tokens s moments s') :
    LooksBackWithin tokens s moments := by
  intro m mem back
  obtain ⟨before, after, eq⟩ := List.append_of_mem mem
  have safe := call.safe before m after eq
  have lt := safe.previous back
  have onList := safe.onList
  generalize m.state = state at lt onList
  obtain ⟨behind, ahead, depth⟩ := state
  cases behind with
  | nil => exact absurd lt (Nat.not_lt_zero _)
  | cons t behind =>
    refine ⟨t, behind, rfl, Nat.le_of_lt_succ lt, ?_⟩
    rw [← onList]
    simp [State.tokens]

/-- In any state that calls have led to, the next call gives what it gives on a new parser over the
tokens that are left, and it reads as many tokens. Nothing is open in front of it and behind it, and
it looks back at no token of an earlier call. -/
theorem fresh_of_reachable (reach : Reachable tokens s) :
    s.depth = 0 ∧ ∃ alone, State.ofTokens (tokens.drop s.index) = .ok alone ∧
      (∃ answer s' alone' moments, s.parse = .ok (answer, s') ∧
        alone.parse = .ok (answer, alone') ∧ s'.index = s.index + alone'.index ∧ s'.depth = 0 ∧
        s.parseRecording = .ok (answer, ⟨s', moments⟩) ∧ LooksBackWithin tokens s moments) ∧
      ∃ s' alone' moments, s.synchronize = .ok s' ∧ alone.synchronize = .ok alone' ∧
        s'.index = s.index + alone'.index ∧ s'.depth = 0 ∧
        s.synchronizeRecording = .ok ⟨s', moments⟩ ∧ LooksBackWithin tokens s moments := by
  have st := reach.standing
  refine ⟨st.depth, _, st.ofTokens_drop, ?_, ?_⟩
  · obtain ⟨answer, n, parses⟩ := exists_parse_behind st.term
    obtain ⟨s', run, index⟩ := parses s.behind
    obtain ⟨alone', run', index'⟩ := parses []
    rw [← st.depth] at run
    obtain ⟨moments, record, walk⟩ := walk_of_parse run
    have call := walk.safeCall reach (reach.parse run)
    refine ⟨answer, s', alone', moments, run, run', ?_, call.depth, record,
      call.looksBackWithin⟩
    rw [index, index', List.length_nil, Nat.zero_add]
    rfl
  · obtain ⟨w, rest, _, _, passes⟩ := synchronize_passes st.term
    have run := passes s.behind s.depth
    have run' := passes [] 0
    obtain ⟨moments, record, walk⟩ := walk_of_synchronize run
    have call := walk.safeCall reach (reach.synchronize run)
    refine ⟨_, _, moments, run, run', ?_, call.depth, record, call.looksBackWithin⟩
    simp [State.index, Nat.add_comm]

/-- The parser on `nest 129` behind the operator that is one too many. -/
def cutOff : State := ⟨((nest 129).take 257).reverse, (nest 129).drop 257 ++ [.eof 1], 0⟩

/-- After a call that was cut off in the middle, with as much open as the limit allows, the next one
reads the innermost parenthesis as a new parser does. -/
theorem fresh_of_cutOff :
    Reachable (nest 129 ++ [Token.eof 1]) cutOff ∧ cutOff.index = 257 ∧
      ∃ alone s' alone', State.ofTokens ((nest 129 ++ [Token.eof 1]).drop 257) = .ok alone ∧
        cutOff.parse = .ok (.ok (.grouping (.literal .nil)), s') ∧
        alone.parse = .ok (.ok (.grouping (.literal .nil)), alone') ∧
        s'.index = 257 + alone'.index := by
  have term : Terminated (nest 129 ++ [Token.eof 1]) := .append _ ⟨_, rfl, rfl⟩
  have stopped : State.parse ⟨[], nest 129 ++ [Token.eof 1], 0⟩ =
      .ok (.error ⟨.tooDeeplyNested, ⟨.punctuator .bang, ['!'], 1⟩⟩, cutOff) := by
    decide +kernel
  have reach := Reachable.parse (.start (ofTokens_eq_ok_iff.mpr ⟨term, rfl⟩)) stopped
  have index : cutOff.index = 257 := by decide +kernel
  have next : cutOff.parse = .ok (.ok (.grouping (.literal .nil)),
      ⟨((nest 129).take 260).reverse, (nest 129).drop 260 ++ [.eof 1], 0⟩) := by
    decide +kernel
  obtain ⟨_, alone, start, ⟨answer, s', alone', _, run, run', moved, _⟩, _⟩ :=
    fresh_of_reachable reach
  rw [next] at run
  cases run
  rw [index] at start moved
  exact ⟨reach, index, alone, _, alone', start, next, run', moved⟩

end Lox.Parser
