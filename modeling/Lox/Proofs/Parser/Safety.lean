import Lox.Proofs.Parser.Moments
import Lox.Proofs.Parser.ViablePrefix

/-!
# Safety of the parser

No call on a token list that ends with the end marker goes wrong, whatever calls were made before:
each comes to an end without a fault, and what it does moment by moment is a walk on the list
(`walk_of_parse`, `walk_of_synchronize`). So what a step keeps holds at every moment of every call:
all looks are inside the list, the parser never goes back and never passes an end marker, and the
depth is the number of open operands, within the limit.
-/

namespace Lox.Parser

variable {tokens : List Token} {s s' : State} {moments : List Moment}

lemma faultless_of_settle {result : EStateM.Result Stop State Expr} {answer}
    (eq : settle result = .ok answer) : Faultless result := by
  rintro f s rfl
  cases eq

lemma settle_of_unrecorded {recorded : EStateM.Result Stop Recorded Expr} {answer}
    (eq : settle (unrecorded recorded) = .ok (answer, s')) :
    settle recorded = .ok (answer, ⟨s', (final recorded).moments⟩) ∧
      (final recorded).state = s' := by
  cases recorded with
  | ok e r => cases eq; exact ⟨rfl, rfl⟩
  | error stop r =>
    cases stop with
    | error e => cases eq; exact ⟨rfl, rfl⟩
    | fault f => cases eq

/-- A call that comes to an answer is a walk from the state in front of it to the one behind it. -/
lemma walk_of_parse {answer} (run : s.parse = .ok (answer, s')) :
    ∃ moments, s.parseRecording = .ok (answer, ⟨s', moments⟩) ∧
      Walk (some maxNesting) s.index s moments s' := by
  have records : Records (some maxNesting) s.index ⟨s, []⟩ _ _ :=
    recorder_expression ⟨s, []⟩ (Nat.le_refl _)
  rw [State.parse_eq_settle] at run
  obtain ⟨moments, grown, walk⟩ := records.walk (faultless_of_settle run)
  rw [records.same] at run
  obtain ⟨settled, last⟩ := settle_of_unrecorded run
  rw [grown, List.nil_append] at settled
  rw [last] at walk
  exact ⟨moments, settled, walk⟩

/-- So is a call that synchronizes. -/
lemma walk_of_synchronize (run : s.synchronize = .ok s') :
    ∃ moments, s.synchronizeRecording = .ok ⟨s', moments⟩ ∧
      Walk (some maxNesting) s.index s moments s' := by
  have records : Records (some maxNesting) s.index ⟨s, []⟩ _ _ :=
    records_synchronize (Nat.le_refl _)
  rw [State.synchronize, records.same] at run
  have free : Faultless (Parser.synchronize.run s) := by
    rw [records.same]
    rintro f r fault
    rw [fault] at run
    cases run
  obtain ⟨moments, grown, walk⟩ := records.walk free
  rw [State.synchronizeRecording]
  generalize Recording.synchronize.run ⟨s, []⟩ = recorded at run grown walk ⊢
  cases recorded with
  | ok _ r =>
    cases run
    cases grown
    exact ⟨_, rfl, walk⟩
  | error stop r =>
    cases stop with
    | error e =>
      cases run
      cases grown
      exact ⟨_, rfl, walk⟩
    | fault f => cases run

/-- The index of the first end marker. -/
def firstEof (tokens : List Token) : Nat := tokens.findIdx (·.kind = .eof)

lemma firstEof_lt_length (term : Terminated tokens) : firstEof tokens < tokens.length := by
  obtain ⟨t, last, eof⟩ := term
  exact List.findIdx_lt_length_of_exists ⟨t, List.mem_of_getLast? last, decide_eq_true eof⟩

lemma index_le_firstEof (free : ∀ t ∈ s.behind, t.kind ≠ .eof) :
    s.index ≤ firstEof s.tokens := by
  have none : ¬ s.behind.reverse.findIdx (·.kind = .eof) < s.behind.reverse.length := by
    rw [List.findIdx_lt_length]
    rintro ⟨t, mem, eof⟩
    exact free t (List.mem_reverse.mp mem) (of_decide_eq_true eof)
  rw [firstEof, State.tokens, List.findIdx_append, if_neg none, List.length_reverse]
  exact Nat.le_add_left _ _

/-- A reachable state has no end marker behind it. -/
lemma Reachable.noEof (reach : Reachable tokens s) : ∀ t ∈ s.behind, t.kind ≠ .eof := by
  induction reach with
  | start eq =>
    obtain ⟨_, rfl⟩ := ofTokens_eq_ok_iff.mp eq
    exact nofun
  | parse _ run ih =>
    obtain ⟨_, _, walk⟩ := walk_of_parse run
    exact walk.noEof ih
  | synchronize _ run ih =>
    obtain ⟨_, _, walk⟩ := walk_of_synchronize run
    exact walk.noEof ih

/-- What holds at a moment of a call that begins in a state `s` on a token list. The moments of the
call in front of it are `before`. -/
structure Moment.Safe (tokens : List Token) (s : State) (before : List Moment) (m : Moment) :
    Prop where
  /-- What is behind and ahead are the tokens, and the next one is among them. -/
  onList : m.state.tokens = tokens
  inList : m.state.index < tokens.length
  forward : s.index ≤ m.state.index
  upToEof : m.state.index ≤ firstEof tokens
  /-- The token read last is looked at only if the call has read one. -/
  previous : m.action = .previous → s.index < m.state.index
  /-- The depth is the number of operands that are opened and not yet closed. -/
  depth : m.state.depth + timesOf .leave before = timesOf .enter before
  limit : m.state.depth ≤ maxNesting
  enter : m.action = .enter → m.state.depth < maxNesting
  leave : m.action = .leave → 0 < m.state.depth

/-- What holds of a call on a token list that leads from `s` to `s'` through these moments. -/
structure SafeCall (tokens : List Token) (s : State) (moments : List Moment) (s' : State) :
    Prop where
  /-- Nothing happens to the state between the moments. -/
  walk : Walk (some maxNesting) s.index s moments s'
  safe : ∀ before m after, moments = before ++ m :: after → m.Safe tokens s before
  /-- The index never decreases. -/
  pairwise : (s.index :: (moments.map (·.state.index) ++ [s'.index])).Pairwise (· ≤ ·)
  upToEof : s'.index ≤ firstEof tokens
  /-- All operands are closed again. -/
  depth : s'.depth = 0
  closed : timesOf .leave moments = timesOf .enter moments

/-- At a moment of a walk there is what the walk up to it has kept. -/
lemma Walk.safe {before after m} (walk : Walk (some maxNesting) s.index s moments s')
    (st : Standing tokens s) (free : ∀ t ∈ s.behind, t.kind ≠ .eof)
    (eq : moments = before ++ m :: after) : m.Safe tokens s before := by
  subst eq
  obtain ⟨front, next, step, _⟩ := walk.split
  have onList : m.state.tokens = tokens := front.tokens.trans st.split
  have upToEof := index_le_firstEof (front.noEof free)
  have depth := front.depth
  rw [onList] at upToEof
  rw [st.depth, Nat.zero_add] at depth
  refine ⟨onList, ?_, front.index_le, upToEof, ?_, depth, ?_, ?_, ?_⟩
  · have term : Terminated tokens := st.split ▸ st.term.append _
    exact Nat.lt_of_le_of_lt upToEof (firstEof_lt_length term)
  · intro back
    rw [back] at step
    generalize m.state = state at step
    cases step with
    | previous le => exact Nat.lt_succ_of_le le
  · exact within_some_iff.mp (front.within st.within)
  · intro opens
    rw [opens] at step
    generalize m.state = state at step
    cases step with
    | enter room => exact within_some_iff.mp room
  · intro closes
    rw [closes] at step
    generalize m.state = state at step
    cases step with
    | leave => exact Nat.succ_pos _

lemma Walk.safeCall (walk : Walk (some maxNesting) s.index s moments s')
    (reach : Reachable tokens s) (reach' : Reachable tokens s') :
    SafeCall tokens s moments s' := by
  have st := reach.standing
  have st' := reach'.standing
  have upToEof := index_le_firstEof reach'.noEof
  have closed := walk.depth
  rw [State.tokens, st'.split] at upToEof
  rw [st.depth, st'.depth, Nat.zero_add, Nat.zero_add] at closed
  exact ⟨walk, fun before m after eq => walk.safe st reach.noEof eq, walk.pairwise_index, upToEof,
    st'.depth, closed⟩

/-- On a token list that ends with the end marker every call comes to an answer, in any state that
earlier calls have led to, and it is safe. -/
theorem safeCall_of_terminated (term : Terminated tokens) :
    (∃ s, State.ofTokens tokens = .ok s) ∧
      ∀ s, Reachable tokens s →
        (∃ answer s' moments, s.parse = .ok (answer, s') ∧
          s.parseRecording = .ok (answer, ⟨s', moments⟩) ∧ SafeCall tokens s moments s') ∧
        ∃ s' moments, s.synchronize = .ok s' ∧
          s.synchronizeRecording = .ok ⟨s', moments⟩ ∧ SafeCall tokens s moments s' := by
  refine ⟨⟨_, ofTokens_eq_ok_iff.mpr ⟨term, rfl⟩⟩, fun s reach => ⟨?_, ?_⟩⟩
  · obtain ⟨answer, s', run⟩ := exists_parse reach.standing.term reach.standing.within
    obtain ⟨moments, record, walk⟩ := walk_of_parse run
    exact ⟨answer, s', moments, run, record, walk.safeCall reach (reach.parse run)⟩
  · obtain ⟨_, s', run, _⟩ := passes_of_synchronize reach.standing.term
    obtain ⟨moments, record, walk⟩ := walk_of_synchronize run
    exact ⟨s', moments, run, record, walk.safeCall reach (reach.synchronize run)⟩

/-- Behind the semicolon the call stops at the star, with its parenthesis open. Before it was one
operand deeper. -/
theorem safeCall_faulty :
    Terminated faultyTokens ∧ Reachable faultyTokens faultyState ∧ ∃ e s' moments,
      faultyState.parseRecording = .ok (.error e, ⟨s', moments⟩) ∧ s'.index = 5 ∧ s'.depth = 0 ∧
      SafeCall faultyTokens faultyState moments s' ∧
      ∃ m ∈ moments, m.action = .leave ∧ m.state.depth = 2 := by
  have term : Terminated faultyTokens := ⟨.eof 2, rfl, rfl⟩
  have reach : Reachable faultyTokens faultyState := .synchronize (.start rfl) rfl
  have eval : (match faultyState.parseRecording with
      | .ok (.error _, r) => r.state.index = 5 &&
        r.moments.any fun m => m.action = .leave && m.state.depth = 2
      | _ => false) = true := by decide +kernel
  obtain ⟨_, calls⟩ := safeCall_of_terminated term
  obtain ⟨⟨answer, s', moments, _, record, call⟩, _⟩ := calls faultyState reach
  rw [record] at eval
  cases answer with
  | ok => cases eval
  | error e =>
    simp only [Bool.and_eq_true, List.any_eq_true, decide_eq_true_eq] at eval
    exact ⟨term, reach, e, s', moments, record, eval.1, call.depth, call, eval.2⟩

end Lox.Parser
