import Lox.Proofs.Parser.Walk

/-!
# Recorded calls

The parser with a record and the one without are run side by side. The record changes nothing, and
where no fault arises it is a walk from the state in front of the call to the one behind it, which
closes every operand that it opens. `Records` says this of two runs; it goes through sequences
(`Records.bind`) and through the opening of operands (`Records.nested`), and so from the single
actions to the whole calls (`recorder_expression`, `records_synchronize`).

A call looks back only at tokens that it has read itself. So the index it starts at is carried along
as `base`, and where the parser looks back it has to be behind it.
-/

namespace Lox.Parser

variable {α β : Type} {limit : Option Nat} {base : Nat} {start : Recorded}

/-- What is left of a result without the record. -/
def unrecorded : EStateM.Result Stop Recorded α → EStateM.Result Stop State α
  | .ok a s => .ok a s.state
  | .error e s => .error e s.state

/-- No fault arises. -/
def Faultless (result : EStateM.Result Stop State α) : Prop := ∀ f s, result ≠ .error (.fault f) s

lemma Faultless.of_error {stop : Stop} {s s' : State}
    (free : Faultless (.error stop s : EStateM.Result Stop State α)) :
    Faultless (.error stop s' : EStateM.Result Stop State β) := by
  intro f _ eq
  cases eq
  exact free f s rfl

/-- A recorded run and the one without a record, side by side. -/
structure Records (limit : Option Nat) (base : Nat) (start : Recorded)
    (recorded : EStateM.Result Stop Recorded α) (result : EStateM.Result Stop State α) : Prop where
  same : result = unrecorded recorded
  walk : Faultless result → ∃ moments, (final recorded).moments = start.moments ++ moments ∧
    Walk limit base start.state moments (final recorded).state
  depth : Faultless result → (final recorded).state.depth = start.state.depth

/-- Two parsers, one that keeps a record and one that does not, run side by side. -/
def Recorder (limit : Option Nat) (base : Nat) (recording : RecordingM α) (parser : ParserM α) :
    Prop :=
  ∀ start, base ≤ start.state.index →
    Records limit base start (recording.run start) (parser.run start.state)

/-- Side by side the second steps follow the first ones. -/
lemma Records.bind {recording : RecordingM α} {parser : ParserM α} {f : α → RecordingM β}
    {g : α → ParserM β}
    (first : Records limit base start (recording.run start) (parser.run start.state))
    (second : ∀ a s, recording.run start = .ok a s → start.state.index ≤ s.state.index →
      Records limit base s ((f a).run s) ((g a).run s.state)) :
    Records limit base start ((recording >>= f).run start) ((parser >>= g).run start.state) := by
  rw [EStateM.run_bind, EStateM.run_bind]
  generalize recording.run start = recorded at first second
  obtain ⟨same, walk, depth⟩ := first
  rw [same] at walk depth ⊢
  cases recorded with
  | error e s => exact ⟨rfl, fun free => walk free.of_error, fun free => depth free.of_error⟩
  | ok a s =>
    obtain ⟨moments, grown, walk⟩ := walk nofun
    obtain ⟨same', walk', depth'⟩ := second a s rfl walk.index_le
    refine ⟨same', fun free => ?_, fun free => (depth' free).trans (depth nofun)⟩
    obtain ⟨moments', grown', walk'⟩ := walk' free
    refine ⟨moments ++ moments', ?_, walk.append walk'⟩
    rw [grown', show s.moments = _ from grown, List.append_assoc]

/-- A parser that leaves its state alone has nothing to record. -/
lemma records_plain {parser : ParserM α} (still : ∀ s, final (parser.run s) = s) :
    Records limit base start ((Recording.plain parser).run start) (parser.run start.state) := by
  have still := still start.state
  rw [Recording.run_plain]
  generalize parser.run start.state = result at still
  have grown : start.moments = start.moments ++ [] := (List.append_nil _).symm
  cases result with
  | ok a s =>
    cases still
    exact ⟨rfl, fun _ => ⟨[], grown, .nil⟩, fun _ => rfl⟩
  | error e s =>
    cases still
    exact ⟨rfl, fun _ => ⟨[], grown, .nil⟩, fun _ => rfl⟩

lemma records_pure (a : α) :
    Records limit base start ((pure a : RecordingM α).run start)
      ((pure a : ParserM α).run start.state) := by
  have records : Records limit base start ((Recording.plain (pure a)).run start) _ :=
    records_plain fun _ => rfl
  exact records

lemma records_throw (stop : Stop) :
    Records limit base start ((throw stop : RecordingM α).run start)
      ((throw stop : ParserM α).run start.state) := by
  have records : Records limit base start
      ((Recording.plain (throw stop : ParserM α)).run start) _ := records_plain fun _ => rfl
  exact records

/-- An action that is a step is one moment of the record. -/
lemma records_act {action : Action} {parser : ParserM α}
    (step : Faultless (parser.run start.state) →
      Step limit base start.state action (final (parser.run start.state)))
    (depth : (final (parser.run start.state)).depth = start.state.depth) :
    Records limit base start ((Recording.act action parser).run start)
      (parser.run start.state) := by
  rw [Recording.run_act]
  generalize parser.run start.state = result at step depth
  cases result with
  | ok a s => exact ⟨rfl, fun free => ⟨_, rfl, .single (step free)⟩, fun _ => depth⟩
  | error e s => exact ⟨rfl, fun free => ⟨_, rfl, .single (step free)⟩, fun _ => depth⟩

/-- An action runs the same with a record. -/
lemma run_of_run_act {action : Action} {parser : ParserM α} {s : Recorded} {a}
    (run : (Recording.act action parser).run start = .ok a s) :
    parser.run start.state = .ok a s.state := by
  rw [Recording.run_act] at run
  generalize parser.run start.state = result at run
  cases result with
  | ok b s => cases run; rfl
  | error e s => cases run

lemma records_peek : Records limit base start (Recording.peek.run start) (peek.run start.state) := by
  apply records_act
  · intro free
    obtain ⟨⟨behind, ahead, depth⟩, moments⟩ := start
    cases ahead with
    | nil => exact absurd rfl (free _ _)
    | cons t ahead => exact .peek
  · exact (keepsPlace_peek _).2

lemma records_advance :
    Records limit base start (Recording.advance.run start) (advance.run start.state) := by
  apply records_act
  · intro free
    obtain ⟨⟨behind, ahead, depth⟩, moments⟩ := start
    cases ahead with
    | nil => exact absurd rfl (free _ _)
    | cons t ahead =>
      by_cases eof : t.kind = .eof
      · rw [run_advance_of_eof eof]
        exact .stay eof
      · rw [run_advance_of_ne_eof eof]
        exact .advance eof
  · exact (keepsPlace_advance _).2

/-- Behind the base the token read last is one of this call. -/
lemma records_previous (read : base < start.state.index) :
    Records limit base start (Recording.previous.run start) (previous.run start.state) := by
  obtain ⟨⟨behind, ahead, depth⟩, moments⟩ := start
  cases behind with
  | nil => exact absurd read (Nat.not_lt_zero _)
  | cons t behind => exact records_act (fun _ => .previous (Nat.le_of_lt_succ read)) rfl

lemma recorder_accept? (p : Token.Kind → Bool) :
    Recorder limit base (Recording.accept? p) (accept? p) := by
  intro start _
  apply records_peek.bind
  intro t s _ _
  cases p t.kind with
  | true => exact records_advance.bind fun _ _ _ _ => records_pure _
  | false => exact records_pure _

lemma recorder_expect (p : Punctuator) (cause : ParseError.Cause) :
    Recorder limit base (Recording.expect p cause) (expect p cause) := by
  intro start _
  apply records_peek.bind
  intro t s _ _
  by_cases eq : t.kind = .punctuator p
  · rw [if_pos eq, if_pos eq]
    exact records_advance
  · rw [if_neg eq, if_neg eq]
    exact records_throw _

/-- A walk one operand deeper, with the moments at which the operand is opened and closed. -/
lemma Walk.nested {behind ahead depth moments s} (room : Within limit (depth + 1))
    (walk : Walk limit base ⟨behind, ahead, depth + 1⟩ moments s) (deeper : s.depth = depth + 1) :
    Walk limit base ⟨behind, ahead, depth⟩
      (⟨.enter, ⟨behind, ahead, depth⟩⟩ :: (moments ++ [⟨.leave, s⟩]))
      { s with depth := s.depth - 1 } := by
  obtain ⟨behind', ahead', depth'⟩ := s
  cases deeper
  exact .step (.enter room) (walk.append (.single .leave))

/-- An operand is recorded between its opening and its closing. -/
lemma Records.nested {recording : RecordingM α} {parser : ParserM α}
    (recorder : Recorder limit base recording parser) (read : base < start.state.index) :
    Records limit base start ((Recording.nested limit recording).run start)
      ((nested limit parser).run start.state) := by
  obtain ⟨⟨behind, ahead, depth⟩, before⟩ := start
  by_cases room : Within limit (depth + 1)
  · have free := within_succ_iff.mp room
    obtain ⟨same, walk, deeper⟩ := recorder
      ⟨⟨behind, ahead, depth + 1⟩, before ++ [⟨.enter, ⟨behind, ahead, depth⟩⟩]⟩ (Nat.le_of_lt read)
    dsimp only at same walk deeper ⊢
    rw [run_nested_of_free free, Recording.run_nested_of_free free, same]
    rw [same] at walk deeper
    generalize recording.run _ = recorded at walk deeper ⊢
    -- Whatever the operand comes to, the moments in between are the same.
    have walk (free : Faultless (unrecorded recorded)) :
        ∃ moments, (final recorded).moments ++ [⟨.leave, (final recorded).state⟩] =
            before ++ moments ∧
          Walk limit base ⟨behind, ahead, depth⟩ moments
            { (final recorded).state with depth := (final recorded).state.depth - 1 } := by
      obtain ⟨moments, grown, walk⟩ := walk free
      refine ⟨_, ?_, walk.nested room (deeper free)⟩
      rw [grown]
      simp
    have level (free : Faultless (unrecorded recorded)) :
        (final recorded).state.depth - 1 = depth := by
      rw [deeper free]
      exact Nat.add_sub_cancel _ _
    cases recorded with
    | ok a s => exact ⟨rfl, fun _ => walk nofun, fun _ => level nofun⟩
    | error e s =>
      exact ⟨rfl, fun free => walk free.of_error, fun free => level free.of_error⟩
  · have full := not_within_succ_iff.mp room
    cases behind with
    | nil => exact absurd read (Nat.not_lt_zero _)
    | cons t behind =>
      have step : Step limit base ⟨t :: behind, ahead, depth⟩ .previous _ :=
        .previous (Nat.le_of_lt_succ read)
      rw [run_nested_of_limit full, Recording.run_nested_of_limit full]
      exact ⟨rfl, fun _ => ⟨_, rfl, .single step⟩, fun _ => rfl⟩

/-- A token that is accepted leads on. -/
lemma index_lt_of_accept? {p : Token.Kind → Bool} {s : Recorded} {t : Token} (eof : p .eof = false)
    (le : base ≤ start.state.index) (run : (Recording.accept? p).run start = .ok (some t) s) :
    base < s.state.index := by
  have records : Records none base start _ _ := recorder_accept? p start le
  have run' := records.same
  rw [run] at run'
  obtain ⟨_, eq⟩ := behind_of_accept? eof run'
  rw [State.index, eq]
  exact Nat.lt_succ_of_le le

/-- A token that is looked at and then read leads on, unless it is the end marker. -/
lemma index_lt_of_advance {s s' : Recorded} {t u : Token} (ne : t.kind ≠ .eof)
    (le : base ≤ start.state.index) (look : Recording.peek.run start = .ok t s)
    (run : Recording.advance.run s = .ok u s') : base < s'.state.index := by
  rw [State.index, behind_of_advance ne (run_of_run_act look) (run_of_run_act run)]
  exact Nat.lt_succ_of_le le

lemma recorder_joinLeft {level : Level} {recording : RecordingM Expr} {operand : ParserM Expr}
    (recorder : Recorder limit base recording operand) (bound : Nat) (left : Expr) :
    Recorder limit base (Recording.joinLeft level recording bound left)
      (joinLeft level operand bound left) := by
  induction bound generalizing left with
  | zero => exact fun _ _ => records_throw _
  | succ bound ih =>
    intro start le
    apply (recorder_accept? _ start le).bind
    intro operator? s _ le'
    have le := Nat.le_trans le le'
    cases operator? with
    | none => exact records_pure _
    | some operator =>
      apply (recorder s le).bind
      intro right s' _ le'
      exact ih _ s' (Nat.le_trans le le')

lemma recorder_climb {recording : RecordingM Expr} {operand : ParserM Expr}
    (recorder : Recorder limit base recording operand) (levels : List Level) :
    Recorder limit base (Recording.climb recording levels) (climb operand levels) := by
  induction levels with
  | nil => exact recorder
  | cons level levels ih =>
    intro start le
    apply (ih start le).bind
    intro left s _ le'
    have le := Nat.le_trans le le'
    apply (records_plain fun _ => rfl).bind
    intro here s' _ le'
    exact recorder_joinLeft ih _ _ s' (Nat.le_trans le le')

lemma recorder_primary {recording : RecordingM Expr} {expression : ParserM Expr}
    (recorder : Recorder limit base recording expression) :
    Recorder limit base (Recording.primary limit recording) (primary limit expression) := by
  intro start le
  apply records_peek.bind
  intro t s look _
  by_cases opens : t.kind = .punctuator .leftParen
  · have ne : t.kind ≠ .eof := by simp [opens]
    rw [if_pos opens, if_pos opens]
    apply records_advance.bind
    intro _ s' run _
    have lt := index_lt_of_advance ne le look run
    apply (Records.nested recorder lt).bind
    intro inner s'' _ le'
    apply (recorder_expect _ _ s'' (Nat.le_trans (Nat.le_of_lt lt) le')).bind
    intro _ _ _ _
    exact records_pure _
  · rw [if_neg opens, if_neg opens]
    cases Literal.ofKind? t.kind with
    | none => exact records_throw _
    | some value =>
      apply records_advance.bind
      intro _ _ _ _
      exact records_pure _

lemma recorder_unary (bound : Nat) :
    Recorder limit base (Recording.unary limit bound) (unary limit bound) := by
  induction bound with
  | zero => exact fun _ _ => records_throw _
  | succ bound ih =>
    intro start le
    apply (recorder_accept? _ start le).bind
    intro operator? s run le'
    cases operator? with
    | none => exact recorder_primary (recorder_climb ih Level.all) s (Nat.le_trans le le')
    | some operator =>
      apply (Records.nested ih (index_lt_of_accept? rfl le run)).bind
      intro right _ _ _
      exact records_pure _

lemma recorder_expression :
    Recorder limit base (Recording.expression limit) (expression limit) := by
  intro start le
  apply (records_plain fun _ => rfl).bind
  intro here s _ le'
  exact recorder_climb (recorder_unary _) Level.all s (Nat.le_trans le le')

/-- The token that is looked at is the next one. -/
lemma head?_of_peek {s s' : State} {t : Token} (run : peek.run s = .ok t s') :
    s' = s ∧ t ∈ s.ahead.head? := by
  obtain ⟨behind, ahead, depth⟩ := s
  cases ahead with
  | nil => cases run
  | cons t ahead =>
    cases run
    exact ⟨rfl, rfl⟩

/-- Where the parser does not stand in front of an end marker, it has read a token of this call. -/
def HasRead (base : Nat) (s : State) : Prop :=
  ∀ t ∈ s.ahead.head?, t.kind ≠ .eof → base < s.index

lemma hasRead_of_advance {s s' : State} {t : Token} (le : base ≤ s.index)
    (run : advance.run s = .ok t s') : HasRead base s' := by
  obtain ⟨behind, ahead, depth⟩ := s
  cases ahead with
  | nil => cases run
  | cons t ahead =>
    by_cases eof : t.kind = .eof
    · rw [run_advance_of_eof eof] at run
      cases run
      rintro _ ⟨⟩ ne
      exact absurd eof ne
    · rw [run_advance_of_ne_eof eof] at run
      cases run
      exact fun _ _ _ => Nat.lt_succ_of_le le

lemma records_skipToBoundary (bound : Nat) (read : HasRead base start.state) :
    Records limit base start ((Recording.skipToBoundary bound).run start)
      ((skipToBoundary bound).run start.state) := by
  induction bound generalizing start with
  | zero => exact records_throw _
  | succ bound ih =>
    apply records_peek.bind
    intro t s look le
    by_cases eof : t.kind = .eof
    · rw [if_pos eof, if_pos eof]
      exact records_pure _
    · obtain ⟨_, next⟩ := head?_of_peek (run_of_run_act look)
      have lt : base < s.state.index := Nat.lt_of_lt_of_le (read t next eof) le
      rw [if_neg eof, if_neg eof]
      apply (records_previous lt).bind
      intro last s' _ le'
      have lt := Nat.lt_of_lt_of_le lt le'
      by_cases semicolon : last.kind = .punctuator .semicolon
      · rw [if_pos semicolon, if_pos semicolon]
        exact records_pure _
      · rw [if_neg semicolon, if_neg semicolon]
        cases t.kind.startsStatement with
        | true => exact records_pure _
        | false =>
          apply records_advance.bind
          intro _ s'' _ le'
          exact ih fun _ _ _ => Nat.lt_of_lt_of_le lt le'

lemma records_synchronize (le : base ≤ start.state.index) :
    Records limit base start (Recording.synchronize.run start) (synchronize.run start.state) := by
  apply records_advance.bind
  intro t s run _
  have read := hasRead_of_advance le (run_of_run_act run)
  apply (records_plain fun _ => rfl).bind
  intro here s' same _
  cases same
  exact records_skipToBoundary _ read

end Lox.Parser
