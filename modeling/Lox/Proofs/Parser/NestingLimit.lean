import Lox.Parser.Openings
import Lox.Proofs.Parser.Completeness
import Lox.Proofs.Parser.Reachable

/-!
# The limit on the nesting

The parser with a limit and the one that only notes what it opens are run side by side. They take
the same steps up to the first opening for which the limit leaves no room, and there the parser with
the limit stops. `Mirrors` says this of two parsers; it goes through sequences
(`Follows.bind`) and through the opening of operands (`Follows.nested`), and so from the operands
through the loops to the whole expression (`mirrors_expression`).
-/

namespace Lox.Parser

variable {α β : Type} {limit : Option Nat} {start : Noted}

/-- The state in which a run ends. -/
def final {σ : Type} : EStateM.Result Stop σ α → σ
  | .ok _ s => s
  | .error _ s => s

/-- What is left of a result without the notes. -/
def unnoted : EStateM.Result Stop Noted α → EStateM.Result Stop State α
  | .ok a s => .ok a s.state
  | .error e s => .error e s.state

/-- The whole token list of a state. -/
def State.tokens (s : State) : List Token := s.behind.reverse ++ s.ahead

/-- The state behind a token that opens an operand. -/
def IsOpening (tokens : List Token) (o : State) : Prop :=
  o.tokens = tokens ∧ ∃ t behind, o.behind = t :: behind ∧
    (t.kind.isUnary ∨ t.kind = .punctuator .leftParen)

/-- The result with a limit, where `noted` is the result that notes the openings. -/
inductive Agrees (limit : Option Nat) (start : Noted) (noted : EStateM.Result Stop Noted α) :
    EStateM.Result Stop State α → Prop where
  | same {openings} :
    (final noted).openings = start.openings ++ openings →
    (∀ o ∈ openings, Within limit (o.depth + 1)) →
    Agrees limit start noted (unnoted noted)
  | cut {earlier later o t behind} :
    (final noted).openings = start.openings ++ (earlier ++ o :: later) →
    (∀ p ∈ earlier, Within limit (p.depth + 1)) →
    Within limit o.depth →
    ¬ Within limit (o.depth + 1) →
    o.behind = t :: behind →
    Agrees limit start noted
      (.error (.error ⟨.tooDeeplyNested, t⟩) { o with depth := start.state.depth })

/-- A run that notes the openings and one with a limit, side by side. -/
structure Follows (limit : Option Nat) (start : Noted) (noted : EStateM.Result Stop Noted α)
    (limited : EStateM.Result Stop State α) : Prop where
  tokens : (final noted).state.tokens = start.state.tokens
  depth : (final noted).state.depth = start.state.depth
  openings : ∃ openings, (final noted).openings = start.openings ++ openings ∧
    ∀ o ∈ openings, IsOpening start.state.tokens o
  agrees : Within limit start.state.depth → Agrees limit start noted limited

/-- Two parsers, one that notes the openings and one with a limit, run side by side. -/
def Mirrors (limit : Option Nat) (noting : NotingM α) (parser : ParserM α) : Prop :=
  ∀ start, Follows limit start (noting.run start) (parser.run start.state)

/-- Openings with room for them do not change what comes behind them. -/
lemma Agrees.of_append {s : Noted} {noted : EStateM.Result Stop Noted α} {limited openings}
    (agrees : Agrees limit s noted limited) (grown : s.openings = start.openings ++ openings)
    (within : ∀ o ∈ openings, Within limit (o.depth + 1))
    (depth : s.state.depth = start.state.depth) : Agrees limit start noted limited := by
  cases agrees with
  | @same openings' grown' within' =>
    have all := List.forall_mem_append.mpr ⟨within, within'⟩
    exact .same (by rw [grown', grown, List.append_assoc]) all
  | @cut earlier later o t behind grown' within' fits full eq =>
    have all := List.forall_mem_append.mpr ⟨within, within'⟩
    have grown : (final noted).openings =
        start.openings ++ ((openings ++ earlier) ++ o :: later) := by
      rw [grown', grown, List.append_assoc, List.append_assoc]
    rw [depth]
    exact .cut grown all fits full eq

/-- Side by side the second steps follow the first ones. -/
lemma Follows.bind {noting : NotingM α} {parser : ParserM α} {f : α → NotingM β}
    {g : α → ParserM β}
    (first : Follows limit start (noting.run start) (parser.run start.state))
    (second : ∀ a s, noting.run start = .ok a s →
      Follows limit s ((f a).run s) ((g a).run s.state)) :
    Follows limit start ((noting >>= f).run start) ((parser >>= g).run start.state) := by
  rw [EStateM.run_bind, EStateM.run_bind]
  generalize noting.run start = noted at first second
  generalize parser.run start.state = limited at first
  obtain ⟨tokens, depth, ⟨openings, grown, opened⟩, agrees⟩ := first
  cases noted with
  | error e s =>
    refine ⟨tokens, depth, ⟨openings, grown, opened⟩, fun fits => ?_⟩
    cases agrees fits with
    | same grown within => exact .same grown within
    | cut grown within fits full behind => exact .cut grown within fits full behind
  | ok a s =>
    have second := second a s rfl
    dsimp only [final] at tokens depth grown second ⊢
    generalize (f a).run s = noted at second ⊢
    obtain ⟨tokens', depth', ⟨openings', grown', opened'⟩, agrees'⟩ := second
    rw [tokens] at opened'
    refine ⟨tokens'.trans tokens, depth'.trans depth, ⟨openings ++ openings', ?_, ?_⟩,
      fun fits => ?_⟩
    · rw [grown', grown, List.append_assoc]
    · exact List.forall_mem_append.mpr ⟨opened, opened'⟩
    · cases agrees fits with
      | same grown within => exact (agrees' (depth ▸ fits)).of_append grown within depth
      | @cut earlier later o t behind grown within fits full eq =>
        -- The parser with the limit has stopped, and the other one goes on.
        have grown : (final noted).openings =
            start.openings ++ (earlier ++ o :: (later ++ openings')) := by
          rw [grown', show s.openings = _ from grown]
          simp
        exact .cut grown within fits full eq

/-- A parser that only moves on its token list. -/
def KeepsPlace (parser : ParserM α) : Prop :=
  ∀ s, (final (parser.run s)).tokens = s.tokens ∧ (final (parser.run s)).depth = s.depth

lemma KeepsPlace.bind {parser : ParserM α} {f : α → ParserM β} (first : KeepsPlace parser)
    (second : ∀ a, KeepsPlace (f a)) : KeepsPlace (parser >>= f) := by
  intro s
  obtain ⟨tokens, depth⟩ := first s
  rw [EStateM.run_bind]
  generalize parser.run s = result at tokens depth
  cases result with
  | error e s' => exact ⟨tokens, depth⟩
  | ok a s' =>
    obtain ⟨tokens', depth'⟩ := second a s'
    exact ⟨tokens'.trans tokens, depth'.trans depth⟩

lemma keepsPlace_pure (a : α) : KeepsPlace (pure a) := fun _ => ⟨rfl, rfl⟩

lemma keepsPlace_throw (stop : Stop) : KeepsPlace (throw stop : ParserM α) := fun _ => ⟨rfl, rfl⟩

lemma keepsPlace_get : KeepsPlace get := fun _ => ⟨rfl, rfl⟩

lemma keepsPlace_peek : KeepsPlace peek := by
  intro ⟨behind, ahead, depth⟩
  cases ahead with
  | nil => exact ⟨rfl, rfl⟩
  | cons t ahead => exact ⟨rfl, rfl⟩

lemma keepsPlace_advance : KeepsPlace advance := by
  intro ⟨behind, ahead, depth⟩
  cases ahead with
  | nil => exact ⟨rfl, rfl⟩
  | cons t ahead =>
    by_cases eof : t.kind = .eof
    · rw [run_advance_of_eof eof]
      exact ⟨rfl, rfl⟩
    · rw [run_advance_of_ne_eof eof]
      exact ⟨by simp [final, State.tokens], rfl⟩

lemma keepsPlace_accept? (p : Token.Kind → Bool) : KeepsPlace (accept? p) := by
  apply keepsPlace_peek.bind
  intro t
  cases p t.kind with
  | true => exact keepsPlace_advance.bind fun _ => keepsPlace_pure _
  | false => exact keepsPlace_pure _

lemma keepsPlace_expect (p : Punctuator) (cause : ParseError.Cause) :
    KeepsPlace (expect p cause) := by
  apply keepsPlace_peek.bind
  intro t
  by_cases eq : t.kind = .punctuator p
  · rw [if_pos eq]
    exact keepsPlace_advance
  · rw [if_neg eq]
    exact keepsPlace_throw _

lemma mirrors_plain {parser : ParserM α} (keeps : KeepsPlace parser) :
    Mirrors limit (Noting.plain parser) parser := by
  intro start
  obtain ⟨tokens, depth⟩ := keeps start.state
  rw [Noting.run_plain]
  generalize parser.run start.state = result at tokens depth
  have grown : start.openings = start.openings ++ [] := (List.append_nil _).symm
  cases result with
  | ok a s => exact ⟨tokens, depth, ⟨[], grown, nofun⟩, fun _ => .same grown nofun⟩
  | error e s => exact ⟨tokens, depth, ⟨[], grown, nofun⟩, fun _ => .same grown nofun⟩

lemma mirrors_pure (a : α) : Mirrors limit (pure a) (pure a) := mirrors_plain (keepsPlace_pure a)

lemma mirrors_throw (stop : Stop) : Mirrors limit (throw stop : NotingM α) (throw stop) :=
  mirrors_plain (keepsPlace_throw stop)

/-- The operand behind an opening is noted, and it is read if the limit leaves room for it. -/
lemma Follows.nested {noting : NotingM α} {parser : ParserM α}
    (mirrors : Mirrors limit noting parser)
    (opening : IsOpening start.state.tokens start.state) :
    Follows limit start ((Noting.nested noting).run start)
      ((nested limit parser).run start.state) := by
  obtain ⟨⟨behind, ahead, depth⟩, before⟩ := start
  have inner := mirrors ⟨⟨behind, ahead, depth + 1⟩, before ++ [⟨behind, ahead, depth⟩]⟩
  rw [Noting.run_nested]
  dsimp only at opening inner ⊢
  generalize noting.run _ = result at inner ⊢
  obtain ⟨tokens, depth', ⟨openings, grown, opened⟩, agrees⟩ := inner
  rw [List.append_assoc, List.singleton_append] at grown
  have opened := List.forall_mem_cons.mpr ⟨opening, opened⟩
  have first {later : List State} (room : Within limit (depth + 1))
      (within : ∀ o ∈ later, Within limit (o.depth + 1)) :
      ∀ o ∈ ⟨behind, ahead, depth⟩ :: later, Within limit (State.depth o + 1) :=
    List.forall_mem_cons.mpr ⟨room, within⟩
  refine ⟨?_, ?_, ⟨⟨behind, ahead, depth⟩ :: openings, ?_, opened⟩, fun fits => ?_⟩
  · cases result <;> exact tokens
  · cases result <;> exact congrArg (· - 1) depth'
  · cases result <;> exact grown
  · by_cases room : Within limit (depth + 1)
    · rw [run_nested_of_free (within_succ_iff.mp room)]
      have agrees := agrees room
      generalize parser.run _ = limited at agrees
      cases agrees with
      | @same openings grown within =>
        rw [List.append_assoc, List.singleton_append] at grown
        cases result with
        | ok a s => exact .same grown (first room within)
        | error e s => exact .same grown (first room within)
      | @cut earlier later o t behind' grown within fits full eq =>
        rw [List.append_assoc, List.singleton_append, ← List.cons_append] at grown
        cases result with
        | ok a s => exact .cut (o := o) grown (first room within) fits full eq
        | error e s => exact .cut (o := o) grown (first room within) fits full eq
    · obtain ⟨_, t, behind, rfl, opens⟩ := opening
      rw [run_nested_of_limit (not_within_succ_iff.mp room)]
      rw [← List.nil_append (State.mk _ _ _ :: openings)] at grown
      have none : ∀ p ∈ ([] : List State), Within limit (p.depth + 1) := nofun
      cases result with
      | ok a s => exact .cut grown none fits room rfl
      | error e s => exact .cut grown none fits room rfl

/-- A token that is accepted is the one read last. -/
lemma behind_of_accept? {p : Token.Kind → Bool} {s s' : State} {t : Token} (eof : p .eof = false)
    (run : (accept? p).run s = .ok (some t) s') : p t.kind ∧ s'.behind = t :: s.behind := by
  obtain ⟨behind, ahead, depth⟩ := s
  cases ahead with
  | nil => cases run
  | cons u ahead =>
    cases is : p u.kind with
    | true =>
      rw [run_accept?_of_pos is eof] at run
      cases run
      exact ⟨is, rfl⟩
    | false =>
      rw [run_accept?_of_neg is] at run
      cases run

/-- A token that is looked at and then read is the one read last. -/
lemma behind_of_advance {s s' s'' : State} {t u : Token} (ne : t.kind ≠ .eof)
    (look : peek.run s = .ok t s') (run : advance.run s' = .ok u s'') :
    s''.behind = t :: s.behind := by
  obtain ⟨behind, ahead, depth⟩ := s
  cases ahead with
  | nil => cases look
  | cons v ahead =>
    cases look
    rw [run_advance_of_ne_eof ne] at run
    cases run
    rfl

/-- A parser that opens nothing runs the same with notes. -/
lemma run_of_run_plain {parser : ParserM α} {s : Noted} {a}
    (run : (Noting.plain parser).run start = .ok a s) : parser.run start.state = .ok a s.state := by
  rw [Noting.run_plain] at run
  generalize parser.run start.state = result at run
  cases result with
  | ok b s => cases run; rfl
  | error e s => cases run

lemma mirrors_joinLeft {level : Level} {noting : NotingM Expr} {operand : ParserM Expr}
    (mirrors : Mirrors limit noting operand) (bound : Nat) (left : Expr) :
    Mirrors limit (Noting.joinLeft level noting bound left)
      (joinLeft level operand bound left) := by
  induction bound generalizing left with
  | zero => exact mirrors_throw _
  | succ bound ih =>
    intro start
    apply (mirrors_plain (keepsPlace_accept? _) start).bind
    intro operator? s _
    cases operator? with
    | none => exact mirrors_pure _ s
    | some operator => exact (mirrors s).bind fun right s _ => ih _ s

lemma mirrors_climb {noting : NotingM Expr} {operand : ParserM Expr}
    (mirrors : Mirrors limit noting operand) (levels : List Level) :
    Mirrors limit (Noting.climb noting levels) (climb operand levels) := by
  induction levels with
  | nil => exact mirrors
  | cons level levels ih =>
    intro start
    apply (ih start).bind
    intro left s _
    apply (mirrors_plain keepsPlace_get s).bind
    intro here s _
    exact mirrors_joinLeft ih _ _ s

lemma mirrors_primary {noting : NotingM Expr} {expression : ParserM Expr}
    (mirrors : Mirrors limit noting expression) :
    Mirrors limit (Noting.primary noting) (primary limit expression) := by
  intro start
  apply (mirrors_plain keepsPlace_peek start).bind
  intro t s look
  by_cases opens : t.kind = .punctuator .leftParen
  · rw [if_pos opens, if_pos opens]
    apply (mirrors_plain keepsPlace_advance s).bind
    intro u s' run
    have ne : t.kind ≠ .eof := by simp [opens]
    have eq := behind_of_advance ne (run_of_run_plain look) (run_of_run_plain run)
    have opening : IsOpening s'.state.tokens s'.state := ⟨rfl, t, _, eq, .inr opens⟩
    apply (Follows.nested mirrors opening).bind
    intro inner s _
    apply (mirrors_plain (keepsPlace_expect _ _) s).bind
    intro closing s _
    exact mirrors_pure _ s
  · rw [if_neg opens, if_neg opens]
    cases Literal.ofKind? t.kind with
    | none => exact mirrors_plain (keepsPlace_throw _) s
    | some value =>
      apply (mirrors_plain keepsPlace_advance s).bind
      intro u s' _
      exact mirrors_pure _ s'

lemma mirrors_unary (bound : Nat) : Mirrors limit (Noting.unary bound) (unary limit bound) := by
  induction bound with
  | zero => exact mirrors_throw _
  | succ bound ih =>
    intro start
    apply (mirrors_plain (keepsPlace_accept? _) start).bind
    intro operator? s run
    cases operator? with
    | none => exact mirrors_primary (mirrors_climb ih Level.all) s
    | some operator =>
      obtain ⟨un, eq⟩ := behind_of_accept? rfl (run_of_run_plain run)
      have opening : IsOpening s.state.tokens s.state := ⟨rfl, operator, _, eq, .inl un⟩
      apply (Follows.nested ih opening).bind
      intro right s _
      exact mirrors_pure _ s

lemma mirrors_expression : Mirrors limit Noting.expression (expression limit) := by
  intro start
  apply (mirrors_plain keepsPlace_get start).bind
  intro here s _
  exact mirrors_climb (mirrors_unary _) Level.all s

variable {tokens : List Token} {s s' : State} {most : Nat}

/-- Where there is room for all openings, the limit changes nothing. -/
lemma Agrees.eq_unnoted {noted : EStateM.Result Stop Noted α} {limited}
    (agrees : Agrees limit ⟨s, []⟩ noted limited)
    (room : ∀ o ∈ (final noted).openings, Within limit (o.depth + 1)) :
    limited = unnoted noted := by
  cases agrees with
  | same _ _ => rfl
  | @cut earlier later o _ _ grown _ _ full _ =>
    have mem : o ∈ (final noted).openings := by simp [grown]
    exact absurd (room o mem) full

/-- The first opening without room is where the limit stops the parser. -/
lemma Agrees.eq_stop {noted : EStateM.Result Stop Noted α} {limited o}
    (agrees : Agrees (some most) ⟨s, []⟩ noted limited)
    (first : (final noted).openings.find? (most ≤ ·.depth) = some o) :
    o.depth = most ∧ ∃ t behind, o.behind = t :: behind ∧
      limited = .error (.error ⟨.tooDeeplyNested, t⟩) { o with depth := s.depth } := by
  cases agrees with
  | @same openings grown within =>
    have mem := List.mem_of_find?_eq_some first
    have full : most ≤ o.depth := by simpa using List.find?_some first
    rw [grown] at mem
    exact absurd full (Nat.not_le_of_gt (within_some_iff.mp (within o mem)))
  | @cut earlier later o' t behind grown within fits full eq =>
    have le := within_some_iff.mp fits
    have ge : most ≤ o'.depth := Nat.le_of_not_lt fun lt => full (within_some_iff.mpr lt)
    have first' : (final noted).openings.find? (most ≤ ·.depth) = some o' := by
      rw [grown]
      refine List.find?_eq_some_iff_append.mpr ⟨decide_eq_true ge, earlier, later, rfl, ?_⟩
      intro p mem
      have lt : p.depth < most := within_some_iff.mp (within p mem)
      simpa using lt
    rw [first] at first'
    cases first'
    exact ⟨Nat.le_antisymm le ge, t, behind, eq, rfl⟩

/-- The notes change nothing else: without them the run is that of the parser without a limit. -/
lemma run_expression_none : (expression none).run s = unnoted (Noting.expression.run ⟨s, []⟩) := by
  have follows : Follows none ⟨s, []⟩ _ _ := mirrors_expression ⟨s, []⟩
  have agrees := follows.agrees nofun
  generalize (expression none).run s = limited at agrees ⊢
  cases agrees with
  | same _ _ => rfl
  | cut _ _ _ full _ => exact absurd nofun full

lemma settle_of_unnoted {noted : EStateM.Result Stop Noted Expr} {answer}
    (eq : settle (unnoted noted) = .ok (answer, s')) :
    settle noted = .ok (answer, ⟨s', (final noted).openings⟩) := by
  cases noted with
  | ok e n => cases eq; rfl
  | error stop n =>
    cases stop with
    | error e => cases eq; rfl
    | fault f => cases eq

/-- In front of a terminated list no fault arises. -/
lemma exists_parseUnlimited (term : Terminated s.ahead) :
    ∃ answer after, s.parseUnlimited = .ok (answer, after) := by
  have out : Outcome none Level.all s _ := expression_outcome term nofun
  rw [State.parseUnlimited]
  generalize (expression none).run s = result at out
  cases out with
  | derived _ _ _ _ => exact ⟨_, _, rfl⟩
  | blocked _ => exact ⟨_, _, rfl⟩

/-- What the parser without a limit gives, the other one gives if the limit allows it. -/
lemma parse_of_parseUnlimited {e : Expr} (term : Terminated s.ahead)
    (run : s.parseUnlimited = .ok (.ok e, s')) (fits : s.depth + e.nesting ≤ maxNesting) :
    s.parse = .ok (.ok e, s') := by
  have out : Outcome none Level.all s _ := expression_outcome term nofun
  rw [State.parseUnlimited] at run
  generalize (expression none).run s = result at out run
  cases out with
  | @derived behind w rest depth e der _ term' free =>
    cases run
    obtain ⟨t, rest, rfl⟩ := term'.exists_cons
    apply parse_of_derives der behind t rest depth
    · exact within_some_iff.mpr fits
    · exact level?_eq_none_iff.mpr (free t rfl)
  | blocked _ => cases run

/-- The token in front of an opening is the one read last. -/
lemma IsOpening.getElem? {o : State} (opening : IsOpening tokens o) :
    ∃ t i, tokens[i]? = some t ∧ o.index = i + 1 ∧
      (t.kind.isUnary ∨ t.kind = .punctuator .leftParen) ∧ ∃ behind, o.behind = t :: behind := by
  obtain ⟨rfl, t, behind, eq, opens⟩ := opening
  refine ⟨t, behind.length, ?_, by rw [State.index, eq, List.length_cons], opens, behind, eq⟩
  simp [State.tokens, eq]

/-- The two parsers side by side on a token list. -/
lemma Standing.exists_openings (st : Standing tokens s) :
    ∃ answer after openings,
      s.parseUnlimited = .ok (answer, after) ∧
      s.parseNoting = .ok (answer, ⟨after, openings⟩) ∧
      (∀ o ∈ openings, IsOpening tokens o) ∧
      ((∀ o ∈ openings, o.depth < maxNesting) → s.parse = .ok (answer, after)) ∧
      ∀ o, openings.find? (maxNesting ≤ ·.depth) = some o →
        o.depth = maxNesting ∧ ∃ t behind, o.behind = t :: behind ∧
          s.parse = .ok (.error ⟨.tooDeeplyNested, t⟩, { o with depth := 0 }) := by
  obtain ⟨answer, after, free⟩ := exists_parseUnlimited st.term
  have follows : Follows (some maxNesting) ⟨s, []⟩ _ _ := mirrors_expression ⟨s, []⟩
  have agrees := follows.agrees st.within
  obtain ⟨openings, grown, opened⟩ := follows.openings
  rw [List.nil_append] at grown
  have free' : settle (unnoted (Noting.expression.run ⟨s, []⟩)) = .ok (answer, after) := by
    rw [← run_expression_none]
    exact free
  refine ⟨answer, after, openings, free, grown ▸ settle_of_unnoted free', st.split ▸ opened,
    fun room => ?_, fun o first => ?_⟩
  · rw [State.parse_eq_settle, agrees.eq_unnoted, free']
    intro o mem
    exact within_some_iff.mpr (room o (grown ▸ mem))
  · obtain ⟨depth, t, behind, eq, stop⟩ := agrees.eq_stop (grown ▸ first)
    refine ⟨depth, t, behind, eq, ?_⟩
    rw [State.parse_eq_settle, stop, st.depth]
    rfl

/-- The limit stops the parser at the first opening for which there is no room, and changes nothing
where there is none. An expression is given just if it is no deeper than the limit. -/
theorem parse_of_openings (reach : Reachable tokens s) :
    ∃ answer after openings,
      s.parseUnlimited = .ok (answer, after) ∧
      s.parseNoting = .ok (answer, ⟨after, openings⟩) ∧
      (∀ o ∈ openings, ∃ t i, tokens[i]? = some t ∧ o.index = i + 1 ∧
        (t.kind.isUnary ∨ t.kind = .punctuator .leftParen)) ∧
      ((∀ o ∈ openings, o.depth < maxNesting) → s.parse = .ok (answer, after)) ∧
      (∀ o, openings.find? (maxNesting ≤ ·.depth) = some o →
        o.depth = maxNesting ∧ ∃ t i, tokens[i]? = some t ∧ o.index = i + 1 ∧
          s.parse = .ok (.error ⟨.tooDeeplyNested, t⟩, { o with depth := 0 })) ∧
      ∀ e, answer = .ok e →
        ((∀ o ∈ openings, o.depth < maxNesting) ↔ e.nesting ≤ maxNesting) := by
  have st := reach.standing
  obtain ⟨answer, after, openings, free, noting, opened, room, stop⟩ := st.exists_openings
  refine ⟨answer, after, openings, free, noting, fun o mem => ?_, room, fun o first => ?_, ?_⟩
  · obtain ⟨t, i, at_i, index, opens, _⟩ := (opened o mem).getElem?
    exact ⟨t, i, at_i, index, opens⟩
  · obtain ⟨depth, t, behind, eq, run⟩ := stop o first
    obtain ⟨t', i, at_i, index, _, behind', eq'⟩ :=
      (opened o (List.mem_of_find?_eq_some first)).getElem?
    rw [eq] at eq'
    cases eq'
    exact ⟨depth, t, i, at_i, index, run⟩
  · rintro e rfl
    constructor
    · intro lt
      obtain ⟨_, _, _, fits, _⟩ := derived_of_parse st.term st.within (room lt)
      rwa [st.depth, Nat.zero_add] at fits
    · intro le
      have run := parse_of_parseUnlimited st.term free (by rwa [st.depth, Nat.zero_add])
      cases first : openings.find? (maxNesting ≤ ·.depth) with
      | none =>
        intro o mem
        simpa using List.find?_eq_none.mp first o mem
      | some o =>
        obtain ⟨_, t, _, _, stopped⟩ := stop o first
        rw [run] at stopped
        cases stopped

/-- One pair of openings more than the limit allows is cut off at its operator, and without the
limit it is read. -/
theorem parse_of_openings_nest :
    ∃ (start after o : State) (t : Token),
      Reachable (nest 129 ++ [.eof 1]) start ∧
      start.parseUnlimited = .ok (.ok (nestExpr 129), after) ∧
      o.depth = maxNesting ∧
      start.parse = .ok (.error ⟨.tooDeeplyNested, t⟩, { o with depth := 0 }) := by
  have term : Terminated (nest 129 ++ [.eof 1]) := .append _ ⟨_, rfl, rfl⟩
  have start := Reachable.start (ofTokens_eq_ok_iff.mpr ⟨term, rfl⟩)
  obtain ⟨answer, after, openings, free, _, _, _, stop, deep⟩ := parse_of_openings start
  have run : (expression none).run _ = _ :=
    run_expression_of_derives (derives_nest 129).of_nil [] (.eof 1) [] 0 nofun rfl
  have free' := free
  rw [State.parseUnlimited, run] at free'
  cases free'
  cases first : openings.find? (maxNesting ≤ ·.depth) with
  | none =>
    have room : ∀ o ∈ openings, o.depth < maxNesting := by
      simpa using List.find?_eq_none.mp first
    have le := (deep _ rfl).mp room
    rw [nesting_nestExpr] at le
    exact absurd le (by decide)
  | some o =>
    obtain ⟨depth, t, _, _, _, stopped⟩ := stop o first
    exact ⟨_, _, o, t, start, free, depth, stopped⟩

end Lox.Parser
