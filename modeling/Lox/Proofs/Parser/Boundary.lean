import Lox.Proofs.Parser.Safety
import Mathlib.Order.Bounds.Defs

/-!
# Boundaries between statements

Synchronizing looks at what is behind and at what is ahead, and reads a token before it looks at
all. Said with indices it is a search: behind the index at which it starts, it stops at the first
one where statements part (`isLeast_of_synchronize`). So it goes forward wherever the end marker is
not ahead, and calls that synchronize once for each token come to the end marker, whatever other
calls are made in between.
-/

namespace Lox.Parser

variable {tokens ahead behind : List Token} {t last : Token} {s s' : State} {depth : Nat}

/-- At this index statements part: the end marker or a word that begins a statement stands at it, or
a semicolon stands right in front of it. -/
def PartsAt (tokens : List Token) (i : Nat) : Prop :=
  (∃ t, tokens[i]? = some t ∧ (t.kind = .eof ∨ t.kind.startsStatement)) ∨
    ∃ j t, i = j + 1 ∧ tokens[j]? = some t ∧ t.kind = .punctuator .semicolon

/-- The tokens that are looked at decide whether statements part at the index. -/
lemma partsAt_index_iff :
    PartsAt (State.tokens ⟨last :: behind, t :: ahead, depth⟩) (behind.length + 1) ↔
      t.kind = .eof ∨ t.kind.startsStatement ∨ last.kind = .punctuator .semicolon := by
  have here : (State.tokens ⟨last :: behind, t :: ahead, depth⟩)[behind.length + 1]? = some t := by
    simp [State.tokens]
  have before : (State.tokens ⟨last :: behind, t :: ahead, depth⟩)[behind.length]? = some last := by
    simp [State.tokens]
  constructor
  · rintro (⟨t', at', eof | starts⟩ | ⟨j, last', eq, at', semicolon⟩)
    · rw [here] at at'
      cases at'
      exact .inl eof
    · rw [here] at at'
      cases at'
      exact .inr (.inl starts)
    · cases eq
      rw [before] at at'
      cases at'
      exact .inr (.inr semicolon)
  · rintro (eof | starts | semicolon)
    · exact .inl ⟨t, here, .inl eof⟩
    · exact .inl ⟨t, here, .inr starts⟩
    · exact .inr ⟨_, last, rfl, before, semicolon⟩

/-- Where statements do not part the search goes on at the next index. -/
lemma isLeast_of_succ {m n : Nat} (no : ¬ PartsAt tokens n)
    (least : IsLeast {i | n + 1 ≤ i ∧ PartsAt tokens i} m) :
    IsLeast {i | n ≤ i ∧ PartsAt tokens i} m := by
  obtain ⟨⟨le, parts⟩, lower⟩ := least
  refine ⟨⟨Nat.le_of_succ_le le, parts⟩, ?_⟩
  rintro i ⟨le, parts⟩
  refine lower ⟨Nat.lt_of_le_of_ne le ?_, parts⟩
  rintro rfl
  exact no parts

/-- Skipping stops at the first index where statements part, which may be the one it starts at. -/
lemma isLeast_of_skipToBoundary (bound last behind depth) (term : Terminated ahead)
    (len : ahead.length ≤ bound) :
    ∃ s' : State, (skipToBoundary bound).run ⟨last :: behind, ahead, depth⟩ = .ok () s' ∧
      s'.depth = depth ∧
      IsLeast {i | behind.length + 1 ≤ i ∧
        PartsAt (State.tokens ⟨last :: behind, ahead, depth⟩) i} s'.index := by
  induction bound generalizing last behind ahead with
  | zero => exact absurd len (Nat.not_le_of_gt term.length_pos)
  | succ bound ih =>
    obtain ⟨t, rest, rfl⟩ := term.exists_cons
    by_cases parts : PartsAt (State.tokens ⟨last :: behind, t :: rest, depth⟩) (behind.length + 1)
    · refine ⟨⟨last :: behind, t :: rest, depth⟩, ?_, rfl, ⟨Nat.le_refl _, parts⟩, ?_⟩
      · obtain eof | stops := partsAt_index_iff.mp parts
        · exact run_skipToBoundary_of_eof eof
        · exact run_skipToBoundary_of_boundary stops.symm
      · exact fun _ => And.left
    · obtain ⟨eof, stops⟩ := not_or.mp (mt partsAt_index_iff.mpr parts)
      obtain ⟨starts, semicolon⟩ := not_or.mp stops
      obtain ⟨s', run, same, least⟩ :=
        ih t (last :: behind) (term.tail eof) (Nat.le_of_succ_le_succ len)
      have tokens : State.tokens ⟨t :: last :: behind, rest, depth⟩ =
          State.tokens ⟨last :: behind, t :: rest, depth⟩ := by
        simp [State.tokens]
      rw [tokens] at least
      rw [run_skipToBoundary_of_inside eof semicolon (Bool.not_eq_true _ ▸ starts)]
      exact ⟨s', run, same, isLeast_of_succ parts least⟩

/-- Synchronizing stops at the first index behind its own where statements part. -/
lemma isLeast_of_synchronize (term : Terminated s.ahead) (at' : s.ahead.head? = some t)
    (ne : t.kind ≠ .eof) :
    ∃ s', s.synchronize = .ok s' ∧ s'.depth = s.depth ∧
      IsLeast {i | s.index < i ∧ PartsAt s.tokens i} s'.index := by
  obtain ⟨behind, ahead, depth⟩ := s
  obtain ⟨rest, rfl⟩ := List.head?_eq_some_iff.mp at'
  obtain ⟨s', run, same, least⟩ :=
    isLeast_of_skipToBoundary rest.length t behind depth (term.tail ne) (Nat.le_refl _)
  have tokens : State.tokens ⟨t :: behind, rest, depth⟩ =
      State.tokens ⟨behind, t :: rest, depth⟩ := by
    simp [State.tokens]
  rw [tokens] at least
  refine ⟨s', State.synchronize_of_run_ok ?_, same, least⟩
  rw [run_synchronize_of_ne_eof ne, run]

lemma synchronize_of_eof (at' : s.ahead.head? = some t) (eof : t.kind = .eof) :
    s.synchronize = .ok s := by
  obtain ⟨behind, ahead, depth⟩ := s
  obtain ⟨rest, rfl⟩ := List.head?_eq_some_iff.mp at'
  exact State.synchronize_of_run_ok (run_synchronize_of_eof eof)

/-- A call of a parser. -/
inductive Call where
  | parse
  | synchronize
  deriving DecidableEq

/-- Makes calls one after the other. -/
def State.make : List Call → State → Except Fault State
  | [], s => return s
  | .parse :: calls, s => do
    let (_, s) ← s.parse
    s.make calls
  | .synchronize :: calls, s => do
    let s ← s.synchronize
    s.make calls

lemma Reachable.index_le (reach : Reachable tokens s) : s.index ≤ firstEof tokens := by
  have le := index_le_firstEof reach.noEof
  rwa [State.tokens, reach.standing.split] at le

/-- A parser has the token at its index ahead of it. -/
lemma Reachable.exists_getElem? (reach : Reachable tokens s) :
    ∃ t, tokens[s.index]? = some t ∧ s.ahead.head? = some t := by
  have st := reach.standing
  obtain ⟨t, rest, eq⟩ := st.term.exists_cons
  have at' : tokens[s.index]? = s.ahead.head? := st.getElem? (w := []) rfl
  rw [eq] at at' ⊢
  exact ⟨t, at', rfl⟩

/-- Only at the first end marker does a parser stand in front of one. -/
lemma Reachable.eof_iff (reach : Reachable tokens s) (at' : tokens[s.index]? = some t) :
    t.kind = .eof ↔ s.index = firstEof tokens := by
  constructor
  · intro eof
    obtain ⟨lt, rfl⟩ := List.getElem?_eq_some_iff.mp at'
    refine Nat.le_antisymm reach.index_le (Nat.le_of_not_lt fun before => ?_)
    exact of_decide_eq_false (List.not_of_lt_findIdx before) eof
  · intro eq
    rw [eq] at at'
    obtain ⟨lt, rfl⟩ := List.getElem?_eq_some_iff.mp at'
    exact of_decide_eq_true (List.findIdx_getElem (w := lt))

/-- A call that parses does not go back. -/
lemma Reachable.exists_parse (reach : Reachable tokens s) :
    ∃ answer s', s.parse = .ok (answer, s') ∧ Reachable tokens s' ∧ s.index ≤ s'.index := by
  have st := reach.standing
  obtain ⟨answer, s', run⟩ := Parser.exists_parse st.term st.within
  obtain ⟨_, _, walk⟩ := walk_of_parse run
  exact ⟨answer, s', run, reach.parse run, walk.index_le⟩

/-- A call that synchronizes goes forward, unless it is made in front of the end marker. -/
lemma Reachable.exists_synchronize (reach : Reachable tokens s) :
    ∃ s', s.synchronize = .ok s' ∧ Reachable tokens s' ∧
      min (s.index + 1) (firstEof tokens) ≤ s'.index := by
  obtain ⟨t, at', ahead⟩ := reach.exists_getElem?
  by_cases eof : t.kind = .eof
  · have run := synchronize_of_eof ahead eof
    refine ⟨s, run, reach, ?_⟩
    rw [(reach.eof_iff at').mp eof]
    exact Nat.min_le_right _ _
  · obtain ⟨s', run, _, ⟨lt, _⟩, _⟩ := isLeast_of_synchronize reach.standing.term ahead eof
    exact ⟨s', run, reach.synchronize run, Nat.le_trans (Nat.min_le_left _ _) lt⟩

/-- Each call that synchronizes brings the parser nearer to the end marker. -/
lemma Reachable.exists_make (reach : Reachable tokens s) (calls : List Call) :
    ∃ s', s.make calls = .ok s' ∧ Reachable tokens s' ∧
      min (s.index + calls.count .synchronize) (firstEof tokens) ≤ s'.index := by
  induction calls generalizing s with
  | nil => exact ⟨s, rfl, reach, Nat.min_le_left _ _⟩
  | cons call calls ih =>
    cases call with
    | parse =>
      obtain ⟨answer, s₁, run, reach₁, forward⟩ := reach.exists_parse
      obtain ⟨s', more, reach', le⟩ := ih reach₁
      refine ⟨s', ?_, reach', ?_⟩
      · simp only [State.make, run, bind, Except.bind, more]
      · rw [List.count_cons_of_ne (by decide)]
        omega
    | synchronize =>
      obtain ⟨s₁, run, reach₁, forward⟩ := reach.exists_synchronize
      obtain ⟨s', more, reach', le⟩ := ih reach₁
      refine ⟨s', ?_, reach', ?_⟩
      · simp only [State.make, run, bind, Except.bind, more]
      · rw [List.count_cons_self]
        omega

/-- In front of the end marker synchronizing changes nothing. In front of any other token it leads
to the first index behind it where statements part, and nothing is opened or closed. So calls that
synchronize as often as there are tokens come to the end marker, as a loop does that parses and
synchronizes in turn. -/
theorem synchronize_isLeast (reach : Reachable tokens s) :
    ∃ t s', tokens[s.index]? = some t ∧ s.synchronize = .ok s' ∧
      (t.kind = .eof → s' = s) ∧
      (t.kind ≠ .eof → s'.tokens = tokens ∧ s'.depth = s.depth ∧
        IsLeast {i | s.index < i ∧ PartsAt tokens i} s'.index) ∧
      ∀ calls : List Call, tokens.length ≤ calls.count .synchronize →
        ∃ last e, s.make calls = .ok last ∧ tokens[last.index]? = some e ∧ e.kind = .eof := by
  have st := reach.standing
  obtain ⟨t, at', ahead⟩ := reach.exists_getElem?
  have loop (calls : List Call) (often : tokens.length ≤ calls.count .synchronize) :
      ∃ last e, s.make calls = .ok last ∧ tokens[last.index]? = some e ∧ e.kind = .eof := by
    obtain ⟨last, run, reach', le⟩ := reach.exists_make calls
    obtain ⟨e, at', _⟩ := reach'.exists_getElem?
    have lt := firstEof_lt_length (st.split ▸ st.term.append _)
    have upTo := reach'.index_le
    refine ⟨last, e, run, at', (reach'.eof_iff at').mpr ?_⟩
    omega
  by_cases eof : t.kind = .eof
  · exact ⟨t, s, at', synchronize_of_eof ahead eof, fun _ => rfl, fun ne => absurd eof ne, loop⟩
  · obtain ⟨s', run, same, least⟩ := isLeast_of_synchronize st.term ahead eof
    have tokens := (st.synchronize run).split
    rw [State.tokens, st.split] at least
    exact ⟨t, s', at', run, fun eq => absurd eq eof, fun _ => ⟨tokens, same, least⟩, loop⟩

/-- `nil ; ; class nil` with an end marker too many. -/
def boundaryTokens : List Token :=
  [⟨.keyword .nilWord, "nil".toList, 1⟩, ⟨.punctuator .semicolon, [';'], 1⟩,
    ⟨.punctuator .semicolon, [';'], 1⟩, ⟨.keyword .classWord, "class".toList, 2⟩,
    ⟨.keyword .nilWord, "nil".toList, 2⟩, .eof 2, .eof 2]

/-- The parser on `boundaryTokens` behind the first semicolon. -/
def boundaryState : State := ⟨(boundaryTokens.take 2).reverse, boundaryTokens.drop 2, 0⟩

/-- The parser reads the second semicolon, although it is behind one already, and stops in front of
`class`. After seven rounds it is at the first end marker. -/
theorem synchronize_isLeast_semicolon :
    Reachable boundaryTokens boundaryState ∧ boundaryState.index = 2 ∧
      ∃ s' last : State, boundaryState.synchronize = .ok s' ∧ s'.index = 3 ∧
        IsLeast {i | 2 < i ∧ PartsAt boundaryTokens i} s'.index ∧
        boundaryState.make (List.replicate 7 [Call.parse, Call.synchronize]).flatten = .ok last ∧
        last.index = 5 := by
  have reach : Reachable boundaryTokens boundaryState := .synchronize (.start rfl) rfl
  obtain ⟨t, s', at', run, _, stops, loop⟩ := synchronize_isLeast reach
  cases at'
  obtain ⟨_, _, least⟩ := stops (by decide)
  obtain ⟨last, _, rounds, _⟩ :=
    loop (List.replicate 7 [Call.parse, Call.synchronize]).flatten (by decide)
  refine ⟨reach, rfl, s', last, run, ?_, least, rounds, ?_⟩
  · cases run
    rfl
  · cases rounds
    rfl

end Lox.Parser
