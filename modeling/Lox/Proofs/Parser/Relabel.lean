import Lox.Proofs.Parser.Completeness
import Lox.Proofs.Parser.Reachable

/-!
# Relabelling

The parser decides by the kinds of the tokens and by nothing else of them. So on tokens with other
lexemes and lines it takes the same way: the operators of its tree are the other tokens, and its
error names the other token (`State.parse_relabel`).
-/

namespace Lox

variable {f : Token → Token} {limit : Option Nat} {depth : Nat} {levels : List Level}
  {w : List Token}

/-- The expression with other tokens for its operators. -/
def Expr.relabel (f : Token → Token) : Expr → Expr
  | literal value => literal value
  | grouping inner => grouping (inner.relabel f)
  | unary operator right => unary (f operator) (right.relabel f)
  | binary left operator right => binary (left.relabel f) (f operator) (right.relabel f)

def ParseError.relabel (f : Token → Token) (e : ParseError) : ParseError :=
  { e with token := f e.token }

@[simp] lemma Expr.nesting_relabel (e : Expr) : (e.relabel f).nesting = e.nesting := by
  induction e with
  | literal => rfl
  | grouping _ ih => rw [relabel, nesting, nesting, ih]
  | unary _ _ ih => rw [relabel, nesting, nesting, ih]
  | binary _ _ _ ihl ihr => rw [relabel, nesting, nesting, ihl, ihr]

lemma Derives.relabel {e} (keeps : ∀ t, (f t).kind = t.kind) (der : Derives levels w e) :
    Derives levels (w.map f) (e.relabel f) := by
  induction der with
  | tighter _ ih => exact .tighter ih
  | binary _ eq _ ihl ihr =>
    rw [List.map_append]
    exact .binary ihl (by rwa [keeps]) ihr
  | unary un _ ih => exact .unary (by rwa [keeps]) ih
  | literal lit => exact .literal (by rwa [keeps])
  | grouping opens _ closes ih =>
    rw [List.map_append]
    exact .grouping ((keeps _).trans opens) ih ((keeps _).trans closes)

lemma Blocked.relabel {e} (keeps : ∀ t, (f t).kind = t.kind)
    (blk : Blocked limit depth levels w e) :
    Blocked limit depth levels (w.map f) (e.relabel f) := by
  induction blk with
  | tighter _ ih => exact .tighter ih
  | right der fits eq _ ih =>
    rw [List.map_append]
    exact .right (der.relabel keeps) (by rwa [Expr.nesting_relabel]) (by rwa [keeps]) ih
  | unary un room _ ih => exact .unary (by rwa [keeps]) room ih
  | inside opens room _ ih => exact .inside ((keeps _).trans opens) room ih
  | tooDeep opens full => exact .tooDeep (by rwa [keeps]) full
  | unclosed opens der fits none ne =>
    exact .unclosed ((keeps _).trans opens) (der.relabel keeps) (by rwa [Expr.nesting_relabel])
      (by rwa [keeps]) (by rwa [keeps])
  | noOperand un opens lit => exact .noOperand (by rwa [keeps]) (by rwa [keeps]) (by rwa [keeps])

namespace Parser

variable {s s' : State}

/-- The state on other tokens. -/
def State.relabel (f : Token → Token) (s : State) : State :=
  { s with behind := s.behind.map f, ahead := s.ahead.map f }

lemma relabel_stopAt {e : ParseError} {behind rest : List Token} :
    (stopAt e behind rest depth).relabel f =
      stopAt (e.relabel f) (behind.map f) (rest.map f) depth := by
  obtain ⟨cause, t⟩ := e
  cases cause <;> rfl

/-- What an expression parser comes to on other tokens. -/
def relabelAnswer (f : Token → Token) : Except ParseError Expr → Except ParseError Expr
  | .ok e => .ok (e.relabel f)
  | .error e => .error (e.relabel f)

/-- On tokens of the same kinds the parser comes to the same. -/
theorem State.parse_relabel (keeps : ∀ t, (f t).kind = t.kind) (term : Terminated s.ahead)
    (fits : Within (some maxNesting) s.depth) :
    ∃ answer after, s.parse = .ok (answer, after) ∧
      (s.relabel f).parse = .ok (relabelAnswer f answer, after.relabel f) := by
  obtain ⟨behind, ahead, depth⟩ := s
  have out := expression_outcome term fits
  generalize eq : (expression (some maxNesting)).run ⟨behind, ahead, depth⟩ = result at out
  cases out with
  | @derived _ w rest _ e der fits term' free =>
    obtain ⟨t, rest, rfl⟩ := term'.exists_cons
    have none : (f t).kind.level? = none := by
      rw [keeps]
      exact level?_eq_none_iff.mpr (free t rfl)
    have run := parse_of_derives (der.relabel keeps) (behind.map f) (f t) (rest.map f) depth
      (by rwa [Expr.nesting_relabel]) none
    refine ⟨_, _, State.parse_of_run_ok eq, ?_⟩
    simpa [State.relabel, relabelAnswer] using run
  | @blocked _ w rest _ e blk =>
    have run := parse_of_blocked (blk.relabel keeps) (behind.map f) (rest.map f)
    refine ⟨_, _, State.parse_of_run_error eq, ?_⟩
    rw [relabel_stopAt]
    simpa [State.relabel, relabelAnswer, ParseError.relabel] using run

/-- Tokens that are the same but for what `f` forgets come to the same but for it. -/
lemma parse_congr {tokens tokens'} (keeps : ∀ t, (f t).kind = t.kind)
    (same : tokens'.map f = tokens.map f) (term : Terminated tokens) (term' : Terminated tokens') :
    (∃ e e' after after', State.parse ⟨[], tokens, 0⟩ = .ok (.ok e, after) ∧
      State.parse ⟨[], tokens', 0⟩ = .ok (.ok e', after') ∧ e'.relabel f = e.relabel f) ∨
    ∃ e e' after after', State.parse ⟨[], tokens, 0⟩ = .ok (.error e, after) ∧
      State.parse ⟨[], tokens', 0⟩ = .ok (.error e', after') ∧ e'.relabel f = e.relabel f := by
  obtain ⟨answer, after, run, relabelled⟩ :=
    State.parse_relabel (s := ⟨[], tokens, 0⟩) keeps term within_zero
  obtain ⟨answer', after', run', relabelled'⟩ :=
    State.parse_relabel (s := ⟨[], tokens', 0⟩) keeps term' within_zero
  -- Relabelled, the two parsers start from one state.
  have start : State.relabel f ⟨[], tokens', 0⟩ = State.relabel f ⟨[], tokens, 0⟩ := by
    simp only [State.relabel, same]
  rw [start, relabelled] at relabelled'
  have agree : relabelAnswer f answer = relabelAnswer f answer' :=
    congrArg Prod.fst (Except.ok.inj relabelled')
  cases answer with
  | ok e =>
    cases answer' with
    | ok e' => exact .inl ⟨e, e', after, after', run, run', (Except.ok.inj agree).symm⟩
    | error e' => cases agree
  | error e =>
    cases answer' with
    | ok e' => cases agree
    | error e' => exact .inr ⟨e, e', after, after', run, run', (Except.error.inj agree).symm⟩

end Parser

end Lox
