import Lox.Proofs.Parser.Outcome
import Lox.Session

/-!
# Completeness of the expression parser

The converse of the outcomes: tokens that derive an expression are read as this expression, and
tokens that are blocked are refused where the derivation says. Both hold in front of any tokens
behind them, of which the parser sees one at most. So derivations determine the run, and with it
the grammar is unambiguous.

Derivations grow on the left and the loop over a level goes to the right, so the induction does not
follow a whole run. `Reads` follows it to the loop with the derived expression in hand, and there
the next operator, or the end of the loop, takes over.
-/

namespace Lox

namespace Parser

variable {limit : Option Nat} {levels : List Level} {level : Level} {w u v : List Token} {e : Expr}

/-- The run over `w` comes to the loop of the loosest level with `e` in hand, or gives `e` where
there is no level. -/
def Reads (limit : Option Nat) : List Level → List Token → Expr → Prop
  | [], w, e => ∀ behind t rest depth bound, Within limit (depth + e.nesting) →
    (w ++ t :: rest).length ≤ bound →
    (unary limit bound).run ⟨behind, w ++ t :: rest, depth⟩ =
      .ok e ⟨w.reverse ++ behind, t :: rest, depth⟩
  | level :: levels, w, e => ∀ behind t rest depth bound, Within limit (depth + e.nesting) →
    (w ++ t :: rest).length ≤ bound → NotJoined levels (t :: rest) →
    ∃ n, (t :: rest).length ≤ n ∧
      (climb (unary limit bound) (level :: levels)).run ⟨behind, w ++ t :: rest, depth⟩ =
        (joinLeft level (climb (unary limit bound) levels) n e).run
          ⟨w.reverse ++ behind, t :: rest, depth⟩

/-- In front of a token that joins nothing to it, `w` is read as `e`. -/
lemma Reads.run (reads : Reads limit levels w e) (behind t rest depth bound)
    (fits : Within limit (depth + e.nesting)) (len : (w ++ t :: rest).length ≤ bound)
    (free : NotJoined levels (t :: rest)) :
    (climb (unary limit bound) levels).run ⟨behind, w ++ t :: rest, depth⟩ =
      .ok e ⟨w.reverse ++ behind, t :: rest, depth⟩ := by
  cases levels with
  | nil => exact reads behind t rest depth bound fits len
  | cons level levels =>
    obtain ⟨n, le, run⟩ := reads behind t rest depth bound fits len fun t' mem level' mem' =>
      free t' mem level' (List.mem_cons_of_mem _ mem')
    obtain ⟨n, rfl, _⟩ := exists_succ_of_cons_le le
    rw [run]
    exact run_joinLeft_of_ne (free t rfl level List.mem_cons_self)

lemma notJoined_of_none {t : Token} (none : t.kind.level? = none) (rest : List Token) :
    NotJoined Level.all (t :: rest) := by
  intro t' mem
  cases mem
  exact level?_eq_none_iff.mp none

/-- The loops inside of that over a level leave the operators of this level. -/
lemma notJoined_of_level? {operator : Token} (eq : operator.kind.level? = some level)
    (nodup : (level :: levels).Nodup) (rest : List Token) :
    NotJoined levels (operator :: rest) := by
  intro t mem level' mem' eq'
  cases mem
  rw [eq] at eq'
  cases eq'
  exact (List.nodup_cons.mp nodup).1 mem'

/-- Tokens that derive an expression are read as it. -/
lemma reads_of_derives (der : Derives levels w e) (nodup : levels.Nodup) :
    Reads limit levels w e := by
  induction der with
  | @tighter level levels w e _ ih =>
    obtain ⟨_, nodup⟩ := List.nodup_cons.mp nodup
    intro behind t rest depth bound fits len free
    refine ⟨(t :: rest).length, Nat.le_refl _, ?_⟩
    rw [run_climb_cons, (ih nodup).run behind t rest depth bound fits len free]
  | @binary level levels u v left right operator _ eq _ ihl ihr =>
    obtain ⟨_, nodup'⟩ := List.nodup_cons.mp nodup
    intro behind t rest depth bound fits len free
    obtain ⟨fitsl, fitsr⟩ := within_max_iff.mp fits
    have free' := notJoined_of_level? eq nodup (v ++ t :: rest)
    -- The left operand comes to the loop in front of the operator, and one round reads the right.
    rw [List.append_assoc, List.cons_append] at len ⊢
    obtain ⟨n, le, run⟩ :=
      ihl nodup behind operator (v ++ t :: rest) depth bound fitsl len free'
    obtain ⟨n, rfl, short⟩ := exists_succ_of_cons_le le
    have len' : (v ++ t :: rest).length ≤ bound := by
      rw [List.length_append, List.length_cons] at len
      omega
    have run' := (ihr nodup').run (operator :: (u.reverse ++ behind)) t rest depth bound
      fitsr len' free
    refine ⟨n, ?_, ?_⟩
    · rw [List.length_append] at short
      omega
    · rw [run, run_joinLeft_of_eq eq, run']
      simp
  | @unary w right operator un _ ih =>
    intro behind t rest depth bound fits len
    obtain ⟨bound, rfl, short⟩ := exists_succ_of_cons_le len
    have fits := within_succ_add_iff.mp fits
    have room := within_succ_iff.mp (fits.mono (Nat.le_add_right _ _))
    have run := ih nodup (operator :: behind) t rest (depth + 1) bound fits short
    rw [List.cons_append, run_unary_of_isUnary un, run_nested_of_free room, run]
    simp
  | @literal value token lit =>
    -- A literal opens nothing, so the room that is left does not matter.
    intro behind t rest depth bound fits len
    obtain ⟨bound, rfl, short⟩ := exists_succ_of_cons_le len
    rw [List.cons_append, run_unary_of_not_isUnary (isUnary_of_literal lit),
      run_primary_of_literal lit]
    rfl
  | @grouping w inner opening closing opens _ closes ih =>
    intro behind t rest depth bound fits len
    obtain ⟨bound, rfl, short⟩ := exists_succ_of_cons_le len
    have fits := within_succ_add_iff.mp fits
    have room := within_succ_iff.mp (fits.mono (Nat.le_add_right _ _))
    have none : closing.kind.level? = none := by rw [closes]; rfl
    have reads : Reads limit Level.all w inner := ih (by decide)
    have len' : (w ++ closing :: t :: rest).length ≤ bound := by
      simpa using short
    have run := reads.run (opening :: behind) closing (t :: rest) (depth + 1) bound fits
      len' (notJoined_of_none none _)
    rw [List.cons_append, List.cons_append, List.append_assoc,
      run_unary_of_not_isUnary (isUnary_of_leftParen opens), run_primary_of_leftParen opens,
      run_nested_of_free room, List.singleton_append, run]
    dsimp only
    rw [Nat.add_sub_cancel, run_expect_of_eq closes]
    simp

/-- Tokens that are blocked are refused, whatever is behind the token of the error. -/
lemma run_of_blocked {depth : Nat} {e : ParseError} (blk : Blocked limit depth levels w e)
    (nodup : levels.Nodup) (behind rest bound) (len : (w ++ e.token :: rest).length ≤ bound) :
    (climb (unary limit bound) levels).run ⟨behind, w ++ e.token :: rest, depth⟩ =
      .error (.error e) (stopAt e (w.reverse ++ behind) rest depth) := by
  -- What is behind grows and the bound falls where an operand is opened.
  induction blk generalizing behind bound with
  | @tighter depth level levels w e _ ih =>
    obtain ⟨_, nodup⟩ := List.nodup_cons.mp nodup
    rw [run_climb_cons, ih nodup behind bound len]
  | @right depth level levels u v left e operator der fits eq _ ih =>
    obtain ⟨_, nodup'⟩ := List.nodup_cons.mp nodup
    have free := notJoined_of_level? eq nodup (v ++ e.token :: rest)
    rw [List.append_assoc, List.cons_append] at len ⊢
    obtain ⟨n, le, run⟩ := reads_of_derives der nodup behind operator (v ++ e.token :: rest)
      depth bound fits len free
    obtain ⟨n, rfl, short⟩ := exists_succ_of_cons_le le
    have len' : (v ++ e.token :: rest).length ≤ bound := by
      rw [List.length_append, List.length_cons] at len
      omega
    rw [run, run_joinLeft_of_eq eq, ih nodup' (operator :: (u.reverse ++ behind)) bound len']
    simp
  | @unary depth w e operator un room _ ih =>
    obtain ⟨bound, rfl, short⟩ := exists_succ_of_cons_le len
    have run := ih nodup (operator :: behind) bound short
    have free := within_succ_iff.mp room
    rw [climb] at run ⊢
    rw [List.cons_append, run_unary_of_isUnary un, run_nested_of_free free, run]
    simp
  | @inside depth w e opening opens room _ ih =>
    obtain ⟨bound, rfl, short⟩ := exists_succ_of_cons_le len
    have run := ih (by decide) (opening :: behind) bound short
    have free := within_succ_iff.mp room
    rw [climb, List.cons_append, run_unary_of_not_isUnary (isUnary_of_leftParen opens),
      run_primary_of_leftParen opens, run_nested_of_free free, run]
    simp
  | @tooDeep depth t opens full =>
    obtain ⟨bound, rfl, short⟩ := exists_succ_of_cons_le len
    have full := not_within_succ_iff.mp full
    cases opens with
    | inl un =>
      rw [climb, List.nil_append, run_unary_of_isUnary un, run_nested_of_limit full]
      rfl
    | inr opens =>
      rw [climb, List.nil_append, run_unary_of_not_isUnary (isUnary_of_leftParen opens),
        run_primary_of_leftParen opens, run_nested_of_limit full]
      rfl
  | @unclosed depth w inner opening t opens der fits none ne =>
    obtain ⟨bound, rfl, short⟩ := exists_succ_of_cons_le len
    have free := within_succ_iff.mp (fits.mono (Nat.le_add_right _ _))
    have reads : Reads limit Level.all w inner := reads_of_derives der (by decide)
    have run := reads.run (opening :: behind) t rest (depth + 1) bound fits
      short (notJoined_of_none none rest)
    rw [climb, List.cons_append, run_unary_of_not_isUnary (isUnary_of_leftParen opens),
      run_primary_of_leftParen opens, run_nested_of_free free, run]
    dsimp only
    rw [run_expect_of_ne ne]
    simp [stopAt]
  | @noOperand depth t un opens lit =>
    obtain ⟨bound, rfl, short⟩ := exists_succ_of_cons_le len
    rw [climb, List.nil_append, run_unary_of_not_isUnary un, run_primary_of_none opens lit]
    rfl

/-- The tokens at the front are read as the expression that they derive. -/
lemma run_expression_of_derives (der : Derives Level.all w e) (behind t rest depth)
    (fits : Within limit (depth + e.nesting)) (none : t.kind.level? = none) :
    (expression limit).run ⟨behind, w ++ t :: rest, depth⟩ =
      .ok e ⟨w.reverse ++ behind, t :: rest, depth⟩ := by
  have reads : Reads limit Level.all w e := reads_of_derives der (by decide)
  rw [run_expression]
  exact reads.run behind t rest depth _ fits (Nat.le_refl _) (notJoined_of_none none rest)

/-- The parser gives the expression that the tokens at its front derive. -/
lemma parse_of_derives (der : Derives Level.all w e) (behind t rest depth)
    (fits : Within (some maxNesting) (depth + e.nesting)) (none : t.kind.level? = none) :
    State.parse ⟨behind, w ++ t :: rest, depth⟩ =
      .ok (.ok e, ⟨w.reverse ++ behind, t :: rest, depth⟩) :=
  State.parse_of_run_ok (run_expression_of_derives der behind t rest depth fits none)

/-- The parser gives the error that the tokens at its front come to. -/
lemma parse_of_blocked {depth} {e : ParseError}
    (blk : Blocked (some maxNesting) depth Level.all w e) (behind rest) :
    State.parse ⟨behind, w ++ e.token :: rest, depth⟩ =
      .ok (.error e, stopAt e (w.reverse ++ behind) rest depth) := by
  apply State.parse_of_run_error
  rw [run_expression]
  exact run_of_blocked blk (by decide) behind rest _ (Nat.le_refl _)

/-- Tokens derive one expression at most, however deep. -/
lemma Derives.unique {e'} (der : Derives Level.all w e) (der' : Derives Level.all w e') :
    e' = e := by
  -- Without a limit both expressions fit, and the run gives only one of them.
  have fits : ∀ n, Within none n := fun _ => nofun
  have run := run_expression_of_derives der [] (.eof 1) [] 0 (fits _) rfl
  have run' := run_expression_of_derives der' [] (.eof 1) [] 0 (fits _) rfl
  rw [run] at run'
  cases run'
  rfl

/-- Tokens that derive an expression derive no other, and unless too much is open at once they are
read as it, in front of any tokens that do not begin with a binary operator. -/
theorem parseReporting_of_derives (der : Derives Level.all w e) :
    (∀ e', Derives Level.all w e' → e' = e) ∧
      (e.nesting ≤ maxNesting → ∀ k, Terminated k → (∀ t ∈ k.head?, t.kind.level? = none) →
        ∃ s s', State.ofTokens (w ++ k) = .ok s ∧ s'.index = w.length ∧
          ∀ {ρ : Type} [Reporter ρ] (reporter : ρ),
            s.parseReporting reporter = .ok (some e, s', reporter)) := by
  constructor
  · intro e' der'
    exact Derives.unique der der'
  · intro le k term free
    have start := ofTokens_eq_ok_iff.mpr ⟨term.append w, rfl⟩
    obtain ⟨t, rest, rfl⟩ := term.exists_cons
    have fits : Within (some maxNesting) (0 + e.nesting) := by
      intro most mem
      cases mem
      rwa [Nat.zero_add]
    have run := parse_of_derives der [] t rest 0 fits (free t rfl)
    refine ⟨_, _, start, ?_, fun reporter => State.parseReporting_of_ok run⟩
    simp [State.index]

/-- `!` and a parenthesis, opened `n` times around `nil`. -/
def nest : Nat → List Token
  | 0 => [⟨.keyword .nilWord, "nil".toList, 1⟩]
  | n + 1 => ⟨.punctuator .bang, ['!'], 1⟩ :: ⟨.punctuator .leftParen, ['('], 1⟩ :: nest n ++
      [⟨.punctuator .rightParen, [')'], 1⟩]

/-- The expression that `nest n` derives. -/
def nestExpr : Nat → Expr
  | 0 => .literal .nil
  | n + 1 => .unary ⟨.punctuator .bang, ['!'], 1⟩ (.grouping (nestExpr n))

lemma derives_nest (n : Nat) : Derives [] (nest n) (nestExpr n) := by
  induction n with
  | zero => exact .literal rfl
  | succ n ih => exact .unary rfl (.grouping rfl ih.of_nil rfl)

lemma nesting_nestExpr (n : Nat) : (nestExpr n).nesting = 2 * n := by
  induction n with
  | zero => rfl
  | succ n ih => rw [nestExpr, Expr.nesting, Expr.nesting, ih]; rfl

/-- As much as the limit allows is still read. -/
theorem parseReporting_nest :
    (nestExpr 128).nesting = maxNesting ∧
      ∃ s s', State.ofTokens (nest 128 ++ [.eof 1]) = .ok s ∧ s'.index = (nest 128).length ∧
        s.parseReporting Log.empty = .ok (some (nestExpr 128), s', Log.empty) := by
  have full : (nestExpr 128).nesting = maxNesting := nesting_nestExpr 128
  have term : Terminated [.eof 1] := ⟨_, rfl, rfl⟩
  have free : ∀ t ∈ [Token.eof 1].head?, t.kind.level? = none := by
    intro t mem
    cases mem
    rfl
  obtain ⟨_, reads⟩ := parseReporting_of_derives (derives_nest 128).of_nil
  obtain ⟨s, s', start, index, run⟩ := reads (Nat.le_of_eq full) _ term free
  exact ⟨full, s, s', start, index, run Log.empty⟩

end Parser

end Lox
