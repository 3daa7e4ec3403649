import Lox.Grammar
import Lox.Parser.Expression
import Mathlib.Tactic.Lemma

/-!
# Outcomes of the expression parser

What a run of the parser can come to, said by derivations. A run that gives an expression has read
tokens that derive it, and stopped in front of a token that does not continue it. A run that fails
has read tokens that are the front of an expression, and names a token that cannot follow them:
`Blocked` derives these failures as `Derives` derives the expressions.

The main statement is `expression_outcome`: in front of tokens that end with the end marker every
run comes to one of the two, so no fault arises and no bound of a loop is reached. The proof follows
the parser from the loop over one level (`joinLeft_outcome`) through the levels (`climb_outcome`) to
the operands (`unary_outcome`), where the induction on the bound closes the circle.
-/

namespace Lox

/-- The list ends with the end marker. Other end markers may stand anywhere in it. -/
def Terminated (tokens : List Token) : Prop := ∃ t, tokens.getLast? = some t ∧ t.kind = .eof

lemma Terminated.exists_cons {tokens} (h : Terminated tokens) : ∃ t rest, tokens = t :: rest := by
  obtain ⟨_, last, _⟩ := h
  cases tokens with
  | nil => cases last
  | cons t rest => exact ⟨t, rest, rfl⟩

lemma Terminated.length_pos {tokens} (h : Terminated tokens) : 0 < tokens.length := by
  obtain ⟨t, rest, rfl⟩ := h.exists_cons
  exact Nat.succ_pos _

lemma Terminated.of_append {u t v} (h : Terminated (u ++ t :: v)) : Terminated (t :: v) := by
  obtain ⟨e, last, eof⟩ := h
  rw [List.getLast?_append, List.getLast?_cons, Option.some_or] at last
  exact ⟨e, by rw [List.getLast?_cons, last], eof⟩

lemma Terminated.append {v} (u : List Token) (h : Terminated v) : Terminated (u ++ v) := by
  obtain ⟨e, last, eof⟩ := h
  exact ⟨e, by rw [List.getLast?_append, last, Option.some_or], eof⟩

lemma Terminated.tail {t v} (h : Terminated (t :: v)) (ne : t.kind ≠ .eof) : Terminated v := by
  cases v with
  | nil =>
    obtain ⟨e, last, eof⟩ := h
    cases last
    exact absurd eof ne
  | cons u v => exact Terminated.of_append (u := [t]) h

/-- A bound on the length of a list with a first token leaves one step for this token. -/
lemma exists_succ_of_cons_le {t : Token} {v : List Token} {n : Nat} (le : (t :: v).length ≤ n) :
    ∃ m, n = m + 1 ∧ v.length ≤ m := by
  cases n with
  | zero => exact absurd le (Nat.not_succ_le_zero _)
  | succ m => exact ⟨m, rfl, Nat.le_of_succ_le_succ le⟩

/-- The tightest operands are expressions of all levels. -/
lemma Derives.of_nil {levels w e} (der : Derives [] w e) : Derives levels w e := by
  induction levels with
  | nil => exact der
  | cons level levels ih => exact .tighter ih

/-- So many operands may be open at once. -/
def Within (limit : Option Nat) (depth : Nat) : Prop := ∀ most ∈ limit, depth ≤ most

lemma within_zero {limit} : Within limit 0 := fun _ _ => Nat.zero_le _

lemma Within.mono {limit m n} (h : Within limit n) (le : m ≤ n) : Within limit m :=
  fun most mem => Nat.le_trans le (h most mem)

lemma within_some_iff {most n} : Within (some most) n ↔ n ≤ most := by
  constructor
  · intro fits
    exact fits most rfl
  · intro le most' mem
    cases mem
    exact le

/-- Two operands side by side may be open where each of them may. -/
lemma within_max_iff {limit depth m n} :
    Within limit (depth + max m n) ↔ Within limit (depth + m) ∧ Within limit (depth + n) := by
  constructor
  · intro h
    exact ⟨h.mono (Nat.add_le_add_left (Nat.le_max_left m n) _),
      h.mono (Nat.add_le_add_left (Nat.le_max_right m n) _)⟩
  · intro ⟨hm, hn⟩ most mem
    have hm := hm most mem
    have hn := hn most mem
    omega

lemma within_succ_add_iff {limit depth n} :
    Within limit (depth + (n + 1)) ↔ Within limit (depth + 1 + n) := by
  rw [Nat.add_comm n, Nat.add_assoc]

/-- There is room for one more operand unless the limit is reached. -/
lemma within_succ_iff {limit depth} :
    Within limit (depth + 1) ↔ Option.any (· ≤ depth) limit = false := by
  cases limit with
  | none => exact ⟨fun _ => rfl, fun _ _ mem => nomatch mem⟩
  | some most =>
    constructor
    · intro room
      exact decide_eq_false (Nat.not_le_of_gt (room most rfl))
    · intro free most' mem
      cases mem
      exact Nat.lt_of_not_le (of_decide_eq_false free)

lemma not_within_succ_iff {limit depth} :
    ¬ Within limit (depth + 1) ↔ Option.any (· ≤ depth) limit = true := by
  rw [within_succ_iff, Bool.not_eq_false]

/-- The tokens `w`, read inside of `depth` open operands, are the front of an expression of the
levels `levels`, and no expression goes on with the token of `e`. -/
inductive Blocked (limit : Option Nat) :
    Nat → List Level → List Token → ParseError → Prop where
  | tighter {depth level levels w e} :
    Blocked limit depth levels w e →
    Blocked limit depth (level :: levels) w e
  | right {depth level levels u v left e} {operator : Token} :
    Derives (level :: levels) u left →
    Within limit (depth + left.nesting) →
    operator.kind.level? = some level →
    Blocked limit depth levels v e →
    Blocked limit depth (level :: levels) (u ++ operator :: v) e
  | unary {depth w e} {operator : Token} :
    operator.kind.isUnary →
    Within limit (depth + 1) →
    Blocked limit (depth + 1) [] w e →
    Blocked limit depth [] (operator :: w) e
  | inside {depth w e} {opening : Token} :
    opening.kind = .punctuator .leftParen →
    Within limit (depth + 1) →
    Blocked limit (depth + 1) Level.all w e →
    Blocked limit depth [] (opening :: w) e
  | tooDeep {depth} {t : Token} :
    t.kind.isUnary ∨ t.kind = .punctuator .leftParen →
    ¬ Within limit (depth + 1) →
    Blocked limit depth [] [] ⟨.tooDeeplyNested, t⟩
  | unclosed {depth w inner} {opening t : Token} :
    opening.kind = .punctuator .leftParen →
    Derives Level.all w inner →
    Within limit (depth + 1 + inner.nesting) →
    t.kind.level? = none →
    t.kind ≠ .punctuator .rightParen →
    Blocked limit depth [] (opening :: w) ⟨.expectedRightParen, t⟩
  | noOperand {depth} {t : Token} :
    t.kind.isUnary = false →
    t.kind ≠ .punctuator .leftParen →
    Literal.ofKind? t.kind = none →
    Blocked limit depth [] [] ⟨.expectedExpression, t⟩

/-- The token that is one too many is an operator or a parenthesis. -/
lemma Blocked.opens {limit depth levels w e} (blk : Blocked limit depth levels w e)
    (cause : e.cause = .tooDeeplyNested) :
    e.token.kind.isUnary ∨ e.token.kind = .punctuator .leftParen := by
  induction blk with
  | tighter _ ih => exact ih cause
  | right _ _ _ _ ih => exact ih cause
  | unary _ _ _ ih => exact ih cause
  | inside _ _ _ ih => exact ih cause
  | tooDeep opens _ => exact opens
  | unclosed _ _ _ _ _ => cases cause
  | noOperand _ _ _ => cases cause

lemma Blocked.ne_eof {limit depth levels w e} (blk : Blocked limit depth levels w e)
    (cause : e.cause = .tooDeeplyNested) : e.token.kind ≠ .eof := by
  intro eof
  obtain un | opens := blk.opens cause
  · rw [eof] at un
    cases un
  · rw [eof] at opens
    cases opens

lemma isUnary_of_literal {kind value} (h : Literal.ofKind? kind = some value) :
    kind.isUnary = false := by
  cases kind with
  | punctuator p => cases h
  | _ => rfl

lemma isUnary_of_leftParen {kind : Token.Kind} (h : kind = .punctuator .leftParen) :
    kind.isUnary = false := by
  rw [h]
  rfl

/-- No operator of the levels stands at the front. -/
def NotJoined (levels : List Level) (tokens : List Token) : Prop :=
  ∀ t ∈ tokens.head?, ∀ level ∈ levels, t.kind.level? ≠ some level

/-- A binary operator is an operator of some level. -/
lemma level?_eq_none_iff {kind : Token.Kind} :
    kind.level? = none ↔ ∀ level ∈ Level.all, kind.level? ≠ some level := by
  cases kind.level? with
  | none => simp
  | some level => cases level <;> simp [Level.all]

namespace Parser

/-- A parser accepts the lists that end with the end marker and stands in front of them. -/
lemma ofTokens_eq_ok_iff {tokens s} :
    State.ofTokens tokens = .ok s ↔ Terminated tokens ∧ s = ⟨[], tokens, 0⟩ := by
  rw [State.ofTokens]
  constructor
  · intro eq
    split at eq
    case h_1 lexeme line last =>
      cases eq
      exact ⟨⟨_, last, rfl⟩, rfl⟩
    case h_2 => cases eq
  · rintro ⟨⟨⟨kind, lexeme, line⟩, last, rfl⟩, rfl⟩
    rw [last]

/-- Where an error leaves the parser: behind the token of a too deep nesting, in front of that of
any other error. -/
def stopAt (e : ParseError) (behind rest : List Token) (depth : Nat) : State :=
  match e.cause with
  | .tooDeeplyNested => ⟨e.token :: behind, rest, depth⟩
  | _ => ⟨behind, e.token :: rest, depth⟩

/-- An error one operand deeper leaves the parser at the same token. -/
@[simp] lemma stopAt_succ {e behind rest depth} :
    { stopAt e behind rest (depth + 1) with
      depth := (stopAt e behind rest (depth + 1)).depth - 1 } = stopAt e behind rest depth := by
  obtain ⟨cause, _⟩ := e
  cases cause <;> rfl

/-- What a run of an expression parser on a state can come to. -/
inductive Outcome (limit : Option Nat) (levels : List Level) :
    State → EStateM.Result Stop State Expr → Prop where
  | derived {behind w rest depth e} :
    Derives levels w e →
    Within limit (depth + e.nesting) →
    Terminated rest →
    NotJoined levels rest →
    Outcome limit levels ⟨behind, w ++ rest, depth⟩ (.ok e ⟨w.reverse ++ behind, rest, depth⟩)
  | blocked {behind w rest depth e} :
    Blocked limit depth levels w e →
    Outcome limit levels ⟨behind, w ++ e.token :: rest, depth⟩
      (.error (.error e) (stopAt e (w.reverse ++ behind) rest depth))

/-- The outcome `derived` for tokens that are put together in another way. -/
lemma Outcome.of_derived {limit levels behind behind' ahead w rest depth e}
    (der : Derives levels w e) (fits : Within limit (depth + e.nesting)) (term : Terminated rest)
    (free : NotJoined levels rest) (read : ahead = w ++ rest)
    (back : behind' = w.reverse ++ behind) :
    Outcome limit levels ⟨behind, ahead, depth⟩ (.ok e ⟨behind', rest, depth⟩) := by
  subst read; subst back
  exact .derived der fits term free

lemma Outcome.of_blocked {limit levels behind behind' ahead w rest depth e}
    (blk : Blocked limit depth levels w e) (read : ahead = w ++ e.token :: rest)
    (back : behind' = w.reverse ++ behind) :
    Outcome limit levels ⟨behind, ahead, depth⟩
      (.error (.error e) (stopAt e behind' rest depth)) := by
  subst read; subst back
  exact .blocked blk

/-- A parser comes to an outcome wherever at most `bound` tokens are ahead. -/
def Settles (limit : Option Nat) (levels : List Level) (bound : Nat) (p : ParserM Expr) : Prop :=
  ∀ s, Terminated s.ahead → s.ahead.length ≤ bound → Within limit s.depth →
    Outcome limit levels s (p.run s)

variable {limit : Option Nat} {levels : List Level} {level : Level} {bound : Nat}

/-- The loop over a level goes on from the expression that the tokens behind it derive. -/
lemma joinLeft_outcome {operand : ParserM Expr} (settles : Settles limit levels bound operand)
    {n u left behind ahead depth}
    (der : Derives (level :: levels) u left) (fits : Within limit (depth + left.nesting))
    (term : Terminated ahead) (len : ahead.length ≤ n) (le : n ≤ bound)
    (free : NotJoined levels ahead) :
    Outcome limit (level :: levels) ⟨behind, u ++ ahead, depth⟩
      ((joinLeft level operand n left).run ⟨u.reverse ++ behind, ahead, depth⟩) := by
  -- Each round makes the expression in hand the left operand, so `u` and `left` grow with it.
  induction n generalizing u left ahead with
  | zero =>
    exact absurd len (Nat.not_le_of_gt term.length_pos)
  | succ n ih =>
    obtain ⟨t, rest, rfl⟩ := term.exists_cons
    by_cases eq : t.kind.level? = some level
    · have ne : t.kind ≠ .eof := fun e => by simp [e, Token.Kind.level?] at eq
      have len : rest.length ≤ n := Nat.le_of_succ_le_succ len
      have out := settles ⟨t :: (u.reverse ++ behind), rest, depth⟩ (term.tail ne)
        (Nat.le_trans len (Nat.le_of_succ_le le)) (fits.mono (Nat.le_add_right _ _))
      rw [run_joinLeft_of_eq eq]
      generalize operand.run ⟨t :: (u.reverse ++ behind), rest, depth⟩ = result at out
      cases out with
      | @derived _ v rest _ right der' fits' term' free' =>
        have der := Derives.binary der eq der'
        have fits : Within limit (depth + (Expr.binary left t right).nesting) :=
          within_max_iff.mpr ⟨fits, fits'⟩
        rw [List.length_append] at len
        have out := ih der fits term' (by omega) (by omega) free'
        simpa using out
      | @blocked _ v rest _ e blk =>
        exact .of_blocked (.right der fits eq blk) (by simp) (by simp)
    · -- The operand left no operator of a tighter level, and the first token is none of this level.
      rw [run_joinLeft_of_ne eq]
      refine .derived der fits term fun t' mem level' mem' => ?_
      cases mem' with
      | head => cases mem; exact eq
      | tail _ mem' => exact free t' mem level' mem'

/-- Operands that settle make expressions of all levels settle. -/
lemma climb_outcome {operand : ParserM Expr} (settles : Settles limit [] bound operand) :
    Settles limit levels bound (climb operand levels) := by
  induction levels with
  | nil => exact settles
  | cons level levels ih =>
    intro ⟨behind, ahead, depth⟩ term len fits
    have out := ih _ term len fits
    rw [run_climb_cons]
    generalize (climb operand levels).run ⟨behind, ahead, depth⟩ = result at out
    cases out with
    | @derived _ w rest _ _ der fits' term' free =>
      have le : rest.length ≤ bound := Nat.le_trans (by simp) len
      exact joinLeft_outcome ih (.tighter der) fits' term' (Nat.le_refl _) le free
    | blocked blk => exact .blocked (.tighter blk)

lemma notJoined_nil (tokens : List Token) : NotJoined [] tokens := nofun

/-- Behind the expression in a parenthesis, the parenthesis is closed or the parser is blocked. -/
lemma closing_outcome {behind w rest depth} {opening : Token} {inner : Expr}
    (opens : opening.kind = .punctuator .leftParen) (der : Derives Level.all w inner)
    (fits : Within limit (depth + 1 + inner.nesting)) (term : Terminated rest)
    (free : NotJoined Level.all rest) :
    Outcome limit [] ⟨behind, opening :: (w ++ rest), depth⟩
      (match (expect .rightParen .expectedRightParen).run
          ⟨w.reverse ++ opening :: behind, rest, depth⟩ with
        | .ok _ s => .ok (.grouping inner) s
        | .error e s => .error e s) := by
  obtain ⟨t, rest, rfl⟩ := term.exists_cons
  -- Of the two ways out only the second needs that the token is no operator.
  by_cases closes : t.kind = .punctuator .rightParen
  · have ne : t.kind ≠ .eof := by simp [closes]
    have fits : Within limit (depth + (Expr.grouping inner).nesting) := within_succ_add_iff.mpr fits
    rw [run_expect_of_eq closes]
    exact .of_derived (.grouping opens der closes) fits (term.tail ne) (notJoined_nil _)
      (by simp) (by simp)
  · have none : t.kind.level? = none := level?_eq_none_iff.mpr (free t rfl)
    rw [run_expect_of_ne closes]
    exact .of_blocked (.unclosed opens der fits none closes) (by simp) (by simp)

/-- Primaries settle if the operands of one bound less do. -/
lemma primary_outcome (settles : Settles limit [] bound (unary limit bound))
    {behind t rest depth} (term : Terminated (t :: rest)) (len : rest.length ≤ bound)
    (fits : Within limit depth) (un : t.kind.isUnary = false) :
    Outcome limit [] ⟨behind, t :: rest, depth⟩
      ((primary limit (climb (unary limit bound) Level.all)).run ⟨behind, t :: rest, depth⟩) := by
  by_cases opens : t.kind = .punctuator .leftParen
  · have ne : t.kind ≠ .eof := by simp [opens]
    rw [run_primary_of_leftParen opens]
    by_cases room : Within limit (depth + 1)
    · have settles : Settles limit Level.all bound _ := climb_outcome settles
      have out := settles ⟨t :: behind, rest, depth + 1⟩ (term.tail ne) len room
      rw [run_nested_of_free (within_succ_iff.mp room)]
      generalize (climb (unary limit bound) Level.all).run _ = result at out
      cases out with
      | derived der fits' term' free => exact closing_outcome opens der fits' term' free
      | blocked blk =>
        dsimp only
        rw [stopAt_succ]
        exact .of_blocked (.inside opens room blk) (by simp) (by simp)
    · rw [run_nested_of_limit (not_within_succ_iff.mp room)]
      exact .of_blocked (.tooDeep (.inr opens) room) rfl rfl
  · cases lit : Literal.ofKind? t.kind with
    | some value =>
      have ne : t.kind ≠ .eof := fun e => by simp [e, Literal.ofKind?] at lit
      rw [run_primary_of_literal lit]
      exact .of_derived (.literal lit) fits (term.tail ne) (notJoined_nil _) rfl rfl
    | none =>
      rw [run_primary_of_none opens lit]
      exact .of_blocked (.noOperand un opens lit) rfl rfl

/-- The tightest operands settle. -/
lemma unary_outcome : Settles limit [] bound (unary limit bound) := by
  -- The bound falls by one for each operand that is opened, unary or in parentheses.
  induction bound with
  | zero =>
    intro ⟨behind, ahead, depth⟩ term len fits
    exact absurd len (Nat.not_le_of_gt term.length_pos)
  | succ bound ih =>
    intro ⟨behind, ahead, depth⟩ term len fits
    obtain ⟨t, rest, rfl⟩ := term.exists_cons
    have len : rest.length ≤ bound := Nat.le_of_succ_le_succ len
    cases un : t.kind.isUnary with
    | false =>
      rw [run_unary_of_not_isUnary un]
      exact primary_outcome ih term len fits un
    | true =>
      have ne : t.kind ≠ .eof := fun e => by simp [e, Token.Kind.isUnary] at un
      rw [run_unary_of_isUnary un]
      by_cases room : Within limit (depth + 1)
      · have out := ih ⟨t :: behind, rest, depth + 1⟩ (term.tail ne) len room
        rw [run_nested_of_free (within_succ_iff.mp room)]
        generalize (unary limit bound).run _ = result at out
        cases out with
        | @derived _ _ _ _ right der fits' term' free =>
          have fits : Within limit (depth + (Expr.unary t right).nesting) :=
            within_succ_add_iff.mpr fits'
          exact .of_derived (.unary un der) fits term' free (by simp) (by simp)
        | blocked blk =>
          dsimp only
          rw [stopAt_succ]
          exact .of_blocked (.unary un room blk) (by simp) (by simp)
      · rw [run_nested_of_limit (not_within_succ_iff.mp room)]
        exact .of_blocked (.tooDeep (.inl un) room) rfl rfl

/-- In front of a terminated list every run of the expression parser comes to an outcome. -/
theorem expression_outcome {s : State} (term : Terminated s.ahead) (fits : Within limit s.depth) :
    Outcome limit Level.all s ((expression limit).run s) := by
  rw [run_expression]
  exact climb_outcome unary_outcome s term (Nat.le_refl _) fits

end Parser

end Lox
