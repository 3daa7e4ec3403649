import Lox.Expr.Printer
import Lox.Proofs.Number.Printed
import Lox.Proofs.Parser.Relabel
import Lox.Proofs.Scan.Layout

/-!
# Printed trees are told apart

Strings aside, what is printed for a literal has no blank and no parenthesis in it, so it ends where
one follows, and what is printed for any other tree begins with a parenthesis and the name of its
root. How many operands there are is not printed in front of them. It is seen behind each operand,
where either a blank or the closing parenthesis stands. So a tree is told by its text and by what
follows in any text that goes on behind it (`Expr.toText_append_inj`), but for the lines of its
operators.
-/

namespace Lox

/-- A punctuator or reserved word, as all operators are, with its own text. -/
def Token.IsOperator (t : Token) : Prop :=
  (∃ p : Punctuator, t.kind = .punctuator p ∧ t.lexeme = p.spelling) ∨
    ∃ k : Keyword, t.kind = .keyword k ∧ t.lexeme = k.spelling

/-- Strings are printed without quotes, and what is not a number is printed without its bits. -/
def Literal.Readable : Literal → Prop
  | number value => value.isNaN = false
  | string _ => False
  | boolean _ | nil => True

/-- A tree of any shape with readable literals and operators of the language. -/
def Expr.Readable : Expr → Prop
  | literal value => value.Readable
  | grouping inner => inner.Readable
  | unary operator right => operator.IsOperator ∧ right.Readable
  | binary left operator right => left.Readable ∧ operator.IsOperator ∧ right.Readable

namespace Stmt

def Readable : Stmt → Prop
  | expression e | print e => e.Readable

/-- The statement with other tokens for its operators. -/
def relabel (f : Token → Token) : Stmt → Stmt
  | expression e => expression (e.relabel f)
  | print e => print (e.relabel f)

end Stmt

variable {t u : Token} {rest rest' : Text}

namespace Token

lemma IsOperator.lexical (op : t.IsOperator) : Lexical t := by
  obtain ⟨p, kind, lexeme⟩ | ⟨k, kind, lexeme⟩ := op
  · rw [Lexical, kind, lexeme]
    exact ⟨.punctuator p, rfl, .punctuator⟩
  · rw [Lexical, kind, lexeme]
    refine ⟨.word, ?_, .keyword⟩
    cases k <;> exact ⟨_, _, rfl, rfl, List.all_eq_true.mp rfl⟩

lemma IsOperator.ne_blank (op : t.IsOperator) : ∀ c ∈ t.lexeme, c ≠ ' ' := by
  have all : t.lexeme.all (· ≠ ' ') := by
    obtain ⟨p, _, lexeme⟩ | ⟨k, _, lexeme⟩ := op
    · rw [lexeme]
      cases p <;> rfl
    · rw [lexeme]
      cases k <;> rfl
  exact Text.forall_of_all all

lemma IsOperator.ne_group (op : t.IsOperator) : t.lexeme ≠ "group".toList := by
  obtain ⟨p, _, lexeme⟩ | ⟨k, _, lexeme⟩ := op
  · rw [lexeme]
    cases p <;> decide
  · rw [lexeme]
    cases k <;> decide

lemma IsOperator.unplaced_eq (op : t.IsOperator) (op' : u.IsOperator) (eq : t.lexeme = u.lexeme) :
    t.unplaced = u.unplaced := by
  rw [unplaced, unplaced, op.lexical.kind_unique op'.lexical eq, eq]

end Token

/-- A character of a literal: no blank and no parenthesis. -/
def IsInside (c : Char) : Prop := c ∉ [' ', '(', ')']

instance : DecidablePred IsInside := fun c => inferInstanceAs (Decidable (c ∉ [' ', '(', ')']))

namespace Literal

variable {v v' : Literal}

lemma exists_cons_toText (r : v.Readable) :
    ∃ c t, v.toText = c :: t ∧ ∀ x ∈ c :: t, IsInside x := by
  have inside (w : Text) (all : w.all IsInside) : ∀ x ∈ w, IsInside x :=
    Text.forall_of_all all
  cases v with
  | number x =>
    obtain ⟨c, t, eq, _⟩ := Binary64.exists_cons_toText r
    refine ⟨c, t, eq, fun y mem enclosing => ?_⟩
    rw [← eq] at mem
    have part := Binary64.mem_toText r mem
    simp only [List.mem_cons, List.not_mem_nil, or_false] at enclosing
    obtain rfl | rfl | rfl := enclosing <;> exact absurd part (by decide)
  | string => exact r.elim
  | boolean b => cases b <;> exact ⟨_, _, rfl, inside _ rfl⟩
  | nil => exact ⟨_, _, rfl, inside _ rfl⟩

/-- A number begins with none of the letters that the reserved words begin with. -/
lemma number_ne_cons {x : Binary64} {c : Char} {t : Text} (number : x.isNaN = false)
    (mem : c ∈ ['t', 'f', 'n']) : x.toText ≠ c :: t := by
  intro eq
  obtain ⟨c', t', eq', start⟩ := Binary64.exists_cons_toText number
  cases eq.symm.trans eq'
  simp only [List.mem_cons, List.not_mem_nil, or_false] at mem
  obtain rfl | rfl | rfl := mem <;> exact absurd start (by decide)

lemma eq_of_toText_eq (r : v.Readable) (r' : v'.Readable) (eq : v.toText = v'.toText) : v = v' := by
  cases v with
  | number x =>
    cases v' with
    | number y => exact congrArg number (Binary64.eq_of_toText_eq r r' eq)
    | string => exact r'.elim
    | boolean b => cases b <;> exact absurd eq (number_ne_cons r (by decide))
    | nil => exact absurd eq (number_ne_cons r (by decide))
  | string => exact r.elim
  | boolean b =>
    cases v' with
    | number y => cases b <;> exact absurd eq.symm (number_ne_cons r' (by decide))
    | string => exact r'.elim
    | boolean b' => cases b <;> cases b' <;> first | rfl | cases eq
    | nil => cases b <;> cases eq
  | nil =>
    cases v' with
    | number y => exact absurd eq.symm (number_ne_cons r' (by decide))
    | string => exact r'.elim
    | boolean b' => cases b' <;> cases eq
    | nil => rfl

/-- A literal ends where a blank or a parenthesis follows. -/
lemma toText_append_inj (r : v.Readable) (r' : v'.Readable) (ends : Text.Ends IsInside rest)
    (ends' : Text.Ends IsInside rest') (eq : v.toText ++ rest = v'.toText ++ rest') :
    v = v' ∧ rest = rest' := by
  obtain ⟨_, _, eq₁, inside⟩ := exists_cons_toText r
  obtain ⟨_, _, eq₂, inside'⟩ := exists_cons_toText r'
  rw [← eq₁] at inside
  rw [← eq₂] at inside'
  obtain ⟨same, rfl⟩ := Text.front_unique inside inside' ends ends' eq
  exact ⟨eq_of_toText_eq r r' same, rfl⟩

lemma toText_append_ne (r : v.Readable) (t : Text) : v.toText ++ rest ≠ '(' :: t := by
  intro eq
  obtain ⟨c, u, eq', inside⟩ := exists_cons_toText r
  rw [eq', List.cons_append, List.cons.injEq] at eq
  exact absurd (inside c List.mem_cons_self) (by rw [eq.1]; decide)

end Literal

lemma parenthesize_one (name a : Text) :
    parenthesize name [a] ++ rest = '(' :: (name ++ ' ' :: (a ++ ')' :: rest)) := by
  simp [parenthesize]

lemma parenthesize_two (name a b : Text) :
    parenthesize name [a, b] ++ rest =
      '(' :: (name ++ ' ' :: (a ++ ' ' :: (b ++ ')' :: rest))) := by
  simp [parenthesize]

/-- The name ends with the first blank. -/
lemma name_unique {name name' : Text} (no : ∀ c ∈ name, c ≠ ' ') (no' : ∀ c ∈ name', c ≠ ' ')
    (eq : '(' :: (name ++ ' ' :: rest) = '(' :: (name' ++ ' ' :: rest')) :
    name = name' ∧ rest = rest' := by
  obtain ⟨same, eq⟩ :=
    Text.front_unique no no' (by simp) (by simp) (List.cons.inj eq).2
  exact ⟨same, (List.cons.inj eq).2⟩

lemma group_ne_blank : ∀ c ∈ "group".toList, c ≠ ' ' := Text.forall_of_all rfl

namespace Expr

/-- A tree is told by its text, but for lines, and so is what follows it where a blank or a
parenthesis comes first. -/
theorem toText_append_inj {e e' : Expr} (r : e.Readable) (r' : e'.Readable)
    (ends : Text.Ends IsInside rest) (ends' : Text.Ends IsInside rest')
    (eq : e.toText ++ rest = e'.toText ++ rest') :
    e.relabel Token.unplaced = e'.relabel Token.unplaced ∧ rest = rest' := by
  have blank {t : Text} : Text.Ends IsInside (' ' :: t) := Text.ends_cons.mpr (by decide)
  have closing {t : Text} : Text.Ends IsInside (')' :: t) := Text.ends_cons.mpr (by decide)
  -- What follows is general, since an operand is followed by the rest of its tree.
  induction e generalizing e' rest rest' with
  | literal v =>
    cases e' with
    | literal v' =>
      obtain ⟨rfl, rfl⟩ := Literal.toText_append_inj r r' ends ends' eq
      exact ⟨rfl, rfl⟩
    | grouping => exact absurd (eq.trans (parenthesize_one _ _)) (Literal.toText_append_ne r _)
    | unary => exact absurd (eq.trans (parenthesize_one _ _)) (Literal.toText_append_ne r _)
    | binary => exact absurd (eq.trans (parenthesize_two _ _ _)) (Literal.toText_append_ne r _)
  | grouping a ih =>
    rw [toText, parenthesize_one] at eq
    cases e' with
    | literal v' => exact absurd eq.symm (Literal.toText_append_ne r' _)
    | grouping a' =>
      rw [toText, parenthesize_one] at eq
      have r' : a'.Readable := r'
      obtain ⟨_, eq⟩ := name_unique group_ne_blank group_ne_blank eq
      obtain ⟨same, eq⟩ := ih r r' closing closing eq
      exact ⟨congrArg grouping same, (List.cons.inj eq).2⟩
    | unary op' a' =>
      rw [toText, parenthesize_one] at eq
      exact absurd (name_unique group_ne_blank r'.1.ne_blank eq).1.symm r'.1.ne_group
    | binary a' op' b' =>
      rw [toText, parenthesize_two] at eq
      exact absurd (name_unique group_ne_blank r'.2.1.ne_blank eq).1.symm r'.2.1.ne_group
  | unary op a ih =>
    rw [toText, parenthesize_one] at eq
    cases e' with
    | literal v' => exact absurd eq.symm (Literal.toText_append_ne r' _)
    | grouping a' =>
      rw [toText, parenthesize_one] at eq
      exact absurd (name_unique r.1.ne_blank group_ne_blank eq).1 r.1.ne_group
    | unary op' a' =>
      rw [toText, parenthesize_one] at eq
      obtain ⟨lexeme, eq⟩ := name_unique r.1.ne_blank r'.1.ne_blank eq
      obtain ⟨same, eq⟩ := ih r.2 r'.2 closing closing eq
      exact ⟨congrArg₂ unary (r.1.unplaced_eq r'.1 lexeme) same, (List.cons.inj eq).2⟩
    | binary a' op' b' =>
      rw [toText, parenthesize_two] at eq
      -- Both begin with one operand, behind which one closes and the other goes on.
      obtain ⟨_, eq⟩ := name_unique r.1.ne_blank r'.2.1.ne_blank eq
      cases (ih r.2 r'.1 closing blank eq).2
  | binary a op b iha ihb =>
    rw [toText, parenthesize_two] at eq
    cases e' with
    | literal v' => exact absurd eq.symm (Literal.toText_append_ne r' _)
    | grouping a' =>
      rw [toText, parenthesize_one] at eq
      exact absurd (name_unique r.2.1.ne_blank group_ne_blank eq).1 r.2.1.ne_group
    | unary op' a' =>
      rw [toText, parenthesize_one] at eq
      obtain ⟨_, eq⟩ := name_unique r.2.1.ne_blank r'.1.ne_blank eq
      cases (iha r.1 r'.2 blank closing eq).2
    | binary a' op' b' =>
      rw [toText, parenthesize_two] at eq
      obtain ⟨lexeme, eq⟩ := name_unique r.2.1.ne_blank r'.2.1.ne_blank eq
      obtain ⟨same, eq⟩ := iha r.1 r'.1 blank blank eq
      obtain ⟨same', eq⟩ := ihb r.2.2 r'.2.2 closing closing (List.cons.inj eq).2
      refine ⟨?_, (List.cons.inj eq).2⟩
      rw [relabel, relabel, same, same', r.2.1.unplaced_eq r'.2.1 lexeme]

lemma toText_unplaced (e : Expr) : (e.relabel Token.unplaced).toText = e.toText := by
  induction e with
  | literal => rfl
  | grouping _ ih => rw [relabel, toText, toText, ih]
  | unary _ _ ih =>
    rw [relabel, toText, toText, ih]
    rfl
  | binary _ _ _ ihl ihr =>
    rw [relabel, toText, toText, ihl, ihr]
    rfl

lemma toText_eq_iff {e e' : Expr} (r : e.Readable) (r' : e'.Readable) :
    e.toText = e'.toText ↔ e.relabel Token.unplaced = e'.relabel Token.unplaced := by
  constructor
  · intro eq
    have eq : e.toText ++ [] = e'.toText ++ [] := congrArg (· ++ []) eq
    exact (toText_append_inj r r' Text.ends_nil Text.ends_nil eq).1
  · intro same
    rw [← toText_unplaced e, same, toText_unplaced]

end Expr

namespace Stmt

variable {s s' : Stmt}

/-- The name that a statement is printed with. -/
def name : Stmt → Text
  | expression _ => [';']
  | print _ => "print".toList

def inner : Stmt → Expr
  | expression e | print e => e

lemma toText_eq (s : Stmt) : s.toText = parenthesize s.name [s.inner.toText] := by
  cases s <;> rfl

lemma name_ne_blank (s : Stmt) : ∀ c ∈ s.name, c ≠ ' ' := by
  have all : s.name.all (· ≠ ' ') := by cases s <;> rfl
  exact Text.forall_of_all all

lemma relabel_eq_iff {f : Token → Token} :
    s.relabel f = s'.relabel f ↔ s.name = s'.name ∧ s.inner.relabel f = s'.inner.relabel f := by
  cases s <;> cases s' <;> simp [relabel, name, inner]

lemma toText_eq_iff (r : s.Readable) (r' : s'.Readable) :
    s.toText = s'.toText ↔ s.relabel Token.unplaced = s'.relabel Token.unplaced := by
  have r : s.inner.Readable := by cases s <;> exact r
  have r' : s'.inner.Readable := by cases s' <;> exact r'
  rw [relabel_eq_iff, ← Expr.toText_eq_iff r r', toText_eq, toText_eq]
  constructor
  · intro eq
    have eq := congrArg (· ++ []) eq
    simp only [parenthesize_one] at eq
    obtain ⟨name, eq⟩ := name_unique s.name_ne_blank s'.name_ne_blank eq
    exact ⟨name, List.append_cancel_right eq⟩
  · rintro ⟨name, same⟩
    rw [name, same]

end Stmt

/-- Trees and statements without strings and without what is not a number, whose operators are those
of the language, are printed alike if and only if they are the same but for the lines of the
operators. -/
theorem toText_eq_iff_relabel_eq :
    (∀ e e' : Expr, e.Readable → e'.Readable →
      (e.toText = e'.toText ↔ e.relabel Token.unplaced = e'.relabel Token.unplaced)) ∧
    ∀ s s' : Stmt, s.Readable → s'.Readable →
      (s.toText = s'.toText ↔ s.relabel Token.unplaced = s'.relabel Token.unplaced) :=
  ⟨fun _ _ => Expr.toText_eq_iff, fun _ _ => Stmt.toText_eq_iff⟩

/-- `(- (- nil 1.0))` with both operators on one line. -/
def twoMinuses (line : Nat) : Expr :=
  let minus : Token := ⟨.punctuator .minus, ['-'], line⟩
  .unary minus (.binary (.literal .nil) minus (.literal (.number ⟨0x3ff0000000000000⟩)))

/-- The trees of two lines are printed alike and differ in nothing else, and the statements made of
them are told apart. -/
theorem toText_eq_iff_relabel_eq_twoMinuses :
    (twoMinuses 1).Readable ∧ (twoMinuses 2).Readable ∧ twoMinuses 1 ≠ twoMinuses 2 ∧
      (twoMinuses 1).relabel Token.unplaced = (twoMinuses 2).relabel Token.unplaced ∧
      (Stmt.expression (twoMinuses 1)).toText ≠ (Stmt.print (twoMinuses 2)).toText := by
  have minus (line : Nat) : Token.IsOperator ⟨.punctuator .minus, ['-'], line⟩ :=
    .inl ⟨.minus, rfl, rfl⟩
  have one : Binary64.isNaN ⟨0x3ff0000000000000⟩ = false := by decide
  have readable (line : Nat) : (twoMinuses line).Readable :=
    ⟨minus line, trivial, minus line, one⟩
  obtain ⟨trees, statements⟩ := toText_eq_iff_relabel_eq
  refine ⟨readable 1, readable 2, by decide, ?_, fun eq => ?_⟩
  · exact (trees _ _ (readable 1) (readable 2)).mp rfl
  · have same := statements (.expression (twoMinuses 1)) (.print (twoMinuses 2))
    cases (same (readable 1) (readable 2)).mp eq

end Lox
