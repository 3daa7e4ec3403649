import Lox.Proofs.Text.Digits
import Lox.Proofs.Text.Front
import Lox.Text.Quoted

/-!
# Quoted texts are told apart

No character is escaped to a text that begins with a quote, so the first quote that no backslash
marks ends a quoted text. Where an escaped character ends is seen from it alone
(`Escapes.unique`). So a quoted text tells what is quoted and what follows it
(`quote_append_inj`), and it is on one line (`newline_notMem_quote`).
-/

namespace Lox.Text

/-- The letters behind a backslash, with the characters that they stand for. -/
def letters : List (Char × Char) :=
  [('"', '"'), ('\\', '\\'), ('n', '\n'), ('r', '\r'), ('t', '\t'), ('0', '\x00')]

/-- The text is one between quotes for the character. -/
inductive Escapes : Char → Text → Prop where
  | letter {l c : Char} :
    (l, c) ∈ letters →
    Escapes c ['\\', l]
  | code {c : Char} :
    Escapes c ('\\' :: 'u' :: '\x7b' :: (Nat.toDigits 16 c.toNat ++ ['\x7d']))
  | itself {c : Char} :
    c ∉ ['"', '\\', '\n'] →
    Escapes c [c]

variable {c c' : Char} {t t' rest rest' : Text}

lemma letter_unique {l : Char} (mem : (l, c) ∈ letters) (mem' : (l, c') ∈ letters) : c = c' := by
  have all : ∀ x ∈ letters, ∀ y ∈ letters, x.1 = y.1 → x.2 = y.2 := by decide
  exact all _ mem _ mem' rfl

lemma u_notMem_letters : ('u', c) ∉ letters := by
  simp [letters]

lemma Escapes.ne_quote_cons (esc : Escapes c t) : t ++ rest ≠ '"' :: rest' := by
  cases esc with
  | letter => exact nofun
  | code => exact nofun
  | itself no =>
    rintro ⟨⟩
    exact no (by decide)

lemma Escapes.newline_notMem (esc : Escapes c t) : '\n' ∉ t := by
  cases esc with
  | letter mem =>
    have all : ∀ x ∈ letters, '\n' ≠ x.1 := by decide
    simpa using all _ mem
  | code =>
    intro mem
    simp only [List.mem_cons, List.mem_append, List.not_mem_nil, or_false, Char.reduceEq,
      false_or] at mem
    exact ne_of_mem_hexDigits (by decide) mem rfl
  | itself no =>
    intro mem
    rw [← List.mem_singleton.mp mem] at no
    exact no (by decide)

lemma escapes_escape (c : Char) : Escapes c (escape c) := by
  unfold escape
  split
  case h_7 quote backslash newline _ _ _ =>
    split
    case isTrue => exact .code
    case isFalse => exact .itself (by simpa using ⟨quote, backslash, newline⟩)
  all_goals exact .letter (by decide)

/-- An escaped character is told from what follows it. -/
lemma Escapes.unique (esc : Escapes c t) (esc' : Escapes c' t') (eq : t ++ rest = t' ++ rest') :
    c = c' ∧ rest = rest' := by
  cases esc with
  | letter mem =>
    cases esc' with
    | letter mem' =>
      cases eq
      exact ⟨letter_unique mem mem', rfl⟩
    | code =>
      cases eq
      exact absurd mem u_notMem_letters
    | itself no =>
      cases eq
      exact absurd (by decide) no
  | code =>
    cases esc' with
    | letter mem' =>
      cases eq
      exact absurd mem' u_notMem_letters
    | code =>
      simp only [List.cons_append, List.append_assoc, List.cons.injEq, true_and] at eq
      have digits {n : Nat} : ∀ x ∈ Nat.toDigits 16 n, x ≠ '\x7d' := fun x =>
        ne_of_mem_hexDigits (by decide)
      obtain ⟨same, eq⟩ := front_unique digits digits (by simp) (by simp) eq
      exact ⟨Char.toNat_inj.mp (eq_of_hexDigits_eq same), (List.cons.inj eq).2⟩
    | itself no =>
      cases eq
      exact absurd (by decide) no
  | itself no =>
    cases esc' with
    | letter =>
      cases eq
      exact absurd (by decide) no
    | code =>
      cases eq
      exact absurd (by decide) no
    | itself =>
      cases eq
      exact ⟨rfl, rfl⟩

/-- The closing quote is found. -/
lemma flatMap_escape_unique
    (eq : t.flatMap escape ++ '"' :: rest = t'.flatMap escape ++ '"' :: rest') :
    t = t' ∧ rest = rest' := by
  induction t generalizing t' with
  | nil =>
    cases t' with
    | nil => exact ⟨rfl, (List.cons.inj eq).2⟩
    | cons c' t' =>
      rw [List.flatMap_cons, List.append_assoc] at eq
      exact absurd eq.symm (escapes_escape c').ne_quote_cons
  | cons c t ih =>
    cases t' with
    | nil =>
      rw [List.flatMap_cons, List.append_assoc] at eq
      exact absurd eq (escapes_escape c).ne_quote_cons
    | cons c' t' =>
      rw [List.flatMap_cons, List.flatMap_cons, List.append_assoc, List.append_assoc] at eq
      obtain ⟨rfl, tail⟩ := (escapes_escape c).unique (escapes_escape c') eq
      obtain ⟨rfl, rfl⟩ := ih tail
      exact ⟨rfl, rfl⟩

/-- A quoted text tells what is quoted and what follows it. -/
theorem quote_append_inj (eq : t.quote ++ rest = t'.quote ++ rest') : t = t' ∧ rest = rest' := by
  simp only [quote, List.cons_append, List.append_assoc, List.nil_append] at eq
  exact flatMap_escape_unique (List.cons.inj eq).2

lemma newline_notMem_quote (t : Text) : '\n' ∉ t.quote := by
  simp only [quote, List.cons_append, List.mem_cons, List.mem_append, List.mem_flatMap,
    List.not_mem_nil, or_false, Char.reduceEq, false_or, not_exists, not_and]
  exact fun c _ => (escapes_escape c).newline_notMem

end Lox.Text
