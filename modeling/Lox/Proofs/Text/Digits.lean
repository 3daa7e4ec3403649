import Lox.Text
import Mathlib.Tactic.Lemma

/-!
# Digits tell the number

What is written for a number in decimal or hexadecimal digits is written for no other.
-/

namespace Lox.Text

lemma eq_of_ofNat_eq {m n : Nat} (eq : ofNat m = ofNat n) : m = n :=
  calc m = Nat.ofDigitChars 10 (ofNat m) 0 := Nat.ofDigitChars_ten_toDigits.symm
    _ = Nat.ofDigitChars 10 (ofNat n) 0 := by rw [eq]
    _ = n := Nat.ofDigitChars_ten_toDigits

lemma isDigit_of_mem_ofNat {c : Char} {n : Nat} (mem : c ∈ ofNat n) : c.isDigit :=
  Nat.isDigit_of_mem_toDigits (by decide) (by decide) mem

lemma ofNat_ne_minus_cons (n : Nat) (t : Text) : ofNat n ≠ '-' :: t := by
  intro eq
  have mem : '-' ∈ ofNat n := by rw [eq]; exact List.mem_cons_self
  exact absurd (isDigit_of_mem_ofNat mem) (by decide)

lemma eq_of_ofInt_eq {m n : Int} (eq : ofInt m = ofInt n) : m = n := by
  cases m with
  | ofNat m =>
    cases n with
    | ofNat n => exact congrArg Int.ofNat (eq_of_ofNat_eq eq)
    | negSucc n => exact absurd eq (ofNat_ne_minus_cons m _)
  | negSucc m =>
    cases n with
    | ofNat n => exact absurd eq.symm (ofNat_ne_minus_cons n _)
    | negSucc n =>
      exact congrArg Int.negSucc (Nat.succ.inj (eq_of_ofNat_eq (List.cons.inj eq).2))

lemma mem_ofInt {c : Char} {n : Int} (mem : c ∈ ofInt n) : c.isDigit ∨ c = '-' := by
  cases n with
  | ofNat n => exact .inl (isDigit_of_mem_ofNat mem)
  | negSucc n =>
    obtain rfl | mem := List.mem_cons.mp mem
    · exact .inr rfl
    · exact .inl (isDigit_of_mem_ofNat mem)

/-- The value of a hexadecimal digit. -/
def hexValue (c : Char) : Nat :=
  if c.isDigit then c.toNat - '0'.toNat else c.toNat - 'a'.toNat + 10

/-- The value of hexadecimal digits. -/
def ofHex (t : Text) : Nat := t.foldl (fun n c => 16 * n + hexValue c) 0

lemma hexValue_digitChar : ∀ d < 16, hexValue d.digitChar = d := by decide

lemma ofHex_toDigits (n : Nat) : ofHex (Nat.toDigits 16 n) = n := by
  induction n using Nat.strongRecOn with
  | ind n ih =>
    rw [Nat.toDigits_eq_if (by decide)]
    split
    case isTrue lt =>
      rw [ofHex, List.foldl_cons, hexValue_digitChar n lt]
      simp
    case isFalse le =>
      have last : hexValue (n % 16).digitChar = n % 16 :=
        hexValue_digitChar _ (Nat.mod_lt _ (by decide))
      have front : ofHex (Nat.toDigits 16 (n / 16)) = n / 16 := ih (n / 16) (by omega)
      rw [ofHex] at front
      rw [ofHex, List.foldl_append, front, List.foldl_cons, List.foldl_nil, last]
      exact Nat.div_add_mod n 16

lemma eq_of_hexDigits_eq {m n : Nat} (eq : Nat.toDigits 16 m = Nat.toDigits 16 n) : m = n := by
  rw [← ofHex_toDigits m, eq, ofHex_toDigits]

/-- Only hexadecimal digits are written. -/
lemma ne_of_mem_hexDigits {c x : Char} {n : Nat} (no : ∀ d < 16, d.digitChar ≠ c)
    (mem : x ∈ Nat.toDigits 16 n) : x ≠ c := by
  induction n using Nat.strongRecOn with
  | ind n ih =>
    rw [Nat.toDigits_eq_if (by decide)] at mem
    split at mem
    case isTrue lt =>
      rw [List.mem_singleton.mp mem]
      exact no n lt
    case isFalse le =>
      obtain mem | mem := List.mem_append.mp mem
      · exact ih (n / 16) (by omega) mem
      · rw [List.mem_singleton.mp mem]
        exact no _ (Nat.mod_lt _ (by decide))

end Lox.Text
