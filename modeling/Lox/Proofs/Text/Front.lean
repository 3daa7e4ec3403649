import Lox.Text
import Mathlib.Tactic.Lemma

/-!
# Fronts of a text

A text in which something is written behind something else can be taken apart where the first ends:
with the first character of another sort.
-/

namespace Lox.Text

variable {p : Char → Prop} {t t' rest rest' : Text}

lemma forall_of_all [DecidablePred p] (all : t.all p) : ∀ c ∈ t, p c :=
  fun c mem => of_decide_eq_true (List.all_eq_true.mp all c mem)

/-- What is behind a run of characters of one sort does not go on with it. -/
def Ends (p : Char → Prop) (rest : Text) : Prop := ∀ c ∈ rest.head?, ¬ p c

@[simp] lemma ends_nil : Ends p [] := nofun

@[simp] lemma ends_cons {c : Char} : Ends p (c :: rest) ↔ ¬ p c := by
  simp only [Ends, List.head?_cons, Option.mem_some_iff, forall_eq']

/-- A run is cut off in one way. -/
lemma front_unique (all : ∀ c ∈ t, p c) (all' : ∀ c ∈ t', p c) (ends : Ends p rest)
    (ends' : Ends p rest') (eq : t ++ rest = t' ++ rest') : t = t' ∧ rest = rest' := by
  induction t generalizing t' with
  | nil =>
    cases t' with
    | nil => exact ⟨rfl, eq⟩
    | cons c t' =>
      rw [List.nil_append] at eq
      rw [eq, List.cons_append, ends_cons] at ends
      exact absurd (List.forall_mem_cons.mp all').1 ends
  | cons c t ih =>
    cases t' with
    | nil =>
      rw [List.nil_append] at eq
      rw [← eq, List.cons_append, ends_cons] at ends'
      exact absurd (List.forall_mem_cons.mp all).1 ends'
    | cons c' t' =>
      obtain ⟨rfl, tail⟩ := List.cons.inj eq
      obtain ⟨rfl, rfl⟩ :=
        ih (List.forall_mem_cons.mp all).2 (List.forall_mem_cons.mp all').2 tail
      exact ⟨rfl, rfl⟩

end Lox.Text
