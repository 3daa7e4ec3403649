import Lox.Proofs.Parser.Completeness
import Lox.Proofs.Parser.Reachable

/-!
# The language of the parser

Which token lists the parser takes: those with an expression in front that no binary operator goes
on with and that opens no more than the limit allows.
-/

namespace Lox.Parser

variable {tokens : List Token} {e : Expr}

/-- The tokens begin with the expression `e`, with no binary operator behind it. -/
def BeginsWith (tokens : List Token) (e : Expr) : Prop :=
  ∃ w next rest, tokens = w ++ next :: rest ∧ Derives Level.all w e ∧ e.nesting ≤ maxNesting ∧
    next.kind.level? = none

/-- The parser gives an expression exactly where the tokens begin with it. -/
lemma parse_eq_ok_iff (term : Terminated tokens) :
    (∃ after, State.parse ⟨[], tokens, 0⟩ = .ok (.ok e, after)) ↔ BeginsWith tokens e := by
  constructor
  · rintro ⟨after, run⟩
    obtain ⟨w, pass, der, fits, term', free⟩ := derived_of_parse term within_zero run
    obtain ⟨next, rest, eq⟩ := term'.exists_cons
    rw [eq] at free
    rw [Nat.zero_add] at fits
    exact ⟨w, next, rest, eq ▸ pass.ahead, der, fits, level?_eq_none_iff.mpr (free next rfl)⟩
  · rintro ⟨w, next, rest, rfl, der, fits, none⟩
    rw [← Nat.zero_add e.nesting] at fits
    exact ⟨_, parse_of_derives der [] next rest 0 (within_some_iff.mpr fits) none⟩

end Lox.Parser
