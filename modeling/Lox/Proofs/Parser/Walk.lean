import Lox.Parser.Moments
import Lox.Proofs.Parser.NestingLimit

/-!
# Walks

What the actions of a parser do to its state, and walks of such steps, moment by moment. Each step
looks at or reads a token that is there, opens an operand only where the limit leaves room for it,
and closes one only where one is open. What a single step keeps, a walk keeps: the token list, the
way forward, the end markers ahead, and the depth as the number of operands that are open.
-/

namespace Lox.Parser

/-- The step that an action is. No token in front of the index `base` is looked at again. -/
inductive Step (limit : Option Nat) (base : Nat) : State → Action → State → Prop where
  | peek {behind t ahead depth} :
    Step limit base ⟨behind, t :: ahead, depth⟩ .peek ⟨behind, t :: ahead, depth⟩
  | previous {t behind ahead depth} :
    base ≤ behind.length →
    Step limit base ⟨t :: behind, ahead, depth⟩ .previous ⟨t :: behind, ahead, depth⟩
  | stay {behind t ahead depth} :
    t.kind = .eof →
    Step limit base ⟨behind, t :: ahead, depth⟩ .advance ⟨behind, t :: ahead, depth⟩
  | advance {behind t ahead depth} :
    t.kind ≠ .eof →
    Step limit base ⟨behind, t :: ahead, depth⟩ .advance ⟨t :: behind, ahead, depth⟩
  | enter {behind ahead depth} :
    Within limit (depth + 1) →
    Step limit base ⟨behind, ahead, depth⟩ .enter ⟨behind, ahead, depth + 1⟩
  | leave {behind ahead depth} :
    Step limit base ⟨behind, ahead, depth + 1⟩ .leave ⟨behind, ahead, depth⟩

/-- Steps one after the other, with the moments that they are. -/
inductive Walk (limit : Option Nat) (base : Nat) : State → List Moment → State → Prop where
  | nil {s} :
    Walk limit base s [] s
  | step {s action s' moments s''} :
    Step limit base s action s' →
    Walk limit base s' moments s'' →
    Walk limit base s (⟨action, s⟩ :: moments) s''

variable {limit : Option Nat} {base : Nat} {s s' s'' : State} {action : Action}
  {moments moments' : List Moment}

/-- How often a record has an action. -/
def timesOf (action : Action) (moments : List Moment) : Nat := moments.countP (·.action = action)

lemma timesOf_cons (m : Moment) :
    timesOf action (m :: moments) = timesOf action moments + if m.action = action then 1 else 0 := by
  rw [timesOf, List.countP_cons, timesOf]
  simp only [decide_eq_true_eq]

namespace Step

lemma tokens (step : Step limit base s action s') : s'.tokens = s.tokens := by
  cases step with
  | advance _ => simp [State.tokens]
  | _ => rfl

lemma index_le (step : Step limit base s action s') : s.index ≤ s'.index := by
  cases step with
  | advance _ => exact Nat.le_succ _
  | _ => exact Nat.le_refl _

/-- A step that opens an operand is one deeper, and one that closes an operand is one less deep. -/
lemma depth (step : Step limit base s action s') :
    s'.depth + (if action = .leave then 1 else 0) =
      s.depth + if action = .enter then 1 else 0 := by
  cases step <;> rfl

lemma within (step : Step limit base s action s') (fits : Within limit s.depth) :
    Within limit s'.depth := by
  cases step with
  | enter room => exact room
  | leave => exact fits.mono (Nat.le_succ _)
  | _ => exact fits

/-- No end marker is passed. -/
lemma noEof (step : Step limit base s action s') (free : ∀ t ∈ s.behind, t.kind ≠ .eof) :
    ∀ t ∈ s'.behind, t.kind ≠ .eof := by
  cases step with
  | advance ne => exact List.forall_mem_cons.mpr ⟨ne, free⟩
  | _ => exact free

end Step

namespace Walk

lemma single (step : Step limit base s action s') : Walk limit base s [⟨action, s⟩] s' :=
  .step step .nil

lemma append (first : Walk limit base s moments s') (second : Walk limit base s' moments' s'') :
    Walk limit base s (moments ++ moments') s'' := by
  induction first with
  | nil => exact second
  | step step _ ih => exact .step step (ih second)

/-- A walk up to one of its moments, and from there on. -/
lemma split {before m after} (walk : Walk limit base s (before ++ m :: after) s') :
    Walk limit base s before m.state ∧
      ∃ next, Step limit base m.state m.action next ∧ Walk limit base next after s' := by
  induction before generalizing s with
  | nil =>
    cases walk with
    | step step walk => exact ⟨.nil, _, step, walk⟩
  | cons _ before ih =>
    cases walk with
    | step step walk =>
      obtain ⟨first, rest⟩ := ih walk
      exact ⟨.step step first, rest⟩

lemma tokens (walk : Walk limit base s moments s') : s'.tokens = s.tokens := by
  induction walk with
  | nil => rfl
  | step step _ ih => exact ih.trans step.tokens

lemma index_le (walk : Walk limit base s moments s') : s.index ≤ s'.index := by
  induction walk with
  | nil => exact Nat.le_refl _
  | step step _ ih => exact Nat.le_trans step.index_le ih

/-- The depth counts the operands that are opened and not closed. -/
lemma depth (walk : Walk limit base s moments s') :
    s'.depth + timesOf .leave moments = s.depth + timesOf .enter moments := by
  induction walk with
  | nil => rfl
  | step step _ ih =>
    have first := step.depth
    rw [timesOf_cons, timesOf_cons]
    dsimp only
    omega

lemma within (walk : Walk limit base s moments s') (fits : Within limit s.depth) :
    Within limit s'.depth := by
  induction walk with
  | nil => exact fits
  | step step _ ih => exact ih (step.within fits)

lemma noEof (walk : Walk limit base s moments s') (free : ∀ t ∈ s.behind, t.kind ≠ .eof) :
    ∀ t ∈ s'.behind, t.kind ≠ .eof := by
  induction walk with
  | nil => exact free
  | step step _ ih => exact ih (step.noEof free)

/-- Along a walk the index never goes back. -/
lemma pairwise_index (walk : Walk limit base s moments s') :
    (s.index :: (moments.map (·.state.index) ++ [s'.index])).Pairwise (· ≤ ·) := by
  induction walk with
  | nil => simp
  | step step _ ih =>
    obtain ⟨later, rest⟩ := List.pairwise_cons.mp ih
    have later := fun i mem => Nat.le_trans step.index_le (later i mem)
    have all := List.forall_mem_cons.mpr ⟨Nat.le_refl _, later⟩
    exact List.pairwise_cons.mpr ⟨all, List.pairwise_cons.mpr ⟨later, rest⟩⟩

end Walk

end Lox.Parser
