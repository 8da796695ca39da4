import Mathlib.Data.List.Basic

/-!
# Refinement between two machines that answer

Each call gets an answer and leads to a state. Two machines whose states can be kept in
step by a relation, with equal answers, give the same answers to every sequence of calls:
nothing a caller can do tells them apart.
-/

namespace Machine

variable {σ τ ε ω : Type*}

/-- The answers to a sequence of calls. -/
def answers (step : σ → ε → ω × σ) : σ → List ε → List ω
  | _, [] => []
  | s, e :: es => (step s e).1 :: answers step (step s e).2 es

/-- A relation that every call keeps, with equal answers. -/
def Refines (step : σ → ε → ω × σ) (spec : τ → ε → ω × τ) (R : σ → τ → Prop) : Prop :=
  ∀ s t e, R s t → (step s e).1 = (spec t e).1 ∧ R (step s e).2 (spec t e).2

/-- **The refinement rule.** -/
theorem Refines.answers_eq {step : σ → ε → ω × σ} {spec : τ → ε → ω × τ} {R : σ → τ → Prop}
    (h : Refines step spec R) {s : σ} {t : τ} (h0 : R s t) (es : List ε) :
    answers step s es = answers spec t es := by
  induction es generalizing s t with
  | nil => rfl
  | cons e es ih =>
      obtain ⟨hans, hrel⟩ := h s t e h0
      rw [answers, answers, hans, ih hrel]

end Machine
