import Mathlib.Data.List.Basic

/-!
# Runs of a deterministic labelled machine

A machine here is a total function `step : σ → ε → σ`. Everything the outside
world decides (which party moves, what a call answers) is in the label, and a
label that does not apply leaves the state alone, so *every* list of labels is a
run and "for every interleaving" is "for every list".

`trail` lists the states a run visits, `Along` says that every step of it meets a
condition on the state before it, and `inv_trail` is the induction that turns a
step lemma into a statement about every visited state.
-/

namespace Machine

variable {σ ε : Type*} (step : σ → ε → σ)

/-- The state a run ends in. -/
def run (s : σ) (es : List ε) : σ := es.foldl step s

/-- The states a run visits, its first and its last state included. -/
def trail : σ → List ε → List σ
  | s, [] => [s]
  | s, e :: es => s :: trail (step s e) es

/-- Every step of the run meets `P`, a condition on the state before it and its label. -/
def Along (P : σ → ε → Prop) : σ → List ε → Prop
  | _, [] => True
  | s, e :: es => P s e ∧ Along P (step s e) es

@[simp] theorem run_nil (s : σ) : run step s [] = s := rfl

@[simp] theorem run_cons (s : σ) (e : ε) (es : List ε) :
    run step s (e :: es) = run step (step s e) es := rfl

theorem run_append (s : σ) (es fs : List ε) : run step s (es ++ fs) = run step (run step s es) fs :=
  List.foldl_append

/-- The first part of a run and the rest of it. -/
theorem along_append {P : σ → ε → Prop} {s : σ} {es fs : List ε} :
    Along step P s (es ++ fs) ↔ Along step P s es ∧ Along step P (run step s es) fs := by
  induction es generalizing s with
  | nil => exact ⟨fun h => ⟨trivial, h⟩, fun h => h.2⟩
  | cons e es ih =>
      rw [List.cons_append, Along, Along, ih, and_assoc, run_cons]

theorem mem_trail_self (s : σ) (es : List ε) : s ∈ trail step s es := by
  cases es <;> simp [trail]

theorem run_mem_trail (s : σ) (es : List ε) : run step s es ∈ trail step s es := by
  induction es generalizing s with
  | nil => simp [trail]
  | cons e es ih => exact List.mem_cons_of_mem _ (ih _)

/-- The visited states are those the run's initial segments end in. -/
theorem mem_trail_iff {s t : σ} {es : List ε} :
    t ∈ trail step s es ↔ ∃ fs gs, es = fs ++ gs ∧ t = run step s fs := by
  induction es generalizing s with
  | nil =>
      constructor
      · intro h
        exact ⟨[], [], rfl, by simpa [trail] using h⟩
      · rintro ⟨fs, gs, hes, rfl⟩
        obtain ⟨rfl, rfl⟩ := List.append_eq_nil_iff.mp hes.symm
        exact mem_trail_self step s []
  | cons e es ih =>
      constructor
      · intro h
        rcases List.mem_cons.mp h with rfl | h
        · exact ⟨[], e :: es, rfl, rfl⟩
        · obtain ⟨fs, gs, rfl, rfl⟩ := ih.mp h
          exact ⟨e :: fs, gs, rfl, rfl⟩
      · rintro ⟨fs, gs, hes, rfl⟩
        cases fs with
        | nil => exact mem_trail_self step s (e :: es)
        | cons f fs =>
            obtain ⟨rfl, rfl⟩ := List.cons.inj hes
            exact List.mem_cons_of_mem _ (ih.mpr ⟨fs, gs, rfl, rfl⟩)

/-- **The invariant rule.** What holds at the start and survives every step that
meets `P` holds of every state such a run visits. -/
theorem inv_trail (Inv : σ → Prop) {P : σ → ε → Prop}
    (hstep : ∀ s e, Inv s → P s e → Inv (step s e)) {s : σ} {es : List ε}
    (h0 : Inv s) (hP : Along step P s es) : ∀ t ∈ trail step s es, Inv t := by
  induction es generalizing s with
  | nil =>
      intro t ht
      have : t = s := by simpa [trail] using ht
      rw [this]; exact h0
  | cons e es ih =>
      intro t ht
      rcases List.mem_cons.mp ht with rfl | ht
      · exact h0
      · exact ih (hstep _ _ h0 hP.1) hP.2 t ht

/-- **The exactness rule.** Steps that meet `P` keep an invariant that implies `Good`, and
one that does not leaves a state that is not `Good`: then every visited state is `Good`
exactly when every step meets `P`. `A` is what is assumed of the steps in any case. -/
theorem trail_iff_along (Inv Good : σ → Prop) {A P : σ → ε → Prop}
    (hgood : ∀ s, Inv s → Good s) (hstep : ∀ s e, Inv s → A s e → P s e → Inv (step s e))
    (hbad : ∀ s e, Inv s → A s e → ¬ P s e → ¬ Good (step s e)) {s : σ} {es : List ε}
    (h0 : Inv s) (hA : Along step A s es) :
    (∀ t ∈ trail step s es, Good t) ↔ Along step P s es := by
  induction es generalizing s with
  | nil =>
      refine ⟨fun _ => trivial, ?_⟩
      intro _ t ht
      rw [List.mem_singleton.mp ht]
      exact hgood s h0
  | cons e es ih =>
      constructor
      · intro hall
        have hP : P s e := by
          by_contra hP
          exact hbad s e h0 hA.1 hP
            (hall _ (List.mem_cons_of_mem _ (mem_trail_self step _ es)))
        exact ⟨hP, (ih (hstep s e h0 hA.1 hP) hA.2).mp
          fun t ht => hall t (List.mem_cons_of_mem _ ht)⟩
      · rintro ⟨hP, hrest⟩ t ht
        rcases List.mem_cons.mp ht with rfl | ht
        · exact hgood _ h0
        · exact (ih (hstep s e h0 hA.1 hP) hA.2).mpr hrest t ht

/-- What a step that does not meet `P` spoils stays spoilt. `A` is what is assumed of the
steps in any case. -/
theorem along_or_spoilt (Inv Spoilt : σ → Prop) {A P : σ → ε → Prop}
    (hinv : ∀ s e, Inv s → A s e → Inv (step s e))
    (hstay : ∀ s e, Inv s → A s e → Spoilt s → Spoilt (step s e))
    (hspoil : ∀ s e, Inv s → A s e → ¬ P s e → Spoilt (step s e)) {s : σ} {es : List ε}
    (h0 : Inv s) (hA : Along step A s es) : Along step P s es ∨ Spoilt (run step s es) := by
  have hkeep : ∀ (es : List ε) (s : σ), Inv s → Along step A s es → Spoilt s →
      Spoilt (run step s es) := by
    intro es
    induction es with
    | nil => exact fun _ _ _ h => h
    | cons e es ih =>
        exact fun s hs hA h => ih _ (hinv s e hs hA.1) hA.2 (hstay s e hs hA.1 h)
  induction es generalizing s with
  | nil => exact .inl trivial
  | cons e es ih =>
      by_cases hP : P s e
      · rcases ih (hinv s e h0 hA.1) hA.2 with h | h
        · exact .inl ⟨hP, h⟩
        · exact .inr h
      · exact .inr (hkeep es _ (hinv s e h0 hA.1) hA.2 (hspoil s e h0 hA.1 hP))

theorem Along.and {P Q : σ → ε → Prop} {s : σ} {es : List ε} (hP : Along step P s es)
    (hQ : Along step Q s es) : Along step (fun s e => P s e ∧ Q s e) s es := by
  induction es generalizing s with
  | nil => trivial
  | cons e es ih => exact ⟨⟨hP.1, hQ.1⟩, ih hP.2 hQ.2⟩

/-- Two conditions that are the same in the states of a run are met by the same runs. -/
theorem along_congr (Inv : σ → Prop) {P Q : σ → ε → Prop}
    (hinv : ∀ s e, Inv s → Inv (step s e)) (hiff : ∀ s e, Inv s → (P s e ↔ Q s e)) {s : σ}
    (h0 : Inv s) (es : List ε) : Along step P s es ↔ Along step Q s es := by
  induction es generalizing s with
  | nil => exact Iff.rfl
  | cons e es ih => exact and_congr (hiff s e h0) (ih (hinv s e h0))

/-- What an invariant gives of every step that meets `P`. -/
theorem along_of_inv (Inv : σ → Prop) {P Q : σ → ε → Prop}
    (hstep : ∀ s e, Inv s → P s e → Inv (step s e)) (hPQ : ∀ s e, Inv s → P s e → Q s e) {s : σ}
    {es : List ε} (h0 : Inv s) (hP : Along step P s es) : Along step Q s es := by
  induction es generalizing s with
  | nil => trivial
  | cons e es ih => exact ⟨hPQ s e h0 hP.1, ih (hstep s e h0 hP.1) hP.2⟩

theorem Along.imp {P Q : σ → ε → Prop} (hPQ : ∀ s e, P s e → Q s e) {s : σ} {es : List ε}
    (hP : Along step P s es) : Along step Q s es := by
  induction es generalizing s with
  | nil => trivial
  | cons e es ih => exact ⟨hPQ s e hP.1, ih hP.2⟩

theorem along_true (s : σ) (es : List ε) : Along step (fun _ _ => True) s es := by
  induction es generalizing s with
  | nil => trivial
  | cons e es ih => exact ⟨trivial, ih _⟩

end Machine
