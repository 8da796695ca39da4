import Mathlib.Algebra.BigOperators.Group.Finset.Piecewise
import Mathlib.Data.Fintype.Card

/-!
# One of many changes

A system of parties is a function from their names to their states, and a step is an update
of it at one name. What is summed or counted over all parties changes by what the one party
contributes.
-/

variable {ι α : Type*} [Fintype ι]

/-- What a change of one party does to a sum over all. -/
theorem sum_update [DecidableEq ι] {M : Type*} [AddCommMonoid M] (f : α → M) (g : ι → α) (i : ι)
    (x : α) :
    ∑ j, f (Function.update g i x j) + f (g i) = ∑ j, f (g j) + f x := by
  have hrest : ∑ j ∈ Finset.univ.erase i, f (Function.update g i x j)
      = ∑ j ∈ Finset.univ.erase i, f (g j) := by
    refine Finset.sum_congr rfl ?_
    intro j hj
    rw [Function.update_of_ne (Finset.ne_of_mem_erase hj)]
  have hnew := Finset.add_sum_erase Finset.univ (fun j => f (Function.update g i x j))
    (Finset.mem_univ i)
  have hold := Finset.add_sum_erase Finset.univ (fun j => f (g j)) (Finset.mem_univ i)
  rw [hrest, Function.update_self] at hnew
  rw [← hnew, ← hold]
  ac_rfl

/-- How many parties are as `p` says. -/
def countWhere (p : α → Bool) (g : ι → α) : Nat := (Finset.univ.filter fun j => p (g j) = true).card

theorem countWhere_update [DecidableEq ι] (p : α → Bool) (g : ι → α) (i : ι) (x : α) :
    countWhere p (Function.update g i x) + (p (g i)).toNat = countWhere p g + (p x).toNat := by
  have hcount : ∀ h : ι → α, countWhere p h = ∑ j, (p (h j)).toNat := by
    intro h
    unfold countWhere
    rw [Finset.card_filter]
    refine Finset.sum_congr rfl ?_
    intro j _
    cases p (h j) <;> rfl
  rw [hcount, hcount]
  exact sum_update (fun y => (p y).toNat) g i x

/-- There are no more of them than there are parties. -/
theorem countWhere_le (p : α → Bool) (g : ι → α) : countWhere p g ≤ Fintype.card ι :=
  Finset.card_filter_le _ _

/-- When not all are, there is one that is not. -/
theorem exists_not_of_countWhere_lt {p : α → Bool} {g : ι → α}
    (hlt : countWhere p g < Fintype.card ι) : ∃ i, p (g i) = false := by
  by_contra hall
  refine Nat.ne_of_lt hlt ?_
  unfold countWhere
  rw [Finset.filter_true_of_mem fun j _ => ?_]
  · exact Finset.card_univ
  · by_contra hj
    exact hall ⟨j, by simpa using hj⟩
