import Mathlib.Data.Nat.Bitwise
import Mathlib.Data.Nat.Factorization.Basic
import Mathlib.Data.Nat.Size
import Mathlib.Order.Bounds.Basic

/-!
# Masks and powers of two

A ring buffer of `n` places that finds a place with the mask `n - 1` needs `n` to be a power
of two, in two ways: the mask is then the remainder, and it tells `n` positions in a row
apart. Neither holds of any other size. The least power of two for a size comes from the
number of bits of the size less one.
-/

namespace Nat

/-! ## The mask -/

theorem and_pred_eq_mod {n : Nat} (h : n.isPowerOfTwo) (x : Nat) : x &&& (n - 1) = x % n := by
  obtain ⟨k, rfl⟩ := h
  exact and_two_pow_sub_one_eq_mod x k

/-- The mask is the remainder for every position only with a power of two: at `n` itself it is
not zero otherwise. -/
theorem isPowerOfTwo_of_and_pred {n : Nat} (hn : 0 < n) (h : n &&& (n - 1) = n % n) :
    n.isPowerOfTwo := by
  rw [mod_self] at h
  exact (and_sub_one_eq_zero_iff_isPowerOfTwo (Nat.ne_of_gt hn)).mp h

/-- With another size, some position inside the buffer shares the place of the start. -/
theorem exists_and_pred_eq_zero {n : Nat} (hn : 0 < n) (h : ¬ n.isPowerOfTwo) :
    ∃ j, 2 ^ j < n ∧ 2 ^ j &&& (n - 1) = 0 := by
  obtain ⟨j, m, hm, rfl⟩ := exists_eq_two_pow_mul_odd (Nat.ne_of_gt hn)
  obtain ⟨r, rfl⟩ := hm
  have hpos := Nat.two_pow_pos j
  have hr : 0 < r := by
    refine Nat.pos_of_ne_zero fun hzero => h ⟨j, ?_⟩
    rw [hzero, Nat.mul_zero, Nat.zero_add, Nat.mul_one]
  have hsplit : 2 ^ j * (2 * r + 1) = 2 ^ (j + 1) * r + 2 ^ j := by
    rw [Nat.pow_succ, Nat.mul_add, Nat.mul_one, Nat.mul_assoc]
  have hmul := Nat.le_mul_of_pos_right (2 ^ (j + 1)) hr
  have hdouble := Nat.two_pow_pos (j + 1)
  refine ⟨j, by omega, ?_⟩
  -- bit `j` of the mask is the last one of an even number
  have hbit : (2 ^ j * (2 * r + 1) - 1).testBit j = false := by
    rw [show 2 ^ j * (2 * r + 1) - 1 = 2 ^ (j + 1) * r + (2 ^ j - 1) by omega,
      testBit_two_pow_mul_add _ (by rw [Nat.pow_succ]; omega), if_pos (Nat.lt_succ_self j)]
    exact testBit_lt_two_pow (by omega)
  rw [two_pow_and, hbit]
  rfl

/-! ## The least power of two -/

/-- Halving takes one bit. -/
theorem size_half {n : Nat} (hn : n ≠ 0) : n.size = (n / 2).size + 1 := by
  have hbit := bit_bodd_div2 n
  have hne : bit n.bodd n.div2 ≠ 0 := by rw [hbit]; exact hn
  have hsize := size_bit hne
  rw [hbit, div2_val] at hsize
  exact hsize

/-- `2 ^ k` reaches `n` when `n - 1` has at most `k` bits. -/
theorem le_two_pow_iff {n : Nat} (hn : 0 < n) (k : Nat) : n ≤ 2 ^ k ↔ (n - 1).size ≤ k := by
  rw [size_le]
  omega

theorem isLeast_two_pow_size {n : Nat} (hn : 0 < n) :
    IsLeast {p : Nat | p.isPowerOfTwo ∧ n ≤ p} (2 ^ (n - 1).size) := by
  refine ⟨⟨⟨_, rfl⟩, (le_two_pow_iff hn _).mpr (Nat.le_refl _)⟩, ?_⟩
  rintro _ ⟨⟨k, rfl⟩, hle⟩
  exact Nat.pow_le_pow_right (by decide) ((le_two_pow_iff hn k).mp hle)

end Nat
