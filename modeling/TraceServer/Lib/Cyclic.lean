import Mathlib.Data.List.Nodup
import Mathlib.Data.Nat.ModEq

/-!
# A list used as a circular buffer

`Lies buf s xs` says that `xs` stands in `buf` from position `s` on, going round at the
end. Positions are free-running: only their remainder matters. A piece that does not go
round the end can be copied in and out at once.
-/

namespace Cyclic

/-- A place that is not past the end of the buffer. -/
theorem add_mod_of_lt {s i n : Nat} (h : s % n + i < n) : (s + i) % n = s % n + i := by
  have hmod := Nat.mod_add_mod s n i
  rw [← hmod, Nat.mod_eq_of_lt h]

/-- Two positions less than a round apart are different places. -/
theorem mod_ne_of_lt {n a b : Nat} (hab : a < b) (hb : b < a + n) : a % n ≠ b % n := by
  intro h
  have hdvd : n ∣ b - a := (Nat.modEq_iff_dvd' (Nat.le_of_lt hab)).mp h
  have := Nat.le_of_dvd (by omega) hdvd
  omega

/-- What is left of the round. -/
theorem round_end {n : Nat} (hn : 0 < n) (s : Nat) : (s + (n - s % n)) % n = 0 := by
  have hdiv := Nat.div_add_mod s n
  have hlt := Nat.mod_lt s hn
  have hround : s + (n - s % n) = n * (s / n + 1) := by
    rw [Nat.mul_add, Nat.mul_one]
    omega
  rw [hround, Nat.mul_mod_right]

/-- From any position, every place is less than a round away. -/
theorem exists_mod_eq {n : Nat} (s : Nat) (i : Fin n) : ∃ j < n, (s + j) % n = i := by
  have hn : 0 < n := i.pos
  refine ⟨(i + (n - s % n)) % n, Nat.mod_lt _ hn, ?_⟩
  calc (s + (i + (n - s % n)) % n) % n
      = (i + (s + (n - s % n))) % n := by rw [Nat.add_mod_mod, Nat.add_left_comm]
    _ = i := by rw [← Nat.add_mod_mod, round_end hn, Nat.add_zero, Nat.mod_eq_of_lt i.isLt]

/-- **A round**: `n + 1` positions in a row are every place once. -/
theorem count_round (n s : Nat) (i : Fin (n + 1)) :
    ((List.range' s (n + 1)).map (Fin.ofNat (n + 1))).count i = 1 := by
  refine List.count_eq_one_of_mem ?_ ?_
  · refine List.Nodup.map_on ?_ List.nodup_range'
    intro a ha b hb hab
    have hmod : a % (n + 1) = b % (n + 1) := congrArg Fin.val hab
    rw [List.mem_range'_1] at ha hb
    rcases Nat.lt_trichotomy a b with hlt | heq | hgt
    · exact absurd hmod (mod_ne_of_lt hlt (by omega))
    · exact heq
    · exact absurd hmod.symm (mod_ne_of_lt hgt (by omega))
  · obtain ⟨j, hj, hplace⟩ := exists_mod_eq s i
    exact List.mem_map.mpr ⟨s + j, List.mem_range'_1.mpr (by omega), Fin.ext hplace⟩

end Cyclic

namespace List

variable {α : Type*}

/-- `buf` with `xs` copied over it at `off`. -/
def blit (buf : List α) (off : Nat) (xs : List α) : List α :=
  buf.take off ++ xs ++ buf.drop (off + xs.length)

/-- `xs` stands in `buf` from position `s` on. -/
def Lies (buf : List α) (s : Nat) (xs : List α) : Prop :=
  ∀ i < xs.length, buf[(s + i) % buf.length]? = xs[i]?

theorem length_blit {buf xs : List α} {off : Nat} (h : off + xs.length ≤ buf.length) :
    (buf.blit off xs).length = buf.length := by
  unfold blit
  rw [length_append, length_append, length_take, length_drop]
  omega

/-- Inside the copied piece. -/
theorem getElem?_blit_self {buf xs : List α} {off i : Nat} (h : off + xs.length ≤ buf.length)
    (hi : i < xs.length) : (buf.blit off xs)[off + i]? = xs[i]? := by
  unfold blit
  have hoff : (buf.take off).length = off := by rw [length_take]; omega
  rw [append_assoc, getElem?_append_right (by omega), hoff, Nat.add_sub_cancel_left,
    getElem?_append_left hi]

/-- Outside it. -/
theorem getElem?_blit_of_not {buf xs : List α} {off i : Nat} (h : off + xs.length ≤ buf.length)
    (hi : i < off ∨ off + xs.length ≤ i) : (buf.blit off xs)[i]? = buf[i]? := by
  unfold blit
  have hoff : (buf.take off).length = off := by rw [length_take]; omega
  rcases hi with hi | hi
  · rw [append_assoc, getElem?_append_left (by omega), getElem?_take_of_lt hi]
  · have hlen : (buf.take off ++ xs).length = off + xs.length := by rw [length_append, hoff]
    rw [getElem?_append_right (by omega), hlen, getElem?_drop]
    congr 1
    omega

theorem blit_zero (buf xs : List α) : buf.blit 0 xs = xs ++ buf.drop xs.length := by
  simp [blit]

/-- Two pieces copied one behind the other are one piece. -/
theorem blit_append {buf xs ys : List α} {off : Nat} (h : off + xs.length ≤ buf.length) :
    (buf.blit off xs).blit (off + xs.length) ys = buf.blit off (xs ++ ys) := by
  have hoff : (buf.take off ++ xs).length = off + xs.length := by
    rw [length_append, length_take]
    omega
  unfold blit
  rw [← hoff, take_left, drop_append, drop_eq_nil_of_le (Nat.le_add_right _ _), nil_append,
    Nat.add_sub_cancel_left, drop_drop, hoff, length_append, Nat.add_assoc]
  simp only [append_assoc]

theorem lies_nil (buf : List α) (s : Nat) : Lies buf s [] :=
  fun i hi => absurd hi (Nat.not_lt_zero i)

/-- Positions count up to multiples of the length. -/
theorem Lies.congr {buf xs : List α} {s t : Nat} (h : Lies buf s xs)
    (hst : s % buf.length = t % buf.length) : Lies buf t xs := by
  intro i hi
  rw [Nat.add_mod, ← hst, ← Nat.add_mod]
  exact h i hi

theorem lies_append {buf xs ys : List α} {s : Nat} :
    Lies buf s (xs ++ ys) ↔ Lies buf s xs ∧ Lies buf (s + xs.length) ys := by
  constructor
  · intro h
    constructor
    · intro i hi
      rw [h i (by rw [length_append]; omega), getElem?_append_left hi]
    · intro i hi
      rw [Nat.add_assoc, h _ (by rw [length_append]; omega), getElem?_append_right (by omega),
        Nat.add_sub_cancel_left]
  · rintro ⟨hx, hy⟩ i hi
    rw [length_append] at hi
    by_cases hlt : i < xs.length
    · rw [hx i hlt, getElem?_append_left hlt]
    · have hkey := hy (i - xs.length) (by omega)
      rw [Nat.add_assoc, Nat.add_sub_cancel' (by omega)] at hkey
      rw [hkey, getElem?_append_right (by omega)]

theorem Lies.drop {buf xs : List α} {s : Nat} (h : Lies buf s xs) {k : Nat} (hk : k ≤ xs.length) :
    Lies buf (s + k) (xs.drop k) := by
  rw [← take_append_drop k xs, lies_append, length_take, Nat.min_eq_left hk] at h
  exact h.2

theorem Lies.take {buf xs : List α} {s : Nat} (h : Lies buf s xs) (k : Nat) :
    Lies buf s (xs.take k) := by
  rw [← take_append_drop k xs, lies_append] at h
  exact h.1

/-- A piece that does not go round the end can be read at once. -/
theorem Lies.read {buf xs : List α} {s : Nat} (h : Lies buf s xs)
    (hfit : s % buf.length + xs.length ≤ buf.length) :
    (buf.drop (s % buf.length)).take xs.length = xs := by
  refine ext_getElem? ?_
  intro i
  by_cases hi : i < xs.length
  · rw [getElem?_take_of_lt hi, getElem?_drop, ← h i hi, Cyclic.add_mod_of_lt (by omega)]
  · rw [getElem?_eq_none (by rw [length_take]; omega), getElem?_eq_none (by omega)]

/-- And written at once. -/
theorem lies_blit_self {buf xs : List α} {s : Nat}
    (hfit : s % buf.length + xs.length ≤ buf.length) :
    Lies (buf.blit (s % buf.length) xs) s xs := by
  intro i hi
  rw [length_blit hfit, Cyclic.add_mod_of_lt (by omega)]
  exact getElem?_blit_self hfit hi

/-- What is written within a round after `xs` leaves `xs` alone. -/
theorem Lies.blit {buf xs ys : List α} {s t : Nat} (h : Lies buf s xs) (hst : s + xs.length ≤ t)
    (hts : t + ys.length ≤ s + buf.length) (hfit : t % buf.length + ys.length ≤ buf.length) :
    Lies (buf.blit (t % buf.length) ys) s xs := by
  intro i hi
  rw [length_blit hfit, ← h i hi]
  refine getElem?_blit_of_not hfit ?_
  by_contra hin
  -- place `i` of `xs` would be place `j` of `ys`
  obtain ⟨j, hj, hplace⟩ : ∃ j < ys.length, (s + i) % buf.length = t % buf.length + j :=
    ⟨(s + i) % buf.length - t % buf.length, by omega, by omega⟩
  have hlt : t % buf.length + j < buf.length := by omega
  refine Cyclic.mod_ne_of_lt (n := buf.length) (a := s + i) (b := t + j) (by omega) (by omega) ?_
  rw [hplace, Cyclic.add_mod_of_lt hlt]

/-! ## Going round the end -/

/-- **A read in two copies**: up to the end of the buffer, and from its start. -/
theorem Lies.read_two {buf xs : List α} {s l : Nat} (h : Lies buf s xs) (hn : 0 < buf.length)
    (hfit : xs.length ≤ buf.length) (hl : l = min xs.length (buf.length - s % buf.length)) :
    (buf.drop (s % buf.length)).take l ++ buf.take (xs.length - l) = xs := by
  have hlt := Nat.mod_lt s hn
  have htake : (xs.take l).length = l := by rw [length_take]; omega
  have hdrop : (xs.drop l).length = xs.length - l := length_drop
  have hfirst := (h.take l).read (by omega)
  rw [htake] at hfirst
  by_cases hall : xs.length ≤ l
  · rw [hfirst, Nat.sub_eq_zero_of_le hall, take_zero, append_nil, take_of_length_le hall]
  · -- the second copy starts where the round ends
    have hend : (s + l) % buf.length = 0 := by
      rw [show l = buf.length - s % buf.length by omega]
      exact Cyclic.round_end hn s
    have hrest := (h.drop (k := l) (by omega)).read (by omega)
    rw [hend, drop_zero, hdrop] at hrest
    rw [hfirst, hrest, take_append_drop]

/-- **A write in two copies**, after what is there. -/
theorem Lies.append_two {buf xs ys : List α} {s t l : Nat} (h : Lies buf s xs) (hn : 0 < buf.length)
    (ht : t = s + xs.length) (hfit : xs.length + ys.length ≤ buf.length)
    (hl : l = min ys.length (buf.length - t % buf.length)) :
    ((buf.blit (t % buf.length) (ys.take l)).blit 0 (ys.drop l)).length = buf.length
      ∧ Lies ((buf.blit (t % buf.length) (ys.take l)).blit 0 (ys.drop l)) s (xs ++ ys) := by
  have hlt := Nat.mod_lt t hn
  have htake : (ys.take l).length = l := by rw [length_take]; omega
  have hdrop : (ys.drop l).length = ys.length - l := length_drop
  have hfirst : t % buf.length + (ys.take l).length ≤ buf.length := by omega
  have hlen := length_blit hfirst
  have hboth : Lies (buf.blit (t % buf.length) (ys.take l)) s (xs ++ ys.take l) :=
    lies_append.mpr ⟨h.blit (by omega) (by omega) hfirst, ht ▸ lies_blit_self (ht ▸ hfirst)⟩
  have hstart : 0 + (ys.drop l).length ≤ (buf.blit (t % buf.length) (ys.take l)).length := by omega
  refine ⟨(length_blit hstart).trans hlen, ?_⟩
  by_cases hall : ys.length ≤ l
  · rw [drop_eq_nil_of_le hall, show ∀ b : List α, b.blit 0 [] = b by simp [List.blit]]
    rwa [take_of_length_le hall] at hboth ⊢
  · -- the second copy starts where the round ends
    have hend : (t + l) % (buf.blit (t % buf.length) (ys.take l)).length = 0 := by
      rw [hlen, show l = buf.length - t % buf.length by omega]
      exact Cyclic.round_end hn t
    generalize buf.blit (t % buf.length) (ys.take l) = buf' at *
    have hsum : (xs ++ ys.take l).length = xs.length + l := by rw [length_append, htake]
    have hold : Lies (buf'.blit ((t + l) % buf'.length) (ys.drop l)) s (xs ++ ys.take l) :=
      hboth.blit (by omega) (by omega) (by omega)
    have hnew : Lies (buf'.blit ((t + l) % buf'.length) (ys.drop l)) (t + l) (ys.drop l) :=
      lies_blit_self (by omega)
    rw [hend] at hold hnew
    have hall := lies_append.mpr ⟨hold, show Lies _ (s + (xs ++ ys.take l).length) _ by
      rwa [hsum, ← Nat.add_assoc, ← ht]⟩
    rwa [append_assoc, take_append_drop] at hall

end List
