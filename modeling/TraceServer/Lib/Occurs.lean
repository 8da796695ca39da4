import Mathlib.Data.List.Infix

/-!
# Occurrences of a pattern in a list

`OccursAt p t i` says that `p` stands in `t` at offset `i`, and `IsFirstOcc p t i`
that this is its least offset. `firstOcc` computes it. What a search routine of a
byte-string library returns is stated with these two predicates, whatever tables it
uses to skip ahead.
-/

namespace List

variable {α : Type*}

/-- `p` stands in `t` at offset `i`. -/
def OccursAt (p t : List α) (i : Nat) : Prop := p <+: t.drop i

/-- `i` is the least offset at which `p` stands in `t`. -/
structure IsFirstOcc (p t : List α) (i : Nat) : Prop where
  /-- The pattern is there. -/
  occurs : OccursAt p t i
  /-- It is nowhere earlier. -/
  least : ∀ j < i, ¬ OccursAt p t j

/-- The least offset at which `p` stands in `t`. -/
def firstOcc [DecidableEq α] (p : List α) : List α → Option Nat
  | [] => if p = [] then some 0 else none
  | a :: t => if p.isPrefixOf (a :: t) then some 0 else (firstOcc p t).map (· + 1)

theorem OccursAt.le {p t : List α} {i : Nat} (h : OccursAt p t i) (hp : p ≠ []) :
    i + p.length ≤ t.length := by
  have h1 := h.length_le
  have h2 : 0 < p.length := length_pos_iff.mpr hp
  rw [length_drop] at h1
  omega

/-- What stands in front of an occurrence, and what stands behind it. -/
theorem OccursAt.split {p t : List α} {i : Nat} (h : OccursAt p t i) (hp : p ≠ []) :
    ∃ a b, t = a ++ (p ++ b) ∧ a.length = i := by
  have hle := h.le hp
  obtain ⟨b, hb⟩ := h
  refine ⟨t.take i, b, ?_, ?_⟩
  · rw [hb, take_append_drop]
  · rw [length_take]
    omega

theorem OccursAt.isInfix {p t : List α} {i : Nat} (h : OccursAt p t i) : p <:+: t :=
  (IsPrefix.isInfix h).trans (drop_suffix i t).isInfix

/-- What is in a text is somewhere in it. -/
theorem exists_occursAt {p t : List α} (h : p <:+: t) : ∃ i, OccursAt p t i := by
  obtain ⟨a, b, rfl⟩ := h
  refine ⟨a.length, ?_⟩
  unfold OccursAt
  rw [append_assoc, drop_left]
  exact prefix_append p b

/-- Where `p ++ q` is, `q` comes behind `p`. -/
theorem OccursAt.behind {p q t : List α} {i : Nat} (h : OccursAt (p ++ q) t i) :
    OccursAt q t (i + p.length) := by
  obtain ⟨u, hu⟩ := h
  unfold OccursAt
  rw [← drop_drop, ← hu, append_assoc, drop_left]
  exact prefix_append q u

/-- A text that goes on after `t` has at an offset inside `t` what `t` has there. -/
theorem occursAt_append {p t u : List α} {i : Nat} (hi : i + p.length ≤ t.length) :
    OccursAt p (t ++ u) i ↔ OccursAt p t i := by
  unfold OccursAt
  rw [drop_append_of_le_length (by omega)]
  constructor
  · intro h
    exact prefix_of_prefix_length_le h (prefix_append _ _) (by rw [length_drop]; omega)
  · intro h
    exact h.trans (prefix_append _ _)

/-- A first occurrence stays the first one when the text goes on. -/
theorem IsFirstOcc.extend {p t u : List α} {i : Nat} (h : IsFirstOcc p t i) (hp : p ≠ []) :
    IsFirstOcc p (t ++ u) i where
  occurs := (occursAt_append (h.occurs.le hp)).mpr h.occurs
  least := by
    intro j hj hocc
    have hle := h.occurs.le hp
    exact h.least j hj ((occursAt_append (by omega)).mp hocc)

theorem IsFirstOcc.unique {p t : List α} {i j : Nat} (hi : IsFirstOcc p t i)
    (hj : IsFirstOcc p t j) : i = j := by
  rcases Nat.lt_trichotomy i j with h | h | h
  · exact absurd hi.occurs (hj.least i h)
  · exact h
  · exact absurd hj.occurs (hi.least j h)

/-- What occurs has a first occurrence. -/
theorem exists_isFirstOcc {p t : List α} (h : ∃ i, OccursAt p t i) : ∃ i, IsFirstOcc p t i := by
  by_contra hno
  obtain ⟨i, hi⟩ := h
  revert hi
  exact Nat.strong_induction_on i fun j ih hocc => hno ⟨j, hocc, ih⟩

/-- An occurrence agrees with the text byte by byte. -/
theorem occursAt_iff_getElem? {p t : List α} {i : Nat} :
    OccursAt p t i ↔ ∀ k < p.length, t[i + k]? = p[k]? := by
  unfold OccursAt
  rw [prefix_iff_getElem?]
  constructor
  · intro h k hk
    rw [getElem?_eq_getElem hk, ← h k hk, getElem?_drop]
  · intro h k hk
    rw [getElem?_drop, h k hk, getElem?_eq_getElem hk]

/-! ## Skipping ahead

A search that moves on by more than one offset at a time is right as long as it
never moves over an occurrence. -/

/-- There is no occurrence before offset `i`. -/
def NoneBefore (p t : List α) (i : Nat) : Prop := ∀ j < i, ¬ OccursAt p t j

theorem noneBefore_zero (p t : List α) : NoneBefore p t 0 :=
  fun j hj => absurd hj (Nat.not_lt_zero j)

/-- **The skip rule.** No occurrence at `i` and none up to `i + d` is none before `i + d`. -/
theorem NoneBefore.skip {p t : List α} {i d : Nat} (h : NoneBefore p t i)
    (hi : ¬ OccursAt p t i) (hd : ∀ e, 0 < e → e < d → ¬ OccursAt p t (i + e)) :
    NoneBefore p t (i + d) := by
  intro j hj
  rcases Nat.lt_trichotomy j i with hlt | rfl | hgt
  · exact h j hlt
  · exact hi
  · obtain ⟨e, rfl⟩ := Nat.exists_eq_add_of_lt hgt
    rw [Nat.add_assoc] at hj ⊢
    exact hd (e + 1) (Nat.succ_pos e) (by omega)

/-- Past the last window there is nothing left to find. -/
theorem NoneBefore.nowhere {p t : List α} {i : Nat} (h : NoneBefore p t i) (hp : p ≠ [])
    (hi : t.length < i + p.length) (j : Nat) : ¬ OccursAt p t j := by
  intro hocc
  have := hocc.le hp
  exact h j (by omega) hocc

theorem NoneBefore.isFirstOcc {p t : List α} {i : Nat} (h : NoneBefore p t i)
    (hi : OccursAt p t i) : IsFirstOcc p t i := ⟨hi, h⟩

/-! ## Comparing from the back

A window that is compared from its last place down to a mismatch knows the text behind the
mismatch. Moved by `d`, the pattern has to agree there with what it was itself compared to. -/

/-- The window at `i` agrees with the pattern behind place `j`. -/
def AgreesBehind (p t : List α) (i j : Nat) : Prop :=
  ∀ k, j < k → k < p.length → t[i + k]? = p[k]?

/-- Moved by `d`, the pattern agrees with itself behind place `j`. -/
def FitsBehind (p : List α) (j d : Nat) : Prop :=
  ∀ k, j < k → k < p.length → d ≤ k → p[k - d]? = p[k]?

/-- The same, but for what would be put against the first place. -/
def FitsInside (p : List α) (j d : Nat) : Prop :=
  ∀ k, j < k → k < p.length → d < k → p[k - d]? = p[k]?

theorem FitsBehind.inside {p : List α} {j d : Nat} (h : FitsBehind p j d) : FitsInside p j d :=
  fun k hjk hk hd => h k hjk hk (Nat.le_of_lt hd)

/-- **The rule of the good suffix.** Only a move that fits what has been compared can lead to an
occurrence. -/
theorem OccursAt.fitsBehind {p t : List α} {i j d : Nat} (h : OccursAt p t (i + d))
    (hagree : AgreesBehind p t i j) : FitsBehind p j d := by
  intro k hjk hk hd
  have hmoved := occursAt_iff_getElem?.mp h (k - d) (by omega)
  rw [show i + d + (k - d) = i + k by omega, hagree k hjk hk] at hmoved
  exact hmoved.symm

/-- **The rule of the bad byte.** Moved by `d ≤ j`, the pattern has the byte of the text against
place `j` at place `j - d`. -/
theorem OccursAt.getElem?_sub {p t : List α} {i j d : Nat} (h : OccursAt p t (i + d)) (hd : d ≤ j)
    (hj : j < p.length) : p[j - d]? = t[i + j]? := by
  have hmoved := occursAt_iff_getElem?.mp h (j - d) (by omega)
  rw [show i + d + (j - d) = i + j by omega] at hmoved
  exact hmoved.symm

theorem occursAt_zero {p t : List α} : OccursAt p t 0 ↔ p <+: t := by simp [OccursAt]

theorem occursAt_cons_succ {p t : List α} {a : α} {i : Nat} :
    OccursAt p (a :: t) (i + 1) ↔ OccursAt p t i := by simp [OccursAt]

/-! ## Text in front

What stands in front of a text and has not the first element of the pattern in it only moves
the occurrences. -/

theorem occursAt_append_add {p u t : List α} {k : Nat} :
    OccursAt p (u ++ t) (u.length + k) ↔ OccursAt p t k := by
  unfold OccursAt
  rw [drop_append, drop_of_length_le (Nat.le_add_right _ _), nil_append, Nat.add_sub_cancel_left]

theorem occursAt_append_of_not_mem {a : α} {p u t : List α} {i : Nat} (ha : a ∉ u) :
    OccursAt (a :: p) (u ++ t) i ↔ ∃ k, i = u.length + k ∧ OccursAt (a :: p) t k := by
  constructor
  · intro h
    have hle : u.length ≤ i := by
      by_contra hlt
      -- the first element of the pattern would be in `u`
      have h0 := occursAt_iff_getElem?.mp h 0 (Nat.succ_pos _)
      rw [Nat.add_zero, getElem?_append_left (by omega)] at h0
      exact ha (mem_of_getElem? h0)
    obtain ⟨k, rfl⟩ := Nat.exists_eq_add_of_le hle
    exact ⟨k, rfl, occursAt_append_add.mp h⟩
  · rintro ⟨k, rfl, h⟩
    exact occursAt_append_add.mpr h

/-- When all occurrences are moved by `n`, the first one is. -/
theorem IsFirstOcc.shift {p t t' : List α} {n k : Nat}
    (h : ∀ i, OccursAt p t' i ↔ ∃ k, i = n + k ∧ OccursAt p t k) (hk : IsFirstOcc p t k) :
    IsFirstOcc p t' (n + k) where
  occurs := (h _).mpr ⟨k, rfl, hk.occurs⟩
  least := by
    intro j hj hocc
    obtain ⟨l, rfl, hl⟩ := (h j).mp hocc
    exact hk.least l (by omega) hl

/-- Up to a separator that is in neither of them, one list can only be another's prefix when it
is the other. -/
theorem append_singleton_prefix_iff {c : α} : ∀ {a b t : List α}, c ∉ a → c ∉ b →
    (a ++ [c] <+: b ++ c :: t ↔ a = b)
  | [], [], t, _, _ => by simp
  | [], d :: b, t, _, hb => by
      have hne : c ≠ d := fun h => hb (h ▸ mem_cons_self)
      simp [cons_prefix_cons, hne]
  | d :: a, [], t, ha, _ => by
      have hne : d ≠ c := fun h => ha (h ▸ mem_cons_self)
      simp [cons_prefix_cons, hne]
  | d :: a, e :: b, t, ha, hb => by
      rw [cons_append, cons_append, cons_prefix_cons, cons.injEq,
        append_singleton_prefix_iff (fun h => ha (mem_cons_of_mem _ h))
          (fun h => hb (mem_cons_of_mem _ h))]

/-! ## Separators

An element that a pattern has at its end only, or not at all, cuts the text into pieces that can
be searched one by one. -/

theorem occursAt_append_cons_add {c : α} {p a t : List α} {k : Nat} :
    OccursAt p (a ++ c :: t) (a.length + 1 + k) ↔ OccursAt p t k := by
  have h := @occursAt_append_add α p (a ++ [c]) t k
  rwa [append_assoc, singleton_append, length_append, length_singleton] at h

/-- A pattern that ends in `c` stands in front of the first `c` of a text, or behind it. -/
theorem occursAt_append_cons_of_last {c : α} {p a t : List α} {i : Nat} (hp : c ∉ p) (ha : c ∉ a) :
    OccursAt (p ++ [c]) (a ++ c :: t) i
      ↔ (p <:+ a ∧ i + p.length = a.length) ∨ ∃ k, i = a.length + 1 + k ∧ OccursAt (p ++ [c]) t k := by
  have hlen : (p ++ [c]).length = p.length + 1 := length_append
  constructor
  · intro h
    have hocc := occursAt_iff_getElem?.mp h
    rcases Nat.lt_or_ge a.length i with hlt | hge
    · -- behind the first `c`
      obtain ⟨k, rfl⟩ := Nat.exists_eq_add_of_le hlt
      exact Or.inr ⟨k, rfl, occursAt_append_cons_add.mp h⟩
    · -- the `c` at the end of the pattern is the first one of the text
      have hend : i + p.length = a.length := by
        rcases Nat.lt_trichotomy (i + p.length) a.length with hlt | heq | hgt
        · have hc := hocc p.length (by omega)
          rw [getElem?_append_left hlt, getElem?_append_right (Nat.le_refl _), Nat.sub_self] at hc
          exact absurd (mem_of_getElem? hc) ha
        · exact heq
        · have hc := hocc (a.length - i) (by omega)
          rw [show i + (a.length - i) = a.length by omega, getElem?_append_right (Nat.le_refl _),
            Nat.sub_self, getElem?_append_left (by omega)] at hc
          exact absurd (mem_of_getElem? hc.symm) hp
      refine Or.inl ⟨⟨a.take i, ?_⟩, hend⟩
      unfold OccursAt at h
      rw [drop_append_of_le_length (by omega)] at h
      have heq := prefix_of_prefix_length_le ((prefix_append p [c]).trans h)
        (prefix_append _ _) (by rw [length_drop]; omega)
      rw [heq.eq_of_length (by rw [length_drop]; omega), take_append_drop]
  · rintro (⟨⟨u, rfl⟩, hi⟩ | ⟨k, rfl, h⟩)
    · rw [length_append] at hi
      unfold OccursAt
      rw [show i = u.length by omega, append_assoc, drop_left]
      exact ⟨t, by rw [append_assoc, singleton_append]⟩
    · exact occursAt_append_cons_add.mpr h

/-- A pattern without `c` that does not stand in front of a `c` stands behind it. -/
theorem occursAt_append_cons_of_not_mem {c : α} {p a t : List α} {i : Nat} (hp : c ∉ p)
    (ha : ¬ p <:+: a) :
    OccursAt p (a ++ c :: t) i ↔ ∃ k, i = a.length + 1 + k ∧ OccursAt p t k := by
  constructor
  · intro h
    rcases Nat.lt_or_ge a.length i with hlt | hge
    · obtain ⟨k, rfl⟩ := Nat.exists_eq_add_of_le hlt
      exact ⟨k, rfl, occursAt_append_cons_add.mp h⟩
    · -- the occurrence would be in `a`, or have the `c` in it
      rcases Nat.lt_or_ge a.length (i + p.length) with hover | hin
      · have hc := occursAt_iff_getElem?.mp h (a.length - i) (by omega)
        rw [show i + (a.length - i) = a.length by omega, getElem?_append_right (Nat.le_refl _),
          Nat.sub_self] at hc
        exact absurd (mem_of_getElem? hc.symm) hp
      · exact absurd ((occursAt_append hin).mp h).isInfix ha
  · rintro ⟨k, rfl, h⟩
    exact occursAt_append_cons_add.mpr h

variable [DecidableEq α]

/-- **`firstOcc` finds the first occurrence.** -/
theorem firstOcc_spec {p t : List α} {i : Nat} (h : firstOcc p t = some i) :
    IsFirstOcc p t i := by
  induction t generalizing i with
  | nil =>
      rw [firstOcc] at h
      split at h
      · rename_i hp
        obtain rfl : 0 = i := Option.some.inj h
        exact ⟨by simp [OccursAt, hp], fun j hj => absurd hj (Nat.not_lt_zero j)⟩
      · exact absurd h (by simp)
  | cons a t ih =>
      rw [firstOcc] at h
      split at h
      · rename_i hp
        obtain rfl : 0 = i := Option.some.inj h
        exact ⟨occursAt_zero.mpr ( isPrefixOf_iff_prefix.mp hp),
          fun j hj => absurd hj (Nat.not_lt_zero j)⟩
      · rename_i hp
        obtain ⟨k, hk, rfl⟩ := Option.map_eq_some_iff.mp h
        refine ⟨occursAt_cons_succ.mpr (ih hk).occurs, ?_⟩
        intro j hj hocc
        cases j with
        | zero => exact hp ( isPrefixOf_iff_prefix.mpr (occursAt_zero.mp hocc))
        | succ j => exact (ih hk).least j (by omega) (occursAt_cons_succ.mp hocc)

/-- What occurs is found. -/
theorem exists_firstOcc {p t : List α} {i : Nat} (h : OccursAt p t i) :
    ∃ k, firstOcc p t = some k := by
  induction t generalizing i with
  | nil =>
      unfold OccursAt at h
      rw [drop_nil, prefix_nil] at h
      exact ⟨0, by rw [firstOcc, if_pos h]⟩
  | cons a t ih =>
      rw [firstOcc]
      by_cases hp : p.isPrefixOf (a :: t) = true
      · exact ⟨0, by rw [if_pos hp]⟩
      · rw [if_neg hp]
        cases i with
        | zero => exact absurd ( isPrefixOf_iff_prefix.mpr (occursAt_zero.mp h)) hp
        | succ i =>
            obtain ⟨k, hk⟩ := ih (occursAt_cons_succ.mp h)
            exact ⟨k + 1, by rw [hk, Option.map_some]⟩

theorem firstOcc_eq_some {p t : List α} {i : Nat} (h : IsFirstOcc p t i) :
    firstOcc p t = some i := by
  obtain ⟨k, hk⟩ := exists_firstOcc h.occurs
  rw [hk, (firstOcc_spec hk).unique h]

theorem firstOcc_eq_some_iff {p t : List α} {i : Nat} :
    firstOcc p t = some i ↔ IsFirstOcc p t i := ⟨firstOcc_spec, firstOcc_eq_some⟩

theorem isSome_firstOcc {p t : List α} : (firstOcc p t).isSome = true ↔ p <:+: t := by
  constructor
  · intro h
    obtain ⟨i, hi⟩ := Option.isSome_iff_exists.mp h
    exact (firstOcc_spec hi).occurs.isInfix
  · intro h
    obtain ⟨i, hi⟩ := exists_occursAt h
    obtain ⟨k, hk⟩ := exists_firstOcc hi
    rw [hk, Option.isSome_some]

end List
