import Mathlib.Data.List.Nodup
import Mathlib.Logic.Function.Basic

/-!
# Circular doubly linked lists

`next` and `prev` are two maps from addresses to addresses, `none` being the null pointer.
`Seg` is a chain of nodes linked both ways, and a ring is a chain from a head through
distinct nodes back to it.
-/

namespace Ring

variable {A : Type*}

/-- From `a` through `xs` to `b`, each node linked to the next and back. -/
def Seg (next prev : A → Option A) : A → List A → A → Prop
  | a, [], b => next a = some b ∧ prev b = some a
  | a, x :: xs, b => (next a = some x ∧ prev x = some a) ∧ Seg next prev x xs b

/-- `head` and the nodes `xs`, in a circle. -/
structure IsRing (next prev : A → Option A) (head : A) (xs : List A) : Prop where
  nodup : (head :: xs).Nodup
  circle : Seg next prev head xs head

variable {next next' prev prev' : A → Option A}

theorem seg_append {a x b : A} {xs ys : List A} :
    Seg next prev a (xs ++ x :: ys) b ↔ Seg next prev a xs x ∧ Seg next prev x ys b := by
  induction xs generalizing a with
  | nil => exact Iff.rfl
  | cons y xs ih =>
      show (_ ∧ Seg next prev y (xs ++ x :: ys) b) ↔ (_ ∧ Seg next prev y xs x) ∧ _
      rw [ih]
      exact and_assoc.symm

/-- A chain only depends on the links between its nodes. -/
theorem Seg.congr {a b : A} {xs : List A} (h : Seg next prev a xs b)
    (hnext : ∀ c ∈ a :: xs, next' c = next c) (hprev : ∀ c ∈ xs ++ [b], prev' c = prev c) :
    Seg next' prev' a xs b := by
  induction xs generalizing a with
  | nil =>
      obtain ⟨h1, h2⟩ := h
      exact ⟨(hnext a (by simp)).trans h1, (hprev b (by simp)).trans h2⟩
  | cons x xs ih =>
      obtain ⟨⟨h1, h2⟩, hrest⟩ := h
      refine ⟨⟨(hnext a (by simp)).trans h1, (hprev x (by simp)).trans h2⟩, ?_⟩
      exact ih hrest (fun c hc => hnext c (List.mem_cons_of_mem _ hc))
        fun c hc => hprev c (List.mem_cons_of_mem _ hc)

/-- The head's successor is the first node, or the head itself. -/
theorem IsRing.next_head {head : A} {xs : List A} (h : IsRing next prev head xs) :
    next head = some (xs.head?.getD head) := by
  cases xs with
  | nil => exact h.circle.1
  | cons x xs => exact h.circle.1.1

variable [DecidableEq A]

/-- **Linking in a node before the head**, that is, as the last one. -/
theorem IsRing.insert_last {head a : A} {xs : List A} (h : IsRing next prev head xs)
    (ha : a ∉ head :: xs) : ∃ l, prev head = some l ∧
      IsRing (Function.update (Function.update next a (some head)) l (some a))
        (Function.update (Function.update prev head (some a)) a (some l)) head (xs ++ [a]) := by
  obtain ⟨hnodup, hcircle⟩ := h
  have hnd : (head :: (xs ++ [a])).Nodup := by
    rw [← List.cons_append]
    exact List.nodup_append.mpr ⟨hnodup, by simp, by
      intro b hb c hc
      obtain rfl := List.mem_singleton.mp hc
      rintro rfl
      exact ha hb⟩
  have hah : a ≠ head := fun h => ha (h ▸ List.mem_cons_self)
  rcases List.eq_nil_or_concat xs with rfl | ⟨ys, l, rfl⟩
  · -- the first node
    refine ⟨head, hcircle.2, hnd, ⟨?_, ?_⟩, ?_, ?_⟩
    · rw [Function.update_self]
    · rw [Function.update_self]
    · rw [Function.update_of_ne hah, Function.update_self]
    · rw [Function.update_of_ne hah.symm, Function.update_self]
  · -- behind the last node `l`: the links of `l`, `a` and the head change, no others
    rw [List.concat_eq_append] at *
    obtain ⟨hseg, hlast⟩ := seg_append.mp hcircle
    have hal : a ≠ l := fun h => ha (by simp [h])
    have hlh : head ∉ ys ++ [l] := (List.nodup_cons.mp hnodup).1
    have hlys : l ∉ head :: ys := by
      rw [← List.cons_append] at hnodup
      have hdisj := (List.nodup_append.mp hnodup).2.2
      exact fun hmem => hdisj l hmem l (by simp) rfl
    refine ⟨l, hlast.2, hnd, ?_⟩
    rw [List.append_assoc, List.singleton_append, seg_append]
    refine ⟨hseg.congr ?_ ?_, ⟨?_, ?_⟩, ?_, ?_⟩
    · intro c hc
      have hcl : c ≠ l := fun h => hlys (h ▸ hc)
      have hca : c ≠ a := by
        rintro rfl
        rcases List.mem_cons.mp hc with rfl | hc
        · exact hah rfl
        · exact ha (by simp [hc])
      rw [Function.update_of_ne hcl, Function.update_of_ne hca]
    · intro c hc
      have hca : c ≠ a := fun h => ha (h ▸ List.mem_cons_of_mem _ hc)
      have hch : c ≠ head := fun h => hlh (h ▸ hc)
      rw [Function.update_of_ne hca, Function.update_of_ne hch]
    · rw [Function.update_self]
    · rw [Function.update_self]
    · rw [Function.update_of_ne hal, Function.update_self]
    · rw [Function.update_of_ne hah.symm, Function.update_self]

/-- **Unlinking the first node.** -/
theorem IsRing.remove_first {head a : A} {xs : List A} (h : IsRing next prev head (a :: xs)) :
    prev a = some head ∧ ∃ n, next a = some n ∧
      IsRing (Function.update (Function.update next head (some n)) a none)
        (Function.update (Function.update prev n (some head)) a none) head xs := by
  obtain ⟨hnodup, ⟨_, hprev⟩, hrest⟩ := h
  have hah : a ≠ head := fun h => (List.nodup_cons.mp hnodup).1 (h ▸ List.mem_cons_self)
  have hnd : (head :: xs).Nodup := hnodup.sublist (by simp)
  refine ⟨hprev, ?_⟩
  cases xs with
  | nil =>
      -- the only node
      refine ⟨head, hrest.1, hnd, ?_, ?_⟩
      · rw [Function.update_of_ne hah.symm, Function.update_self]
      · rw [Function.update_of_ne hah.symm, Function.update_self]
  | cons n xs =>
      -- the head and `n` are linked to each other
      obtain ⟨⟨hn, _⟩, hseg⟩ := hrest
      have hne : n ≠ head := fun h => (List.nodup_cons.mp hnd).1 (h ▸ List.mem_cons_self)
      have hanx : a ∉ n :: xs := (List.nodup_cons.mp (List.nodup_cons.mp hnodup).2).1
      have hna : n ≠ a := fun h => hanx (h ▸ List.mem_cons_self)
      refine ⟨n, hn, hnd, ⟨?_, ?_⟩, hseg.congr ?_ ?_⟩
      · rw [Function.update_of_ne hah.symm, Function.update_self]
      · rw [Function.update_of_ne hna, Function.update_self]
      · intro c hc
        have hca : c ≠ a := fun h => hanx (h ▸ hc)
        have hch : c ≠ head := fun h => (List.nodup_cons.mp hnd).1 (h ▸ hc)
        rw [Function.update_of_ne hca, Function.update_of_ne hch]
      · intro c hc
        have hca : c ≠ a := by
          rintro rfl
          rcases List.mem_append.mp hc with hc | hc
          · exact hanx (List.mem_cons_of_mem _ hc)
          · exact hah (List.mem_singleton.mp hc)
        have hcn : c ≠ n := by
          rintro rfl
          rcases List.mem_append.mp hc with hc | hc
          · exact (List.nodup_cons.mp (List.nodup_cons.mp hnd).2).1 hc
          · exact hne (List.mem_singleton.mp hc)
        rw [Function.update_of_ne hca, Function.update_of_ne hcn]

end Ring
