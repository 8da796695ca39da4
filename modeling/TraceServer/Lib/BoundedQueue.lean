import Mathlib.Data.List.Basic

/-!
# A bounded queue that can be switched off

What a ring buffer is for: it holds up to `capacity` elements and gives them back in the
order they came. A `put` is all or nothing.
-/

/-- The elements stored, oldest first, and whether a `put` is let in. -/
structure BoundedQueue (α : Type*) where
  capacity : Nat
  stored : List α
  fits : stored.length ≤ capacity
  enabled : Bool

namespace BoundedQueue

variable {α : Type*}

def empty (capacity : Nat) : BoundedQueue α := ⟨capacity, [], Nat.zero_le _, false⟩

/-- All of `xs`, when the queue is enabled and has the room; what is returned is the number
of elements stored. -/
def put (q : BoundedQueue α) (xs : List α) : Nat × BoundedQueue α :=
  if h : q.enabled = true ∧ q.stored.length + xs.length ≤ q.capacity then
    (xs.length, { q with
      stored := q.stored ++ xs
      fits := by rw [List.length_append]; exact h.2 })
  else (0, q)

theorem put_of_fits {q : BoundedQueue α} (xs : List α) (hin : q.enabled = true)
    (hfit : q.stored.length + xs.length ≤ q.capacity) :
    (q.put xs).1 = xs.length ∧ (q.put xs).2.stored = q.stored ++ xs
      ∧ (q.put xs).2.capacity = q.capacity ∧ (q.put xs).2.enabled = q.enabled := by
  unfold put
  rw [dif_pos ⟨hin, hfit⟩]
  exact ⟨rfl, rfl, rfl, rfl⟩

theorem put_of_not_fits {q : BoundedQueue α} {xs : List α}
    (h : ¬ (q.enabled = true ∧ q.stored.length + xs.length ≤ q.capacity)) : q.put xs = (0, q) :=
  dif_neg h

/-- Removes the oldest `n` elements. -/
def drop (q : BoundedQueue α) (n : Nat) : BoundedQueue α :=
  { q with
    stored := q.stored.drop n
    fits := by
      have := q.fits
      rw [List.length_drop]
      omega }

/-- The oldest `n` elements, or all if there are fewer. -/
def read (q : BoundedQueue α) (n : Nat) : List α × BoundedQueue α := (q.stored.take n, q.drop n)

/-- Drops the oldest `n` elements, when there are as many. -/
def setOffset (q : BoundedQueue α) (n : Nat) : Nat × BoundedQueue α :=
  if n ≤ q.stored.length then (n, q.drop n) else (0, q)

def clean (q : BoundedQueue α) : BoundedQueue α := { q with stored := [], fits := Nat.zero_le _ }

def setEnabled (q : BoundedQueue α) (enabled : Bool) : BoundedQueue α := { q with enabled }

end BoundedQueue
