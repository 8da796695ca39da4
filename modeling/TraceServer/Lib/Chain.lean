import Mathlib.Data.List.Nodup
import Mathlib.Logic.Function.Basic

/-!
# Singly linked lists in memory

A memory maps addresses to cells, and of a cell only what `next` reads from it matters
here. `Chain mem head cells` says that from `head` the list runs through the addresses of
`cells`, each of which holds the cell listed with it, and ends there.

Whoever adds at the end has to walk there first (`lastCell`), with fuel, since a memory may
hold a ring. The walk ends as soon as the fuel is the length of the list.
-/

variable {κ γ : Type*} (next : γ → Option κ)

/-- The linked list at `head` is `cells`, each with its address. -/
def Chain (mem : κ → Option γ) : Option κ → List (κ × γ) → Prop
  | head, [] => head = none
  | head, (p, cell) :: cells => head = some p ∧ mem p = some cell ∧ Chain mem (next cell) cells

/-- The loop that goes from `p` to the last cell: `while (member->next)`. -/
def lastCell (mem : κ → Option γ) : Nat → κ → Option κ
  | 0, _ => none
  | fuel + 1, p =>
    match mem p with
    | none => none
    | some cell =>
      match next cell with
      | none => some p
      | some q => lastCell mem fuel q

namespace Chain

variable {next} {mem mem' : κ → Option γ} {head : Option κ} {cells : List (κ × γ)}

/-- An empty list has no head, and a list without head is empty. -/
theorem head_eq_none_iff (h : Chain next mem head cells) : head = none ↔ cells = [] := by
  cases cells with
  | nil => exact ⟨fun _ => rfl, fun _ => h⟩
  | cons c cells => exact ⟨fun hnone => absurd (h.1.symm.trans hnone) (by simp), fun h => by simp at h⟩

theorem mem_eq (h : Chain next mem head cells) {p : κ} {cell : γ} (hmem : (p, cell) ∈ cells) :
    mem p = some cell := by
  induction cells generalizing head with
  | nil => exact absurd hmem List.not_mem_nil
  | cons c cells ih =>
      rcases List.mem_cons.mp hmem with rfl | hmem
      · exact h.2.1
      · exact ih h.2.2 hmem

/-- What is not in the list may change. -/
theorem congr (h : Chain next mem head cells) (hsame : ∀ c ∈ cells, mem' c.1 = mem c.1) :
    Chain next mem' head cells := by
  induction cells generalizing head with
  | nil => exact h
  | cons c cells ih =>
      obtain ⟨hhead, hcell, hrest⟩ := h
      refine ⟨hhead, (hsame c List.mem_cons_self).trans hcell, ih hrest ?_⟩
      intro x hx
      exact hsame x (List.mem_cons_of_mem _ hx)

/-- **The walk reaches the last cell.** -/
theorem lastCell_eq (h : Chain next mem head cells) {p : κ} (hhead : head = some p) {fuel : Nat}
    (hfuel : cells.length ≤ fuel) :
    ∃ rest q cell, cells = rest ++ [(q, cell)] ∧ lastCell next mem fuel p = some q := by
  induction cells generalizing head p fuel with
  | nil => exact absurd (hhead.symm.trans h) (by simp)
  | cons c cells ih =>
      obtain ⟨hc, hcell, hrest⟩ := h
      obtain rfl : c.1 = p := Option.some.inj (hc.symm.trans hhead)
      obtain ⟨fuel, rfl⟩ : ∃ k, fuel = k + 1 := ⟨fuel - 1, by simp at hfuel; omega⟩
      cases hnext : next c.2 with
      | none =>
          obtain rfl : cells = [] := (head_eq_none_iff hrest).mp hnext
          exact ⟨[], c.1, c.2, rfl, by simp only [lastCell, hcell, hnext]⟩
      | some p' =>
          have hlen : cells.length ≤ fuel := by simpa using hfuel
          obtain ⟨rest, q, cell, rfl, hlast⟩ := ih hrest hnext hlen
          exact ⟨c :: rest, q, cell, rfl, by simp only [lastCell, hcell, hnext, hlast]⟩

/-- **A cell is added at the end**: the last cell `q` is made to point to it. -/
theorem append {rest : List (κ × γ)} {q p : κ} {cell cell' new : γ}
    (h : Chain next mem head (rest ++ [(q, cell)])) (hq : mem' q = some cell')
    (hnext : next cell' = some p) (hp : mem' p = some new) (hend : next new = none)
    (hsame : ∀ c ∈ rest, mem' c.1 = mem c.1) :
    Chain next mem' head (rest ++ [(q, cell'), (p, new)]) := by
  induction rest generalizing head with
  | nil => exact ⟨h.1, hq, hnext, hp, hend⟩
  | cons c rest ih =>
      obtain ⟨hhead, hcell, hrest⟩ := h
      refine ⟨hhead, (hsame c List.mem_cons_self).trans hcell, ih hrest ?_⟩
      intro x hx
      exact hsame x (List.mem_cons_of_mem _ hx)

end Chain
