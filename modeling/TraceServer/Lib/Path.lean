import Mathlib.Data.List.Infix

/-!
# Paths as walks

A component of a path stays where one is, goes up, or goes down into a name. A path is
then a walk over the tree of directories, and it is confined to a directory when no
initial part of it leads out of there. A walk that never goes up is confined.

`steps` reads the walk off the text of a path: it is cut at the separator and each piece
is classified. Joining pieces that have no separator in them is undone by it.
-/

/-- What a component of a path does to the directory one is in. -/
inductive PathStep (N : Type*) where
  | stay
  | up
  | down (n : N)

namespace PathStep

variable {N : Type*}

/-- The directory a walk from `dir` ends in; there is nothing above the root. -/
def walk : List N → List (PathStep N) → List N
  | dir, [] => dir
  | dir, .stay :: w => walk dir w
  | dir, .up :: w => walk dir.dropLast w
  | dir, .down n :: w => walk (dir ++ [n]) w

/-- A walk from `dir` that at no point leaves `dir`. -/
def Confined (dir : List N) (w : List (PathStep N)) : Prop := ∀ v, v <+: w → dir <+: walk dir v

/-- Without going up one gets only deeper. -/
theorem prefix_walk {w : List (PathStep N)} (h : ∀ s ∈ w, s ≠ .up) (dir : List N) :
    dir <+: walk dir w := by
  induction w generalizing dir with
  | nil => exact List.prefix_rfl
  | cons s w ih =>
      have hw := ih fun x hx => h x (List.mem_cons_of_mem _ hx)
      cases s with
      | stay => exact hw dir
      | up => exact absurd rfl (h .up List.mem_cons_self)
      | down n => exact (List.prefix_append dir [n]).trans (hw (dir ++ [n]))

/-- **A walk that never goes up is confined.** -/
theorem confined_of_no_up {w : List (PathStep N)} (h : ∀ s ∈ w, s ≠ .up) (dir : List N) :
    Confined dir w :=
  fun _ hv => prefix_walk (fun s hs => h s (hv.subset hs)) dir

variable {α : Type*} [BEq α] [LawfulBEq α]

/-- The walk a text describes. -/
def steps (sep : α) (classify : List α → PathStep N) (p : List α) : List (PathStep N) :=
  (p.splitOn sep).map classify

/-- Joining components and cutting them apart again. -/
theorem steps_intercalate {sep : α} {classify : List α → PathStep N} {cs : List (List α)}
    (hsep : ∀ c ∈ cs, sep ∉ c) (hne : cs ≠ []) :
    steps sep classify ([sep].intercalate cs) = cs.map classify := by
  unfold steps
  rw [List.splitOn_intercalate sep hsep hne]

end PathStep
