import Mathlib.Data.List.Nodup
import Mathlib.Data.List.Perm.Basic

/-!
# Things that are taken in, held, and given out again

`Custody ins held outs` says that what has been taken in is, thing by thing, either held
or given out, and given out once. Three rules keep it; what it is worth is `once`: when
no two of the things taken in are the same, none is given out twice, and none that has
been given out is still held.
-/

variable {α : Type*}

/-- Everything taken in is held or has been given out. -/
def Custody (ins held outs : List α) : Prop := (outs ++ held).Perm ins

namespace Custody

variable {ins held held' outs outs' : List α}

theorem empty : Custody ([] : List α) [] [] := .refl _

/-- Something is taken in. -/
theorem enter {xs : List α} (h : Custody ins held outs) (hheld : held'.Perm (held ++ xs)) :
    Custody (ins ++ xs) held' outs := by
  unfold Custody at *
  refine (hheld.append_left outs).trans ?_
  rw [← List.append_assoc]
  exact h.append_right xs

/-- Something is given out. -/
theorem leave {gone : List α} (h : Custody ins held outs) (hgone : (gone ++ held').Perm held) :
    Custody ins held' (outs ++ gone) := by
  unfold Custody at *
  rw [List.append_assoc]
  exact (hgone.append_left outs).trans h

/-- The order does not matter. -/
theorem perm (h : Custody ins held outs) (hheld : held'.Perm held) (houts : outs'.Perm outs) :
    Custody ins held' outs' := (houts.append hheld).trans h

theorem once (h : Custody ins held outs) (hins : ins.Nodup) : (outs ++ held).Nodup :=
  h.nodup_iff.mpr hins

end Custody
