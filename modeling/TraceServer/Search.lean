import Mathlib.Data.List.GetD
import TraceServer.CString

/-!
# Byte search (`bm.c`, `user_string.c`)

`find_str` and `find_str_case` are `sunday` and `sunday_case`: a shift table built
from the pattern, and a scan that after a mismatch looks one byte past the window
to decide how far it may move. The byte at `text[text_size]` is read although it
is not part of the text; a buffer is read as `getD`, so that is a zero where the
model's list ends.

A pointer into a buffer is an offset. The loops carry fuel: a scan moves by at
least one byte, so `text_size` rounds are enough.
-/

namespace TraceServer

/-- `_T`: the other case of a letter. -/
def bmT (c : UInt8) : UInt8 :=
  if 65 ≤ c && c ≤ 90 then c + 32 else if 97 ≤ c && c ≤ 122 then c - 32 else c

def isLetter (c : UInt8) : Bool := (65 ≤ c && c ≤ 90) || (97 ≤ c && c ≤ 122)

/-- `_bm_cmp`: equality up to the case of letters. -/
def bmCmp (s c : UInt8) : Bool :=
  if isLetter s && isLetter c then s == c || s == bmT c else s == c

/-- `shift[patt[i]] = patt_size - i`, for every `i`. -/
def sundayShiftLoop (pattSize : Nat) : Nat → Bytes → (UInt8 → Nat) → UInt8 → Nat
  | _, [], shift => shift
  | i, c :: patt, shift =>
    sundayShiftLoop pattSize (i + 1) patt (Function.update shift c (pattSize - i))

def sundayShift (patt : Bytes) : UInt8 → Nat :=
  sundayShiftLoop patt.length 0 patt fun _ => patt.length + 1

/-- The same with an entry for the other case of every letter. -/
def sundayCaseShiftLoop (pattSize : Nat) : Nat → Bytes → (UInt8 → Nat) → UInt8 → Nat
  | _, [], shift => shift
  | i, c :: patt, shift =>
    let shift := Function.update shift c (pattSize - i)
    sundayCaseShiftLoop pattSize (i + 1) patt
      (if bmT c ≠ c then Function.update shift (bmT c) (pattSize - i) else shift)

def sundayCaseShift (patt : Bytes) : UInt8 → Nat :=
  sundayCaseShiftLoop patt.length 0 patt fun _ => patt.length + 1

/-- The inner `do … while`: bytes `match_size`, `match_size + 1`, … of the window
agree with the pattern. -/
def sundayMatch (cmp : UInt8 → UInt8 → Bool) (text patt : Bytes) (i : Nat) : Nat → Nat → Bool
  | 0, _ => false
  | fuel + 1, matchSize =>
    if matchSize = patt.length then true
    else if cmp (text.getD (i + matchSize) 0) (patt.getD matchSize 0) then
      sundayMatch cmp text patt i fuel (matchSize + 1)
    else false

/-- The outer loop. -/
def sundayLoop (cmp : UInt8 → UInt8 → Bool) (shift : UInt8 → Nat) (text patt : Bytes)
    (limit : Int) : Nat → Nat → Option Nat
  | 0, _ => none
  | fuel + 1, i =>
    if (i : Int) < limit then
      if cmp (text.getD i 0) (patt.getD 0 0) && sundayMatch cmp text patt i patt.length 1 then
        some i
      else
        sundayLoop cmp shift text patt limit fuel (i + shift (text.getD (i + patt.length) 0))
    else none

/-- `sunday`; the offset, or `none` for `-1`. -/
def sunday (text : Bytes) (textSize : Nat) (patt : Bytes) : Option Nat :=
  sundayLoop (· == ·) (sundayShift patt) text patt
    ((textSize : Int) - patt.length + 1) (textSize + 1) 0

/-- `sunday_case`. -/
def sundayCase (text : Bytes) (textSize : Nat) (patt : Bytes) : Option Nat :=
  sundayLoop bmCmp (sundayCaseShift patt) text patt
    ((textSize : Int) - patt.length + 1) (textSize + 1) 0

/-! ## The same with the `int`s of the source -/

/-- How a call of `sunday` comes out. -/
inductive SundayEnd where
  | returns (ret : Int)
  /-- A sum of `int`s has overflowed, which leaves the rest undefined. -/
  | overflow
  | outOfFuel
deriving DecidableEq, Repr

/-- The outer loop. Only its last sum can overflow: inside the limit `i + patt_size` is at
most `text_size`. -/
def sundayIntLoop (cmp : UInt8 → UInt8 → Bool) (shift : UInt8 → Nat) (text patt : Bytes)
    (limit : Int) : Nat → Nat → SundayEnd
  | 0, _ => .outOfFuel
  | fuel + 1, i =>
    if (i : Int) < limit then
      if cmp (text.getD i 0) (patt.getD 0 0) && sundayMatch cmp text patt i patt.length 1 then
        .returns i
      else
        let next := i + shift (text.getD (i + patt.length) 0)
        if (next : Int) ≤ intMax then sundayIntLoop cmp shift text patt limit fuel next
        else .overflow
    else .returns (-1)

/-- `sunday`. The table is filled with `patt_size + 1`. -/
def sundayInt (text : Bytes) (textSize : Nat) (patt : Bytes) : SundayEnd :=
  if (patt.length : Int) + 1 ≤ intMax then
    sundayIntLoop (· == ·) (sundayShift patt) text patt ((textSize : Int) - patt.length + 1)
      (textSize + 1) 0
  else .overflow

/-- `sunday_case`. -/
def sundayCaseInt (text : Bytes) (textSize : Nat) (patt : Bytes) : SundayEnd :=
  if (patt.length : Int) + 1 ≤ intMax then
    sundayIntLoop bmCmp (sundayCaseShift patt) text patt ((textSize : Int) - patt.length + 1)
      (textSize + 1) 0
  else .overflow

/-! ## `user_string.c` -/

/-- `straddr`. -/
def straddr (buf find : Bytes) : Option Nat :=
  if strlen buf = 0 ∨ strlen find = 0 then none else sunday buf (strlen buf) (cstr find)

/-- `straddr_case`. -/
def straddrCase (buf find : Bytes) : Option Nat :=
  if strlen buf = 0 ∨ strlen find = 0 then none else sundayCase buf (strlen buf) (cstr find)

/-- `isdigit_str`. -/
def isdigitStr (s : Bytes) : Bool :=
  let digits := (cstr s).takeWhile isDigit
  0 < digits.length && digits.length == strlen s

/-! ## What a hit means -/

section Sound

variable {cmp : UInt8 → UInt8 → Bool} {shift : UInt8 → Nat} {text patt : Bytes} {limit : Int}

theorem sundayMatch_sound {i : Nat} : ∀ (fuel m : Nat), sundayMatch cmp text patt i fuel m = true →
    ∀ k, m ≤ k → k < patt.length → cmp (text.getD (i + k) 0) (patt.getD k 0) = true
  | 0, m, h => by exact absurd h (by simp [sundayMatch])
  | fuel + 1, m, h => by
      intro k hmk hk
      rw [sundayMatch] at h
      split at h
      · omega
      · split at h
        · rename_i hcmp
          rcases Nat.eq_or_lt_of_le hmk with rfl | hlt
          · exact hcmp
          · exact sundayMatch_sound fuel (m + 1) h k hlt hk
        · exact absurd h (by simp)

/-- A reported offset is inside the limit and the window there agrees with the pattern. -/
theorem sundayLoop_sound : ∀ (fuel i j : Nat),
    sundayLoop cmp shift text patt limit fuel i = some j →
    (j : Int) < limit ∧
      ∀ k < patt.length, cmp (text.getD (j + k) 0) (patt.getD k 0) = true
  | 0, i, j, h => by exact absurd h (by simp [sundayLoop])
  | fuel + 1, i, j, h => by
      rw [sundayLoop] at h
      split at h
      · rename_i hlim
        split at h
        · rename_i hm
          obtain rfl := Option.some.inj h
          obtain ⟨h0, hrest⟩ := Bool.and_eq_true_iff.mp hm
          refine ⟨hlim, fun k hk => ?_⟩
          rcases Nat.eq_zero_or_pos k with rfl | hpos
          · exact h0
          · exact sundayMatch_sound patt.length 1 hrest k hpos hk
        · exact sundayLoop_sound fuel _ j h
      · exact absurd h (by simp)

end Sound

/-- **What `sunday` reports is an occurrence.** -/
theorem sunday_sound {text patt : Bytes} {n i : Nat} (hn : n ≤ text.length)
    (h : sunday text n patt = some i) : List.OccursAt patt (text.take n) i := by
  obtain ⟨hlim, hall⟩ := sundayLoop_sound _ _ _ h
  have hle : i + patt.length ≤ n := by omega
  unfold List.OccursAt
  rw [List.prefix_iff_eq_take]
  refine List.ext_getElem ?_ fun k hk _ => ?_
  · rw [List.length_take, List.length_drop, List.length_take]; omega
  · have hkey := hall k hk
    rw [List.getD_eq_getElem _ _ (show i + k < text.length by omega),
      List.getD_eq_getElem _ _ hk] at hkey
    rw [List.getElem_take, List.getElem_drop, List.getElem_take]
    exact (beq_iff_eq.mp hkey).symm

/-- **What `straddr` reports is an occurrence in the string.** -/
theorem straddr_sound {buf find : Bytes} {i : Nat} (h : straddr buf find = some i) :
    List.OccursAt (cstr find) (cstr buf) i := by
  unfold straddr at h
  split at h
  · exact absurd h (by simp)
  · have hlen : strlen buf ≤ buf.length := (cstr_isPrefix buf).length_le
    have hs := sunday_sound hlen h
    have htake : buf.take (strlen buf) = cstr buf :=
      (List.prefix_iff_eq_take.mp (cstr_isPrefix buf)).symm
    rwa [htake] at hs

end TraceServer
