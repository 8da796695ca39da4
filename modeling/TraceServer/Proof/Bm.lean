import Mathlib.Order.Bounds.Basic
import TraceServer.Bm
import TraceServer.Proof.SundayCase

/-!
# No stride passes over a match (`bm`)

Either stride may stand still or go back. The skip entry of a byte puts its last place in the
pattern against it, and the shift entry of a place is the least move after which the pattern fits
what has been compared, its first place apart, so neither passes over an occurrence; and at every
mismatch one of the two is long enough to move the window on. The greater of the two is the least
move that both tables allow (`movesBy_iff`).
-/

namespace TraceServer

/-! ## `MakeSkip` -/

/-- The table is filled as that of `sunday` is, counted from the other end. -/
theorem makeSkipLoop_eq (m : Nat) : ∀ (ptrn : Bytes) (i : Nat) (skip : UInt8 → Nat),
    makeSkipLoop (m - i) ptrn skip = sundayShiftLoop m i ptrn skip
  | [], _, _ => rfl
  | c :: ptrn, i, skip => by
      rw [makeSkipLoop, sundayShiftLoop, Nat.sub_sub, makeSkipLoop_eq m ptrn (i + 1)]

/-- An entry is the length of the pattern, or the distance of the byte's last place from the
end. -/
theorem makeSkip_spec (ptrn : Bytes) (c : UInt8) :
    (c ∉ ptrn ∧ makeSkip ptrn c = ptrn.length)
      ∨ ∃ k, ptrn[k]? = some c ∧ (∀ l, k < l → ptrn[l]? ≠ some c)
        ∧ makeSkip ptrn c = ptrn.length - k := by
  have heq : makeSkip ptrn c = sundayShiftLoop ptrn.length 0 ptrn (fun _ => ptrn.length) c :=
    congrFun (makeSkipLoop_eq ptrn.length ptrn 0 _) c
  rw [heq]
  simpa only [Nat.zero_add] using sundayShiftLoop_spec ptrn.length c ptrn 0 fun _ => ptrn.length

/-- A byte that is not the last of the pattern has an entry above one. -/
theorem makeSkip_gt {ptrn : Bytes} {c : UInt8} (hp : 2 ≤ ptrn.length)
    (hlast : ptrn[ptrn.length - 1]? ≠ some c) : 1 < makeSkip ptrn c := by
  rcases makeSkip_spec ptrn c with ⟨_, hskip⟩ | ⟨k, hk, _, hskip⟩
  · omega
  · have hlt : k < ptrn.length := (List.getElem?_eq_some_iff.mp hk).1
    have hne : k ≠ ptrn.length - 1 := fun h => hlast (h ▸ hk)
    omega

/-! ## `MakeShift` -/

theorem byteAt_of_nonneg {buf : Bytes} {i : Int} (h : 0 ≤ i) : byteAt buf i = buf[i.toNat]? :=
  if_pos h

theorem byteAt_natCast (buf : Bytes) (i : Nat) : byteAt buf (i : Int) = buf[i]? :=
  if_pos (by omega)

/-- Inside the array there is a byte. -/
theorem byteAt_isSome (buf : Bytes) {i : Int} (h0 : 0 ≤ i) (h : i < buf.length) :
    ∃ b, byteAt buf i = some b := by
  rw [byteAt_of_nonneg h0]
  exact ⟨_, List.getElem?_eq_getElem (by omega)⟩

variable {ptrn : Bytes} {c : UInt8}

/-- `p1` goes down to the first place that has the byte `c` and one further, or off the front. -/
theorem shiftFind_spec : ∀ (fuel : Nat) (p1 : Int), -1 ≤ p1 → p1 < ptrn.length → p1 + 1 < fuel →
    ∃ p, shiftFind ptrn c fuel p1 = some p ∧ -1 ≤ p ∧ p ≤ p1 ∧ (0 ≤ p1 → p < p1)
      ∧ (0 ≤ p → byteAt ptrn (p + 1) = some c)
      ∧ ∀ m : Nat, p + 1 < m → m ≤ p1 → ptrn[m]? ≠ some c
  | 0, p1, hlow, _, hfuel => by omega
  | fuel + 1, p1, hlow, hhigh, hfuel => by
      rw [shiftFind]
      split
      · rename_i h0
        obtain ⟨b, hb⟩ := byteAt_isSome ptrn h0 hhigh
        rw [hb]
        dsimp only
        split
        · rename_i hne
          obtain ⟨p, hp, hplow, hple, _, hfound, hnone⟩ :=
            shiftFind_spec fuel (p1 - 1) (by omega) (by omega) (by omega)
          refine ⟨p, hp, hplow, by omega, fun _ => by omega, hfound, ?_⟩
          intro m hm hmle
          -- the place just looked at, or one further down
          rcases Int.lt_or_eq_of_le hmle with hlt | heq
          · exact hnone m hm (by omega)
          · rw [← heq, byteAt_natCast] at hb
            rw [hb]
            exact fun h => hne (Option.some.inj h)
        · rename_i heq
          refine ⟨p1 - 1, rfl, by omega, by omega, fun _ => by omega, ?_, fun m hm hmle => by omega⟩
          intro _
          rw [Int.sub_add_cancel, hb, not_not.mp heq]
      · exact ⟨p1, rfl, hlow, Int.le_refl _, fun h => by omega, fun h => by omega,
          fun m hm hmle => by omega⟩

/-- The comparison moves both pointers alike, over pairs of bytes that are the same. When it ends
inside the pattern and above `pptr`, the last pair differs. -/
theorem shiftCompare_spec (pptr : Int) : ∀ (fuel : Nat) (p3 p2 : Int), -1 ≤ p3 → p3 < p2 →
    p2 < ptrn.length → p3 + 1 < fuel →
    ∃ q3 q2, shiftCompare ptrn pptr fuel p3 p2 = some (q3, q2) ∧ q2 - q3 = p2 - p3 ∧ q3 ≤ p3
      ∧ (0 ≤ q3 → pptr ≤ q2 → q3 < p3 ∧ byteAt ptrn (q3 + 1) ≠ byteAt ptrn (q2 + 1))
      ∧ ∀ x, q3 + 1 < x → x ≤ p3 → byteAt ptrn x = byteAt ptrn (x + (p2 - p3))
  | 0, p3, p2, hlow, _, _, hfuel => by omega
  | fuel + 1, p3, p2, hlow, hlt, hhigh, hfuel => by
      rw [shiftCompare]
      split
      · rename_i h0
        obtain ⟨a, ha⟩ := byteAt_isSome ptrn h0 (by omega)
        obtain ⟨b, hb⟩ := byteAt_isSome ptrn (i := p2) (by omega) hhigh
        rw [ha, hb]
        dsimp only
        split
        · rename_i hgo
          obtain ⟨q3, q2, heq, hdist, hle, hdiff, hsame⟩ :=
            shiftCompare_spec pptr fuel (p3 - 1) (p2 - 1) (by omega) (by omega) (by omega) (by omega)
          refine ⟨q3, q2, heq, by omega, by omega, ?_, ?_⟩
          · intro hq3 hq2
            obtain ⟨hless, hne⟩ := hdiff hq3 hq2
            exact ⟨by omega, hne⟩
          · intro x hx hxle
            rcases Int.lt_or_eq_of_le hxle with hlt' | rfl
            · rw [hsame x hx (by omega)]
              congr 1
              omega
            · rw [show x + (p2 - x) = p2 by omega, ha, hb, hgo.1]
        · rename_i hstop
          refine ⟨p3 - 1, p2 - 1, rfl, by omega, by omega, ?_, fun x hx hxle => by omega⟩
          intro _ hq2
          refine ⟨by omega, ?_⟩
          rw [Int.sub_add_cancel, Int.sub_add_cancel, ha, hb]
          exact fun h => hstop ⟨Option.some.inj h, hq2⟩
      · rename_i h0
        exact ⟨p3, p2, rfl, rfl, Int.le_refl _, fun h => by omega, fun x hx hxle => by omega⟩

/-- **The scan of `MakeShift`** ends at the least move that fits. -/
theorem shiftScan_spec {s : Nat} (hs : s + 1 < ptrn.length) (hc : ptrn[ptrn.length - 1]? = some c) :
    ∀ (fuel : Nat) (p1 : Int), 0 ≤ p1 → p1 + 1 < ptrn.length → p1 < fuel →
      (∀ e : Nat, 1 ≤ e → (e : Int) < ptrn.length - 1 - p1 → ¬ List.FitsInside ptrn s e) →
      ∃ d : Nat, shiftScan ptrn c s fuel p1 = some (d : Int) ∧ 1 ≤ d ∧ d < ptrn.length
        ∧ List.FitsInside ptrn s d ∧ ∀ e, 1 ≤ e → e < d → ¬ List.FitsInside ptrn s e
  | 0, p1, h0, _, hfuel, _ => by omega
  | fuel + 1, p1, h0, h1, hfuel, hruled => by
      obtain ⟨p, hfind, hplow, _, hless, hfound, hnone⟩ :=
        @shiftFind_spec ptrn c (ptrn.length + 1) p1 (by omega) (by omega) (by omega)
      have hpless := hless h0
      obtain ⟨q3, q2, hcompare, hdist, hq3, hdiff, hsame⟩ :=
        @shiftCompare_spec ptrn s (ptrn.length + 1) p (ptrn.length - 2) hplow (by omega)
          (by omega) (by omega)
      -- a move that puts another byte against the last one
      have hruled' : ∀ e : Nat, 1 ≤ e → (e : Int) < ptrn.length - 2 - p →
          ¬ List.FitsInside ptrn s e := by
        intro e he hlt hfits
        rcases Int.lt_or_le (e : Int) (ptrn.length - 1 - p1) with hsmall | hlarge
        · exact hruled e he hsmall hfits
        · have hback := hfits (ptrn.length - 1) (by omega) (by omega) (by omega)
          rw [hc] at hback
          exact hnone (ptrn.length - 1 - e) (by omega) (by omega) hback
      rw [shiftScan, hfind]
      dsimp only [bind, Option.bind]
      rw [hcompare]
      dsimp only
      split
      · rename_i hinside
        obtain ⟨hq3less, hne⟩ := hdiff hinside.1 hinside.2
        refine shiftScan_spec hs hc fuel p (by omega) (by omega) (by omega) ?_
        intro e he hlt hfits
        rcases Int.lt_or_le (e : Int) (ptrn.length - 2 - p) with hsmall | hlarge
        · exact hruled' e he hsmall hfits
        · -- the move just compared: two bytes behind `s` differ
          have hback := hfits (q2 + 1).toNat (by omega) (by omega) (by omega)
          rw [show (q2 + 1).toNat - e = (q3 + 1).toNat by omega] at hback
          rw [byteAt_of_nonneg (by omega), byteAt_of_nonneg (by omega)] at hne
          exact hne hback
      · rename_i houtside
        refine ⟨(q2 - q3).toNat, by rw [Int.toNat_of_nonneg (by omega)], by omega, by omega, ?_,
          fun e he hlt => hruled' e he (by omega)⟩
        -- the last byte has been looked for, and those in front of it have been compared
        intro k hsk hk hd
        rcases Nat.lt_or_ge (k + 1) ptrn.length with hlt | hge
        · have hback := hsame ((k - (q2 - q3).toNat : Nat) : Int) (by omega) (by omega)
          rw [show ((k - (q2 - q3).toNat : Nat) : Int) + (ptrn.length - 2 - p) = (k : Int) by omega,
            byteAt_natCast, byteAt_natCast] at hback
          exact hback
        · have hback := hfound (by omega)
          rw [byteAt_of_nonneg (by omega)] at hback
          rw [show k - (q2 - q3).toNat = (p + 1).toNat by omega, hback,
            show k = ptrn.length - 1 by omega, hc]

/-- What `MakeShift` puts at place `s`. -/
structure ShiftEntry (ptrn : Bytes) (s : Nat) (entry : Int) : Prop where
  /-- The least move that fits. -/
  before : s + 1 < ptrn.length → ∃ d : Nat, entry = toInt (ptrn.length - s + d) ∧ 1 ≤ d
    ∧ d < ptrn.length ∧ List.FitsInside ptrn s d ∧ ∀ e, 1 ≤ e → e < d → ¬ List.FitsInside ptrn s e
  last : s + 1 = ptrn.length → entry = 1

theorem makeShiftLoop_spec (hc : ptrn[ptrn.length - 1]? = some c) : ∀ (n : Nat) (shift : Nat → Int),
    n < ptrn.length → (∀ s, n ≤ s → s < ptrn.length → ShiftEntry ptrn s (shift s)) →
    ∃ shift', makeShiftLoop ptrn c n shift = some shift'
      ∧ ∀ s < ptrn.length, ShiftEntry ptrn s (shift' s)
  | 0, shift, _, hfilled => ⟨shift, rfl, fun s hs => hfilled s (Nat.zero_le s) hs⟩
  | n + 1, shift, hn, hfilled => by
      obtain ⟨d, hscan, hentry⟩ := shiftScan_spec hn hc (ptrn.length + 1)
        (ptrn.length - 2) (by omega) (by omega) (by omega) (fun e he hlt => by omega)
      rw [makeShiftLoop, hscan]
      refine makeShiftLoop_spec hc n _ (by omega) ?_
      intro s hns hs
      rcases Nat.eq_or_lt_of_le hns with rfl | hlt
      · rw [Function.update_self]
        exact ⟨fun _ => ⟨d, rfl, hentry⟩, fun h => by omega⟩
      · rw [Function.update_of_ne (by omega)]
        exact hfilled s hlt hs

/-- **`MakeShift`** fills its table and reads nothing outside of the pattern. -/
theorem makeShift_spec (hp : 1 ≤ ptrn.length) : ∃ shift, makeShift ptrn = some shift
    ∧ ∀ s < ptrn.length, ShiftEntry ptrn s (shift s) := by
  have hlast : byteAt ptrn ((ptrn.length : Int) - 1) = ptrn[ptrn.length - 1]? := by
    rw [byteAt_of_nonneg (by omega)]
    congr 1
    omega
  obtain ⟨c, hc⟩ : ∃ c, ptrn[ptrn.length - 1]? = some c := ⟨_, List.getElem?_eq_getElem (by omega)⟩
  unfold makeShift
  rw [hlast, hc]
  refine makeShiftLoop_spec hc (ptrn.length - 1) _ (by omega) ?_
  intro s hns hs
  obtain rfl : s = ptrn.length - 1 := by omega
  rw [Function.update_self]
  exact ⟨fun h => by omega, fun _ => rfl⟩

/-- A move that does not fit has two bytes behind place `s` that differ. -/
theorem not_fitsBehind_iff {s e : Nat} : ¬ List.FitsBehind ptrn s e
    ↔ ∃ q, s < q ∧ q < ptrn.length ∧ e ≤ q ∧ ptrn[q - e]? ≠ ptrn[q]? := by
  unfold List.FitsBehind
  constructor
  · intro h
    by_contra hno
    refine h ?_
    intro q hsq hq heq
    by_contra hne
    exact hno ⟨q, hsq, hq, heq, hne⟩
  · rintro ⟨q, hsq, hq, heq, hne⟩ h
    exact hne (h q hsq hq heq)

/-- **The table of `MakeShift`.** An entry is the least move not ruled out by a pair of bytes, or
less, counted from the mismatch and put into an `int`. -/
theorem makeShift_fills (ptrn : Bytes) (hp : 2 ≤ ptrn.length) :
    ∃ shift, makeShift ptrn = some shift ∧ shift (ptrn.length - 1) = 1
      ∧ ∀ s, s + 1 < ptrn.length → ∃ d : Nat, 1 ≤ d ∧ d ≤ ptrn.length - 1
        ∧ shift s = toInt (ptrn.length - s + d)
        ∧ ((ptrn.length : Int) - s + d ≤ intMax → shift s = ptrn.length - s + d)
        ∧ ∀ e, 1 ≤ e → e < d →
          ∃ q, s < q ∧ q < ptrn.length ∧ e ≤ q ∧ ptrn[q - e]? ≠ ptrn[q]? := by
  obtain ⟨shift, hmake, hshift⟩ := @makeShift_spec ptrn (by omega)
  refine ⟨shift, hmake, (hshift _ (by omega)).last (by omega), ?_⟩
  intro s hs
  obtain ⟨d, hentry, hd1, hdlen, _, hruled⟩ := (hshift s (by omega)).before hs
  refine ⟨d, hd1, by omega, hentry, ?_, ?_⟩
  · intro hmax
    rw [hentry, toInt_eq_self (by omega) hmax]
  · intro e he hed
    exact not_fitsBehind_iff.mp fun hfits => hruled e he hed hfits.inside

theorem makeShift_fills_dabcab :
    ∃ shift, makeShift (lit "dabcab") = some shift ∧ shift ((lit "dabcab").length - 1) = 1
      ∧ ∀ s, s + 1 < (lit "dabcab").length → ∃ d : Nat, 1 ≤ d ∧ d ≤ (lit "dabcab").length - 1
        ∧ shift s = toInt ((lit "dabcab").length - s + d)
        ∧ (((lit "dabcab").length : Int) - s + d ≤ intMax → shift s = (lit "dabcab").length - s + d)
        ∧ ∀ e, 1 ≤ e → e < d →
          ∃ q, s < q ∧ q < (lit "dabcab").length ∧ e ≤ q ∧ (lit "dabcab")[q - e]? ≠ (lit "dabcab")[q]? :=
  makeShift_fills (lit "dabcab") (by decide)

/-- In a pattern of `INT_MAX` bytes the first entry would be above `INT_MAX`. -/
theorem makeShift_wraps :
    ¬ ∃ shift, makeShift (List.replicate 2147483647 0) = some shift
      ∧ ∃ d : Nat, 1 ≤ d ∧ d ≤ 2147483646 ∧ shift 0 = (2147483647 : Int) - (0 : Nat) + d := by
  rintro ⟨shift, hmake, d, hd1, _, hentry⟩
  have hlen : (List.replicate 2147483647 (0 : UInt8)).length = 2147483647 := List.length_replicate
  obtain ⟨shift', hmake', hshift⟩ := @makeShift_spec (List.replicate 2147483647 0)
    (by rw [hlen]; omega)
  obtain rfl := Option.some.inj (hmake'.symm.trans hmake)
  obtain ⟨d', hentry', _⟩ := (hshift 0 (by rw [hlen]; omega)).before (by rw [hlen]; omega)
  have hlt := toInt_lt ((List.replicate 2147483647 (0 : UInt8)).length - (0 : Nat) + d')
  rw [← hentry', hentry] at hlt
  unfold intMax at hlt
  omega

/-! ## One window -/

section

variable {cmp : UInt8 → UInt8 → Bool} {key : UInt8 → UInt8} {text : Bytes} {i : Nat}

/-- The window at `i` agrees behind place `j`, and not there: the byte of the text is `b`. -/
structure BmMiss (key : UInt8 → UInt8) (text ptrn : Bytes) (i j : Nat) (b : UInt8) : Prop where
  lt : j < ptrn.length
  byte : text[i + j]? = some b
  differs : (ptrn.map key)[j]? ≠ some (key b)
  behind : List.AgreesBehind (ptrn.map key) (text.map key) i j

theorem getElem?_map_eq_iff (key : UInt8 → UInt8) {a b : Bytes} {k l : Nat} {x y : UInt8}
    (hx : a[k]? = some x) (hy : b[l]? = some y) :
    (a.map key)[k]? = (b.map key)[l]? ↔ key x = key y := by
  rw [List.getElem?_map, List.getElem?_map, hx, hy, Option.map_some, Option.map_some,
    Option.some.injEq]

/-- **The comparison of a window**, from place `p` down. -/
theorem bmWindow_spec (hcmp : ∀ a b, cmp a b = (key a == key b))
    (hi : i + ptrn.length ≤ text.length) :
    ∀ (fuel p : Nat), p < fuel → 0 < p → p ≤ ptrn.length →
      (∀ k, p ≤ k → k < ptrn.length → (text.map key)[i + k]? = (ptrn.map key)[k]?) →
      (List.OccursAt (ptrn.map key) (text.map key) i
          ∧ bmWindow cmp text ptrn fuel ((i + p : Nat) : Int) (p : Int) = .hit i)
        ∨ ∃ j b, BmMiss key text ptrn i j b
          ∧ bmWindow cmp text ptrn fuel ((i + p : Nat) : Int) (p : Int)
            = .miss b ((i + j : Nat) : Int) j
  | 0, p, hfuel, _, _, _ => absurd hfuel (Nat.not_lt_zero p)
  | fuel + 1, 0, _, h0, _, _ => absurd h0 (Nat.lt_irrefl 0)
  | fuel + 1, p + 1, hfuel, _, hp, hagree => by
      obtain ⟨b, hb⟩ : ∃ b, text[i + p]? = some b := ⟨_, List.getElem?_eq_getElem (by omega)⟩
      obtain ⟨q, hq⟩ : ∃ q, ptrn[p]? = some q := ⟨_, List.getElem?_eq_getElem (by omega)⟩
      have hsame := getElem?_map_eq_iff key hb hq
      rw [bmWindow, show ((i + (p + 1) : Nat) : Int) - 1 = ((i + p : Nat) : Int) by omega,
        show ((p + 1 : Nat) : Int) - 1 = (p : Int) by omega, byteAt_natCast, byteAt_natCast, hb, hq]
      dsimp only
      rw [hcmp]
      split
      · rename_i hkey
        have hagree' : ∀ k, p ≤ k → k < ptrn.length →
            (text.map key)[i + k]? = (ptrn.map key)[k]? := by
          intro k hpk hk
          rcases Nat.eq_or_lt_of_le hpk with rfl | hlt
          · exact hsame.mpr (beq_iff_eq.mp hkey)
          · exact hagree k hlt hk
        rw [if_neg (by omega)]
        split
        · -- the first place agrees, too
          rename_i h0
          refine .inl ⟨List.occursAt_iff_getElem?.mpr ?_, ?_⟩
          · intro k hk
            rw [List.length_map] at hk
            exact hagree' k (by omega) hk
          · rw [show i + p = i by omega]
        · exact bmWindow_spec hcmp hi fuel p (by omega) (by omega) (by omega) hagree'
      · rename_i hkey
        refine .inr ⟨p, b, ⟨by omega, hb, ?_, ?_⟩, rfl⟩
        · rw [List.getElem?_map, hq, Option.map_some]
          intro h
          exact hkey (beq_iff_eq.mpr (Option.some.inj h).symm)
        · intro k hpk hk
          rw [List.length_map] at hk
          exact hagree k hpk hk

/-! ## One stride -/

/-- The greater of the two strides at a byte `c` of the text and a place `pIdx` of the pattern. -/
def bmStride (ptrn : Bytes) (shift : Nat → Int) (c : UInt8) (pIdx : Nat) : Int :=
  max (makeSkip ptrn c : Int) (shift pIdx)

/-- Where the text has `b` against place `j`, the bytes of the pattern allow a move by `d`: `b` is
at the place that comes against it or behind it, or no place comes against it but the first; and a
move by `d` or less fits what has been compared. -/
def MovesBy (ptrn : Bytes) (j : Nat) (b : UInt8) (d : Nat) : Prop :=
  (j ≤ d ∨ ∃ l, j ≤ l + d ∧ ptrn[l]? = some b)
    ∧ ∃ e, 1 ≤ e ∧ e ≤ d ∧ List.FitsInside ptrn j e

theorem skip_le_iff {j : Nat} (b : UInt8) (d : Nat) :
    j + makeSkip ptrn b ≤ ptrn.length + d ↔ j ≤ d ∨ ∃ l, j ≤ l + d ∧ ptrn[l]? = some b := by
  rcases makeSkip_spec ptrn b with ⟨hnot, hskip⟩ | ⟨k, hk, hlast, hskip⟩
  · rw [hskip]
    constructor
    · intro h
      exact .inl (by omega)
    · rintro (h | ⟨l, _, hl⟩)
      · omega
      · exact absurd (List.mem_of_getElem? hl) hnot
  · have hlt := (List.getElem?_eq_some_iff.mp hk).1
    rw [hskip]
    constructor
    · intro h
      exact .inr ⟨k, by omega, hk⟩
    · rintro (h | ⟨l, hle, hl⟩)
      · omega
      · have hlk : l ≤ k := Nat.le_of_not_lt fun hgt => hlast l hgt hl
        omega

theorem ShiftEntry.le_iff {j : Nat} {entry : Int} (h : ShiftEntry ptrn j entry)
    (hmax : 2 * (ptrn.length : Int) ≤ intMax) (hj : j + 1 < ptrn.length) (d : Nat) :
    (j : Int) + entry ≤ ptrn.length + d ↔ ∃ e, 1 ≤ e ∧ e ≤ d ∧ List.FitsInside ptrn j e := by
  obtain ⟨d', hentry, hd1, hdlen, hfits, hruled⟩ := h.before hj
  rw [toInt_eq_self (by omega) (by omega)] at hentry
  constructor
  · intro hle
    exact ⟨d', hd1, by omega, hfits⟩
  · rintro ⟨e, he1, hed, hfits'⟩
    have hle : d' ≤ e := Nat.le_of_not_lt fun hlt => hruled e he1 hlt hfits'
    omega

section

variable {shift : Nat → Int} {j : Nat} {b : UInt8} (hp : 2 ≤ ptrn.length)
  (hmax : 2 * (ptrn.length : Int) ≤ intMax)
  (hshift : ∀ s < ptrn.length, ShiftEntry ptrn s (shift s)) (hj : j < ptrn.length)
  (hb : ptrn[j]? ≠ some b)

include hp hmax hshift hj hb

/-- **The greater of the two strides** is within a move that both tables allow. -/
theorem movesBy_iff (d : Nat) :
    MovesBy ptrn j b d ↔ (j : Int) + bmStride ptrn shift b j ≤ ptrn.length + d := by
  have hskip := @skip_le_iff ptrn j b d
  unfold MovesBy bmStride
  rw [← hskip]
  rcases Nat.lt_or_eq_of_le (Nat.succ_le_of_lt hj) with hlt | heq
  · rw [← (hshift j hj).le_iff hmax hlt d]
    omega
  · -- a mismatch at the last place, where the shift entry would leave the window where it is
    have hone := (hshift j hj).last heq
    have hgt : 1 < makeSkip ptrn b := by
      refine makeSkip_gt hp ?_
      rwa [show ptrn.length - 1 = j by omega]
    constructor
    · rintro ⟨hle, _⟩
      omega
    · intro hle
      exact ⟨by omega, 1, Nat.le_refl 1, by omega, fun k hjk hk _ => by omega⟩

/-- **Every stride moves the window on**, by the least move that both tables allow; a shorter one
has another byte of the pattern against `b`, or does not fit what has been compared. -/
theorem bmStride_spec :
    ∃ s : Nat, (j : Int) + bmStride ptrn shift b j = ptrn.length + s ∧ 1 ≤ s ∧ s ≤ ptrn.length
      ∧ IsLeast {d | MovesBy ptrn j b d} s
      ∧ ∀ d, 1 ≤ d → d < s → (d ≤ j ∧ ptrn[j - d]? ≠ some b) ∨ ¬ List.FitsBehind ptrn j d := by
  have hiff := movesBy_iff hp hmax hshift hj hb
  have hzero : ¬ MovesBy ptrn j b 0 := by
    rintro ⟨_, e, he1, he0, _⟩
    omega
  have hwhole : MovesBy ptrn j b ptrn.length :=
    ⟨.inl (by omega), ptrn.length - 1, by omega, by omega, fun k _ hk hd => by omega⟩
  rw [hiff] at hzero hwhole
  obtain ⟨s, hs⟩ : ∃ s : Nat, (j : Int) + bmStride ptrn shift b j = ptrn.length + s :=
    ⟨((j : Int) + bmStride ptrn shift b j - ptrn.length).toNat, by omega⟩
  have hleast : IsLeast {d | MovesBy ptrn j b d} s := by
    refine ⟨(hiff s).mpr (by omega), ?_⟩
    intro d hd
    have := (hiff d).mp hd
    omega
  refine ⟨s, hs, by omega, by omega, hleast, ?_⟩
  intro d hd1 hds
  by_contra hno
  -- the move would be one that both tables allow
  obtain ⟨hbyte, hfits⟩ := not_or.mp hno
  have hmoves : MovesBy ptrn j b d := by
    refine ⟨?_, d, hd1, Nat.le_refl d, (not_not.mp hfits).inside⟩
    by_cases hdj : d ≤ j
    · exact .inr ⟨j - d, by omega, not_not.mp fun h => hbyte ⟨hdj, h⟩⟩
    · exact .inl (by omega)
  exact absurd (hleast.2 hmoves) (by omega)

end

/-! ## The search -/

theorem BmMiss.ne {j : Nat} {b : UInt8} (h : BmMiss key text ptrn i j b) : ptrn[j]? ≠ some b := by
  intro heq
  refine h.differs ?_
  rw [List.getElem?_map, heq, Option.map_some]

/-- **One round of `BMSearch`** returns the window or moves it on. -/
theorem bmSearchLoop_step {shift : Nat → Int} (hcmp : ∀ a b, cmp a b = (key a == key b))
    (hp : 2 ≤ ptrn.length) (hmax : (text.length : Int) + 2 * ptrn.length ≤ intMax)
    (hshift : ∀ s < ptrn.length, ShiftEntry ptrn s (shift s))
    (hi : i + ptrn.length ≤ text.length) (fuel : Nat) :
    (List.OccursAt (ptrn.map key) (text.map key) i
        ∧ bmSearchLoop cmp text text.length ptrn (makeSkip ptrn) shift (fuel + 1)
          ((i + ptrn.length : Nat) : Int) = .returns i)
      ∨ ∃ j b, ∃ s : Nat, BmMiss key text ptrn i j b
        ∧ (j : Int) + bmStride ptrn shift b j = ptrn.length + s ∧ 1 ≤ s
        ∧ bmSearchLoop cmp text text.length ptrn (makeSkip ptrn) shift (fuel + 1)
            ((i + ptrn.length : Nat) : Int)
          = bmSearchLoop cmp text text.length ptrn (makeSkip ptrn) shift fuel
            ((i + s + ptrn.length : Nat) : Int) := by
  rw [bmSearchLoop, if_pos (by omega)]
  rcases bmWindow_spec hcmp hi (ptrn.length + 1) ptrn.length (by omega) (by omega) (Nat.le_refl _)
    (fun k hk hk' => by omega) with ⟨hocc, hhit⟩ | ⟨j, b, hmiss, hwindow⟩
  · rw [hhit]
    exact .inl ⟨hocc, rfl⟩
  · obtain ⟨s, hs, hs1, hslen, _⟩ := bmStride_spec hp (by omega) hshift hmiss.lt hmiss.ne
    refine .inr ⟨j, b, s, hmiss, hs, hs1, ?_⟩
    rw [hwindow]
    dsimp only
    rw [Int.toNat_natCast]
    unfold bmStride at hs
    rw [if_pos (by omega)]
    congr 1
    omega

/-- Past the last window the search is over. -/
theorem bmSearchLoop_past {skip : UInt8 → Nat} {shift : Nat → Int}
    (hi : text.length < i + ptrn.length)
    (fuel : Nat) : bmSearchLoop cmp text text.length ptrn skip shift (fuel + 1)
      ((i + ptrn.length : Nat) : Int) = .returns (-1) := by
  rw [bmSearchLoop, if_neg (by omega)]

/-- What is found is the return value of `bm`, too. -/
theorem bmBy_returns {search : Bytes → Int → Bytes → (UInt8 → Nat) → (Nat → Int) → BmEnd}
    {shift : Nat → Int} {n ret : Int} (hp : 2 ≤ ptrn.length) (hshift : makeShift ptrn = some shift)
    (hsearch : search text n ptrn (makeSkip ptrn) shift = .returns ret) (hret : -1 ≤ ret) :
    bmBy search text n ptrn = .returns ret := by
  unfold bmBy
  split
  · exact absurd hp (by simp)
  · exact absurd hp (by simp)
  · rw [hshift]
    dsimp only
    rw [hsearch]
    dsimp only
    congr 1
    split <;> omega

end

/-- From a window before which there is no match the search ends with the right answer. -/
theorem bmSearchLoop_finds {text : Bytes} {shift : Nat → Int} (hp : 2 ≤ ptrn.length)
    (hmax : (text.length : Int) + 2 * ptrn.length ≤ intMax)
    (hshift : ∀ s < ptrn.length, ShiftEntry ptrn s (shift s)) :
    ∀ (fuel i : Nat), List.NoneBefore ptrn text i → text.length < i + fuel → 0 < fuel →
      ∃ ret, Finds ptrn text ret ∧ bmSearchLoop (· == ·) text text.length ptrn (makeSkip ptrn) shift
        fuel ((i + ptrn.length : Nat) : Int) = .returns ret
  | 0, _, _, _, h0 => absurd h0 (Nat.lt_irrefl 0)
  | fuel + 1, i, hnone, hfuel, _ => by
      have hne : ptrn ≠ [] := List.length_pos_iff.mp (by omega)
      by_cases hi : i + ptrn.length ≤ text.length
      · have hcmp : ∀ a b : UInt8, (a == b) = (id a == id b) := fun _ _ => rfl
        have hstep := bmSearchLoop_step hcmp hp hmax hshift hi fuel
        rw [List.map_id, List.map_id] at hstep
        rcases hstep with ⟨hocc, hret⟩ | ⟨j, b, s, hmiss, hs, hs1, hnext⟩
        · exact ⟨i, .of_first (hnone.isFirstOcc hocc), hret⟩
        · obtain ⟨s', hs', _, _, _, hsafe⟩ := bmStride_spec hp (by omega) hshift hmiss.lt hmiss.ne
          obtain rfl : s = s' := by omega
          have hbehind := hmiss.behind
          have hdiffers := hmiss.differs
          rw [List.map_id, List.map_id] at hbehind
          rw [List.map_id, id_eq, ← hmiss.byte] at hdiffers
          rw [hnext]
          refine bmSearchLoop_finds hp hmax hshift fuel (i + s) ?_ (by omega) (by omega)
          refine hnone.skip ?_ ?_
          · intro hocc
            exact hdiffers (List.occursAt_iff_getElem?.mp hocc j hmiss.lt).symm
          · intro d hd hlt hocc
            rcases hsafe d hd hlt with ⟨hdj, hbyte⟩ | hfits
            · exact hbyte ((hocc.getElem?_sub hdj hmiss.lt).trans hmiss.byte)
            · exact hfits (hocc.fitsBehind hbehind)
      · rw [bmSearchLoop_past (by omega)]
        exact ⟨-1, .of_none (hnone.nowhere hne (by omega)), rfl⟩

theorem Finds.ge {patt text : Bytes} {ret : Int} (h : Finds patt text ret) : -1 ≤ ret := by
  rcases h.or with ⟨i, rfl, _⟩ | ⟨rfl, _⟩ <;> omega

/-- **`bm` returns the first match or `-1`**, and so what `sunday` returns, without reading
outside of the text. -/
theorem bm_first (text patt : Bytes) (next : UInt8) (hp : 2 ≤ patt.length)
    (hmax : (text.length : Int) + 2 * patt.length ≤ intMax) :
    ∃ ret, bm text text.length patt = .returns ret ∧ Finds patt text ret
      ∧ sundayInt (text ++ [next]) text.length patt = .returns ret := by
  obtain ⟨shift, hmake, hshift⟩ := @makeShift_spec patt (by omega)
  obtain ⟨ret, hfinds, hloop⟩ := bmSearchLoop_finds hp hmax hshift (text.length + 1) 0
    (List.noneBefore_zero _ _) (by omega) (by omega)
  have hne : patt ≠ [] := List.length_pos_iff.mp (by omega)
  have hle : text.length ≤ (text ++ [next]).length := by simp
  obtain ⟨ret', hfinds', hsunday⟩ := sundayInt_finds hle hne (by omega) (by omega)
  rw [List.take_left] at hfinds'
  refine ⟨ret, ?_, hfinds, ?_⟩
  · refine bmBy_returns hp hmake ?_ hfinds.ge
    unfold bmSearch bmSearchBy
    rw [if_neg (by omega), Int.toNat_natCast]
    rw [Nat.zero_add] at hloop
    exact hloop
  · rw [hsunday, hfinds.unique hfinds']

/-- A mismatch at the last byte, one inside the window, and the match. -/
theorem bm_first_dabcab :
    ∃ ret, bm (lit "abcabdabcab") (lit "abcabdabcab").length (lit "dabcab") = .returns ret
      ∧ Finds (lit "dabcab") (lit "abcabdabcab") ret
      ∧ sundayInt (lit "abcabdabcab" ++ [7]) (lit "abcabdabcab").length (lit "dabcab")
        = .returns ret :=
  bm_first (lit "abcabdabcab") (lit "dabcab") 7 (by decide) (by decide)

end TraceServer
