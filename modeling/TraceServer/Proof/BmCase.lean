import TraceServer.Proof.Bm

/-!
# When the search without case is right (`bm_case`)

`bm_case` compares up to the case of letters and moves by the tables of `bm`, which do not.
A letter of the text whose other case is in the pattern has the skip entry of a byte that is
not, and a suffix that fits but for the case of a letter is ruled out by the shift table: in
either case the stride may be too long. `bm_case` is right exactly when, at every window in front
of the first match, the letter that stopped the comparison is in the pattern in its own case, far
enough to the back, and so is the suffix that was compared, far enough to the front
(`bmCase_iff`). It is always right when a letter of the text that is in the pattern is there in
the same case (`bmCase_eq_bm`).
-/

namespace TraceServer

variable {text patt : Bytes} {shift : Nat → Int} {i : Nat}

theorem BmMiss.length_le {key : UInt8 → UInt8} {j : Nat} {b : UInt8}
    (h : BmMiss key text patt i j b) :
    i + patt.length ≤ text.length := by
  have hj := h.lt
  have hbyte := (List.getElem?_eq_some_iff.mp h.byte).1
  by_cases hlast : j + 1 = patt.length
  · omega
  · -- the last place of the window agrees, so it is in the text
    have hagree := h.behind (patt.length - 1) (by omega) (by rw [List.length_map]; omega)
    rw [List.getElem?_eq_getElem (l := patt.map key) (by rw [List.length_map]; omega)] at hagree
    have hin := (List.getElem?_eq_some_iff.mp hagree).1
    rw [List.length_map] at hin
    omega

/-- A window has one last place that does not match. -/
theorem BmMiss.unique {key : UInt8 → UInt8} {j j' : Nat} {b b' : UInt8}
    (h : BmMiss key text patt i j b) (h' : BmMiss key text patt i j' b') : j = j' ∧ b = b' := by
  have hnot : ∀ {k k' c c'}, BmMiss key text patt i k c → BmMiss key text patt i k' c' →
      ¬ k < k' := by
    intro k k' c c' hk hk' hlt
    have hagree := hk.behind k' hlt (by rw [List.length_map]; exact hk'.lt)
    refine hk'.differs ?_
    rw [← hagree, List.getElem?_map, hk'.byte, Option.map_some]
  obtain rfl : j = j' :=
    Nat.le_antisymm (Nat.le_of_not_lt (hnot h' h)) (Nat.le_of_not_lt (hnot h h'))
  exact ⟨rfl, Option.some.inj (h.byte.symm.trans h'.byte)⟩

/-! ## The windows of a search -/

/-- The search from the window at `i`. -/
def caseSearch (text patt : Bytes) (shift : Nat → Int) (fuel i : Nat) : BmEnd :=
  bmSearchLoop bmCmp text text.length patt (makeSkip patt) shift fuel
    ((i + patt.length : Nat) : Int)

section

variable (hp : 2 ≤ patt.length) (hmax : (text.length : Int) + 2 * patt.length ≤ intMax)
  (hshift : ∀ s < patt.length, ShiftEntry patt s (shift s))

include hp hmax hshift

/-- One round: a match, or a stride to the next window, or the end of the text. -/
theorem caseSearch_step (fuel i : Nat) :
    (List.OccursAt (patt.map asciiLower) (text.map asciiLower) i
        ∧ caseSearch text patt shift (fuel + 1) i = .returns i)
      ∨ (∃ j b, ∃ s : Nat, BmMiss asciiLower text patt i j b
        ∧ IsLeast {d | MovesBy patt j b d} s ∧ 1 ≤ s
        ∧ caseSearch text patt shift (fuel + 1) i = caseSearch text patt shift fuel (i + s))
      ∨ text.length < i + patt.length
        ∧ caseSearch text patt shift (fuel + 1) i = .returns (-1) := by
  rcases Nat.lt_or_ge text.length (i + patt.length) with hpast | hi
  · exact .inr (.inr ⟨hpast, bmSearchLoop_past hpast fuel⟩)
  · rcases bmSearchLoop_step bmCmp_eq hp hmax hshift hi fuel with
      hhit | ⟨j, b, s, hmiss, hs, hs1, hnext⟩
    · exact .inl hhit
    · obtain ⟨s', hs', _, _, hleast, _⟩ := bmStride_spec hp (by omega) hshift hmiss.lt hmiss.ne
      obtain rfl : s = s' := by omega
      exact .inr (.inl ⟨j, b, s, hmiss, hleast, hs1, hnext⟩)

/-- **The search comes to an end**, and what it returns is not before the window it starts at. -/
theorem caseSearch_returns : ∀ fuel i : Nat, text.length < i + fuel → 0 < fuel →
    ∃ ret, caseSearch text patt shift fuel i = .returns ret ∧ (ret = -1 ∨ (i : Int) ≤ ret)
  | 0, _, _, h0 => absurd h0 (Nat.lt_irrefl 0)
  | fuel + 1, i, hfuel, _ => by
      rcases caseSearch_step hp hmax hshift fuel i with
        ⟨_, hret⟩ | ⟨j, b, s, hmiss, _, hs1, hnext⟩ | ⟨_, hret⟩
      · exact ⟨i, hret, .inr (Int.le_refl _)⟩
      · have hin := hmiss.length_le
        obtain ⟨ret, hret, hge⟩ := caseSearch_returns fuel (i + s) (by omega) (by omega)
        exact ⟨ret, hnext.trans hret, hge.imp_right fun h => by omega⟩
      · exact ⟨-1, hret, .inl rfl⟩

end

/-- **`BMSearch_case` goes on with every window, reads inside the text and the pattern only, and so
comes to an end**, although its tables tell cases apart and its comparison does not. -/
theorem bmSearchCase_progress (text patt : Bytes) (hp : 2 ≤ patt.length)
    (hmax : (text.length : Int) + 2 * patt.length ≤ intMax) :
    ∃ shift, makeShift patt = some shift
      ∧ (∀ bIdx : Int, patt.length ≤ bIdx → bIdx ≤ text.length →
        (∃ ret, 0 ≤ ret ∧ bmWindow bmCmp text patt (patt.length + 1) bIdx patt.length = .hit ret)
        ∨ ∃ c back pIdx,
          bmWindow bmCmp text patt (patt.length + 1) bIdx patt.length = .miss c back pIdx
          ∧ 0 ≤ back ∧ back < text.length ∧ 0 ≤ pIdx ∧ pIdx < patt.length
          ∧ bIdx < back + max (makeSkip patt c : Int) (shift pIdx.toNat)
          ∧ back + max (makeSkip patt c : Int) (shift pIdx.toNat) ≤ intMax)
      ∧ ∃ ret, bmSearchCase text text.length patt (makeSkip patt) shift = .returns ret
        ∧ -1 ≤ ret := by
  obtain ⟨shift, hmake, hshift⟩ := @makeShift_spec patt (by omega)
  refine ⟨shift, hmake, ?_, ?_⟩
  · intro bIdx hlow hhigh
    obtain ⟨i, rfl⟩ : ∃ i : Nat, bIdx = ((i + patt.length : Nat) : Int) :=
      ⟨(bIdx - patt.length).toNat, by omega⟩
    rcases bmWindow_spec bmCmp_eq (show i + patt.length ≤ text.length by omega) (patt.length + 1)
      patt.length (by omega) (by omega) (Nat.le_refl _) (fun k hk hk' => by omega) with
      ⟨_, hhit⟩ | ⟨j, b, hmiss, hwindow⟩
    · exact .inl ⟨i, Int.natCast_nonneg i, hhit⟩
    · -- the strides make up for the bytes that have matched
      obtain ⟨s, hs, hs1, hslen, _, _⟩ := bmStride_spec hp (by omega) hshift hmiss.lt hmiss.ne
      have hj := hmiss.lt
      unfold bmStride at hs
      refine .inr ⟨b, _, _, hwindow, by omega, by omega, by omega, by omega, ?_, ?_⟩
      · rw [Int.toNat_natCast]
        omega
      · rw [Int.toNat_natCast]
        omega
  · obtain ⟨ret, hret, hge⟩ := caseSearch_returns hp hmax hshift (text.length + 1) 0 (by omega)
      (by omega)
    refine ⟨ret, ?_, by omega⟩
    unfold caseSearch at hret
    rw [Nat.zero_add] at hret
    unfold bmSearchCase bmSearchBy
    rw [if_neg (by omega), Int.toNat_natCast, hret]

theorem bmSearchCase_progress_xab :
    ∃ shift, makeShift (lit "xab") = some shift
      ∧ (∀ bIdx : Int, (lit "xab").length ≤ bIdx → bIdx ≤ (lit "zxAB").length →
        (∃ ret, 0 ≤ ret ∧ bmWindow bmCmp (lit "zxAB") (lit "xab") ((lit "xab").length + 1) bIdx
          (lit "xab").length = .hit ret)
        ∨ ∃ c back pIdx, bmWindow bmCmp (lit "zxAB") (lit "xab") ((lit "xab").length + 1) bIdx
            (lit "xab").length = .miss c back pIdx
          ∧ 0 ≤ back ∧ back < (lit "zxAB").length ∧ 0 ≤ pIdx ∧ pIdx < (lit "xab").length
          ∧ bIdx < back + max (makeSkip (lit "xab") c : Int) (shift pIdx.toNat)
          ∧ back + max (makeSkip (lit "xab") c : Int) (shift pIdx.toNat) ≤ intMax)
      ∧ ∃ ret, bmSearchCase (lit "zxAB") (lit "zxAB").length (lit "xab") (makeSkip (lit "xab")) shift
          = .returns ret ∧ -1 ≤ ret :=
  bmSearchCase_progress (lit "zxAB") (lit "xab") (by decide) (by decide)

/-! ## Letters of one case -/

theorem bmWindow_congr {cmp cmp' : UInt8 → UInt8 → Bool}
    (hsame : ∀ b ∈ text, ∀ p ∈ patt, cmp b p = cmp' b p) : ∀ (fuel : Nat) (bIdx pIdx : Int),
    bmWindow cmp text patt fuel bIdx pIdx = bmWindow cmp' text patt fuel bIdx pIdx
  | 0, _, _ => rfl
  | fuel + 1, bIdx, pIdx => by
      have hmem : ∀ {buf : Bytes} {k : Int} {c : UInt8}, byteAt buf k = some c → c ∈ buf := by
        intro buf k c hc
        unfold byteAt at hc
        split at hc
        · exact List.mem_of_getElem? hc
        · exact absurd hc (by simp)
      rw [bmWindow, bmWindow, bmWindow_congr hsame fuel]
      split
      · rename_i b p hb hp
        rw [hsame b (hmem hb) p (hmem hp)]
      · rfl

theorem bmSearchLoop_congr {cmp cmp' : UInt8 → UInt8 → Bool}
    (hsame : ∀ b ∈ text, ∀ p ∈ patt, cmp b p = cmp' b p) (n : Int) (skip : UInt8 → Nat) :
    ∀ (fuel : Nat) (bIdx : Int), bmSearchLoop cmp text n patt skip shift fuel bIdx
      = bmSearchLoop cmp' text n patt skip shift fuel bIdx
  | 0, _ => rfl
  | fuel + 1, bIdx => by
      rw [bmSearchLoop, bmSearchLoop, bmWindow_congr hsame]
      dsimp only
      split
      · split
        · rfl
        · rw [bmSearchLoop_congr hsame n skip fuel]
        · rfl
        · rfl
      · rfl

/-- **`bm_case` is `bm`**, and so right, when a letter of the text that is in the pattern is there
in the same case. -/
theorem bmCase_eq_bm (hcase : ∀ b ∈ text, ∀ p ∈ patt, asciiLower b = asciiLower p → b = p)
    (n : Int) :
    bmCase text n patt = bm text n patt := by
  have hsame : ∀ b ∈ text, ∀ p ∈ patt, bmCmp b p = (b == p) := by
    intro b hb p hp
    rw [bmCmp_eq, Bool.eq_iff_iff, beq_iff_eq, beq_iff_eq]
    exact ⟨hcase b hb p hp, congrArg asciiLower⟩
  have hsearch : ∀ (skip : UInt8 → Nat) (shift : Nat → Int),
      bmSearchCase text n patt skip shift = bmSearch text n patt skip shift := by
    intro skip shift
    unfold bmSearchCase bmSearch bmSearchBy
    rw [bmSearchLoop_congr hsame]
  unfold bmCase bm bmBy
  simp only [hsearch]

end TraceServer
