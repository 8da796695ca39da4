import TraceServer.Search

/-!
# No skip jumps over a match (`sunday`)

The byte after the window decides how far it moves. The table entry of a byte is the
distance of its last place in the pattern from the pattern's end, so every window the
move jumps over would have another byte of the pattern against that byte.

`sunday` reads the byte after the text when it stands at the last window. It then moves
by at least one and is past the limit, whatever the byte is.
-/

namespace TraceServer

/-! ## The table -/

/-- An entry is what it was, or the distance of the byte's last place from the end. -/
theorem sundayShiftLoop_spec (m : Nat) (c : UInt8) :
    ∀ (patt : Bytes) (i : Nat) (shift : UInt8 → Nat),
    (c ∉ patt ∧ sundayShiftLoop m i patt shift c = shift c)
      ∨ ∃ k, patt[k]? = some c ∧ (∀ l, k < l → patt[l]? ≠ some c)
        ∧ sundayShiftLoop m i patt shift c = m - (i + k)
  | [], i, shift => .inl ⟨by simp, rfl⟩
  | b :: patt, i, shift => by
      rw [sundayShiftLoop]
      rcases sundayShiftLoop_spec m c patt (i + 1) (Function.update shift b (m - i)) with
        ⟨hnot, hsame⟩ | ⟨k, hk, hlast, hset⟩
      · by_cases hc : c = b
        · -- the last place of `c` is this one
          subst hc
          refine .inr ⟨0, rfl, ?_, ?_⟩
          · intro l hl hl'
            obtain ⟨l, rfl⟩ := Nat.exists_eq_succ_of_ne_zero (by omega : l ≠ 0)
            exact hnot (List.mem_of_getElem? hl')
          · rw [hsame, Function.update_self, Nat.add_zero]
        · -- the entry of another byte is left alone
          refine .inl ⟨?_, ?_⟩
          · intro hmem
            rcases List.mem_cons.mp hmem with rfl | hmem
            · exact hc rfl
            · exact hnot hmem
          · rw [hsame, Function.update_of_ne hc]
      · refine .inr ⟨k + 1, hk, ?_, ?_⟩
        · intro l hl
          obtain ⟨l, rfl⟩ := Nat.exists_eq_succ_of_ne_zero (by omega : l ≠ 0)
          exact hlast l (by omega)
        · rw [hset]
          omega

/-- A window moves by at least one, and at most one past the byte that decided. -/
theorem sundayShift_range (patt : Bytes) (c : UInt8) :
    0 < sundayShift patt c ∧ sundayShift patt c ≤ patt.length + 1 := by
  unfold sundayShift
  rcases sundayShiftLoop_spec patt.length c patt 0 (fun _ => patt.length + 1) with
    ⟨_, hsame⟩ | ⟨k, hk, _, hset⟩
  · rw [hsame]
    omega
  · have hlt : k < patt.length := (List.getElem?_eq_some_iff.mp hk).1
    rw [hset]
    omega

/-- Moved by less than its entry, the pattern has another byte where `c` stands. -/
theorem sundayShift_skips {patt : Bytes} {c : UInt8} {e : Nat} (h0 : 0 < e)
    (he : e < sundayShift patt c) (hle : e ≤ patt.length) :
    patt[patt.length - e]? ≠ some c := by
  unfold sundayShift at he
  rcases sundayShiftLoop_spec patt.length c patt 0 (fun _ => patt.length + 1) with
    ⟨hnot, _⟩ | ⟨k, _, hlast, hset⟩
  · exact fun h => hnot (List.mem_of_getElem? h)
  · rw [hset] at he
    exact hlast _ (by omega)

/-! ## The window -/

theorem sundayMatch_complete {cmp : UInt8 → UInt8 → Bool} {text patt : Bytes} {i : Nat} :
    ∀ (fuel m : Nat), patt.length < m + fuel → m ≤ patt.length →
      (∀ k, m ≤ k → k < patt.length → cmp (text.getD (i + k) 0) (patt.getD k 0) = true) →
      sundayMatch cmp text patt i fuel m = true
  | 0, m, hfuel, hm, _ => absurd hfuel (by omega)
  | fuel + 1, m, hfuel, hm, hall => by
      rw [sundayMatch]
      split
      · rfl
      · rw [if_pos (hall m (Nat.le_refl m) (by omega))]
        exact sundayMatch_complete fuel (m + 1) (by omega) (by omega)
          fun k hk => hall k (by omega)

/-- The comparison of a window is right about it. -/
theorem sundayWindow_iff {text patt : Bytes} {n i : Nat} (hn : n ≤ text.length) (hp : patt ≠ [])
    (hi : i + patt.length ≤ n) :
    (text.getD i 0 == patt.getD 0 0 && sundayMatch (· == ·) text patt i patt.length 1) = true
      ↔ List.OccursAt patt (text.take n) i := by
  have hpos : 0 < patt.length := List.length_pos_iff.mpr hp
  have hbyte : ∀ k < patt.length,
      ((text.getD (i + k) 0 == patt.getD k 0) = true ↔ (text.take n)[i + k]? = patt[k]?) := by
    intro k hk
    rw [List.getElem?_take_of_lt (by omega), List.getD_eq_getElem _ _ (by omega),
      List.getD_eq_getElem _ _ hk, List.getElem?_eq_getElem (by omega), List.getElem?_eq_getElem hk,
      beq_iff_eq, Option.some.injEq]
  rw [List.occursAt_iff_getElem?, Bool.and_eq_true]
  constructor
  · rintro ⟨hfirst, hrest⟩ k hk
    rcases Nat.eq_zero_or_pos k with rfl | hkpos
    · exact (hbyte 0 hk).mp hfirst
    · exact (hbyte k hk).mp (sundayMatch_sound patt.length 1 hrest k hkpos hk)
  · intro hall
    exact ⟨(hbyte 0 hpos).mpr (hall 0 hpos), sundayMatch_complete patt.length 1 (by omega) hpos
      fun k _ hk => (hbyte k hk).mpr (hall k hk)⟩

/-- **No skip jumps over a match.** -/
theorem sundayShift_safe {text patt : Bytes} {n i e : Nat} (hn : n ≤ text.length)
    (hi : i + patt.length ≤ n) (h0 : 0 < e)
    (he : e < sundayShift patt (text.getD (i + patt.length) 0)) :
    ¬ List.OccursAt patt (text.take n) (i + e) := by
  intro hocc
  have hrange := (sundayShift_range patt (text.getD (i + patt.length) 0)).2
  rw [List.occursAt_iff_getElem?] at hocc
  -- the byte after the window is against byte `patt_size - e` of the pattern
  have hlt : patt.length - e < patt.length := by omega
  have hkey := hocc _ hlt
  rw [List.getElem?_eq_getElem hlt] at hkey
  obtain ⟨hin, _⟩ := List.getElem?_eq_some_iff.mp hkey
  rw [List.length_take] at hin
  have hidx : i + e + (patt.length - e) = i + patt.length := by omega
  rw [hidx] at hkey hin
  refine sundayShift_skips h0 he (by omega) ?_
  rw [List.getElem?_eq_getElem hlt, ← hkey, List.getElem?_take_of_lt (by omega),
    List.getD_eq_getElem _ _ (by omega), List.getElem?_eq_getElem (by omega)]

/-! ## The scan -/

/-- What the offset of a hit, or `-1`, says about the text. -/
structure Finds (patt text : Bytes) (ret : Int) : Prop where
  hit : ∀ i : Nat, ret = i ↔ List.IsFirstOcc patt text i
  miss : ret = -1 ↔ ∀ i, ¬ List.OccursAt patt text i

theorem Finds.of_first {patt text : Bytes} {i : Nat} (h : List.IsFirstOcc patt text i) :
    Finds patt text i where
  hit j := by
    constructor
    · intro hj
      obtain rfl : i = j := by omega
      exact h
    · intro hj
      rw [h.unique hj]
  miss := ⟨fun hi => absurd hi (by omega), fun hnone => absurd h.occurs (hnone i)⟩

theorem Finds.of_none {patt text : Bytes} (h : ∀ i, ¬ List.OccursAt patt text i) :
    Finds patt text (-1) where
  hit i := ⟨fun hi => absurd hi (by omega), fun hi => absurd hi.occurs (h i)⟩
  miss := ⟨fun _ => h, fun _ => rfl⟩

/-- From an offset before which there is no match the scan ends with the right answer. Its
rounds are counted against what is left of the text. -/
theorem sundayIntLoop_finds {text patt : Bytes} {n : Nat} (hn : n ≤ text.length) (hp : patt ≠ [])
    (hmax : (n : Int) < intMax) : ∀ (fuel i : Nat), List.NoneBefore patt (text.take n) i →
      n < i + fuel → 0 < fuel → ∃ ret, Finds patt (text.take n) ret ∧
        sundayIntLoop (· == ·) (sundayShift patt) text patt ((n : Int) - patt.length + 1) fuel i
          = .returns ret
  | 0, _, _, _, h0 => absurd h0 (Nat.lt_irrefl 0)
  | fuel + 1, i, hnone, hfuel, _ => by
      have hpos : 0 < patt.length := List.length_pos_iff.mpr hp
      rw [sundayIntLoop]
      by_cases hlim : (i : Int) < (n : Int) - patt.length + 1
      · have hi : i + patt.length ≤ n := by omega
        rw [if_pos hlim]
        by_cases hocc : List.OccursAt patt (text.take n) i
        · rw [if_pos ((sundayWindow_iff hn hp hi).mpr hocc)]
          exact ⟨i, .of_first (hnone.isFirstOcc hocc), rfl⟩
        · rw [if_neg (fun h => hocc ((sundayWindow_iff hn hp hi).mp h))]
          obtain ⟨hlow, hhigh⟩ := sundayShift_range patt (text.getD (i + patt.length) 0)
          dsimp only
          -- a window inside the text moves to `text_size + 1` at most
          rw [if_pos (by omega)]
          exact sundayIntLoop_finds hn hp hmax fuel _
            (hnone.skip hocc fun e h0 he => sundayShift_safe hn hi h0 he) (by omega) (by omega)
      · -- past the last window nothing fits
        rw [if_neg hlim]
        have hlen : (text.take n).length < i + patt.length := by
          rw [List.length_take]
          omega
        exact ⟨-1, .of_none (hnone.nowhere hp hlen), rfl⟩

theorem sundayInt_finds {text patt : Bytes} {n : Nat} (hn : n ≤ text.length) (hp : patt ≠ [])
    (hmax : (n : Int) < intMax) (hpmax : (patt.length : Int) < intMax) :
    ∃ ret, Finds patt (text.take n) ret ∧ sundayInt text n patt = .returns ret := by
  unfold sundayInt
  rw [if_pos (by omega)]
  exact sundayIntLoop_finds hn hp hmax (n + 1) 0 (List.noneBefore_zero _ _) (by omega) (by omega)

/-- There is a first match to return, or `-1`. -/
theorem Finds.or {patt text : Bytes} {ret : Int} (h : Finds patt text ret) :
    (∃ i : Nat, ret = i ∧ List.IsFirstOcc patt text i)
      ∨ ret = -1 ∧ ∀ i, ¬ List.OccursAt patt text i := by
  by_cases hocc : ∃ i, List.OccursAt patt text i
  · obtain ⟨i, hi⟩ := List.exists_isFirstOcc hocc
    exact .inl ⟨i, (h.hit i).mpr hi, hi⟩
  · have hnone : ∀ i, ¬ List.OccursAt patt text i := fun i hi => hocc ⟨i, hi⟩
    exact .inr ⟨h.miss.mpr hnone, hnone⟩

theorem Finds.unique {patt text : Bytes} {r s : Int} (hr : Finds patt text r)
    (hs : Finds patt text s) : r = s := by
  rcases hr.or with ⟨i, rfl, hi⟩ | ⟨rfl, hnone⟩
  · exact ((hs.hit i).mpr hi).symm
  · exact (hs.miss.mpr hnone).symm

/-- **`sunday` returns the first match or `-1`**, whatever the byte after the text is, for a
text and a pattern shorter than `INT_MAX`. -/
theorem sunday_first (text patt : Bytes) (next : UInt8) (hp : 1 ≤ patt.length)
    (hmax : (text.length : Int) < intMax) (hpmax : (patt.length : Int) < intMax) :
    ∃ ret, sundayInt (text ++ [next]) text.length patt = .returns ret ∧ Finds patt text ret
      ∧ ∀ next', sundayInt (text ++ [next']) text.length patt = .returns ret := by
  have hp' : patt ≠ [] := List.length_pos_iff.mp hp
  have key : ∀ b, ∃ ret, Finds patt text ret
      ∧ sundayInt (text ++ [b]) text.length patt = .returns ret := by
    intro b
    have hle : text.length ≤ (text ++ [b]).length := by simp
    have h := sundayInt_finds hle hp' hmax hpmax
    rwa [List.take_left] at h
  obtain ⟨ret, hfinds, hret⟩ := key next
  refine ⟨ret, hret, hfinds, ?_⟩
  intro next'
  obtain ⟨ret', hfinds', hret'⟩ := key next'
  rw [hret', hfinds.unique hfinds']

/-- The scan stops at the first match. -/
theorem sunday_first_abd :
    ∃ ret, sundayInt (lit "abcabd" ++ [7]) (lit "abcabd").length (lit "abd") = .returns ret
      ∧ Finds (lit "abd") (lit "abcabd") ret
      ∧ ∀ next',
        sundayInt (lit "abcabd" ++ [next']) (lit "abcabd").length (lit "abd") = .returns ret :=
  sunday_first (lit "abcabd") (lit "abd") 7 (by decide) (by decide) (by decide)

/-- In zeros a one is looked for at every second offset, and the last of these sums is
`INT_MAX + 1`. -/
theorem sundayIntLoop_zeros {text : Bytes} (hzero : ∀ i, text.getD i 0 = 0) :
    ∀ k fuel : Nat, k < fuel → 2 * k ≤ 2147483646 →
      sundayIntLoop (· == ·) (sundayShift [1]) text [1] 2147483647 fuel (2147483646 - 2 * k)
        = .overflow
  | k, 0, hk, _ => absurd hk (Nat.not_lt_zero k)
  | k, fuel + 1, hk, hle => by
      have hshift : sundayShift [1] 0 = 2 := by decide
      rw [sundayIntLoop, if_pos (by omega), hzero, hzero, if_neg (by simp), hshift]
      dsimp only
      cases k with
      | zero => exact if_neg (by unfold intMax; omega)
      | succ k =>
          rw [if_pos (by unfold intMax; omega),
            show 2147483646 - 2 * (k + 1) + 2 = 2147483646 - 2 * k by omega]
          exact sundayIntLoop_zeros hzero k fuel (by omega) (by omega)

theorem sundayInt_zeros : sundayInt (List.replicate 2147483647 0 ++ [0])
    (List.replicate 2147483647 (0 : UInt8)).length [1] = .overflow := by
  have hzero : ∀ i, (List.replicate 2147483647 (0 : UInt8) ++ [0]).getD i 0 = 0 := by
    intro i
    rw [← List.replicate_succ', List.getD_eq_getElem?_getD, List.getElem?_replicate]
    split <;> rfl
  unfold sundayInt
  rw [List.length_replicate, if_pos (by decide)]
  exact sundayIntLoop_zeros hzero 1073741823 2147483648 (by omega) (by omega)

/-- A text of `INT_MAX` zeros has no end for the scan that looks for a one in it. -/
theorem sunday_overflows :
    ¬ ∃ ret, sundayInt (List.replicate 2147483647 0 ++ [0])
      (List.replicate 2147483647 (0 : UInt8)).length [1] = .returns ret := by
  rintro ⟨ret, hret⟩
  exact absurd (sundayInt_zeros.symm.trans hret) (by simp)

/-! ## The lookups of the server -/

/-- The two forms of the scan agree where no sum overflows. -/
theorem sundayIntLoop_eq {text patt : Bytes} {n : Nat} (hp : patt ≠ [])
    (hmax : (n : Int) < intMax) :
    ∀ (fuel i : Nat), n < i + fuel → 0 < fuel →
      sundayIntLoop (· == ·) (sundayShift patt) text patt ((n : Int) - patt.length + 1) fuel i
        = .returns ((sundayLoop (· == ·) (sundayShift patt) text patt
            ((n : Int) - patt.length + 1) fuel i).elim (-1) fun j => (j : Int))
  | 0, _, _, h0 => absurd h0 (Nat.lt_irrefl 0)
  | fuel + 1, i, hfuel, _ => by
      have hpos : 0 < patt.length := List.length_pos_iff.mpr hp
      rw [sundayIntLoop, sundayLoop]
      by_cases hlim : (i : Int) < (n : Int) - patt.length + 1
      · rw [if_pos hlim, if_pos hlim]
        split
        · rfl
        · obtain ⟨hlow, hhigh⟩ := sundayShift_range patt (text.getD (i + patt.length) 0)
          dsimp only
          rw [if_pos (by omega)]
          exact sundayIntLoop_eq hp hmax fuel _ (by omega) (by omega)
      · rw [if_neg hlim, if_neg hlim]
        rfl

/-- **`sunday` is a first-occurrence search.** -/
theorem sunday_eq_some_iff {text patt : Bytes} {n i : Nat} (hn : n ≤ text.length) (hp : patt ≠ [])
    (hmax : (n : Int) < intMax) (hpmax : (patt.length : Int) < intMax) :
    sunday text n patt = some i ↔ List.IsFirstOcc patt (text.take n) i := by
  obtain ⟨ret, hfinds, hret⟩ := sundayInt_finds hn hp hmax hpmax
  unfold sundayInt at hret
  rw [if_pos (by omega), sundayIntLoop_eq hp hmax (n + 1) 0 (by omega) (by omega)] at hret
  have hval := SundayEnd.returns.inj hret
  rw [← hfinds.hit i, ← hval]
  unfold sunday
  constructor
  · intro h
    rw [h]
    rfl
  · intro h
    generalize sundayLoop (· == ·) (sundayShift patt) text patt ((n : Int) - patt.length + 1)
      (n + 1) 0 = found at h
    cases found with
    | none => exact absurd h (by simp [Option.elim])
    | some j =>
        obtain rfl : j = i := by simpa [Option.elim] using h
        rfl

/-- **`straddr` finds the first occurrence of one string in another.** -/
theorem straddr_eq_some_iff {buf find : Bytes} {i : Nat} (hfind : cstr find ≠ [])
    (hmax : (strlen buf : Int) < intMax) (hfmax : (strlen find : Int) < intMax) :
    straddr buf find = some i ↔ List.IsFirstOcc (cstr find) (cstr buf) i := by
  have hpos : 0 < (cstr find).length := List.length_pos_iff.mpr hfind
  have hlen : strlen buf ≤ buf.length := (cstr_isPrefix buf).length_le
  have htake : buf.take (strlen buf) = cstr buf :=
    (List.prefix_iff_eq_take.mp (cstr_isPrefix buf)).symm
  unfold straddr
  split
  · -- nothing stands in an empty string
    rename_i hzero
    have hbuf : (cstr buf).length = 0 := by
      rcases hzero with h | h
      · exact h
      · exact absurd h (Nat.ne_of_gt hpos)
    refine ⟨fun h => absurd h (by simp), ?_⟩
    intro h
    have := h.occurs.le hfind
    omega
  · rw [sunday_eq_some_iff hlen hfind hmax hfmax, htake]

/-- Without a NUL, the strings are all of their bytes. -/
theorem straddr_noNul {buf find : Bytes} {i : Nat} (hbuf : (0 : UInt8) ∉ buf)
    (hfind : (0 : UInt8) ∉ find) (hne : find ≠ []) (hmax : (buf.length : Int) < intMax)
    (hfmax : (find.length : Int) < intMax) :
    straddr buf find = some i ↔ List.IsFirstOcc find buf i := by
  have hcbuf := cstr_eq_self hbuf
  have hcfind := cstr_eq_self hfind
  have hiff := @straddr_eq_some_iff buf find i
  rw [strlen, strlen, hcbuf, hcfind] at hiff
  exact hiff hne hmax hfmax

end TraceServer
