import TraceServer.Proof.Sunday

/-!
# A search without case is a search in lower case (`sunday_case`)

`sunday_case` runs step for step as `sunday` does on the text and the pattern in lower case:
its comparison is equality in lower case, and its table has for a byte what the table of the
pattern in lower case has for the byte in lower case. What is known of `sunday` therefore
holds of it.
-/

namespace TraceServer

/-- `A` to `Z` as `a` to `z`; every other byte as it is. -/
def asciiLower (c : UInt8) : UInt8 := if 65 ≤ c && c ≤ 90 then c + 32 else c

/-! ## The two cases of a letter -/

theorem bmT_bmT (c : UInt8) : bmT (bmT c) = c := by
  unfold bmT
  grind

theorem asciiLower_bmT (c : UInt8) : asciiLower (bmT c) = asciiLower c := by
  unfold bmT asciiLower
  grind

theorem asciiLower_or (c : UInt8) : asciiLower c = c ∨ asciiLower c = bmT c := by
  unfold bmT asciiLower
  grind

/-- A byte that has another case is a letter, and so is its other case. -/
theorem isLetter_bmT {c : UInt8} (h : bmT c ≠ c) : isLetter c = true ∧ isLetter (bmT c) = true := by
  unfold bmT at *
  simp only [isLetter, Bool.or_eq_true, Bool.and_eq_true, decide_eq_true_eq] at *
  grind

/-- Two bytes are the same in lower case when one is the other, or its other case. -/
theorem asciiLower_eq_iff {s c : UInt8} : asciiLower s = asciiLower c ↔ s = c ∨ s = bmT c := by
  constructor
  · intro h
    rcases asciiLower_or s with hs | hs
    · rcases asciiLower_or c with hc | hc
      · exact .inl (hs.symm.trans (h.trans hc))
      · exact .inr (hs.symm.trans (h.trans hc))
    · rcases asciiLower_or c with hc | hc
      · exact .inr (by rw [← hc, ← h, hs, bmT_bmT])
      · exact .inl (by rw [← bmT_bmT s, ← hs, h, hc, bmT_bmT])
  · rintro (rfl | rfl)
    · rfl
    · exact asciiLower_bmT c

/-- `_bm_cmp` compares in lower case. -/
theorem bmCmp_eq (s c : UInt8) : bmCmp s c = (asciiLower s == asciiLower c) := by
  have hcmp : bmCmp s c = true ↔ s = c ∨ s = bmT c := by
    unfold bmCmp
    split
    · simp
    · rename_i hletters
      rw [beq_iff_eq]
      refine ⟨.inl, ?_⟩
      rintro (h | h)
      · exact h
      · by_contra hne
        obtain ⟨hc, hs⟩ := isLetter_bmT (c := c) (fun heq => hne (h.trans heq))
        exact hletters (by rw [h, hc, hs]; rfl)
  rw [Bool.eq_iff_iff, hcmp, beq_iff_eq, asciiLower_eq_iff]

/-- Only letters change. -/
theorem asciiLower_eq_of_not_letter {c d : UInt8} (hc : isLetter c = false) (h : asciiLower d = c) :
    d = c := by
  rcases asciiLower_or d with hd | hd
  · exact hd.symm.trans h
  · by_contra hne
    have hletter := (isLetter_bmT (c := d) fun hT => hne (hT.symm.trans (hd.symm.trans h))).2
    rw [← hd, h, hc] at hletter
    exact absurd hletter (by simp)

/-- A byte that is no letter stays out of a text that has not got it. -/
theorem not_mem_map_asciiLower {c : UInt8} {s : Bytes} (hc : isLetter c = false) (h : c ∉ s) :
    c ∉ s.map asciiLower := by
  intro hmem
  obtain ⟨d, hd, hlower⟩ := List.mem_map.mp hmem
  exact h (asciiLower_eq_of_not_letter hc hlower ▸ hd)

theorem getD_asciiLower (text : Bytes) (i : Nat) :
    (text.map asciiLower).getD i 0 = asciiLower (text.getD i 0) :=
  List.getD_map text 0 asciiLower

/-! ## The table -/

/-- The entries of both cases of a byte are written together. -/
theorem sundayCaseShiftLoop_eq (m : Nat) : ∀ (patt : Bytes) (i : Nat) (shift shift' : UInt8 → Nat),
    (∀ d, shift d = shift' (asciiLower d)) → ∀ d, sundayCaseShiftLoop m i patt shift d
      = sundayShiftLoop m i (patt.map asciiLower) shift' (asciiLower d)
  | [], _, _, _, hsame, d => hsame d
  | c :: patt, i, shift, shift', hsame, d => by
      rw [sundayCaseShiftLoop, List.map_cons, sundayShiftLoop]
      refine sundayCaseShiftLoop_eq m patt (i + 1) _ _ ?_ d
      intro e
      have hentry : (if bmT c ≠ c then
            Function.update (Function.update shift c (m - i)) (bmT c) (m - i)
          else Function.update shift c (m - i)) e
          = if e = c ∨ e = bmT c then m - i else shift e := by
        by_cases hc : bmT c = c
        · simp [hc, Function.update_apply]
        · rw [if_pos hc, Function.update_apply, Function.update_apply]
          by_cases heq : e = c <;> simp [heq]
      rw [hentry, Function.update_apply, hsame e]
      exact if_congr asciiLower_eq_iff.symm rfl rfl

/-- **The table of `sunday_case` is that of the pattern in lower case.** -/
theorem sundayCaseShift_eq (patt : Bytes) (d : UInt8) :
    sundayCaseShift patt d = sundayShift (patt.map asciiLower) (asciiLower d) := by
  unfold sundayCaseShift sundayShift
  rw [List.length_map]
  exact sundayCaseShiftLoop_eq patt.length patt 0 _ (fun _ => patt.length + 1) (fun _ => rfl) d

/-! ## The scan -/

section

variable (text patt : Bytes) (limit : Int)

theorem sundayMatch_lower (i : Nat) : ∀ fuel m : Nat, sundayMatch bmCmp text patt i fuel m
    = sundayMatch (· == ·) (text.map asciiLower) (patt.map asciiLower) i fuel m
  | 0, _ => rfl
  | fuel + 1, m => by
      rw [sundayMatch, sundayMatch, sundayMatch_lower i fuel (m + 1), bmCmp_eq, getD_asciiLower,
        getD_asciiLower, List.length_map]

/-- The comparison of a window, in both searches. -/
theorem sundayWindow_lower (i : Nat) :
    (bmCmp (text.getD i 0) (patt.getD 0 0) && sundayMatch bmCmp text patt i patt.length 1)
      = ((text.map asciiLower).getD i 0 == (patt.map asciiLower).getD 0 0
        && sundayMatch (· == ·) (text.map asciiLower) (patt.map asciiLower) i
          (patt.map asciiLower).length 1) := by
  rw [sundayMatch_lower, bmCmp_eq, getD_asciiLower, getD_asciiLower, List.length_map]

theorem sundayCaseLoop_lower : ∀ fuel i : Nat,
    sundayLoop bmCmp (sundayCaseShift patt) text patt limit fuel i
      = sundayLoop (· == ·) (sundayShift (patt.map asciiLower)) (text.map asciiLower)
        (patt.map asciiLower) limit fuel i
  | 0, _ => rfl
  | fuel + 1, i => by
      rw [sundayLoop, sundayLoop, sundayWindow_lower, sundayCaseShift_eq, List.length_map,
        getD_asciiLower text (i + patt.length), sundayCaseLoop_lower fuel]

theorem sundayIntLoop_lower : ∀ fuel i : Nat,
    sundayIntLoop bmCmp (sundayCaseShift patt) text patt limit fuel i
      = sundayIntLoop (· == ·) (sundayShift (patt.map asciiLower)) (text.map asciiLower)
        (patt.map asciiLower) limit fuel i
  | 0, _ => rfl
  | fuel + 1, i => by
      rw [sundayIntLoop, sundayIntLoop, sundayWindow_lower, sundayCaseShift_eq, List.length_map,
        getD_asciiLower text (i + patt.length)]
      dsimp only
      rw [sundayIntLoop_lower fuel]

end

/-- **`sunday_case` is `sunday` in lower case**, in every way it can end. -/
theorem sundayCaseInt_lower (text patt : Bytes) (n : Nat) :
    sundayCaseInt text n patt = sundayInt (text.map asciiLower) n (patt.map asciiLower) := by
  unfold sundayCaseInt sundayInt
  rw [sundayIntLoop_lower, List.length_map]

theorem sundayCase_lower (text patt : Bytes) (n : Nat) :
    sundayCase text n patt = sunday (text.map asciiLower) n (patt.map asciiLower) := by
  unfold sundayCase sunday
  rw [sundayCaseLoop_lower, List.length_map]

/-- **`sunday_case` returns what `sunday` returns on lower case**: the first match up to the case
of letters, or `-1`. -/
theorem sundayCase_first (text patt : Bytes) (next : UInt8) (hp : 1 ≤ patt.length)
    (hmax : (text.length : Int) < intMax) (hpmax : (patt.length : Int) < intMax) :
    ∃ ret, sundayCaseInt (text ++ [next]) text.length patt = .returns ret
      ∧ Finds (patt.map asciiLower) (text.map asciiLower) ret
      ∧ ∀ next', sundayInt (text.map asciiLower ++ [next']) text.length (patt.map asciiLower)
        = .returns ret := by
  have hp' : patt.map asciiLower ≠ [] := by
    rw [← List.length_pos_iff, List.length_map]
    exact hp
  have key : ∀ b, ∃ ret, Finds (patt.map asciiLower) (text.map asciiLower) ret
      ∧ sundayInt (text.map asciiLower ++ [b]) text.length (patt.map asciiLower)
        = .returns ret := by
    intro b
    have hle : text.length ≤ (text.map asciiLower ++ [b]).length := by simp
    have h := sundayInt_finds hle hp' hmax (by rwa [List.length_map])
    rwa [List.take_left' (List.length_map _)] at h
  obtain ⟨ret, hfinds, hret⟩ := key (asciiLower next)
  refine ⟨ret, ?_, hfinds, ?_⟩
  · rw [sundayCaseInt_lower, List.map_append]
    exact hret
  · intro next'
    obtain ⟨ret', hfinds', hret'⟩ := key next'
    rw [hret', hfinds.unique hfinds']

/-- A letter of either case, and a byte above 127. -/
theorem sundayCase_first_host :
    ∃ ret, sundayCaseInt ((13 :: 200 :: lit "hOst:") ++ [0]) (13 :: 200 :: lit "hOst:").length
        (200 :: lit "HOST") = .returns ret
      ∧ Finds ((200 :: lit "HOST").map asciiLower) ((13 :: 200 :: lit "hOst:").map asciiLower) ret
      ∧ ∀ next', sundayInt ((13 :: 200 :: lit "hOst:").map asciiLower ++ [next'])
        (13 :: 200 :: lit "hOst:").length ((200 :: lit "HOST").map asciiLower) = .returns ret :=
  sundayCase_first (13 :: 200 :: lit "hOst:") (200 :: lit "HOST") 0 (by decide) (by decide)
    (by decide)

/-- Nor does it come to the end of a text of `INT_MAX` zeros. -/
theorem sundayCase_overflows :
    ¬ ∃ ret, sundayCaseInt (List.replicate 2147483647 0 ++ [0])
      (List.replicate 2147483647 (0 : UInt8)).length [1] = .returns ret := by
  rintro ⟨ret, hret⟩
  have hlower : (List.replicate 2147483647 (0 : UInt8) ++ [0]).map asciiLower
      = List.replicate 2147483647 0 ++ [0] := by
    rw [List.map_append, List.map_replicate]
    rfl
  rw [sundayCaseInt_lower, hlower] at hret
  exact absurd (sundayInt_zeros.symm.trans hret) (by simp)

end TraceServer
