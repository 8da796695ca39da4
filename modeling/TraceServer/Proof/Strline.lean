import TraceServer.UserString

/-!
# Reading a string line by line (`strline`)

A call copies up to the end of the line, up to the end of the string, or as much as the buffer
holds, whichever comes first, and returns how much that was. So whoever goes on from there sees
the whole string, piece by piece, and is told -1 behind the last piece.
-/

namespace TraceServer

namespace UserString

/-! ## One call -/

/-- The end of a call puts a NUL behind what has been copied. -/
theorem strlineEnd_eq {j : Nat} {pdest : Bytes} (h : j < pdest.length) :
    strlineEnd j pdest = .returns (if j = 0 then -1 else j) (pdest.blit j [0]) := by
  rw [strlineEnd, store, if_pos (by rw [List.length_singleton]; omega)]

/-- **The loop** copies a piece from the beginning of the string. It is not empty unless the string
is, it leaves room for the NUL, and it ends at the first newline. -/
theorem strlineLoop_copies {size : Int} (more s : Bytes) : ∀ (j : Nat) (pdest : Bytes),
    (0 : UInt8) ∉ s → (j : Int) < size - 1 → size ≤ pdest.length →
    ∃ c rest, s = c ++ rest ∧ (c = [] → s = []) ∧ ((j + c.length : Nat) : Int) < size
      ∧ (∀ a ∈ c.dropLast, a ≠ 10)
      ∧ strlineLoop size (s ++ 0 :: more) j pdest
        = .returns (if j + c.length = 0 then -1 else (j + c.length : Nat))
            (pdest.blit j (c ++ [0])) := by
  induction s with
  | nil =>
      intro j pdest _ hj hdest
      refine ⟨[], [], rfl, fun _ => rfl, ?_, by simp, ?_⟩
      · rw [List.length_nil]
        omega
      · exact strlineEnd_eq (by omega)
  | cons a s ih =>
      intro j pdest hnul hj hdest
      rw [List.mem_cons, not_or] at hnul
      have ha : a ≠ 0 := fun h => hnul.1 h.symm
      have hroom : j + [a].length ≤ pdest.length := by
        rw [List.length_singleton]
        omega
      have hlen := List.length_blit hroom
      rw [List.cons_append, strlineLoop, if_neg ha, store, if_pos hroom]
      by_cases hstop : ((j + 1 : Nat) : Int) = size - 1 ∨ a = 10
      · -- the buffer is full, or this is the newline
        refine ⟨[a], s, rfl, fun h => absurd h (by simp), ?_, by simp, ?_⟩
        · rw [List.length_singleton]
          omega
        · rw [if_pos hstop, strlineEnd_eq (by omega)]
          exact congrArg (StrEnd.returns _) (List.blit_append hroom)
      · rw [not_or] at hstop
        obtain ⟨c, rest, rfl, _, hfits, hline, hloop⟩ :=
          ih (j + 1) (pdest.blit j [a]) hnul.2 (by omega) (by omega)
        have hsum : j + (a :: c).length = j + 1 + c.length := by
          rw [List.length_cons]
          omega
        refine ⟨a :: c, rest, rfl, fun h => absurd h (by simp), by rwa [hsum], ?_, ?_⟩
        · cases c with
          | nil => simp
          | cons b c =>
              intro x hx
              rcases List.mem_cons.mp hx with rfl | hx
              · exact hstop.2
              · exact hline x hx
        · rw [if_neg (by rw [not_or]; exact hstop), hloop, hsum]
          exact congrArg (StrEnd.returns _) (List.blit_append hroom)

/-! ## All calls -/

/-- The calls of `strline` until one returns -1, each from where the one before it has stopped: what
they return and what is then in the buffer. -/
def strlineAll (size : Int) : Nat → Bytes → Bytes → Option (List (Nat × Bytes))
  | 0, _, _ => none
  | calls + 1, psrc, pdest =>
    match strline psrc pdest size with
    | .returns ret pdest =>
      if ret = -1 then some []
      else (strlineAll size calls (psrc.drop ret.toNat) pdest).map ((ret.toNat, pdest) :: ·)
    | _ => none

/-- What a call leaves: a string of the length it returns, terminated inside of the buffer, with a
newline at most at its end. -/
structure IsChunk (size : Int) (x : Nat × Bytes) : Prop where
  pos : 0 < x.1
  fits : (x.1 : Int) < size
  terminated : x.2[x.1]? = some 0
  length : strlen x.2 = x.1
  newline : ∀ a ∈ (cstr x.2).dropLast, a ≠ 10

/-- **Line by line, nothing is lost and nothing comes twice.** More calls than the string has bytes
are enough; every one but the last leaves a chunk, and the chunks are the string. -/
theorem strline_all (s more pdest : Bytes) (size : Int) (calls : Nat) (hs : (0 : UInt8) ∉ s)
    (hsize : 2 ≤ size) (hdest : size ≤ pdest.length) (hcalls : s.length < calls) :
    ∃ chunks, strlineAll size calls (s ++ 0 :: more) pdest = some chunks
      ∧ (∀ x ∈ chunks, IsChunk size x) ∧ (chunks.flatMap fun x => cstr x.2) = s := by
  induction calls generalizing s pdest with
  | zero => omega
  | succ calls ih =>
      obtain ⟨c, rest, rfl, hne, hfits, hline, hloop⟩ :=
        strlineLoop_copies more s 0 pdest hs (by omega) hdest
      rw [Nat.zero_add] at hfits hloop
      rw [strlineAll, strline, hloop]
      by_cases hnil : c = []
      · -- the string is at its end
        subst hnil
        refine ⟨[], by simp, fun x hx => absurd hx (by simp), ?_⟩
        rw [hne rfl]
        rfl
      · have hpos : 0 < c.length := List.length_pos_iff.mpr hnil
        have hc : (0 : UInt8) ∉ c := fun h => hs (List.mem_append_left _ h)
        have hrest : (0 : UInt8) ∉ rest := fun h => hs (List.mem_append_right _ h)
        have hroom : 0 + (c ++ [0]).length ≤ pdest.length := by
          rw [List.length_append, List.length_singleton]
          omega
        have hbuf : pdest.blit 0 (c ++ [0]) = c ++ 0 :: pdest.drop (c ++ [0]).length := by
          rw [List.blit_zero, List.append_assoc, List.singleton_append]
        have hstr : cstr (pdest.blit 0 (c ++ [0])) = c := by
          rw [hbuf, cstr_append_nul hc]
        obtain ⟨chunks, hall, hchunks, hwhole⟩ := ih rest (pdest.blit 0 (c ++ [0])) hrest
          (by rw [List.length_blit hroom]; exact hdest)
          (by rw [List.length_append] at hcalls; omega)
        refine ⟨(c.length, pdest.blit 0 (c ++ [0])) :: chunks, ?_, ?_, ?_⟩
        · dsimp only
          rw [if_neg (show ¬ c.length = 0 by omega), if_neg (by omega), Int.toNat_natCast,
            List.append_assoc, List.drop_left, hall]
          rfl
        · intro x hx
          rcases List.mem_cons.mp hx with rfl | hx
          · refine ⟨hpos, hfits, ?_, ?_, ?_⟩
            · dsimp only
              rw [hbuf, List.getElem?_append_right (Nat.le_refl _), Nat.sub_self]
              rfl
            · exact congrArg List.length hstr
            · dsimp only
              rw [hstr]
              exact hline
          · exact hchunks x hx
        · rw [List.flatMap_cons, hwhole]
          dsimp only
          rw [hstr]

/-- A line that is cut, its end, an empty line and a last line without a newline, in a buffer of
four bytes. -/
theorem strline_all_lines :
    ∃ chunks, strlineAll 4 9 (lit "abcd\n\nef" ++ 0 :: []) [0, 0, 0, 0] = some chunks
      ∧ (∀ x ∈ chunks, IsChunk 4 x) ∧ (chunks.flatMap fun x => cstr x.2) = lit "abcd\n\nef" :=
  strline_all (lit "abcd\n\nef") [] [0, 0, 0, 0] 4 9 (by decide) (by decide) (by decide) (by decide)

end UserString

end TraceServer
