import TraceServer.Proof.Path

/-!
# Two logs at one path

The name of a log ends in the microseconds of the clock, so two names that are printed
whole are different (`uncutPath_injective`). The array they are printed into keeps 253
bytes, and the serial number alone stands in a path twice: what is cut is the end, and
the end is where the microseconds are.
-/

namespace TraceServer

/-! ## What is printed, before it is cut -/

/-- The path `_create_and_open_skylog_file` prints for a log. -/
def uncutPath (s : Skylog) (os : Os) : Bytes := skylogFullPath (datedSkylog s os) (timeStr os)

theorem fmt02d_length_le {n : Nat} (h : n < 100) : (fmt02d n).length ≤ 2 := by
  unfold fmt02d
  split
  · have := fmtLu_length_le (k := 1) (n := n) (by decide) (by omega)
    rw [List.length_cons]
    omega
  · exact fmtLu_length_le (by decide) (by omega)

theorem fmtD_length_le {i : Int} (h : -2147483648 ≤ i ∧ i < 2147483648) :
    (fmtD i).length ≤ 11 := by
  have := fmtLu_length_le (k := 10) (n := i.natAbs) (by decide) (by omega)
  unfold fmtD
  split
  · rw [List.length_cons]
    omega
  · omega

/-- The time fits its array with room to spare. -/
theorem fmtTimeStr_length_le (t : UtcTime) (us : UInt64) : (fmtTimeStr t us).length ≤ 49 := by
  have hyear := fmtD_length_le t.year_range
  have hmon := fmt02d_length_le (n := t.mon) (by have := t.mon_range; omega)
  have hdata := fmt02d_length_le (n := t.data) (by have := t.data_range; omega)
  have hhour := fmt02d_length_le (n := t.hour) (by have := t.hour_lt; omega)
  have hmin := fmt02d_length_le (n := t.min) (by have := t.min_lt; omega)
  have hsec := fmt02d_length_le (n := t.sec) (by have := t.sec_le; omega)
  have hus := fmtLu_length_le (k := 20) (n := us.toNat) (by decide)
    (lt_trans us.toNat_lt (by decide))
  have hcentury : (lit "20").length = 2 := by decide
  have hdash : (lit "-").length = 1 := by decide
  have hunderscore : (lit "_").length = 1 := by decide
  simp only [fmtTimeStr, fmtDate, List.length_append, hcentury, hdash, hunderscore]
  omega

theorem timeStr_eq (os : Os) : timeStr os = fmtTimeStr os.getSystemUTCTime.1 (stampUs os) := by
  have hlen := fmtTimeStr_length_le os.getSystemUTCTime.1 (stampUs os)
  exact snprintf_str_of_fits (isTime_fmtTimeStr _ _).noNul (by omega)

/-- The parts of a path: something, an underscore, the microseconds, the extension. -/
theorem uncutPath_parts (s : Skylog) (os : Os) :
    ∃ front, uncutPath s os = front ++ 95 :: fmtLu (stampUs os).toNat ++ skylogExt s.type := by
  let t := os.getSystemUTCTime.1
  refine ⟨(skylogDirPath (datedSkylog s os)).str ++ lit "/" ++ fmtS (getSkylogTypeName s.type) ++
    lit "_" ++ s.sn.str ++ lit "_" ++ fmtDate t ++ lit "_" ++ fmt02d t.hour ++ lit "_" ++
    fmt02d t.min ++ lit "_" ++ fmt02d t.sec, ?_⟩
  have hunderscore : lit "_" = [95] := by decide
  simp [uncutPath, skylogFullPath, timeStr_eq, fmtTimeStr, datedSkylog, hunderscore, t]

/-- The two extensions do not end in the same character. -/
theorem skylogExt_cancel {a₁ a₂ : Bytes} {type₁ type₂ : Int}
    (h : a₁ ++ skylogExt type₁ = a₂ ++ skylogExt type₂) : a₁ = a₂ := by
  have hlast := congrArg List.getLast? h
  have hext : skylogExt type₁ = skylogExt type₂ := by
    unfold skylogExt at hlast ⊢
    split at hlast <;> split at hlast <;> simp_all [lit]
  rw [hext] at h
  exact List.append_cancel_right h

/-- What stands after the last of the separators is determined. -/
theorem afterLast_inj {sep : UInt8} {a₁ a₂ d₁ d₂ : Bytes} (h₁ : sep ∉ d₁) (h₂ : sep ∉ d₂)
    (h : a₁ ++ sep :: d₁ = a₂ ++ sep :: d₂) : d₁ = d₂ := by
  rcases List.append_eq_append_iff.mp h with ⟨m, _, hm⟩ | ⟨m, _, hm⟩
  · cases m with
    | nil => exact (List.cons.inj hm).2
    | cons b m =>
        refine absurd ?_ h₁
        rw [(List.cons.inj hm).2]
        simp
  · cases m with
    | nil => exact (List.cons.inj hm).2.symm
    | cons b m =>
        refine absurd ?_ h₂
        rw [(List.cons.inj hm).2]
        simp

theorem underscore_not_mem_fmtLu (n : Nat) : (95 : UInt8) ∉ fmtLu n :=
  fun h => absurd (isDigit_of_mem_fmtLu h) (by decide)

/-- **Two paths that are printed whole are different when their microseconds are.** -/
theorem uncutPath_injective {s₁ s₂ : Skylog} {os₁ os₂ : Os}
    (h : uncutPath s₁ os₁ = uncutPath s₂ os₂) : stampUs os₁ = stampUs os₂ := by
  obtain ⟨front₁, hparts₁⟩ := uncutPath_parts s₁ os₁
  obtain ⟨front₂, hparts₂⟩ := uncutPath_parts s₂ os₂
  rw [hparts₁, hparts₂] at h
  have hus := afterLast_inj (underscore_not_mem_fmtLu _) (underscore_not_mem_fmtLu _)
    (skylogExt_cancel h)
  exact UInt64.toNat_inj.mp (fmtLu_injective hus)

/-! ## What is kept -/

/-- What a fresh log's `file_path` holds, when it was built at all. -/
theorem filePath_take {s : Skylog} {os : Os} (hfresh : s.filePath.str = [])
    (hbuilt : (createAndOpenSkylogFile s os).skylog.filePath.str ≠ []) :
    (createAndOpenSkylogFile s os).skylog.filePath.str = (uncutPath s os).take 253 := by
  rcases (createAndOpenSkylogFile_built hfresh os).filePath with heq | heq
  · rw [heq] at hbuilt
    exact absurd hfresh hbuilt
  · rw [heq]
    exact skylogFilePath_take (isTime_timeStr os).noNul

/-- Two lists that go on agree up to there exactly when no position tells them apart. -/
theorem take_ne_iff {l₁ l₂ : Bytes} {n : Nat} :
    l₁.take n ≠ l₂.take n ↔ ∃ i < n, l₁[i]? ≠ l₂[i]? := by
  constructor
  · intro hne
    by_contra hall
    refine hne (List.ext_getElem? ?_)
    intro i
    rw [List.getElem?_take, List.getElem?_take]
    split
    · rename_i hi
      by_contra hi'
      exact hall ⟨i, hi, hi'⟩
    · rfl
  · rintro ⟨i, hi, hne⟩ heq
    have := congrArg (fun l => l[i]?) heq
    simp only [List.getElem?_take, if_pos hi] at this
    exact hne this

/-- A list that is not cut is only equal to one that is not cut either. -/
theorem eq_of_take_eq {l₁ l₂ : Bytes} {n : Nat} (hlen : l₁.length < n)
    (h : l₁.take n = l₂.take n) : l₁ = l₂ := by
  have hlen₂ := congrArg List.length h
  rw [List.length_take, List.length_take] at hlen₂
  rwa [List.take_of_length_le (by omega), List.take_of_length_le (by omega)] at h

/-- **Two logs get different paths exactly when one of the paths fits, or when the two
already differ where neither is cut.** -/
theorem filePath_ne_iff {s₁ s₂ : Skylog} {os₁ os₂ : Os}
    (hfresh₁ : s₁.filePath.str = []) (hfresh₂ : s₂.filePath.str = [])
    (hbuilt₁ : (createAndOpenSkylogFile s₁ os₁).skylog.filePath.str ≠ [])
    (hbuilt₂ : (createAndOpenSkylogFile s₂ os₂).skylog.filePath.str ≠ [])
    (hus : stampUs os₁ ≠ stampUs os₂) :
    (createAndOpenSkylogFile s₁ os₁).skylog.filePath.str
        ≠ (createAndOpenSkylogFile s₂ os₂).skylog.filePath.str
      ↔ (uncutPath s₁ os₁).length < 253 ∨ (uncutPath s₂ os₂).length < 253
        ∨ ∃ i < 253, (uncutPath s₁ os₁)[i]? ≠ (uncutPath s₂ os₂)[i]? := by
  rw [filePath_take hfresh₁ hbuilt₁, filePath_take hfresh₂ hbuilt₂, ← take_ne_iff]
  have hne : uncutPath s₁ os₁ ≠ uncutPath s₂ os₂ := fun h => hus (uncutPath_injective h)
  constructor
  · exact fun h => .inr (.inr h)
  · rintro (hlen | hlen | h) heq
    · exact hne (eq_of_take_eq hlen heq)
    · exact hne (eq_of_take_eq hlen heq.symm).symm
    · exact h heq

/-- A request whose product and serial number fill their buffers. -/
def longNames : HttpRequest :=
  .ofHeader (lit "GET /?Hw=" ++ List.replicate 62 97 ++ lit "&Sn=" ++ List.replicate 62 99 ++
    lit " HTTP/1.1\r\n\r\n")

/-- Two such requests, a microsecond apart, get one path. -/
theorem longNames_collide :
    ¬ ∀ (s₁ s₂ : Skylog) (os₁ os₂ : Os), s₁.filePath.str = [] → s₂.filePath.str = [] →
      (createAndOpenSkylogFile s₁ os₁).skylog.filePath.str ≠ [] →
      (createAndOpenSkylogFile s₂ os₂).skylog.filePath.str ≠ [] →
      stampUs os₁ ≠ stampUs os₂ →
      (createAndOpenSkylogFile s₁ os₁).skylog.filePath.str
        ≠ (createAndOpenSkylogFile s₂ os₂).skylog.filePath.str := by
  intro hall
  have hbuilt : ∀ os ∈ [Os.fresh, Os.fresh.next],
      (createAndOpenSkylogFile (parseSkylogInfo longNames) os).skylog.filePath.str ≠ [] := by
    decide +kernel
  refine hall (parseSkylogInfo longNames) (parseSkylogInfo longNames) Os.fresh Os.fresh.next rfl rfl
    (hbuilt _ (by simp)) (hbuilt _ (by simp)) ?_ ?_ <;> decide +kernel

/-- The names of an ordinary request fit. -/
theorem defaultNames_apart :
    (createAndOpenSkylogFile (parseSkylogInfo HttpRequest.zero) Os.fresh).skylog.filePath.str
      ≠ (createAndOpenSkylogFile (parseSkylogInfo HttpRequest.zero)
          Os.fresh.next).skylog.filePath.str := by
  refine (filePath_ne_iff rfl rfl ?_ ?_ ?_).mpr (.inl ?_) <;> decide +kernel

end TraceServer
