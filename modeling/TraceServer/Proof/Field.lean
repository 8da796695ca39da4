import TraceServer.HeaderText

/-!
# Looking up a field (`httpRequest_find_field`)

The name is searched for as text, between a line end and a colon. A line end is nowhere inside
a line, so the match starts at a line; the name has no colon, so it is the whole name of that
line. The value runs from there to the next line end.
-/

namespace TraceServer

/-! ## Strings in the header buffer -/

theorem ofHeader_cstr {line : Bytes} (h : (0 : UInt8) ∉ line) :
    cstr (HttpRequest.ofHeader line).header = line := by
  show cstr (line ++ List.replicate _ 0) = line
  rw [cstr_append_zeros, cstr_eq_self h]

/-- **`straddr_case` finds the first occurrence up to the case of letters.** -/
theorem straddrCase_eq_some_iff {buf find : Bytes} {i : Nat} (hfind : cstr find ≠ [])
    (hmax : (strlen buf : Int) < intMax) (hfmax : (strlen find : Int) < intMax) :
    straddrCase buf find = some i
      ↔ List.IsFirstOcc ((cstr find).map asciiLower) ((cstr buf).map asciiLower) i := by
  have hne : (cstr find).map asciiLower ≠ [] := by simpa using hfind
  have hlen : strlen buf ≤ (buf.map asciiLower).length := by
    rw [List.length_map]
    exact (cstr_isPrefix buf).length_le
  have htake : (buf.map asciiLower).take (strlen buf) = (cstr buf).map asciiLower := by
    rw [← List.map_take]
    exact congrArg _ (List.prefix_iff_eq_take.mp (cstr_isPrefix buf)).symm
  unfold straddrCase
  split
  · -- nothing stands in an empty string
    rename_i hzero
    have hbuf : (cstr buf).length = 0 := by
      rcases hzero with h | h
      · exact h
      · exact absurd (List.length_eq_zero_iff.mp h) hfind
    refine ⟨fun h => absurd h (by simp), ?_⟩
    intro h
    have hle := h.occurs.le hne
    have hpos := List.length_pos_iff.mpr hfind
    rw [List.length_map, List.length_map] at hle
    omega
  · rw [sundayCase_lower, sunday_eq_some_iff hlen hne hmax (by rwa [List.length_map]), htake]

theorem eq_none_of_iff {p t : Bytes} {x : Option Nat} (h : ∀ i, x = some i ↔ List.IsFirstOcc p t i)
    (hnone : ∀ i, ¬ List.OccursAt p t i) : x = none := by
  cases hx : x with
  | none => rfl
  | some i => exact absurd ((h i).mp hx).occurs (hnone i)

/-! ## The lines of a header -/

/-- `CRLF name ':' value`: a line with the line end in front of it. -/
def Field.line (f : Field) : Bytes := crlf ++ (f.name ++ lit ":" ++ f.value)

theorem crlf_eq : crlf = [13, 10] := by decide

theorem colon_eq : lit ":" = [58] := by decide

/-- The line ends can be read with the line they stand in front of. -/
theorem headerBytes_eq (requestLine : Bytes) (fields : List Field) :
    headerBytes requestLine fields = requestLine ++ (fields.flatMap Field.line ++ (crlf ++ crlf)) := by
  have hlines : ∀ fs : List Field, crlf ++ fs.flatMap Field.bytes ++ crlf
      = fs.flatMap Field.line ++ (crlf ++ crlf) := by
    intro fs
    induction fs with
    | nil => simp
    | cons f fs ih =>
        rw [List.flatMap_cons, List.flatMap_cons, List.append_assoc (f.line), ← ih]
        simp [Field.bytes, Field.line]
  rw [headerBytes, List.append_assoc, List.append_assoc, ← List.append_assoc crlf, hlines]

/-! ## Where a name is found -/

/-- A name that can be looked up. -/
structure IsName (find : Bytes) : Prop extends IsLine find where
  noColon : (58 : UInt8) ∉ find
  ne_nil : find ≠ []

section

variable {find : Bytes}

/-- `find_str`. -/
def findStr (find : Bytes) : Bytes := crlf ++ find ++ lit ":"

theorem findStr_lower (find : Bytes) : (findStr find).map asciiLower
    = 13 :: 10 :: (find.map asciiLower ++ [58]) := by
  rw [findStr, crlf_eq, colon_eq]
  simp [show asciiLower 13 = 13 by decide, show asciiLower 10 = 10 by decide,
    show asciiLower 58 = 58 by decide]

/-- A line and what follows it, in lower case. -/
theorem line_lower (f : Field) (t : Bytes) : (f.line ++ t).map asciiLower
    = 13 :: ((10 :: (f.name.map asciiLower ++ 58 :: f.value.map asciiLower)) ++ t.map asciiLower) := by
  rw [Field.line, crlf_eq, colon_eq]
  simp [show asciiLower 13 = 13 by decide, show asciiLower 10 = 10 by decide,
    show asciiLower 58 = 58 by decide]

/-- The line of a field begins with the name looked up when it is the field's name. -/
theorem occursAt_line_zero (hfind : IsName find) (f : Field) (t : Bytes) :
    List.OccursAt ((findStr find).map asciiLower) ((f.line ++ t).map asciiLower) 0
      ↔ HeaderText.sameName f.name find = true := by
  have hcolon : isLetter 58 = false := by decide
  rw [findStr_lower, line_lower, List.occursAt_zero, List.cons_append, List.cons_prefix_cons,
    List.cons_prefix_cons, List.append_assoc, List.cons_append,
    List.append_singleton_prefix_iff (not_mem_map_asciiLower hcolon hfind.noColon)
      (not_mem_map_asciiLower hcolon f.name_noColon), HeaderText.sameName, beq_iff_eq]
  exact ⟨fun h => h.2.2.symm, fun h => ⟨rfl, rfl, h.symm⟩⟩

/-- In the line of another field the name is not found: a line end is not inside it. -/
theorem occursAt_line (hfind : IsName find) {f : Field}
    (hne : ¬ HeaderText.sameName f.name find = true) (t : Bytes) (i : Nat) :
    List.OccursAt ((findStr find).map asciiLower) ((f.line ++ t).map asciiLower) i
      ↔ ∃ k, i = f.line.length + k
        ∧ List.OccursAt ((findStr find).map asciiLower) (t.map asciiLower) k := by
  have hcr : isLetter 13 = false := by decide
  have hlen : f.line.length
      = (10 :: (f.name.map asciiLower ++ 58 :: f.value.map asciiLower)).length + 1 := by
    rw [Field.line, crlf_eq, colon_eq]
    simp
  cases i with
  | zero =>
      refine ⟨fun h => absurd ((occursAt_line_zero hfind f t).mp h) hne, ?_⟩
      rintro ⟨k, hk, _⟩
      omega
  | succ i =>
      have hrest : (13 : UInt8) ∉ 10 :: (f.name.map asciiLower ++ 58 :: f.value.map asciiLower) := by
        have hname := not_mem_map_asciiLower hcr f.name_line.noCr
        have hvalue := not_mem_map_asciiLower hcr f.value_line.noCr
        simp only [List.mem_cons, List.mem_append, not_or]
        exact ⟨by decide, hname, by decide, hvalue⟩
      rw [findStr_lower, line_lower, List.occursAt_cons_succ,
        List.occursAt_append_of_not_mem hrest, hlen]
      constructor
      · rintro ⟨k, rfl, hk⟩
        exact ⟨k, by omega, hk⟩
      · rintro ⟨k, hi, hk⟩
        exact ⟨k, by omega, hk⟩

/-- The lines of other fields only move what is found. -/
theorem occursAt_lines (hfind : IsName find) : ∀ (pre : List Field),
    (∀ g ∈ pre, ¬ HeaderText.sameName g.name find = true) → ∀ (t : Bytes) (i : Nat),
    List.OccursAt ((findStr find).map asciiLower)
        ((pre.flatMap Field.line ++ t).map asciiLower) i
      ↔ ∃ k, i = (pre.flatMap Field.line).length + k
        ∧ List.OccursAt ((findStr find).map asciiLower) (t.map asciiLower) k
  | [], _, t, i => by simp
  | g :: pre, hno, t, i => by
      rw [List.flatMap_cons, List.append_assoc, occursAt_line hfind (hno g List.mem_cons_self),
        List.length_append]
      constructor
      · rintro ⟨k, rfl, hk⟩
        obtain ⟨l, rfl, hl⟩ :=
          (occursAt_lines hfind pre (fun g' hg' => hno g' (List.mem_cons_of_mem _ hg')) t k).mp hk
        exact ⟨l, by omega, hl⟩
      · rintro ⟨l, rfl, hl⟩
        refine ⟨(pre.flatMap Field.line).length + l, by omega, ?_⟩
        exact (occursAt_lines hfind pre (fun g' hg' => hno g' (List.mem_cons_of_mem _ hg')) t _).mpr
          ⟨l, rfl, hl⟩

/-- So does the request line. -/
theorem occursAt_header (hfind : IsName find) (h : HeaderText) {pre post : List Field}
    (hfields : h.fields = pre ++ post) (hno : ∀ g ∈ pre, ¬ HeaderText.sameName g.name find = true)
    (i : Nat) :
    List.OccursAt ((findStr find).map asciiLower) (h.bytes.map asciiLower) i
      ↔ ∃ k, i = (h.requestLine ++ pre.flatMap Field.line).length + k
        ∧ List.OccursAt ((findStr find).map asciiLower)
          ((post.flatMap Field.line ++ (crlf ++ crlf)).map asciiLower) k := by
  have hline : (13 : UInt8) ∉ h.requestLine.map asciiLower :=
    not_mem_map_asciiLower (by decide) h.line.noCr
  have hlines := occursAt_lines hfind pre hno (post.flatMap Field.line ++ (crlf ++ crlf))
  rw [HeaderText.bytes, headerBytes_eq, hfields, List.flatMap_append, List.append_assoc,
    List.map_append]
  rw [findStr_lower] at hlines ⊢
  rw [List.occursAt_append_of_not_mem hline, List.length_map, List.length_append]
  constructor
  · rintro ⟨k, rfl, hk⟩
    obtain ⟨l, rfl, hl⟩ := (hlines k).mp hk
    exact ⟨l, by omega, hl⟩
  · rintro ⟨l, rfl, hl⟩
    exact ⟨(pre.flatMap Field.line).length + l, by omega, (hlines _).mpr ⟨l, rfl, hl⟩⟩

/-- The empty line at the end has no name. -/
theorem not_occursAt_end (hfind : IsName find) (i : Nat) :
    ¬ List.OccursAt ((findStr find).map asciiLower) ((crlf ++ crlf).map asciiLower) i := by
  intro hocc
  obtain ⟨c, rest, hcons⟩ := List.exists_cons_of_ne_nil hfind.ne_nil
  have hcr : (13 : UInt8) ∉ find.map asciiLower := not_mem_map_asciiLower (by decide) hfind.noCr
  have hend : (crlf ++ crlf).map asciiLower = [13, 10, 13, 10] := by decide
  rw [findStr_lower, hend, hcons, List.map_cons] at hocc
  have hle := hocc.le (by simp)
  simp only [List.length_cons, List.length_append, List.length_nil] at hle
  obtain rfl : i = 0 := by omega
  rw [List.occursAt_zero, List.cons_prefix_cons, List.cons_prefix_cons, List.cons_append,
    List.cons_prefix_cons] at hocc
  refine hcr ?_
  rw [hcons, List.map_cons, hocc.2.2.1]
  exact List.mem_cons_self

end

/-! ## The value -/

theorem HeaderText.noNul (h : HeaderText) : (0 : UInt8) ∉ h.bytes := by
  intro hmem
  rw [HeaderText.bytes, headerBytes_eq, crlf_eq] at hmem
  simp only [List.mem_append, List.mem_flatMap] at hmem
  rcases hmem with hline | ⟨f, _, hf⟩ | hend
  · exact h.line.noNul hline
  · rw [Field.line, crlf_eq, colon_eq] at hf
    simp only [List.mem_append] at hf
    rcases hf with hcrlf | (hname | hcolon) | hvalue
    · exact absurd hcrlf (by decide)
    · exact f.name_line.noNul hname
    · exact absurd hcolon (by decide)
    · exact f.value_line.noNul hvalue
  · exact absurd hend (by decide)

theorem HeaderText.request_cstr (h : HeaderText) : cstr h.request.header = h.bytes :=
  ofHeader_cstr h.noNul

theorem HeaderText.strlen_lt (h : HeaderText) :
    strlen h.request.header < httpRequestHeaderBufSize := by
  rw [strlen, h.request_cstr]
  exact h.fits

theorem findStr_noNul {find : Bytes} (hfind : IsName find) : (0 : UInt8) ∉ findStr find := by
  rw [findStr, crlf_eq, colon_eq]
  simp only [List.mem_append, not_or]
  exact ⟨⟨by decide, hfind.noNul⟩, by decide⟩

theorem findStr_length (find : Bytes) : (findStr find).length = find.length + 3 := by
  rw [findStr, crlf_eq, colon_eq]
  simp

/-- The search in a header that fits its buffer. -/
theorem straddrCase_findStr {header find : Bytes} (hfind : IsName find) (hlen : find.length ≤ 244)
    (hfits : strlen header < httpRequestHeaderBufSize) (i : Nat) :
    straddrCase header (snprintf 255 254 (findStr find)).str = some i
      ↔ List.IsFirstOcc ((findStr find).map asciiLower) ((cstr header).map asciiLower) i := by
  have hcstr := cstr_eq_self (findStr_noNul hfind)
  have hfindStr := findStr_length find
  have hmax : httpRequestHeaderBufSize = 1024 := rfl
  rw [snprintf_str_of_fits (findStr_noNul hfind) (by omega), straddrCase_eq_some_iff, hcstr]
  · rw [hcstr, ← List.length_pos_iff]
    omega
  · unfold intMax
    omega
  · rw [strlen, hcstr]
    unfold intMax
    omega

/-- What `straddr_case` finds in the header. -/
theorem straddrCase_header (h : HeaderText) {find : Bytes} (hfind : IsName find)
    (hlen : find.length ≤ 244) (i : Nat) :
    straddrCase h.request.header (snprintf 255 254 (findStr find)).str = some i
      ↔ List.IsFirstOcc ((findStr find).map asciiLower) (h.bytes.map asciiLower) i := by
  rw [straddrCase_findStr hfind hlen h.strlen_lt, h.request_cstr]

/-- The value of a line ends at the next line end. -/
theorem straddr_value {value rest : Bytes} (hvalue : IsLine value) (hrest : (0 : UInt8) ∉ rest)
    (hmax : ((value ++ (crlf ++ rest)).length : Int) < intMax) :
    straddr (value ++ (crlf ++ rest)) crlf = some value.length := by
  have hnul : (0 : UInt8) ∉ value ++ (crlf ++ rest) := by
    rw [crlf_eq]
    simp only [List.mem_append, not_or]
    exact ⟨hvalue.noNul, by decide, hrest⟩
  rw [straddr_noNul hnul (by decide) (by decide) hmax (by decide), crlf_eq]
  refine List.IsFirstOcc.shift (fun i => List.occursAt_append_of_not_mem hvalue.noCr)
    (k := 0) ⟨List.occursAt_zero.mpr (List.prefix_append _ _), ?_⟩
  intro j hj
  exact absurd hj (Nat.not_lt_zero j)

/-- **Where the field is found**: in front of the value of the first line of that name, and the next
line end is the one behind the value. -/
theorem straddrCase_lookup (h : HeaderText) {find : Bytes} (hfind : IsName find)
    (hlen : find.length ≤ 244) {f : Field} (hf : h.lookup find = some f) :
    ∃ i rest, straddrCase h.request.header (snprintf 255 254 (findStr find)).str = some i
      ∧ (cstr h.request.header).drop (i + (findStr find).length) = f.value ++ (crlf ++ rest)
      ∧ straddr (f.value ++ (crlf ++ rest)) crlf = some f.value.length := by
  obtain ⟨hname, pre, post, hfields, hpre⟩ := List.find?_eq_some_iff_append.mp hf
  have hno : ∀ g ∈ pre, ¬ HeaderText.sameName g.name find = true := by
    intro g hg
    simpa using hpre g hg
  have hfirst : List.IsFirstOcc ((findStr find).map asciiLower) (h.bytes.map asciiLower)
      ((h.requestLine ++ pre.flatMap Field.line).length + 0) := by
    refine List.IsFirstOcc.shift (occursAt_header hfind h hfields hno) ⟨?_, ?_⟩
    · rw [List.flatMap_cons, List.append_assoc]
      exact (occursAt_line_zero hfind f _).mpr hname
    · intro j hj
      exact absurd hj (Nat.not_lt_zero j)
  have hlength : f.name.length = find.length := by
    have := congrArg List.length (beq_iff_eq.mp hname)
    rwa [List.length_map, List.length_map] at this
  -- the header up to the value is as long as the text up to the match and the name
  have hsplit : h.bytes = (h.requestLine ++ pre.flatMap Field.line ++ (crlf ++ f.name ++ lit ":"))
      ++ (f.value ++ (post.flatMap Field.line ++ (crlf ++ crlf))) := by
    rw [HeaderText.bytes, headerBytes_eq, hfields, List.flatMap_append, List.flatMap_cons]
    simp [Field.line]
  have hdrop : (h.requestLine ++ pre.flatMap Field.line ++ (crlf ++ f.name ++ lit ":")).length
      = (h.requestLine ++ pre.flatMap Field.line).length + 0 + (findStr find).length := by
    simp only [findStr, List.length_append, hlength]
    omega
  obtain ⟨rest, hrest⟩ : ∃ rest, post.flatMap Field.line ++ (crlf ++ crlf) = crlf ++ rest := by
    cases post with
    | nil => exact ⟨crlf, rfl⟩
    | cons g post =>
        exact ⟨_, by rw [List.flatMap_cons, Field.line, List.append_assoc, List.append_assoc]⟩
  refine ⟨_, rest, (straddrCase_header h hfind hlen _).mpr hfirst, ?_, ?_⟩
  · rw [h.request_cstr, ← hdrop, hsplit, List.drop_left, hrest]
  · have hnul := h.noNul
    have hfits : h.bytes.length < 1024 := h.fits
    rw [hsplit, hrest] at hnul hfits
    simp only [List.mem_append, not_or] at hnul
    refine straddr_value f.value_line hnul.2.2.2 ?_
    rw [List.length_append] at hfits
    unfold intMax
    omega

/-- A name that no line has is not found. -/
theorem straddrCase_lookup_none (h : HeaderText) {find : Bytes} (hfind : IsName find)
    (hlen : find.length ≤ 244) (hf : h.lookup find = none) :
    straddrCase h.request.header (snprintf 255 254 (findStr find)).str = none := by
  have hno : ∀ g ∈ h.fields, ¬ HeaderText.sameName g.name find = true := by
    intro g hg
    simpa using List.find?_eq_none.mp hf g hg
  refine eq_none_of_iff (straddrCase_header h hfind hlen) ?_
  intro i hocc
  obtain ⟨k, _, hk⟩ := (occursAt_header hfind h (List.append_nil _).symm hno i).mp hocc
  exact not_occursAt_end hfind k hk

/-! ## The stores -/

theorem trimTrailing_append_singleton (v : Bytes) (c : UInt8) :
    trimTrailing (v ++ [c]) = if c = 32 then trimTrailing v else v ++ [c] := by
  show List.rdropWhile (· == 32) (v ++ [c]) = _
  rw [List.rdropWhile_concat]
  simp only [beq_iff_eq]
  rfl

/-- The loop over the trailing spaces leaves the trimmed string, with a NUL behind it. -/
theorem trimLoop_spec (v : Bytes) : ∀ rest : Bytes,
    ∃ rest', trimLoop v.length (v ++ 0 :: rest) = trimTrailing v ++ 0 :: rest' := by
  induction v using List.reverseRecOn with
  | nil => exact fun rest => ⟨rest, rfl⟩
  | append_singleton v c ih =>
      intro rest
      rw [List.length_append, List.length_singleton, trimLoop, trimTrailing_append_singleton,
        List.append_assoc, List.singleton_append]
      have hlast : (v ++ c :: 0 :: rest).getD v.length 0 = c := by
        rw [List.getD_eq_getElem?_getD, List.getElem?_append_right (Nat.le_refl _), Nat.sub_self]
        rfl
      rw [hlast]
      by_cases hc : c = 32
      · rw [if_neg (not_not.mpr hc), if_pos hc, List.set_append_right _ _ (Nat.le_refl _),
          Nat.sub_self, List.set_cons_zero]
        exact ih (0 :: rest)
      · rw [if_pos hc, if_neg hc]
        exact ⟨rest, by simp⟩

/-- `memcpy` and the two steps after it. -/
theorem valueBuf_spec {v valueBuf : Bytes} (h : v.length < valueBuf.length) :
    ∃ rest, trimLoop v.length ((v ++ valueBuf.drop v.length).set v.length 0)
      = trimTrailing v ++ 0 :: rest := by
  rw [List.set_append_right _ _ (Nat.le_refl _), Nat.sub_self, List.drop_eq_getElem_cons h,
    List.set_cons_zero]
  exact trimLoop_spec v _

/-- What is left of a string without a NUL has none. -/
theorem trimTrailing_noNul {v : Bytes} (h : (0 : UInt8) ∉ v) : (0 : UInt8) ∉ trimTrailing v :=
  fun h0 => h ((List.rdropWhile_prefix (· == 32) v : trimTrailing v <+: v).subset h0)

/-- The string that is left in the buffer is the one `httpRequestFindField` returns. -/
theorem httpRequestFindField_eq (r : HttpRequest) (find valueBuf : Bytes) {valueBufSize : Int}
    (hbuf : valueBufSize ≤ valueBuf.length) :
    httpRequestFindField r find valueBufSize
      = if (httpRequestFindFieldBuf r find valueBuf valueBufSize).ret then
          some (cstr (httpRequestFindFieldBuf r find valueBuf valueBufSize).valueBuf)
        else none := by
  unfold httpRequestFindField httpRequestFindFieldBuf
  dsimp only
  split
  · split
    · rfl
    · rename_i i _
      split
      · rfl
      · rename_i q _
        split
        · generalize hp : ((cstr r.header).drop (i + (crlf ++ cstr find ++ lit ":").length)).take q = p
          have hle : p.length ≤ q := hp ▸ List.length_take_le _ _
          have hnul : (0 : UInt8) ∉ p := by
            intro h0
            rw [← hp] at h0
            exact cstr_noNul _ (List.mem_of_mem_drop (List.mem_of_mem_take h0))
          have hdrop := (List.dropWhile_suffix (· == 32) : p.dropWhile (· == 32) <:+ p)
          have hle' := hdrop.length_le
          obtain ⟨rest, hrest⟩ := @valueBuf_spec (p.dropWhile (· == 32)) valueBuf (by omega)
          have hnul' := trimTrailing_noNul fun h0 => hnul (hdrop.subset h0)
          rw [hrest, if_pos rfl, cstr_append_nul hnul']
        · rfl
  · rfl

/-! ## The lookup -/

/-- `httpRequest_find_field` does look. -/
theorem HeaderText.findField_cond (h : HeaderText) {find : Bytes} {valueBufSize : Int}
    (hfind : IsName find) (hlen : find.length ≤ 244) (hsize : 0 < valueBufSize) :
    0 < h.request.headerLen ∧ 0 < strlen find ∧ strlen find < 255 - 10 ∧ 0 < valueBufSize := by
  have hpos := List.length_pos_iff.mpr hfind.ne_nil
  have hheader : 0 < h.request.headerLen := by
    show (0 : Int) < h.bytes.length
    rw [HeaderText.bytes, headerBytes, List.length_append, crlf_eq, List.length_cons]
    omega
  rw [strlen, cstr_eq_self hfind.noNul]
  omega

/-- `httpRequest_find_field` as one search after the other. -/
theorem httpRequestFindField_eq_bind {r : HttpRequest} {find : Bytes} {size : Int}
    (hcond : 0 < r.headerLen ∧ 0 < strlen find ∧ strlen find < 255 - 10 ∧ 0 < size) :
    httpRequestFindField r find size
      = (straddrCase r.header (snprintf 255 254 (findStr (cstr find))).str).bind fun i =>
          (straddr ((cstr r.header).drop (i + (findStr (cstr find)).length)) crlf).bind fun q =>
            if (q : Int) < size then
              some (trimSpaces
                (((cstr r.header).drop (i + (findStr (cstr find)).length)).take q))
            else none := by
  have hkey : crlf ++ cstr find ++ lit ":" = findStr (cstr find) := rfl
  unfold httpRequestFindField
  rw [if_pos hcond, hkey]
  dsimp only
  cases straddrCase r.header (snprintf 255 254 (findStr (cstr find))).str with
  | none => rfl
  | some i =>
      rw [Option.bind_some]
      dsimp only
      cases straddr ((cstr r.header).drop (i + (findStr (cstr find)).length)) crlf <;> rfl

/-- What `httpRequest_find_field` stores, as a value. -/
theorem httpRequestFindField_value (h : HeaderText) {find : Bytes} {valueBufSize : Int}
    (hfind : IsName find) (hlen : find.length ≤ 244) {f : Field} (hf : h.lookup find = some f)
    (hsize : (f.value.length : Int) < valueBufSize) :
    httpRequestFindField h.request find valueBufSize = some (trimSpaces f.value) := by
  have hcond := h.findField_cond hfind hlen (Int.lt_of_le_of_lt (Int.natCast_nonneg _) hsize)
  obtain ⟨i, rest, hi, hp, hq⟩ := straddrCase_lookup h hfind hlen hf
  rw [httpRequestFindField_eq_bind hcond, cstr_eq_self hfind.noNul, hi, Option.bind_some, hp, hq,
    Option.bind_some, if_pos hsize, List.take_left]

/-- **`httpRequest_find_field` looks the field up**: it finds the first line of that name when its
value is shorter than the buffer, and stores the value without the spaces around it. -/
theorem findField_lookup (h : HeaderText) (find valueBuf : Bytes) (valueBufSize : Int)
    (hfind : IsName find) (hlen : find.length ≤ 244) (hsize : 1 ≤ valueBufSize)
    (hbuf : valueBufSize ≤ valueBuf.length) :
    ((httpRequestFindFieldBuf h.request find valueBuf valueBufSize).ret = true
        ↔ ∃ f, h.lookup find = some f ∧ (f.value.length : Int) < valueBufSize)
      ∧ ∀ f, h.lookup find = some f → (f.value.length : Int) < valueBufSize →
        ∃ rest, (httpRequestFindFieldBuf h.request find valueBuf valueBufSize).valueBuf
          = trimSpaces f.value ++ 0 :: rest := by
  have hcstr : cstr find = find := cstr_eq_self hfind.noNul
  have hcond := h.findField_cond hfind hlen hsize
  have hkey : crlf ++ find ++ lit ":" = findStr find := rfl
  unfold httpRequestFindFieldBuf
  rw [if_pos hcond, hcstr, hkey]
  dsimp only
  cases hf : h.lookup find with
  | none =>
      rw [straddrCase_lookup_none h hfind hlen hf]
      simp
  | some f =>
      obtain ⟨i, rest, hi, hp, hq⟩ := straddrCase_lookup h hfind hlen hf
      rw [hi]
      dsimp only
      rw [hp, hq]
      dsimp only
      rw [List.take_left]
      by_cases hshort : (f.value.length : Int) < valueBufSize
      · rw [if_pos hshort]
        have hdrop :=
          (List.dropWhile_suffix (· == 32) : f.value.dropWhile (· == 32) <:+ f.value).length_le
        refine ⟨by simp [hshort], ?_⟩
        intro f' hf' _
        obtain rfl := Option.some.inj hf'
        exact valueBuf_spec (by omega)
      · rw [if_neg hshort]
        refine ⟨by simp [hshort], ?_⟩
        intro f' hf' hshort'
        obtain rfl := Option.some.inj hf'
        exact absurd hshort' hshort

/-- A header with a name that ends in another, and a value between spaces. -/
def lengthHeader : HeaderText where
  requestLine := lit "POST /index HTTP/1.1"
  fields :=
    [⟨lit "X-Content-Length", lit "7", ⟨by decide, by decide, by decide⟩, by decide,
        ⟨by decide, by decide, by decide⟩⟩,
      ⟨lit "content-length", lit "  12 ", ⟨by decide, by decide, by decide⟩, by decide,
        ⟨by decide, by decide, by decide⟩⟩]
  line := ⟨by decide, by decide, by decide⟩
  fits := by decide

theorem findField_lookup_length :
    ((httpRequestFindFieldBuf lengthHeader.request (lit "Content-Length")
          (List.replicate 8 7) 8).ret = true
        ↔ ∃ f, lengthHeader.lookup (lit "Content-Length") = some f ∧ (f.value.length : Int) < 8)
      ∧ ∀ f, lengthHeader.lookup (lit "Content-Length") = some f → (f.value.length : Int) < 8 →
        ∃ rest, (httpRequestFindFieldBuf lengthHeader.request (lit "Content-Length")
          (List.replicate 8 7) 8).valueBuf = trimSpaces f.value ++ 0 :: rest :=
  findField_lookup lengthHeader (lit "Content-Length") (List.replicate 8 7) 8
    ⟨⟨by decide, by decide, by decide⟩, by decide, by decide⟩ (by decide) (by decide) (by decide)

end TraceServer
