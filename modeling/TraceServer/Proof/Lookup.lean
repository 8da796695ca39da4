import TraceServer.Proof.Parmer

/-!
# What is looked up in any header

A client need not send one of the texts of `HeaderText.lean`. Whatever it sends, the lookups return
what is taken for the URL, for a parameter and for a field, and nothing else.
-/

namespace TraceServer

/-! ## The text of a header -/

theorem HttpRequest.text_noNul (r : HttpRequest) : (0 : UInt8) ∉ r.text := by
  unfold HttpRequest.text
  split
  · exact cstr_noNul r.header
  · exact List.not_mem_nil

theorem HttpRequest.text_length_le (r : HttpRequest) : r.text.length ≤ strlen r.header := by
  unfold HttpRequest.text
  split
  · exact Nat.le_refl _
  · exact Nat.zero_le _

/-- The same text, received into a buffer of its own. -/
theorem ofHeader_text_cstr {r : HttpRequest} (hlen : 0 < r.headerLen) :
    cstr (HttpRequest.ofHeader r.text).header = cstr r.header := by
  rw [ofHeader_cstr r.text_noNul, HttpRequest.text, if_pos hlen]

theorem ofHeader_text_headerLen {r : HttpRequest} (hlen : 0 < r.headerLen)
    (hne : cstr r.header ≠ []) :
    0 < (HttpRequest.ofHeader r.text).headerLen := by
  show (0 : Int) < (r.text.length : Nat)
  have hpos := List.length_pos_iff.mpr hne
  rw [HttpRequest.text, if_pos hlen]
  omega

/-- There is no text without a length. -/
theorem ofHeader_text_none {r : HttpRequest} (hlen : ¬ 0 < r.headerLen) :
    ¬ 0 < (HttpRequest.ofHeader r.text).headerLen := by
  show ¬ (0 : Int) < (r.text.length : Nat)
  rw [HttpRequest.text, if_neg hlen]
  exact Int.lt_irrefl 0

theorem strchr_congr {a b : Bytes} (h : cstr a = cstr b) (c : UInt8) : strchr a c = strchr b c := by
  unfold strchr
  rw [h]

/-- **Only the text matters for the URL.** -/
theorem httpRequestGetUrl_text (r : HttpRequest) (n : Int) :
    httpRequestGetUrl r n = httpRequestGetUrl (.ofHeader r.text) n := by
  by_cases hlen : 0 < r.headerLen
  · have hcstr := ofHeader_text_cstr hlen
    unfold httpRequestGetUrl
    rw [hcstr, strchr_congr hcstr]
    by_cases hne : cstr r.header = []
    · have hnone : strchr r.header 32 = none := by
        unfold strchr
        rw [hne]
        rfl
      rw [hnone]
      dsimp only
      rw [ite_self, ite_self]
    · exact if_congr (and_congr_left' (iff_of_true hlen (ofHeader_text_headerLen hlen hne))) rfl rfl
  · unfold httpRequestGetUrl
    rw [if_neg fun h => hlen h.1, if_neg fun h => ofHeader_text_none hlen h.1]

theorem TakenForUrl.noNul {r : HttpRequest} {url : Bytes} (h : TakenForUrl r.text url) :
    (0 : UInt8) ∉ url := by
  obtain ⟨method, hat, _⟩ := h
  obtain ⟨n, rest, htext⟩ := hat.text
  have hnul := r.text_noNul
  rw [htext] at hnul
  intro h0
  exact hnul (List.mem_append_right _ (List.mem_append_right _ (List.mem_append_left _ h0)))

theorem valueBehind_length_le (query k : Bytes) (i : Nat) :
    (valueBehind query k i).length ≤ query.length := by
  have htake := (List.takeWhile_prefix (l := query.drop (i + (k.length + 1))) (· != 38)).length_le
  rw [List.length_drop] at htake
  unfold valueBehind
  omega

theorem TakenForParmer.noNul {r : HttpRequest} {k value : Bytes}
    (h : TakenForParmer r.text k value) :
    (0 : UInt8) ∉ value := by
  obtain ⟨query, i, ⟨path, _, hurl, _⟩, _, _, rfl, _⟩ := h
  intro h0
  have hquery := List.mem_of_mem_drop ((List.takeWhile_prefix _).subset h0)
  exact hurl.noNul (List.mem_append_right _ (List.mem_cons_of_mem _ hquery))

theorem TakenForField.noNul {r : HttpRequest} {name value : Bytes} {size : Int}
    (h : TakenForField r.text name size value) : (0 : UInt8) ∉ value := by
  obtain ⟨i, q, _, _, _, rfl⟩ := h
  intro h0
  have htrim := (List.dropWhile_suffix _).subset ((List.rdropWhile_prefix _ _).subset h0)
  exact r.text_noNul (List.mem_of_mem_drop (List.mem_of_mem_take htrim))

section

variable {r : HttpRequest} (hfits : strlen r.header < httpRequestHeaderBufSize)

include hfits

theorem HttpRequest.text_fits : r.text.length < httpRequestHeaderBufSize :=
  Nat.lt_of_le_of_lt r.text_length_le hfits

/-! ## The URL -/

/-- **The URL is what is taken for it**, when it is shorter than the buffer. -/
theorem httpRequestGetUrl_eq_some_iff {url : Bytes} {n : Int} :
    httpRequestGetUrl r n = some url ↔ (url.length : Int) < n ∧ TakenForUrl r.text url := by
  have htext := HttpRequest.text_fits hfits
  rw [httpRequestGetUrl_text]
  constructor
  · exact httpRequestGetUrl_urlAt r.text_noNul htext
  · rintro ⟨hlt, method, hat, hline⟩
    obtain ⟨i, hi⟩ := List.exists_occursAt hline
    have hcrlf : List.OccursAt crlf r.text (method.length + 1 + i) := by
      unfold List.OccursAt at hi ⊢
      rwa [← List.drop_drop]
    rw [httpRequestGetUrl_eq r.text_noNul htext hat hcrlf (by omega), if_pos hlt]

/-! ## A parameter -/

/-- **The value of a parameter is what is taken for it.** -/
theorem httpRequestGetUrlParmerValue_eq_some_iff {k value : Bytes} {keyLen : Int}
    (hnul : (0 : UInt8) ∉ k) (hlen : k.length ≤ 60) (hkeyLen : 0 < keyLen) :
    httpRequestGetUrlParmerValue r k keyLen 1023 = some value ↔ TakenForParmer r.text k value := by
  have hquery : ∀ path query, (63 : UInt8) ∉ path → TakenForUrl r.text (path ++ 63 :: query) →
      (path ++ 63 :: query).length < 1023 →
      httpRequestGetUrlParmerValue r k keyLen 1023
        = ((k ++ [61]).firstOcc query).bind fun i =>
            if StartsAt query i ∧ 0 < (valueBehind query k i).length
              ∧ ((valueBehind query k i).length : Int) ≤ 1023
            then some (valueBehind query k i) else none := by
    intro path query hpath hurl hroom
    have hget := (httpRequestGetUrl_eq_some_iff hfits).mpr ⟨Int.ofNat_lt.mpr hroom, hurl⟩
    exact httpRequestGetUrlParmerValue_of_url hget hurl.noNul hroom hpath hnul hlen hkeyLen 1023
  constructor
  · intro h
    -- the value comes from a URL with a `?` in it
    obtain ⟨path, query, hpath, hurl, hroom⟩ : ∃ path query, (63 : UInt8) ∉ path
        ∧ TakenForUrl r.text (path ++ 63 :: query) ∧ (path ++ 63 :: query).length < 1023 := by
      cases hget : httpRequestGetUrl r 1023 with
      | none =>
          unfold httpRequestGetUrlParmerValue httpRequestGetUrlParmerStr at h
          rw [hget] at h
          dsimp only at h
          rw [ite_self] at h
          exact absurd h (by simp)
      | some url =>
          obtain ⟨hroom, hurl⟩ := (httpRequestGetUrl_eq_some_iff hfits).mp hget
          by_cases hmark : (63 : UInt8) ∈ url
          · obtain ⟨path, query, rfl, hpath⟩ := List.eq_append_cons_of_mem hmark
            exact ⟨path, query, hpath, hurl, Int.ofNat_lt.mp hroom⟩
          · unfold httpRequestGetUrlParmerValue httpRequestGetUrlParmerStr at h
            rw [hget] at h
            dsimp only at h
            rw [strchr_eq_none hmark] at h
            dsimp only at h
            rw [ite_self] at h
            exact absurd h (by simp)
    rw [hquery path query hpath hurl hroom] at h
    obtain ⟨i, hi, hvalue⟩ := Option.bind_eq_some_iff.mp h
    split at hvalue
    · rename_i hcond
      refine ⟨query, i, ⟨path, hpath, hurl, hroom⟩, List.firstOcc_spec hi, hcond.1,
        (Option.some.inj hvalue).symm, ?_⟩
      rw [← Option.some.inj hvalue]
      exact List.length_pos_iff.mp hcond.2.1
    · exact absurd hvalue (by simp)
  · rintro ⟨query, i, ⟨path, hpath, hurl, hroom⟩, hfirst, hstarts, rfl, hne⟩
    have hle := valueBehind_length_le query k i
    have hlt : query.length < 1023 := by
      rw [List.length_append, List.length_cons] at hroom
      omega
    rw [hquery path query hpath hurl hroom, List.firstOcc_eq_some hfirst, Option.bind_some,
      if_pos ⟨hstarts, List.length_pos_iff.mpr hne, by omega⟩]

/-! ## A field -/

/-- The next line end. -/
theorem straddr_crlf (i q : Nat) :
    straddr (r.text.drop i) crlf = some q ↔ List.IsFirstOcc crlf (r.text.drop i) q := by
  have htext := HttpRequest.text_fits hfits
  have hsize : httpRequestHeaderBufSize = 1024 := rfl
  refine straddr_noNul (fun h0 => r.text_noNul (List.mem_of_mem_drop h0)) (by decide) (by decide)
    ?_ (by decide)
  rw [List.length_drop]
  unfold intMax
  omega

/-- **The value of a field is what is taken for it.** -/
theorem httpRequestFindField_eq_some_iff {name value : Bytes} {size : Int} (hname : IsName name)
    (hlen : name.length ≤ 244) (hpos : 0 < size) :
    httpRequestFindField r name size = some value ↔ TakenForField r.text name size value := by
  have hcname : cstr name = name := cstr_eq_self hname.noNul
  have hnamePos := List.length_pos_iff.mpr hname.ne_nil
  have hfindStr := findStr_length name
  by_cases hheader : 0 < r.headerLen
  · have hcstr : cstr r.header = r.text := by rw [HttpRequest.text, if_pos hheader]
    have hsearch := straddrCase_findStr hname hlen hfits
    have hcond : 0 < r.headerLen ∧ 0 < strlen name ∧ strlen name < 255 - 10 ∧ 0 < size := by
      rw [strlen, hcname]
      omega
    rw [hcstr] at hsearch
    rw [httpRequestFindField_eq_bind hcond, hcname, hcstr, hfindStr]
    constructor
    · intro h
      obtain ⟨i, hi, h⟩ := Option.bind_eq_some_iff.mp h
      obtain ⟨q, hq, h⟩ := Option.bind_eq_some_iff.mp h
      split at h
      · rename_i hroom
        exact ⟨i, q, (hsearch i).mp hi, (straddr_crlf hfits _ q).mp hq, hroom,
          (Option.some.inj h).symm⟩
      · exact absurd h (by simp)
    · rintro ⟨i, q, hi, hq, hroom, rfl⟩
      exact Option.bind_eq_some_iff.mpr ⟨i, (hsearch i).mpr hi,
        Option.bind_eq_some_iff.mpr ⟨q, (straddr_crlf hfits _ q).mpr hq, if_pos hroom⟩⟩
  · -- a request without a header has no text
    have hnil : r.text = [] := by rw [HttpRequest.text, if_neg hheader]
    unfold httpRequestFindField
    rw [if_neg fun h => hheader h.1]
    refine ⟨fun h => absurd h (by simp), ?_⟩
    rintro ⟨i, q, hi, _⟩
    have hne : (findStr name).map asciiLower ≠ [] := by
      rw [ne_eq, List.map_eq_nil_iff, ← List.length_eq_zero_iff]
      omega
    have hle : i + ((findStr name).map asciiLower).length ≤ (r.text.map asciiLower).length :=
      hi.occurs.le hne
    rw [hnil, List.map_nil, List.length_nil, List.length_map] at hle
    omega

end

/-- In a header of lines that is the value of the first line of that name. -/
theorem HeaderText.takenForField (h : HeaderText) {find : Bytes} {size : Int} (hfind : IsName find)
    (hlen : find.length ≤ 244) {f : Field} (hf : h.lookup find = some f)
    (hsize : (f.value.length : Int) < size) :
    TakenForField h.request.text find size (trimSpaces f.value) := by
  rw [← httpRequestFindField_eq_some_iff h.strlen_lt hfind hlen (by omega)]
  exact httpRequestFindField_value h hfind hlen hf hsize

end TraceServer
