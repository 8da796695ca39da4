import TraceServer.ClientTalk
import TraceServer.Proof.Field

/-!
# The URL of a request (`_httpRequest_get_url`)

The URL is taken to be what comes after the first spaces of the header, up to the next space
(`UrlAt`), if it is shorter than the buffer. The line end that is looked for only bounds the
spaces that are skipped, so nothing keeps the URL in the request line. Nor do all callers bring
a buffer of the same size.
-/

namespace TraceServer

/-! ## `strchr` -/

theorem strchr_eq_some_iff {buf : Bytes} {c : UInt8} {i : Nat} :
    strchr buf c = some i ↔ ∃ a b, cstr buf = a ++ c :: b ∧ c ∉ a ∧ a.length = i := by
  unfold strchr
  generalize cstr buf = s
  rw [List.idxOf?_eq_some_iff]
  constructor
  · rintro ⟨hi, hc, hbefore⟩
    refine ⟨s.take i, s.drop (i + 1), ?_, ?_, by rw [List.length_take]; omega⟩
    · rw [← hc, ← List.drop_eq_getElem_cons hi, List.take_append_drop]
    · intro hmem
      obtain ⟨j, hj, hjc⟩ := List.mem_take_iff_getElem.mp hmem
      exact hbefore j (by omega) hjc
  · rintro ⟨a, b, rfl, ha, rfl⟩
    refine ⟨by rw [List.length_append, List.length_cons]; omega, by simp, ?_⟩
    intro j hj hc
    rw [List.getElem_append_left hj] at hc
    exact ha (hc ▸ List.getElem_mem hj)

theorem strchr_append {a b : Bytes} {c : UInt8} (hnul : (0 : UInt8) ∉ a ++ c :: b) (ha : c ∉ a) :
    strchr (a ++ c :: b) c = some a.length :=
  strchr_eq_some_iff.mpr ⟨a, b, cstr_eq_self hnul, ha, rfl⟩

theorem strchr_eq_none {a : Bytes} {c : UInt8} (ha : c ∉ a) : strchr a c = none := by
  cases h : strchr a c with
  | none => rfl
  | some i =>
      obtain ⟨b, d, heq, _, _⟩ := strchr_eq_some_iff.mp h
      have hmem : c ∈ cstr a := by
        rw [heq]
        exact List.mem_append_right _ List.mem_cons_self
      exact absurd ((cstr_isPrefix a).subset hmem) ha

theorem takeWhile_ne_append {a t : Bytes} {c : UInt8} (ha : c ∉ a) :
    (a ++ t).takeWhile (· != c) = a ++ t.takeWhile (· != c) := by
  refine List.takeWhile_append_of_pos fun d hd => ?_
  have hne : d ≠ c := fun h => ha (h ▸ hd)
  simpa using hne

/-- Text runs to its first `c`, or to the end. -/
theorem strchr_takeWhile {s : Bytes} (hnul : (0 : UInt8) ∉ s) (c : UInt8) :
    (strchr s c = none ∧ s.takeWhile (· != c) = s)
      ∨ ∃ n, strchr s c = some n ∧ s.take n = s.takeWhile (· != c)
        ∧ (s.takeWhile (· != c)).length = n := by
  by_cases hc : c ∈ s
  · obtain ⟨a, b, rfl, ha⟩ := List.eq_append_cons_of_mem hc
    have htake : (a ++ c :: b).takeWhile (· != c) = a := by
      rw [takeWhile_ne_append ha, List.takeWhile_cons_of_neg (by simp), List.append_nil]
    exact Or.inr ⟨a.length, strchr_append hnul ha, by rw [List.take_left, htake], by rw [htake]⟩
  · have hself := takeWhile_ne_append (t := []) hc
    rw [List.append_nil, List.takeWhile_nil, List.append_nil] at hself
    exact Or.inl ⟨strchr_eq_none hc, hself⟩

/-! ## What is read as the URL -/

theorem drop_append_cons {a b : Bytes} {c : UInt8} : (a ++ c :: b).drop (a.length + 1) = b := by
  rw [List.drop_append, List.drop_of_length_le (Nat.le_succ _), List.nil_append,
    Nat.add_sub_cancel_left, List.drop_succ_cons, List.drop_zero]

/-- At most `n` spaces are skipped. -/
theorem skipSpaces_spec (n : Nat) (s : Bytes) :
    ∃ m, s = List.replicate m 32 ++ skipSpaces n s := by
  induction n generalizing s with
  | zero => exact ⟨0, by cases s <;> rfl⟩
  | succ n ih =>
      cases s with
      | nil => exact ⟨0, rfl⟩
      | cons c s =>
          rw [skipSpaces]
          split
          · rename_i hc
            obtain ⟨m, hm⟩ := ih s
            refine ⟨m + 1, ?_⟩
            rw [List.replicate_succ, List.cons_append, ← hm, hc]
          · exact ⟨0, rfl⟩

/-- All of them are, when there are not more. -/
theorem skipSpaces_replicate {s : Bytes} (hs : s.head? ≠ some 32) : ∀ {m n : Nat}, m ≤ n →
    skipSpaces n (List.replicate m 32 ++ s) = s
  | 0, 0, _ => by cases s <;> rfl
  | 0, n + 1, _ => by
      cases s with
      | nil => rfl
      | cons c s =>
          have hc : c ≠ 32 := fun h => hs (by rw [h]; rfl)
          rw [List.replicate_zero, List.nil_append, skipSpaces, if_neg hc]
  | m + 1, n + 1, hmn => by
      rw [List.replicate_succ, List.cons_append, skipSpaces, if_pos rfl]
      exact skipSpaces_replicate hs (Nat.le_of_succ_le_succ hmn)

theorem UrlAt.head {url rest : Bytes} (hurl : url ≠ []) (hspace : (32 : UInt8) ∉ url) :
    (url ++ rest).head? ≠ some 32 := by
  obtain ⟨c, u, rfl⟩ := List.exists_cons_of_ne_nil hurl
  intro h
  rw [List.cons_append, List.head?_cons, Option.some.injEq] at h
  exact hspace (h ▸ List.mem_cons_self)

/-- What comes after the first spaces is determined by the text. -/
theorem UrlAt.unique {text method url method' url' : Bytes} (h : UrlAt text method url)
    (h' : UrlAt text method' url') : method = method' ∧ url = url' := by
  have hsplit : ∀ {a b a' b' : Bytes}, (32 : UInt8) ∉ a → (32 : UInt8) ∉ a' →
      a ++ 32 :: b = a' ++ 32 :: b' → a = a' ∧ b = b' := by
    intro a b a' b' ha ha' heq
    have hpre : a ++ [32] <+: a' ++ 32 :: b' := ⟨b, by rw [← heq]; simp⟩
    obtain rfl := (List.append_singleton_prefix_iff ha ha').mp hpre
    exact ⟨rfl, (List.cons.inj (List.append_cancel_left heq)).2⟩
  obtain ⟨n, rest, rfl⟩ := h.text
  obtain ⟨n', rest', heq⟩ := h'.text
  rw [List.replicate_succ, List.replicate_succ, List.cons_append, List.cons_append] at heq
  obtain ⟨hmethod, hrest⟩ := hsplit h.method_noSpace h'.method_noSpace heq
  refine ⟨hmethod, ?_⟩
  -- skipping all spaces leads to either URL
  have hskip := congrArg (skipSpaces (n + n')) hrest
  rw [skipSpaces_replicate (UrlAt.head h.url_ne_nil h.url_noSpace) (Nat.le_add_right n n'),
    skipSpaces_replicate (UrlAt.head h'.url_ne_nil h'.url_noSpace) (Nat.le_add_left n' n)] at hskip
  exact (hsplit h.url_noSpace h'.url_noSpace hskip).1

/-- A text that goes on has the URL where it was. -/
theorem UrlAt.extend {text method url : Bytes} (h : UrlAt text method url) (more : Bytes) :
    UrlAt (text ++ more) method url where
  method_noSpace := h.method_noSpace
  url_noSpace := h.url_noSpace
  url_ne_nil := h.url_ne_nil
  text := by
    obtain ⟨n, rest, rfl⟩ := h.text
    exact ⟨n, rest ++ more, by simp⟩

/-- **What is read as the URL** comes after the first spaces of the header, and fits. -/
theorem httpRequestGetUrl_urlAt {header url : Bytes} {bufSize : Int} (hnul : (0 : UInt8) ∉ header)
    (hfits : header.length < httpRequestHeaderBufSize)
    (h : httpRequestGetUrl (.ofHeader header) bufSize = some url) :
    (url.length : Int) < bufSize ∧ TakenForUrl header url := by
  unfold httpRequestGetUrl at h
  split at h
  · split at h
    · exact absurd h (by simp)
    · -- the method
      rename_i i hi
      obtain ⟨method, p, heq, hmethod, rfl⟩ := strchr_eq_some_iff.mp hi
      rw [ofHeader_cstr hnul] at heq h
      subst heq
      dsimp only at h
      have hp : (0 : UInt8) ∉ p :=
        fun h0 => hnul (List.mem_append_right _ (List.mem_cons_of_mem _ h0))
      rw [drop_append_cons] at h
      split at h
      · exact absurd h (by simp)
      · -- the spaces
        rename_i q hq
        have hmax : (p.length : Int) < intMax := by
          have hsize : httpRequestHeaderBufSize = 1024 := rfl
          rw [List.length_append, List.length_cons] at hfits
          unfold intMax
          omega
        have hline : crlf <:+: p :=
          ((straddr_noNul hp (by decide) (by decide) hmax (by decide)).mp hq).occurs.isInfix
        obtain ⟨m, hskip⟩ := skipSpaces_spec (q + 1) p
        generalize skipSpaces (q + 1) p = p' at h hskip
        subst hskip
        have hp' : (0 : UInt8) ∉ p' := fun h0 => hp (List.mem_append_right _ h0)
        split at h
        · exact absurd h (by simp)
        · -- the URL
          rename_i n hn
          obtain ⟨u, rest, heq, hu, rfl⟩ := strchr_eq_some_iff.mp hn
          rw [cstr_eq_self hp'] at heq
          subst heq
          split at h
          · rename_i hroom
            rw [List.take_left, Option.some.injEq] at h
            subst h
            refine ⟨by omega, method, ⟨hmethod, hu, List.length_pos_iff.mp hroom.1, m, rest, ?_⟩, ?_⟩
            · rw [List.replicate_succ, List.cons_append]
            · rwa [drop_append_cons]
          · exact absurd h (by simp)
  · exact absurd h (by simp)

/-- A line end that comes after a space comes after all of them. -/
theorem straddr_skipped {n k : Nat} {tail : Bytes}
    (hnul : (0 : UInt8) ∉ List.replicate n 32 ++ tail)
    (hlen : (List.replicate n (32 : UInt8) ++ tail).length < 1024)
    (hcrlf : List.OccursAt crlf (List.replicate n 32 ++ tail) k) :
    ∃ q, straddr (List.replicate n 32 ++ tail) crlf = some q ∧ n ≤ q := by
  obtain ⟨q, hq⟩ := List.exists_isFirstOcc ⟨k, hcrlf⟩
  refine ⟨q, (straddr_noNul hnul (by decide) (by decide) ?_ (by decide)).mpr hq, ?_⟩
  · unfold intMax
    omega
  · have hcr : (13 : UInt8) ∉ List.replicate n (32 : UInt8) := by simp
    have hocc := hq.occurs
    rw [crlf_eq] at hocc
    obtain ⟨j, rfl, _⟩ := (List.occursAt_append_of_not_mem hcr).mp hocc
    rw [List.length_replicate]
    exact Nat.le_add_right n j

/-- **The URL that is there is read** when a line end comes after the method. -/
theorem httpRequestGetUrl_eq {header method url : Bytes} (hnul : (0 : UInt8) ∉ header)
    (hfits : header.length < httpRequestHeaderBufSize) (h : UrlAt header method url)
    {i : Nat} (hcrlf : List.OccursAt crlf header i) (hi : method.length < i) (bufSize : Int) :
    httpRequestGetUrl (.ofHeader header) bufSize
      = if (url.length : Int) < bufSize then some url else none := by
  have hsize : httpRequestHeaderBufSize = 1024 := rfl
  have hpos := List.length_pos_iff.mpr h.url_ne_nil
  have hcstr := ofHeader_cstr hnul
  have hlen : (0 : Int) < (HttpRequest.ofHeader header).headerLen := by
    obtain ⟨n, rest, htext⟩ := h.text
    show (0 : Int) < (header.length : Nat)
    rw [htext]
    simp only [List.length_append, List.length_replicate]
    omega
  obtain ⟨n, rest, htext⟩ := h.text
  -- behind the method and a space
  rw [List.replicate_succ, List.cons_append] at htext
  have hmethod : strchr (HttpRequest.ofHeader header).header 32 = some method.length :=
    strchr_eq_some_iff.mpr ⟨method, _, hcstr.trans htext, h.method_noSpace, rfl⟩
  unfold httpRequestGetUrl
  rw [hmethod, hcstr]
  dsimp only
  rw [htext] at hnul hcrlf hfits ⊢
  rw [drop_append_cons]
  have hnul' : (0 : UInt8) ∉ List.replicate n 32 ++ (url ++ 32 :: rest) :=
    fun h0 => hnul (List.mem_append_right _ (List.mem_cons_of_mem _ h0))
  have hurl : (0 : UInt8) ∉ url ++ 32 :: rest := fun h0 => hnul' (List.mem_append_right _ h0)
  -- the line end does not come before the spaces do
  obtain ⟨k, hk⟩ := Nat.exists_eq_add_of_le hi
  rw [hk, Nat.succ_eq_add_one, List.occursAt_append_cons_add] at hcrlf
  rw [List.length_append, List.length_cons] at hfits
  obtain ⟨q, hstraddr, hnq⟩ := straddr_skipped hnul' (by omega) hcrlf
  rw [hstraddr]
  dsimp only
  rw [skipSpaces_replicate (UrlAt.head h.url_ne_nil h.url_noSpace) (Nat.le_succ_of_le hnq),
    strchr_append hurl h.url_noSpace]
  dsimp only
  rw [List.take_left]
  by_cases hshort : (url.length : Int) < bufSize
  · rw [if_pos ⟨htext ▸ hlen, by omega⟩, if_pos ⟨hpos, by omega⟩, if_pos hshort]
  · rw [if_neg hshort]
    split
    · rw [if_neg (by omega)]
    · rfl

/-! ## In the request line -/

theorem requestLine_eq {header : Bytes} {i : Nat} (h : List.IsFirstOcc crlf header i) :
    requestLine header = header.take i := by
  rw [requestLine, List.firstOcc_eq_some h, Option.getD_some]

/-- What `_httpRequest_get_url` should make of a header. -/
structure UrlRead (header : Bytes) (result : Option Bytes) : Prop where
  /-- It is the URL of the request line. -/
  isUrl : ∀ url, result = some url → IsUrl (requestLine header) url
  /-- A request line without a URL has none. -/
  none : (¬ ∃ url, IsUrl (requestLine header) url) → result = none

/-- **The URL is that of the request line, unless the request line has none and the rest of the
header has something that is taken for one.** -/
theorem urlRead_iff (header : Bytes) (bufSize : Int) (hnul : (0 : UInt8) ∉ header)
    (hend : headerEnd <:+ header) (hfits : header.length < httpRequestHeaderBufSize) :
    UrlRead header (httpRequestGetUrl (.ofHeader header) bufSize)
      ↔ (∃ url, IsUrl (requestLine header) url)
        ∨ ∀ method url, UrlAt header method url → bufSize ≤ url.length := by
  have hcrlf : List.OccursAt crlf header (header.length - 2) := by
    obtain ⟨s, rfl⟩ := hend
    have hlen : (s ++ headerEnd).length - 2 = s.length + 2 := by
      rw [List.length_append]
      rfl
    rw [hlen, List.occursAt_append_add]
    exact ⟨[], by decide⟩
  obtain ⟨i, hi⟩ := List.exists_isFirstOcc ⟨_, hcrlf⟩
  have hline : requestLine header ++ header.drop i = header := by
    rw [requestLine_eq hi, List.take_append_drop]
  constructor
  · intro hread
    by_cases hshort : ∃ method url, UrlAt header method url ∧ (url.length : Int) < bufSize
    · -- there is a URL to read, so it has to be one
      obtain ⟨method, url, hat, hlt⟩ := hshort
      obtain ⟨n, rest, htext⟩ := hat.text
      have hlen := congrArg List.length htext
      have hpos := List.length_pos_iff.mpr hat.url_ne_nil
      simp only [List.length_append, List.length_replicate, List.length_cons] at hlen
      have hurl := httpRequestGetUrl_eq hnul hfits hat hcrlf (by omega) bufSize
      rw [if_pos hlt] at hurl
      exact Or.inl ⟨url, hread.isUrl url hurl⟩
    · refine Or.inr ?_
      intro method url hat
      by_contra hlt
      exact hshort ⟨method, url, hat, by omega⟩
  · rintro (⟨url, hurl⟩ | hlong)
    · -- the URL of the request line is the only one in the header
      refine ⟨?_, fun hno => absurd ⟨url, hurl⟩ hno⟩
      intro url' hres
      obtain ⟨_, method', hat', _⟩ := httpRequestGetUrl_urlAt hnul hfits hres
      obtain ⟨method, _, hat⟩ := hurl.second
      have hat := hat.extend (header.drop i)
      rw [hline] at hat
      obtain ⟨_, rfl⟩ := hat.unique hat'
      exact hurl
    · have hnone : httpRequestGetUrl (.ofHeader header) bufSize = none := by
        cases hres : httpRequestGetUrl (.ofHeader header) bufSize with
        | none => rfl
        | some url =>
            obtain ⟨hlt, method, hat, _⟩ := httpRequestGetUrl_urlAt hnul hfits hres
            have := hlong method url hat
            omega
      rw [hnone]
      exact ⟨fun _ h => absurd h (by simp), fun _ => rfl⟩

theorem urlRead_iff_index :
    UrlRead (lit "GET /index HTTP/1.1\r\n\r\n")
        (httpRequestGetUrl (.ofHeader (lit "GET /index HTTP/1.1\r\n\r\n")) 254)
      ↔ (∃ url, IsUrl (requestLine (lit "GET /index HTTP/1.1\r\n\r\n")) url)
        ∨ ∀ method url, UrlAt (lit "GET /index HTTP/1.1\r\n\r\n") method url →
          (254 : Int) ≤ url.length :=
  urlRead_iff (lit "GET /index HTTP/1.1\r\n\r\n") 254 (by decide)
    ⟨lit "GET /index HTTP/1.1", by decide⟩ (by decide)

/-- Without a version, the URL goes on into the next line. -/
theorem noVersion_crosses :
    httpRequestGetUrl (.ofHeader (lit "GET /index\r\nHost: x\r\n\r\n")) 254
        = some (lit "/index\r\nHost:")
      ∧ ¬ UrlRead (lit "GET /index\r\nHost: x\r\n\r\n")
          (httpRequestGetUrl (.ofHeader (lit "GET /index\r\nHost: x\r\n\r\n")) 254) := by
  have hat : UrlAt (lit "GET /index\r\nHost: x\r\n\r\n") (lit "GET") (lit "/index\r\nHost:") :=
    ⟨by decide, by decide, by decide, 0, lit "x\r\n\r\n", by decide⟩
  have hcrlf : List.OccursAt crlf (lit "GET /index\r\nHost: x\r\n\r\n") 10 :=
    ⟨lit "Host: x\r\n\r\n", by decide⟩
  have hurl := httpRequestGetUrl_eq (by decide) (by decide) hat hcrlf (by decide) 254
  rw [if_pos (by decide)] at hurl
  refine ⟨hurl, ?_⟩
  intro hread
  exact (hread.isUrl _ hurl).noCr (by decide)

/-! ## The check of the path -/

namespace RequestText

theorem bytes_noNul (h : RequestText) : (0 : UInt8) ∉ h.bytes := by
  have hrest := h.noNul
  rw [List.mem_append, not_or] at hrest
  rw [bytes, crlf_eq]
  simp only [List.mem_append, List.mem_cons, List.mem_replicate, not_or]
  exact ⟨h.method_token.noNul, by simp, h.url_token.noNul, by decide, hrest.1, by simp, hrest.2⟩

theorem urlAt (h : RequestText) : UrlAt h.bytes h.method h.url where
  method_noSpace := h.method_token.noSpace
  url_noSpace := h.url_token.noSpace
  url_ne_nil := h.url_token.ne_nil
  text := ⟨h.spaces, _, rfl⟩

theorem bytes_length (h : RequestText) :
    h.bytes.length = h.method.length + (h.spaces + 1) + h.url.length + 1 + h.version.length + 2
      + h.fields.length := by
  rw [bytes, crlf_eq]
  simp only [List.length_append, List.length_replicate, List.length_cons, List.length_nil]
  omega

/-- **The URL is read when it is shorter than the buffer.** -/
theorem getUrl (h : RequestText) (bufSize : Int) :
    httpRequestGetUrl h.request bufSize
      = if (h.url.length : Int) < bufSize then some h.url else none := by
  have hcrlf : List.OccursAt crlf h.bytes
      ((h.method ++ (List.replicate (h.spaces + 1) 32 ++ (h.url ++ 32 :: h.version))).length + 0) := by
    have hbytes : h.bytes
        = (h.method ++ (List.replicate (h.spaces + 1) 32 ++ (h.url ++ 32 :: h.version)))
        ++ (crlf ++ h.fields) := by simp [bytes]
    rw [hbytes, List.occursAt_append_add, List.occursAt_zero]
    exact List.prefix_append _ _
  refine httpRequestGetUrl_eq h.bytes_noNul h.fits h.urlAt hcrlf ?_ bufSize
  simp only [List.length_append, List.length_replicate]
  omega

/-- In the larger buffer every URL has room. -/
theorem url_length (h : RequestText) : h.url.length < 1023 := by
  have hlen := h.bytes_length
  have hfits : h.bytes.length < 1024 := h.fits
  omega

theorem getUrlPath (h : RequestText) (bufSize : Int) :
    httpRequestGetUrlPath h.request bufSize
      = if (h.url.length : Int) < bufSize then some h.path else none := by
  unfold httpRequestGetUrlPath
  rw [h.getUrl]
  by_cases hshort : (h.url.length : Int) < bufSize
  · rw [if_pos hshort, if_pos hshort]
    dsimp only
    rw [path]
    rcases strchr_takeWhile h.url_token.noNul 63 with ⟨hnone, hself⟩ | ⟨n, hsome, htake, _⟩
    · rw [hnone, hself]
    · -- the path ends at the first `?`
      rw [hsome, ← htake]
  · rw [if_neg hshort, if_neg hshort]

end RequestText

/-- What the check of the path should make of a header. -/
structure PathChecked (h : RequestText) : Prop where
  /-- The query does not matter. -/
  accepts : clientTalkCheckRequestUrlPath h.request = true ↔ h.path = skylogRequestUrlPath
  /-- The URLs that can be read are those whose parameters can be. -/
  agree : (httpRequestGetUrlPath h.request 254).isSome = (httpRequestGetUrl h.request 1023).isSome

theorem clientTalkCheckRequestUrlPath_eq (h : RequestText) :
    clientTalkCheckRequestUrlPath h.request = true
      ↔ h.url.length ≤ 253 ∧ h.path = skylogRequestUrlPath := by
  unfold clientTalkCheckRequestUrlPath
  rw [h.getUrlPath, decide_eq_true_eq]
  by_cases hshort : (h.url.length : Int) < 254
  · rw [if_pos hshort, Option.getD_some]
    exact ⟨fun hpath => ⟨by omega, hpath⟩, fun hpath => hpath.2⟩
  · rw [if_neg hshort, Option.getD_none]
    constructor
    · intro hpath
      exact absurd hpath (by decide)
    · rintro ⟨hle, _⟩
      omega

/-- **The path is checked as it should be when the URL has room in the smaller buffer.** -/
theorem pathChecked_iff (h : RequestText) : PathChecked h ↔ h.url.length ≤ 253 := by
  have hread : (httpRequestGetUrl h.request 1023).isSome = true := by
    have hlarge := h.url_length
    rw [h.getUrl, if_pos (by omega)]
    rfl
  constructor
  · intro hchecked
    by_contra hlong
    have hagree := hchecked.agree
    rw [hread, h.getUrlPath, if_neg (by omega)] at hagree
    exact absurd hagree (by simp)
  · intro hshort
    refine ⟨?_, ?_⟩
    · rw [clientTalkCheckRequestUrlPath_eq]
      exact ⟨fun hpath => hpath.2, fun hpath => ⟨hshort, hpath⟩⟩
    · rw [hread, h.getUrlPath, if_pos (by omega), Option.isSome_some]

theorem post_isToken : IsToken (lit "POST") :=
  ⟨⟨by decide, by decide, by decide⟩, by decide, by decide⟩

theorem version_noNul : (0 : UInt8) ∉ lit "HTTP/1.1" ++ crlf := by decide

/-- A request whose query takes the URL past the smaller buffer. -/
def longQuery : RequestText where
  method := lit "POST"
  spaces := 0
  url := lit "/index?Hw=" ++ List.replicate 244 97
  version := lit "HTTP/1.1"
  fields := crlf
  method_token := post_isToken
  url_token := by
    refine ⟨⟨?_, ?_, ?_⟩, ?_, by simp⟩
    all_goals
      rw [List.mem_append, List.mem_replicate]
      decide
  noNul := version_noNul
  fits := by
    simp only [List.length_append, List.length_replicate, List.length_cons]
    decide

theorem longQuery_refused :
    longQuery.path = skylogRequestUrlPath
      ∧ clientTalkCheckRequestUrlPath longQuery.request = false
      ∧ ¬ PathChecked longQuery := by
  have hlen : longQuery.url.length = 254 := by
    show (lit "/index?Hw=" ++ List.replicate 244 97).length = 254
    rw [List.length_append, List.length_replicate]
    rfl
  have hpath : longQuery.path = skylogRequestUrlPath := by
    show (lit "/index?Hw=" ++ List.replicate 244 97).takeWhile (· != 63) = _
    rfl
  have hrefused : clientTalkCheckRequestUrlPath longQuery.request = false := by
    rw [← Bool.not_eq_true, clientTalkCheckRequestUrlPath_eq]
    omega
  refine ⟨hpath, hrefused, ?_⟩
  intro hchecked
  have haccepted := hchecked.accepts.mpr hpath
  rw [hrefused] at haccepted
  exact absurd haccepted (by simp)

end TraceServer
