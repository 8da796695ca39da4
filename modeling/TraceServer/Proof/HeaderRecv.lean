import TraceServer.Proof.Segment
import TraceServer.Proof.Sunday

/-!
# Receiving the header (`_httpRequest_recv_header`)

The header ends with the first `CRLFCRLF` of what a client sends. Here it is received by one
call for every segment that arrives, and what the calls have stored, reported and left is
computed from the stream as it has come so far (`Scanned`), whatever its segments are.

A full buffer is tested for before the end of the header is, so a header of 1023 bytes, which
fits, is reported as one that does not.
-/

namespace TraceServer

/-! ## One scan -/

/-- What the calls make of the bytes that have come so far: what they report, what they have
stored, and what they have left. -/
inductive Scanned (stream : Bytes) : HttpRequestResult → Bytes → Bytes → Prop where
  | wait (hshort : stream.length < 1023) (hno : ∀ i, ¬ List.OccursAt headerEnd stream i) :
      Scanned stream .recvEmpty stream []
  | done {i : Nat} (hfirst : List.IsFirstOcc headerEnd stream i) (hlt : i + 4 < 1023) :
      Scanned stream .headerRecvSuccess (stream.take (i + 4)) (stream.drop (i + 4))
  | full (hlen : 1023 ≤ stream.length) (hno : ∀ i, List.OccursAt headerEnd stream i → 1019 ≤ i) :
      Scanned stream .headerBufFull (stream.take 1023) (stream.drop 1023)

theorem headerEnd_ne_nil : headerEnd ≠ [] := by decide

theorem headerEnd_length : headerEnd.length = 4 := rfl

/-- The search in the header buffer is one in what has been received. -/
theorem straddr_received {r : HttpRequest} (h : r.Ok) (hnul : (0 : UInt8) ∉ r.received) (i : Nat) :
    straddr r.header headerEnd = some i ↔ List.IsFirstOcc headerEnd r.received i := by
  have hcstr : cstr r.header = r.received := by
    rw [h.header, cstr_append_zeros, cstr_eq_self hnul]
  have hlen := h.received_length
  have hle := h.headerLen_le
  rw [straddr_eq_some_iff (by decide), hcstr, show cstr headerEnd = headerEnd by decide]
  · rw [strlen, hcstr]
    unfold intMax
    omega
  · decide

/-- More bytes do not bring an earlier match. -/
theorem headerEnd_late {s : Bytes} {n : Nat} (hn : n + 3 ≤ s.length)
    (hno : ∀ i, List.OccursAt headerEnd s i → n ≤ i) (t : Bytes) :
    ∀ i, List.OccursAt headerEnd (s ++ t) i → n ≤ i := by
  intro i hi
  by_contra hearly
  rw [List.occursAt_append (by rw [headerEnd_length]; omega)] at hi
  exact hearly (hno i hi)

/-- The byte takes the last place, and what stands in front of it has been searched. -/
theorem scanned_full {s : Bytes} {ch : UInt8} (hlen : (s ++ [ch]).length = 1023)
    (hno : ∀ i, ¬ List.OccursAt headerEnd s i) (p : Bytes) :
    Scanned ((s ++ [ch]) ++ p) .headerBufFull (s ++ [ch]) p := by
  have hlate : ∀ i, List.OccursAt headerEnd (s ++ ([ch] ++ p)) i → 1019 ≤ i := by
    refine headerEnd_late ?_ (fun i hi => absurd hi (hno i)) ([ch] ++ p)
    rw [List.length_append, List.length_singleton] at hlen
    omega
  have hlong : 1023 ≤ ((s ++ [ch]) ++ p).length := by
    rw [List.length_append]
    omega
  rw [← List.append_assoc] at hlate
  have hscanned := Scanned.full hlong hlate
  rwa [List.take_left' hlen, List.drop_left' hlen] at hscanned

/-- The header is there with this byte, so it ends in it. -/
theorem scanned_done {s : Bytes} {ch : UInt8} {i : Nat} (hlen : (s ++ [ch]).length < 1023)
    (hno : ∀ i, ¬ List.OccursAt headerEnd s i)
    (hfirst : List.IsFirstOcc headerEnd (s ++ [ch]) i) (p : Bytes) :
    Scanned ((s ++ [ch]) ++ p) .headerRecvSuccess (s ++ [ch]) p := by
  have hle := hfirst.occurs.le headerEnd_ne_nil
  rw [headerEnd_length] at hle
  have hlast : (s ++ [ch]).length = i + 4 := by
    by_contra hne
    refine hno i ((List.occursAt_append ?_).mp hfirst.occurs)
    rw [List.length_append, List.length_singleton] at hle hne
    rw [headerEnd_length]
    omega
  have hscanned := Scanned.done (hfirst.extend (u := p) headerEnd_ne_nil) (by omega)
  rwa [List.take_left' hlast, List.drop_left' hlast] at hscanned

/-- The scan goes through the stream byte by byte, as long as the header has not ended. -/
theorem headerScan_scanned (p : Bytes) : ∀ {r : HttpRequest}, r.Ok →
    isHttpRequestHeaderBufFull r = false → (0 : UInt8) ∉ r.received ++ p →
    (∀ i, ¬ List.OccursAt headerEnd r.received i) →
    Scanned (r.received ++ p) (headerScan p r).1 (headerScan p r).2.1.received
      (headerScan p r).2.2 := by
  induction p with
  | nil =>
      intro r hok hfull _ hno
      have hlen := hok.received_length
      have hlt := not_full_iff.mp hfull
      rw [List.append_nil, headerScan]
      exact .wait (by omega) hno
  | cons ch p ih =>
      intro r hok hfull hnul hno
      have hok' := storeHeader_ok hok hfull ch
      have hrecv := storeHeader_received hok hfull ch
      have hlen := hok'.received_length
      rw [hrecv] at hlen
      rw [← List.singleton_append, ← List.append_assoc] at hnul ⊢
      rw [List.singleton_append, headerScan]
      by_cases hfull' : isHttpRequestHeaderBufFull (r.storeHeader ch 1) = true
      · rw [if_pos hfull', hrecv]
        refine scanned_full ?_ hno p
        have hlt := not_full_iff.mp hfull
        have hheaderLen : (r.storeHeader ch 1).headerLen = r.headerLen + 1 := rfl
        have hge : ¬ (r.storeHeader ch 1).headerLen < 1023 := by
          intro hlt'
          rw [not_full_iff.mpr hlt'] at hfull'
          exact absurd hfull' (by simp)
        omega
      · have hfull'' := Bool.eq_false_iff.mpr hfull'
        have hroom := not_full_iff.mp hfull''
        have hstraddr := straddr_received hok' (by
          rw [hrecv]
          exact fun h0 => hnul (List.mem_append_left _ h0))
        rw [if_neg hfull']
        rw [hrecv] at hstraddr
        by_cases hend : (straddr (r.storeHeader ch 1).header headerEnd).isSome = true
        · rw [if_pos hend, hrecv]
          obtain ⟨i, hi⟩ := Option.isSome_iff_exists.mp hend
          exact scanned_done (by omega) hno ((hstraddr i).mp hi) p
        · rw [if_neg hend, ← hrecv]
          refine ih hok' hfull'' (by rwa [hrecv]) ?_
          intro i hocc
          rw [hrecv] at hocc
          obtain ⟨j, hj⟩ := List.exists_isFirstOcc ⟨i, hocc⟩
          exact hend (Option.isSome_iff_exists.mpr ⟨j, (hstraddr j).mpr hj⟩)

/-- Once something has been reported, what comes behind it is left. -/
theorem Scanned.append {stream received pending : Bytes} {result : HttpRequestResult}
    (h : Scanned stream result received pending) (hresult : result ≠ .recvEmpty) (seg : Bytes) :
    Scanned (stream ++ seg) result received (pending ++ seg) := by
  cases h with
  | wait => exact absurd rfl hresult
  | @done i hfirst hlt =>
      have hle := hfirst.occurs.le headerEnd_ne_nil
      rw [headerEnd_length] at hle
      have hdone := Scanned.done (hfirst.extend (u := seg) headerEnd_ne_nil) hlt
      rwa [List.take_append_of_le_length hle, List.drop_append_of_le_length hle] at hdone
  | full hlen hno =>
      have hlong : 1023 ≤ (stream ++ seg).length := by
        rw [List.length_append]
        omega
      have hstay := Scanned.full hlong (headerEnd_late (by omega) hno seg)
      rwa [List.take_append_of_le_length hlen, List.drop_append_of_le_length hlen] at hstay

/-! ## One call for every segment -/

/-- A header between two calls: what the last one reported, and what it left. -/
structure HeaderRun where
  result : HttpRequestResult
  req : HttpRequest
  io : ClientIo

/-- Before the first call. -/
def HeaderRun.init : HeaderRun := ⟨.recvEmpty, HttpRequest.zero, ClientIo.zero⟩

/-- `seg` arrives, and `httpRequest_recv_header` is called, unless it has reported success. -/
def HeaderRun.read (x : HeaderRun) (seg : Bytes) : HeaderRun :=
  let io := x.io.arrive seg
  if x.result = .headerRecvSuccess then { x with io := io }
  else
    let y := httpRequestRecvHeader io x.req
    ⟨y.result, y.req, y.io⟩

/-- All calls, one for every segment. -/
def headerRun (segs : List Bytes) : HeaderRun := segs.foldl HeaderRun.read .init

/-- A header that has been received as far as `stream`. -/
structure HeaderRun.At (stream : Bytes) (x : HeaderRun) : Prop where
  ok : x.req.Ok
  bevInput : x.result = .recvEmpty → x.io.bevInput = []
  scanned : Scanned stream x.result x.req.received x.io.pending

theorem HeaderRun.At.init : HeaderRun.init.At [] where
  ok := .zero
  bevInput := fun _ => rfl
  scanned := by
    refine .wait (by simp) ?_
    intro i hocc
    have := hocc.le headerEnd_ne_nil
    rw [headerEnd_length, List.length_nil] at this
    omega

theorem arrive_pending (io : ClientIo) (seg : Bytes) :
    (io.arrive seg).pending = io.pending ++ seg := by
  simp [ClientIo.arrive, ClientIo.pending]

/-- Once the buffer is full, no call asks for a byte. -/
theorem httpRequestRecvHeader_of_full {r : HttpRequest} {stream : Bytes} (h : r.Ok)
    (hreceived : r.received = stream.take 1023) (hlen : 1023 ≤ stream.length) (io : ClientIo) :
    httpRequestRecvHeader io r = ⟨.headerBufFull, io, r, []⟩ := by
  have hheaderLen := h.received_length
  rw [hreceived, List.length_take] at hheaderLen
  have hfull : isHttpRequestHeaderBufFull r = true := by
    rw [← Bool.not_eq_false, not_full_iff]
    omega
  unfold httpRequestRecvHeader
  rw [if_pos hfull]

/-- **One more segment.** -/
theorem HeaderRun.At.read {stream seg : Bytes} {x : HeaderRun} (h : x.At stream)
    (hnul : (0 : UInt8) ∉ stream ++ seg) (hseg : (seg.length : Int) ≤ intMax) :
    (x.read seg).At (stream ++ seg) := by
  obtain ⟨result, req, io⟩ := x
  obtain ⟨hok, hbev, hscanned⟩ := h
  dsimp only at hok hbev hscanned
  have harrive := arrive_pending io seg
  have hstay : result ≠ .recvEmpty →
      Scanned (stream ++ seg) result req.received (io.arrive seg).pending := by
    intro hne
    rw [harrive]
    exact hscanned.append hne seg
  unfold HeaderRun.read
  dsimp only
  generalize hreceived : req.received = received at hscanned hstay
  generalize io.pending = pending at hscanned harrive
  cases hscanned with
  | wait hshort hno =>
      -- the call goes on where the last one stopped
      rw [if_neg (by simp)]
      have hlen := hok.received_length
      rw [hreceived] at hlen
      have hfull : isHttpRequestHeaderBufFull req = false := not_full_iff.mpr (by omega)
      have hin : (io.arrive seg).addBuffer.inputBuffer = seg := harrive
      have hview := httpRequestRecvHeader_view (io.arrive seg).addBuffer hfull rfl
        (by rw [hin]; exact hseg)
      rw [httpRequestRecvHeader_addBuffer _ hfull, hin] at hview
      obtain ⟨hres, hreq, hio⟩ := HttpRecvOut.view_eq hview
      refine ⟨(httpRequestRecvHeader_spec _ hok).ok, fun _ => by rw [hio]; rfl, ?_⟩
      have hscan := headerScan_scanned seg hok hfull (by rwa [hreceived]) (by rwa [hreceived])
      rw [hreceived] at hscan
      dsimp only
      rw [hres, hreq, hio, ClientIo.pending]
      simpa [ClientIo.addBuffer] using hscan
  | done _ _ =>
      -- nothing is called any more
      rw [if_pos rfl]
      refine ⟨hok, fun h => absurd h (by simp), ?_⟩
      dsimp only
      rw [hreceived]
      exact hstay (by simp)
  | full hlen _ =>
      -- the buffer is full before the first byte is asked for
      rw [if_neg (by simp), httpRequestRecvHeader_of_full hok hreceived hlen]
      refine ⟨hok, fun h => absurd h (by simp), ?_⟩
      dsimp only
      rw [hreceived]
      exact hstay (by simp)

theorem HeaderRun.At.foldl (segs : List Bytes) : ∀ {x : HeaderRun} {stream : Bytes}, x.At stream →
    (0 : UInt8) ∉ stream ++ segs.flatten → (∀ seg ∈ segs, (seg.length : Int) ≤ intMax) →
    (segs.foldl HeaderRun.read x).At (stream ++ segs.flatten) := by
  induction segs with
  | nil =>
      intro x stream hx _ _
      rwa [List.flatten_nil, List.append_nil]
  | cons seg segs ih =>
      intro x stream hx hnul hsegs
      rw [List.flatten_cons, ← List.append_assoc] at hnul ⊢
      refine ih (hx.read ?_ (hsegs seg List.mem_cons_self)) hnul fun s hs =>
        hsegs s (List.mem_cons_of_mem _ hs)
      exact fun h0 => hnul (List.mem_append_left _ h0)

/-- **The segments do not matter**: after them, the header is received as far as the stream goes. -/
theorem headerRun_at {segs : List Bytes} (hnul : (0 : UInt8) ∉ segs.flatten)
    (hsegs : ∀ seg ∈ segs, (seg.length : Int) ≤ intMax) : (headerRun segs).At segs.flatten := by
  have := HeaderRun.At.init.foldl segs (by rwa [List.nil_append]) hsegs
  rwa [List.nil_append] at this

/-! ## What a header should be received as -/

/-- The header of `stream`, received as the buffer has room for it: `header_len` can become 1023,
with one byte behind it for a terminator. -/
structure HeaderReceived (stream : Bytes) (x : HeaderRun) : Prop where
  /-- A header that ends in the first 1023 bytes is received. -/
  success : x.result = .headerRecvSuccess
    ↔ ∃ i, List.IsFirstOcc headerEnd stream i ∧ i + headerEnd.length ≤ httpRequestHeaderBufSize - 1
  /-- It is all that has been consumed. -/
  header : x.result = .headerRecvSuccess → ∀ i, List.IsFirstOcc headerEnd stream i →
    x.req.received = stream.take (i + headerEnd.length)
      ∧ x.io.pending = stream.drop (i + headerEnd.length)
  /-- When there is no end in the first 1023 bytes the buffer is full, now and later. -/
  full : httpRequestHeaderBufSize - 1 ≤ stream.length →
    ¬ headerEnd <:+: stream.take (httpRequestHeaderBufSize - 1) →
    x.result = .headerBufFull
      ∧ ∀ io, httpRequestRecvHeader io x.req = ⟨.headerBufFull, io, x.req, []⟩

theorem occursAt_take {stream : Bytes} {i n : Nat} (h : List.OccursAt headerEnd stream i)
    (hn : i + 4 ≤ n) : headerEnd <:+: stream.take n := by
  have hle := h.le headerEnd_ne_nil
  rw [headerEnd_length] at hle
  rw [← List.take_append_drop n stream, List.occursAt_append] at h
  · exact h.isInfix
  · rw [headerEnd_length, List.length_take]
    omega

/-- A header that ends in the 1023rd byte is not received, for all that it fits. -/
theorem HeaderRun.At.last {stream : Bytes} {x : HeaderRun} (h : x.At stream)
    (hlast : List.IsFirstOcc headerEnd stream 1019) : x.result = .headerBufFull := by
  obtain ⟨_, _, hscanned⟩ := h
  generalize x.req.received = received at hscanned
  generalize x.io.pending = pending at hscanned
  generalize x.result = result at hscanned ⊢
  cases hscanned with
  | wait _ hno => exact absurd hlast.occurs (hno 1019)
  | done hfirst hlt =>
      have := hfirst.unique hlast
      omega
  | full => rfl

theorem HeaderRun.At.not_received {stream : Bytes} {x : HeaderRun} (h : x.At stream)
    (hlast : List.IsFirstOcc headerEnd stream 1019) : ¬ HeaderReceived stream x := by
  intro hreceived
  have hres := hreceived.success.mpr ⟨1019, hlast, Nat.le_refl _⟩
  rw [h.last hlast] at hres
  exact absurd hres (by simp)

/-- **The header is received as it should be, unless it ends in the last byte of the buffer.** -/
theorem headerReceived_iff (segs : List Bytes) (hnul : (0 : UInt8) ∉ segs.flatten)
    (hsegs : ∀ seg ∈ segs, (seg.length : Int) ≤ intMax) :
    HeaderReceived segs.flatten (headerRun segs)
      ↔ ¬ List.IsFirstOcc headerEnd segs.flatten
          (httpRequestHeaderBufSize - 1 - headerEnd.length) := by
  have hsize : httpRequestHeaderBufSize - 1 = 1023 := rfl
  have hat := headerRun_at hnul hsegs
  rw [hsize, headerEnd_length]
  refine ⟨fun hreceived hlast => hat.not_received hlast hreceived, ?_⟩
  intro hlast
  generalize headerRun segs = x at hat
  generalize segs.flatten = stream at hat hlast
  obtain ⟨result, req, io⟩ := x
  obtain ⟨hok, _, hscanned⟩ := hat
  dsimp only at hok hscanned
  generalize hreceived : req.received = received at hscanned
  generalize hpending : io.pending = pending at hscanned
  cases hscanned with
  | wait hshort hno =>
      refine ⟨⟨fun h => absurd h (by simp), ?_⟩, fun h => absurd h (by simp), ?_⟩
      · rintro ⟨i, hi, _⟩
        exact absurd hi.occurs (hno i)
      · intro hlen
        omega
  | @done i hfirst hlt =>
      refine ⟨⟨fun _ => ⟨i, hfirst, ?_⟩, fun _ => rfl⟩, ?_, ?_⟩
      · rw [hsize, headerEnd_length]
        omega
      · intro _ j hj
        obtain rfl := hfirst.unique hj
        exact ⟨hreceived, hpending⟩
      · intro _ hno
        exact absurd (occursAt_take hfirst.occurs (by omega)) hno
  | full hlen hno =>
      refine ⟨⟨fun h => absurd h (by simp), ?_⟩, fun h => absurd h (by simp), ?_⟩
      · rintro ⟨i, hi, hle⟩
        rw [hsize, headerEnd_length] at hle
        have hge := hno i hi.occurs
        obtain rfl : i = 1019 := by omega
        exact absurd hi hlast
      · intro _ _
        exact ⟨rfl, httpRequestRecvHeader_of_full hok hreceived hlen⟩

theorem headerReceived_iff_cut :
    HeaderReceived [lit "GET / HTTP/1.1\r\n\r", lit "\nbody"].flatten
        (headerRun [lit "GET / HTTP/1.1\r\n\r", lit "\nbody"])
      ↔ ¬ List.IsFirstOcc headerEnd [lit "GET / HTTP/1.1\r\n\r", lit "\nbody"].flatten
          (httpRequestHeaderBufSize - 1 - headerEnd.length) :=
  headerReceived_iff [lit "GET / HTTP/1.1\r\n\r", lit "\nbody"] (by decide) (by decide)

/-- A request line of 1019 bytes. -/
def longLine : Bytes := lit "GET /" ++ List.replicate 1005 97 ++ lit " HTTP/1.1"

/-- A header of 1023 bytes, which leaves room for the terminator and nothing else. -/
def lastByteHeader : Bytes := longLine ++ headerEnd

theorem not_mem_longLine {c : UInt8} (hmethod : c ∉ lit "GET /") (hurl : c ≠ 97)
    (hversion : c ∉ lit " HTTP/1.1") : c ∉ longLine := by
  simp only [longLine, List.mem_append, List.mem_replicate, not_or, not_and]
  exact ⟨⟨hmethod, fun _ => hurl⟩, hversion⟩

theorem longLine_length : longLine.length = 1019 := by
  simp only [longLine, List.length_append, List.length_replicate]
  rfl

theorem lastByteHeader_first : List.IsFirstOcc headerEnd lastByteHeader 1019 := by
  have hcr : (13 : UInt8) ∉ longLine := not_mem_longLine (by decide) (by decide) (by decide)
  rw [← longLine_length]
  refine List.IsFirstOcc.shift (k := 0) (fun i => List.occursAt_append_of_not_mem hcr)
    ⟨List.occursAt_zero.mpr List.prefix_rfl, ?_⟩
  intro j hj
  exact absurd hj (Nat.not_lt_zero j)

theorem lastByteHeader_full :
    lastByteHeader.length = httpRequestHeaderBufSize - 1
      ∧ List.IsFirstOcc headerEnd lastByteHeader (httpRequestHeaderBufSize - 1 - headerEnd.length)
      ∧ (headerRun [lastByteHeader]).result = .headerBufFull
      ∧ ¬ HeaderReceived [lastByteHeader].flatten (headerRun [lastByteHeader]) := by
  have hlength : lastByteHeader.length = 1023 := by
    rw [lastByteHeader, List.length_append, longLine_length, headerEnd_length]
  have hflat : [lastByteHeader].flatten = lastByteHeader := List.flatten_singleton
  have hnul : (0 : UInt8) ∉ [lastByteHeader].flatten := by
    rw [hflat, lastByteHeader, List.mem_append, not_or]
    exact ⟨not_mem_longLine (by decide) (by decide) (by decide), by decide⟩
  have hseg : ∀ seg ∈ [lastByteHeader], (seg.length : Int) ≤ intMax := by
    intro seg hseg
    rw [List.mem_singleton.mp hseg, hlength]
    decide
  have hat := headerRun_at hnul hseg
  have hsize : httpRequestHeaderBufSize - 1 = 1023 := rfl
  rw [hflat] at hat ⊢
  rw [hsize, headerEnd_length]
  exact ⟨hlength, lastByteHeader_first, hat.last lastByteHeader_first,
    hat.not_received lastByteHeader_first⟩

end TraceServer
