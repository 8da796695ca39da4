import TraceServer.ClientTalk

/-!
# What the receive loops do to a request

`HttpRequest.Ok` is the shape every request has between two calls: the header buffer is
what was received followed by zeros, and so is the body buffer, with room for one NUL
behind the announced length. Each store of the two loops is justified against it, and
each of them re-establishes it.

Nothing is assumed here about how much is pending. The loops do not need it: a length
that turns negative as an `int` ends them.
-/

namespace TraceServer

/-- The header bytes received so far. -/
def HttpRequest.received (r : HttpRequest) : Bytes := r.header.take r.headerLen.toNat

/-- The body bytes received so far. -/
def HttpRequest.body (r : HttpRequest) : Bytes := (r.contextBuf.getD []).take r.dataLen.toNat

/-- A request between two calls. -/
structure HttpRequest.Ok (r : HttpRequest) : Prop where
  headerLen_nonneg : 0 ≤ r.headerLen
  /-- One byte of the buffer stays free for a terminator. -/
  headerLen_le : r.headerLen ≤ 1023
  /-- Nothing but zeros follows what was received. -/
  header : r.header = r.received ++ List.replicate (1024 - r.headerLen.toNat) 0
  dataLen_nonneg : 0 ≤ r.dataLen
  noContext : r.contextBuf = none → r.dataLen = 0
  /-- The allocation is one byte longer than the announced body. -/
  context : ∀ buf, r.contextBuf = some buf → 0 < r.contextLen ∧ r.dataLen ≤ r.contextLen ∧
    buf = r.body ++ List.replicate (r.contextLen + 1 - r.dataLen).toNat 0

namespace HttpRequest.Ok

variable {r : HttpRequest}

theorem zero : HttpRequest.zero.Ok where
  headerLen_nonneg := Int.le_refl 0
  headerLen_le := by decide
  header := rfl
  dataLen_nonneg := Int.le_refl 0
  noContext := fun _ => rfl
  context := fun buf h => by exact absurd h (by simp [HttpRequest.zero])

theorem received_length (h : r.Ok) : (r.received.length : Int) = r.headerLen := by
  have hl := congrArg List.length h.header
  have h0 := h.headerLen_nonneg
  have h1 := h.headerLen_le
  have h2 : r.received.length = min r.headerLen.toNat r.header.length := List.length_take
  rw [List.length_append, List.length_replicate] at hl
  omega

theorem header_length (h : r.Ok) : r.header.length = 1024 := by
  have hl := congrArg List.length h.header
  have h2 := h.received_length
  have h1 := h.headerLen_le
  rw [List.length_append, List.length_replicate] at hl
  omega

theorem body_length (h : r.Ok) : (r.body.length : Int) = r.dataLen := by
  have h0 := h.dataLen_nonneg
  have h2 : r.body.length = min r.dataLen.toNat (r.contextBuf.getD []).length := List.length_take
  cases hc : r.contextBuf with
  | none =>
      have := h.noContext hc
      omega
  | some buf =>
      obtain ⟨h3, h4, h5⟩ := h.context buf hc
      have hl := congrArg List.length h5
      rw [List.length_append, List.length_replicate] at hl
      rw [hc, Option.getD_some] at h2
      omega

theorem context_length (h : r.Ok) {buf : Bytes} (hc : r.contextBuf = some buf) :
    (buf.length : Int) = r.contextLen + 1 := by
  obtain ⟨h3, h4, h5⟩ := h.context buf hc
  have hl := congrArg List.length h5
  have hb := h.body_length
  rw [List.length_append, List.length_replicate] at hl
  omega

end HttpRequest.Ok

/-! ## `evserver_recv_client` -/

@[simp] theorem addBuffer_pending (io : ClientIo) : io.addBuffer.pending = io.pending := by
  simp [ClientIo.addBuffer, ClientIo.pending]

theorem evbufferRemove_pos {io : ClientIo} {len n : Int} (h0 : 0 < len) (hn : 0 < n) :
    (((evbufferRemove io len n).data.length : Int) = (evbufferRemove io len n).len)
      ∧ (evbufferRemove io len n).len ≤ n := by
  unfold evbufferRemove
  rw [if_pos h0]
  dsimp only
  rw [List.length_take]
  omega

theorem evbufferRemove_pending (io : ClientIo) (len n : Int) :
    (evbufferRemove io len n).data ++ (evbufferRemove io len n).io.pending = io.pending := by
  unfold evbufferRemove
  split
  · rw [ClientIo.pending, ClientIo.pending, ← List.append_assoc, List.take_append_drop]
  · rfl

/-- A positive result comes of a positive length. -/
theorem evbufferRemove_len_pos {io : ClientIo} {len n : Int}
    (h : 0 < (evbufferRemove io len n).len) :
    0 < len := by
  unfold evbufferRemove at h
  split at h
  · assumption
  · exact h

/-- A positive result is the number of bytes received. -/
theorem evserverRecvClient_pos (io : ClientIo) (n : Int) (h : 0 < (evserverRecvClient io n).len) :
    (((evserverRecvClient io n).data.length : Int) = (evserverRecvClient io n).len)
      ∧ (evserverRecvClient io n).len ≤ n := by
  unfold evserverRecvClient at h ⊢
  by_cases hn : 0 < n
  · rw [if_pos hn] at h ⊢
    exact evbufferRemove_pos (evbufferRemove_len_pos h) hn
  · rw [if_neg hn] at h
    exact absurd h (Int.lt_irrefl 0)

/-- What is received comes off the front of what is pending. -/
theorem evserverRecvClient_pending (io : ClientIo) (n : Int) :
    (evserverRecvClient io n).data ++ (evserverRecvClient io n).io.pending = io.pending := by
  unfold evserverRecvClient
  split
  · rw [evbufferRemove_pending, addBuffer_pending]
  · rfl

theorem evbufferRemove_nonpos {io : ClientIo} {len n : Int}
    (h : ¬ 0 < (evbufferRemove io len n).len) : (evbufferRemove io len n).data = [] := by
  unfold evbufferRemove at h ⊢
  split
  · rename_i hl
    rw [if_pos hl] at h
    dsimp only at h ⊢
    refine List.length_eq_zero_iff.mp ?_
    rw [List.length_take]
    omega
  · rfl

theorem evserverRecvClient_nonpos (io : ClientIo) (n : Int)
    (h : ¬ 0 < (evserverRecvClient io n).len) : (evserverRecvClient io n).io.pending = io.pending := by
  have hdata : (evserverRecvClient io n).data = [] := by
    unfold evserverRecvClient at h ⊢
    split
    · rename_i hn
      rw [if_pos hn] at h
      exact evbufferRemove_nonpos h
    · rfl
  have := evserverRecvClient_pending io n
  rwa [hdata, List.nil_append] at this

/-- The output side is not touched. -/
theorem evserverRecvClient_output (io : ClientIo) (n : Int) :
    (evserverRecvClient io n).io.outputBuffer = io.outputBuffer
      ∧ (evserverRecvClient io n).io.bevOutput = io.bevOutput := by
  unfold evserverRecvClient evbufferRemove
  split
  · split <;> exact ⟨rfl, rfl⟩
  · exact ⟨rfl, rfl⟩

/-! ## Stores -/

/-- A store inside the buffer it goes to. A body buffer has one byte more than the body. -/
def Store.InBounds : Store → Prop
  | .header i => 0 ≤ i ∧ i < 1024
  | .context i contextLen size => 0 ≤ i ∧ i ≤ contextLen ∧ (size : Int) = contextLen + 1

section

variable {r : HttpRequest}

theorem not_full_iff : isHttpRequestHeaderBufFull r = false ↔ r.headerLen < 1023 := by
  unfold isHttpRequestHeaderBufFull httpRequestHeaderBufSize
  simp only [ge_iff_le, decide_eq_false_iff_not]
  omega

/-- The header grows by the byte stored. -/
theorem storeHeader_header (h : r.Ok) (hfull : isHttpRequestHeaderBufFull r = false) (ch : UInt8) :
    (r.storeHeader ch 1).header
      = r.received ++ [ch] ++ List.replicate (1024 - (r.headerLen.toNat + 1)) 0 := by
  have hlen := h.received_length
  have hlt := not_full_iff.mp hfull
  have h0 := h.headerLen_nonneg
  unfold HttpRequest.storeHeader
  dsimp only
  rw [h.header, List.set_append_right _ _ (by omega)]
  have hz : 1024 - r.headerLen.toNat = (1024 - (r.headerLen.toNat + 1)) + 1 := by omega
  have hi : r.headerLen.toNat - r.received.length = 0 := by omega
  rw [hz, hi, List.replicate_succ, List.set_cons_zero, List.append_assoc]
  rfl

theorem storeHeader_received (h : r.Ok) (hfull : isHttpRequestHeaderBufFull r = false)
    (ch : UInt8) : (r.storeHeader ch 1).received = r.received ++ [ch] := by
  have hlen := h.received_length
  have h0 := h.headerLen_nonneg
  unfold HttpRequest.received
  rw [storeHeader_header h hfull ch]
  refine List.take_left' ?_
  show _ = (r.headerLen + 1).toNat
  rw [List.length_append, List.length_singleton]
  omega

theorem storeHeader_ok (h : r.Ok) (hfull : isHttpRequestHeaderBufFull r = false) (ch : UInt8) :
    (r.storeHeader ch 1).Ok where
  headerLen_nonneg := by
    have := h.headerLen_nonneg
    show 0 ≤ r.headerLen + 1
    omega
  headerLen_le := by
    have := not_full_iff.mp hfull
    show r.headerLen + 1 ≤ 1023
    omega
  header := by
    have h0 := h.headerLen_nonneg
    have hn : (r.storeHeader ch 1).headerLen.toNat = r.headerLen.toNat + 1 := by
      show (r.headerLen + 1).toNat = _
      omega
    rw [storeHeader_received h hfull ch, storeHeader_header h hfull ch, hn]
  dataLen_nonneg := h.dataLen_nonneg
  noContext := h.noContext
  context := h.context

/-- The body buffer after a round: the bytes received stand behind the body, and the NUL
put after them changes nothing. -/
theorem storeContext_contextBuf (h : r.Ok) {buf : Bytes} (hc : r.contextBuf = some buf)
    {d : Bytes} (hd : r.dataLen + d.length ≤ r.contextLen) :
    (r.storeContext d).contextBuf = some (r.body ++ d ++
      List.replicate (r.contextLen + 1 - (r.dataLen + d.length)).toNat 0) := by
  obtain ⟨hpos, hle, hbuf⟩ := h.context buf hc
  have hb := h.body_length
  have h0 := h.dataLen_nonneg
  have hsplit : (r.contextLen + 1 - r.dataLen).toNat
      = d.length + (1 + (r.contextLen - (r.dataLen + d.length)).toNat) := by omega
  have hz : List.replicate (r.contextLen + 1 - r.dataLen).toNat (0 : UInt8)
      = List.replicate d.length 0 ++ ([0] ++
          List.replicate (r.contextLen - (r.dataLen + d.length)).toNat 0) := by
    rw [hsplit, List.replicate_add, List.replicate_add]; rfl
  have hz' : List.replicate (r.contextLen + 1 - (r.dataLen + d.length)).toNat (0 : UInt8)
      = [0] ++ List.replicate (r.contextLen - (r.dataLen + d.length)).toNat 0 := by
    rw [show (r.contextLen + 1 - (r.dataLen + d.length)).toNat
      = 1 + (r.contextLen - (r.dataLen + d.length)).toNat by omega, List.replicate_add]; rfl
  have hbl : r.body.length = r.dataLen.toNat := by omega
  have hbd : (r.body ++ d).length = (r.dataLen + d.length).toNat := by
    rw [List.length_append]; omega
  -- the data goes over the first zeros
  have h1 : storeAt buf r.dataLen.toNat d = (r.body ++ d) ++ ([0] ++
      List.replicate (r.contextLen - (r.dataLen + d.length)).toNat 0) := by
    rw [hbuf, hz]
    unfold storeAt
    rw [← hbl, List.take_left, ← List.append_assoc r.body,
      List.drop_left' (show (r.body ++ List.replicate d.length 0).length = _ by simp)]
  -- the NUL goes over a zero
  have h2 : storeAt ((r.body ++ d) ++ ([0] ++
      List.replicate (r.contextLen - (r.dataLen + d.length)).toNat 0))
      (r.dataLen + d.length).toNat [0] = (r.body ++ d) ++ ([0] ++
      List.replicate (r.contextLen - (r.dataLen + d.length)).toNat 0) := by
    unfold storeAt
    rw [← hbd, List.take_left, ← List.append_assoc (r.body ++ d),
      List.drop_left' (show (r.body ++ d ++ [0]).length = _ by simp [Nat.add_assoc]),
      List.append_assoc (r.body ++ d)]
  unfold HttpRequest.storeContext
  dsimp only
  rw [hc, Option.map_some, h1, h2, hz']

theorem storeContext_body (h : r.Ok) {buf : Bytes} (hc : r.contextBuf = some buf)
    {d : Bytes} (hd : r.dataLen + d.length ≤ r.contextLen) :
    (r.storeContext d).body = r.body ++ d := by
  have hb := h.body_length
  unfold HttpRequest.body
  rw [storeContext_contextBuf h hc hd, Option.getD_some]
  refine List.take_left' ?_
  show _ = (r.dataLen + d.length).toNat
  rw [List.length_append]
  omega

theorem storeContext_ok (h : r.Ok) {buf : Bytes} (hc : r.contextBuf = some buf)
    {d : Bytes} (hd : r.dataLen + d.length ≤ r.contextLen) : (r.storeContext d).Ok where
  headerLen_nonneg := h.headerLen_nonneg
  headerLen_le := h.headerLen_le
  header := h.header
  dataLen_nonneg := by
    have := h.dataLen_nonneg
    show 0 ≤ r.dataLen + d.length
    omega
  noContext := by
    intro hn
    rw [storeContext_contextBuf h hc hd] at hn
    exact absurd hn (by simp)
  context := by
    intro buf' hc'
    rw [storeContext_contextBuf h hc hd] at hc'
    obtain ⟨hpos, _, _⟩ := h.context buf hc
    refine ⟨hpos, hd, ?_⟩
    rw [storeContext_body h hc hd]
    exact (Option.some.inj hc').symm

theorem contextStores_inBounds (h : r.Ok) {buf : Bytes} (hc : r.contextBuf = some buf) {n : Nat}
    (hn : r.dataLen + n ≤ r.contextLen) : ∀ st ∈ contextStores r n, st.InBounds := by
  intro st hst
  obtain ⟨k, hk, rfl⟩ := List.mem_map.mp hst
  have hk' := List.mem_range.mp hk
  have h0 := h.dataLen_nonneg
  refine ⟨by omega, by omega, ?_⟩
  rw [hc, Option.getD_some]
  exact h.context_length hc

end

/-! ## The loops -/

/-- What `httpRequest_recv_header` owes to a caller whose request and bytes were `r` and `io`. -/
structure HeaderRecv (io : ClientIo) (r : HttpRequest) (x : HttpRecvOut) : Prop where
  ok : x.req.Ok
  stores : ∀ st ∈ x.stores, st.InBounds
  /-- No byte is lost between the socket and the buffer. -/
  conserved : x.req.received ++ x.io.pending = r.received ++ io.pending
  /-- The body has not been touched. -/
  contextBuf : x.req.contextBuf = r.contextBuf
  body : x.req.body = r.body
  outputBuffer : x.io.outputBuffer = io.outputBuffer
  bevOutput : x.io.bevOutput = io.bevOutput
  /-- Success means that the end of a header has been received. -/
  done : x.result = .headerRecvSuccess → headerEnd <:+: x.req.received

/-- A search hit in the header buffer is inside what was received. -/
theorem straddr_header {r : HttpRequest} (h : r.Ok)
    (hs : (straddr r.header headerEnd).isSome = true) : headerEnd <:+: r.received := by
  obtain ⟨i, hi⟩ := Option.isSome_iff_exists.mp hs
  have hocc := (straddr_sound hi).isInfix
  rw [show cstr headerEnd = headerEnd by decide, h.header, cstr_append_zeros] at hocc
  exact hocc.trans (cstr_isPrefix r.received).isInfix

/-- **The header loop.** -/
theorem httpRequestRecvHeaderLoop_spec : ∀ (fuel : Nat) (io : ClientIo) {r : HttpRequest}
    {st : List Store}, r.Ok → isHttpRequestHeaderBufFull r = false → (∀ s ∈ st, s.InBounds) →
    HeaderRecv io r (httpRequestRecvHeaderLoop fuel io r st)
  | 0, io, r, st, h, _, hst => ⟨h, hst, rfl, rfl, rfl, rfl, rfl, by simp [httpRequestRecvHeaderLoop]⟩
  | fuel + 1, io, r, st, h, hfull, hst => by
      obtain ⟨hout, hbev⟩ := evserverRecvClient_output io 1
      rw [httpRequestRecvHeaderLoop]
      dsimp only
      split
      · -- a socket error
        rename_i hneg
        have hpend := evserverRecvClient_nonpos io 1 (by omega)
        exact ⟨h, hst, congrArg (r.received ++ ·) hpend, rfl, rfl, hout, hbev, by simp⟩
      · split
        · -- nothing is pending
          rename_i hz
          have hpend := evserverRecvClient_nonpos io 1 (by omega)
          exact ⟨h, hst, congrArg (r.received ++ ·) hpend, rfl, rfl, hout, hbev, by simp⟩
        · -- one byte has come, and goes behind those received
          rename_i hneg hz
          obtain ⟨hdata, hle⟩ := evserverRecvClient_pos io 1 (by omega)
          have hone : (evserverRecvClient io 1).len = 1 := by omega
          obtain ⟨ch, hch⟩ : ∃ ch, (evserverRecvClient io 1).data = [ch] :=
            List.length_eq_one_iff.mp (by omega)
          have hpend := evserverRecvClient_pending io 1
          rw [hch] at hpend
          rw [hone, hch, List.headD_cons]
          have hst' : ∀ s ∈ st ++ [Store.header r.headerLen], s.InBounds := by
            intro s hs
            rcases List.mem_append.mp hs with hs | hs
            · exact hst s hs
            · obtain rfl := List.mem_singleton.mp hs
              have := not_full_iff.mp hfull
              exact ⟨h.headerLen_nonneg, by omega⟩
          have hok := storeHeader_ok h hfull ch
          have hcons : (r.storeHeader ch 1).received ++ (evserverRecvClient io 1).io.pending
              = r.received ++ io.pending := by
            rw [storeHeader_received h hfull ch, List.append_assoc, hpend]
          split
          · -- the buffer is full
            exact ⟨hok, hst', hcons, rfl, rfl, hout, hbev, by simp⟩
          · rename_i hfull'
            split
            · -- the header is complete
              rename_i hend
              exact ⟨hok, hst', hcons, rfl, rfl, hout, hbev, fun _ => straddr_header hok hend⟩
            · have ih := httpRequestRecvHeaderLoop_spec fuel (evserverRecvClient io 1).io
                hok (Bool.eq_false_iff.mpr hfull') hst'
              exact ⟨ih.ok, ih.stores, ih.conserved.trans hcons, ih.contextBuf, ih.body,
                ih.outputBuffer.trans hout, ih.bevOutput.trans hbev, ih.done⟩

theorem httpRequestRecvHeader_spec (io : ClientIo) {r : HttpRequest} (h : r.Ok) :
    HeaderRecv io r (httpRequestRecvHeader io r) := by
  unfold httpRequestRecvHeader
  split
  · exact ⟨h, by simp, rfl, rfl, rfl, rfl, rfl, by simp⟩
  · rename_i hfull
    exact httpRequestRecvHeaderLoop_spec _ _ h (Bool.eq_false_iff.mpr hfull) (by simp)

/-- What `httpRequest_recv_context` owes to a caller whose request and bytes were `r` and `io`. -/
structure ContextRecv (io : ClientIo) (r : HttpRequest) (x : HttpRecvOut) : Prop where
  ok : x.req.Ok
  stores : ∀ st ∈ x.stores, st.InBounds
  /-- No byte is lost between the socket and the buffer. -/
  conserved : x.req.body ++ x.io.pending = r.body ++ io.pending
  /-- The header has not been touched. -/
  header : x.req.header = r.header
  headerLen : x.req.headerLen = r.headerLen
  outputBuffer : x.io.outputBuffer = io.outputBuffer
  bevOutput : x.io.bevOutput = io.bevOutput
  /-- Success means that the whole body has been received, if there is one. -/
  done : x.result = .contextRecvSuccess → x.req.contextBuf ≠ none →
    x.req.dataLen = x.req.contextLen

/-- **The body loop.** -/
theorem httpRequestRecvContextLoop_spec : ∀ (fuel : Nat) (need : Int) (io : ClientIo)
    {r : HttpRequest} {buf : Bytes} (st : List Store), r.Ok → r.contextBuf = some buf →
    (∀ s ∈ st, s.InBounds) → ContextRecv io r (httpRequestRecvContextLoop fuel need io r st)
  | 0, need, io, r, buf, st, h, _, hst =>
      ⟨h, hst, rfl, rfl, rfl, rfl, rfl, by simp [httpRequestRecvContextLoop]⟩
  | fuel + 1, need, io, r, buf, st, h, hc, hst => by
      obtain ⟨hout, hbev⟩ := evserverRecvClient_output io (min need (r.contextLen - r.dataLen))
      have hpend := evserverRecvClient_pending io (min need (r.contextLen - r.dataLen))
      rw [httpRequestRecvContextLoop]
      dsimp only
      split
      · -- a socket error
        have hpend' := evserverRecvClient_nonpos io
          (min need (r.contextLen - r.dataLen)) (by omega)
        exact ⟨h, hst, congrArg (r.body ++ ·) hpend', rfl, rfl, hout, hbev, by simp⟩
      · split
        · -- nothing is pending
          have hpend' := evserverRecvClient_nonpos io
            (min need (r.contextLen - r.dataLen)) (by omega)
          exact ⟨h, hst, congrArg (r.body ++ ·) hpend', rfl, rfl, hout, hbev, by simp⟩
        · -- no more is asked for than the buffer has room for
          obtain ⟨hdata, hle⟩ := evserverRecvClient_pos io
            (min need (r.contextLen - r.dataLen)) (by omega)
          generalize evserverRecvClient io (min need (r.contextLen - r.dataLen)) = x at *
          have hd : r.dataLen + x.data.length ≤ r.contextLen := by omega
          have hst' : ∀ s ∈ st ++ contextStores r x.data.length, s.InBounds := by
            intro s hs
            rcases List.mem_append.mp hs with hs | hs
            · exact hst s hs
            · exact contextStores_inBounds h hc hd s hs
          have hok := storeContext_ok h hc hd
          have hcons : (r.storeContext x.data).body ++ x.io.pending = r.body ++ io.pending := by
            rw [storeContext_body h hc hd, List.append_assoc, hpend]
          split
          · -- the body is complete
            rename_i hdone
            refine ⟨hok, hst', hcons, rfl, rfl, hout, hbev, ?_⟩
            intro _ _
            have hfin : r.contextLen - (r.dataLen + x.data.length) ≤ 0 := hdone
            show r.dataLen + x.data.length = r.contextLen
            omega
          · have ih := httpRequestRecvContextLoop_spec fuel
              (min need (r.contextLen - r.dataLen)) x.io _ hok
              (storeContext_contextBuf h hc hd) hst'
            exact ⟨ih.ok, ih.stores, ih.conserved.trans hcons, ih.header, ih.headerLen,
              ih.outputBuffer.trans hout, ih.bevOutput.trans hbev, ih.done⟩

/-- The allocation that succeeds has the length it should have. -/
theorem contextBufSize_of_lt {n : Int} (h0 : 0 < n) (hn : n ≤ intMax)
    (hsize : contextBufSize n < 2 ^ 63) : (contextBufSize n : Int) = n + 1 := by
  by_cases hmax : n = intMax
  · subst hmax
    exact absurd hsize (by decide)
  · have hlt : n + 1 ≤ intMax := by unfold intMax at *; omega
    unfold contextBufSize
    rw [toInt_eq_self (by omega) hlt]
    unfold intMax at hlt
    omega

theorem httpRequestGetContentLength_le (r : HttpRequest) :
    httpRequestGetContentLength r ≤ intMax := by
  unfold httpRequestGetContentLength
  split
  · decide
  · split
    · exact toInt_lt _
    · decide

/-- What `_httpRequest_context_buf_init` owes for a request `r`. -/
structure ContextBufInit (r : HttpRequest) (x : Bool × HttpRequest × Os) : Prop where
  ok : x.2.1.Ok
  header : x.2.1.header = r.header
  headerLen : x.2.1.headerLen = r.headerLen
  body : x.2.1.body = r.body
  /-- It says `true` only when there is a buffer. -/
  done : x.1 = true → ∃ buf, x.2.1.contextBuf = some buf
  /-- Otherwise there is none. -/
  notDone : x.1 = false → x.2.1.contextBuf = none

/-- The announced length can change while there is no buffer. -/
theorem HttpRequest.Ok.contextLen {r : HttpRequest} (h : r.Ok) (hn : r.contextBuf = none)
    (n : Int) :
    ({ r with contextLen := n } : HttpRequest).Ok where
  headerLen_nonneg := h.headerLen_nonneg
  headerLen_le := h.headerLen_le
  header := h.header
  dataLen_nonneg := h.dataLen_nonneg
  noContext := h.noContext
  context := fun buf hb => absurd (hn.symm.trans hb) (by simp)

/-- The buffer `calloc` hands out is an empty body. -/
theorem HttpRequest.Ok.alloc {r : HttpRequest} (h : r.Ok) (hn : r.contextBuf = none) {n : Int}
    (hpos : 0 < n) {size : Nat} (hsize : (size : Int) = n + 1) :
    ({ r with contextBuf := some (List.replicate size 0), contextLen := n } : HttpRequest).Ok where
  headerLen_nonneg := h.headerLen_nonneg
  headerLen_le := h.headerLen_le
  header := h.header
  dataLen_nonneg := h.dataLen_nonneg
  noContext := fun hb => absurd hb (by simp)
  context := by
    have hdata : r.dataLen = 0 := h.noContext hn
    rintro buf hb
    obtain rfl := Option.some.inj hb
    refine ⟨hpos, by rw [hdata]; exact Int.le_of_lt hpos, ?_⟩
    show _ = List.take r.dataLen.toNat _ ++ _
    rw [hdata, Int.toNat_zero, List.take_zero, List.nil_append, Int.sub_zero]
    congr 1
    show _ = (n + 1).toNat
    omega

theorem httpRequestContextBufInit_spec {r : HttpRequest} (os : Os) (h : r.Ok) :
    ContextBufInit r (httpRequestContextBufInit r os) := by
  unfold httpRequestContextBufInit
  split
  · rename_i hn
    have hn' : r.contextBuf = none := Option.isNone_iff_eq_none.mp hn
    dsimp only
    split
    · rename_i hpos
      split
      · -- `context_len + 1` has not overflowed, or `calloc` would have failed
        rename_i halloc
        have hsize : contextBufSize (httpRequestGetContentLength r) < 2 ^ 63 := by
          have := (Bool.and_eq_true_iff.mp halloc).2
          simpa using this
        have hlen := contextBufSize_of_lt hpos (httpRequestGetContentLength_le r) hsize
        refine ⟨h.alloc hn' hpos hlen, rfl, rfl, ?_, fun _ => ⟨_, rfl⟩, by simp⟩
        unfold HttpRequest.body
        rw [hn', h.noContext hn']
        rfl
      · exact ⟨h.contextLen hn' _, rfl, rfl, rfl, by simp, fun _ => hn'⟩
    · exact ⟨h.contextLen hn' _, rfl, rfl, rfl, by simp, fun _ => hn'⟩
  · rename_i hs
    obtain ⟨buf, hbuf⟩ := Option.ne_none_iff_exists'.mp (show r.contextBuf ≠ none by simpa using hs)
    have hpos := (h.context buf hbuf).1
    exact ⟨h, rfl, rfl, rfl, fun _ => ⟨buf, hbuf⟩, by simp [hpos]⟩

theorem httpRequestRecvContext_spec (io : ClientIo) {r : HttpRequest} (os : Os) (h : r.Ok) :
    ContextRecv io r (httpRequestRecvContext io r os).1 := by
  have hi := httpRequestContextBufInit_spec os h
  unfold httpRequestRecvContext
  dsimp only
  split
  · rename_i htrue
    obtain ⟨buf, hc⟩ := hi.done htrue
    have hl := httpRequestRecvContextLoop_spec (io.pending.length + 1) 2048 io [] hi.ok hc (by simp)
    exact ⟨hl.ok, hl.stores, hl.conserved.trans (by rw [hi.body]), hl.header.trans hi.header,
      hl.headerLen.trans hi.headerLen, hl.outputBuffer, hl.bevOutput, hl.done⟩
  · rename_i hfalse
    have hnone := hi.notDone (by simpa using hfalse)
    split
    · exact ⟨hi.ok, by simp, by rw [hi.body], hi.header, hi.headerLen, rfl, rfl,
        fun _ hne => absurd hnone hne⟩
    · exact ⟨hi.ok, by simp, by rw [hi.body], hi.header, hi.headerLen, rfl, rfl, by simp⟩

end TraceServer
