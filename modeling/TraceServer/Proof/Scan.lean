import TraceServer.Proof.Recv

/-!
# The receive loops as functions of what is pending

While no more bytes are pending than an `int` can count, the loops are functions of the
bytes alone: the header loop scans them one by one, the body loop takes as many as are
missing, and the pieces of 2048 bytes it takes them in cannot be told apart from one.

From that follows what a cut in the stream does to one call (`headerScan_append`,
`contextLoop_cut`): a call that has used up its bytes goes on with the next ones as if
they had been there before, and one that has not leaves them where they are.
-/

namespace TraceServer

/-- `b` arrives behind what is in `input_buffer`. -/
def ClientIo.more (io : ClientIo) (b : Bytes) : ClientIo :=
  { io with inputBuffer := io.inputBuffer ++ b }

/-- The result, the request and the buffers, without the list of stores. -/
def HttpRecvOut.view (x : HttpRecvOut) : HttpRequestResult × HttpRequest × ClientIo :=
  (x.result, x.req, x.io)

/-- What a loop leaves that has made `y` of the bytes in `input_buffer`. -/
def ClientIo.scanned (io : ClientIo) (y : HttpRequestResult × HttpRequest × Bytes) :
    HttpRequestResult × HttpRequest × ClientIo :=
  (y.1, y.2.1, { io with inputBuffer := y.2.2 })

/-- What has been moved to `input_buffer` once needs not be moved again. -/
theorem addBuffer_eq_self {io : ClientIo} (h : io.bevInput = []) : io.addBuffer = io := by
  unfold ClientIo.addBuffer
  rw [h, List.append_nil, ← h]

/-- `evserver_recv_client` takes as many bytes as there are, up to what is asked for. -/
theorem evserverRecvClient_eq (io : ClientIo) (n : Nat) (hbev : io.bevInput = [])
    (hlen : io.inputBuffer.length ≤ intMax) (hn : 0 < n) :
    evserverRecvClient io n = ⟨(min io.inputBuffer.length n : Nat), io.inputBuffer.take n,
      { io with inputBuffer := io.inputBuffer.drop n }⟩ := by
  unfold evserverRecvClient evbufferRemove
  rw [if_pos (by omega), addBuffer_eq_self hbev, toInt_eq_self (by omega) hlen]
  split
  · rename_i hpos
    have hmin : min (min (io.inputBuffer.length : Int) n).toNat io.inputBuffer.length
        = min io.inputBuffer.length n := by omega
    dsimp only
    rw [hmin]
    rcases Nat.le_total io.inputBuffer.length n with hle | hle
    · rw [Nat.min_eq_left hle, List.take_of_length_le hle, List.drop_of_length_le hle,
        List.take_length, List.drop_length]
    · rw [Nat.min_eq_right hle]
  · rename_i hpos
    have hnil : io.inputBuffer = [] := List.length_eq_zero_iff.mp (by omega)
    rw [hnil, List.length_nil, Nat.zero_min, List.take_nil, List.drop_nil, ← hnil]

/-! ## The header -/

/-- The header loop on the bytes `p`: the result, the request, and what is left of `p`. -/
def headerScan : Bytes → HttpRequest → HttpRequestResult × HttpRequest × Bytes
  | [], r => (.recvEmpty, r, [])
  | ch :: p, r =>
    let r := r.storeHeader ch 1
    if isHttpRequestHeaderBufFull r then (.headerBufFull, r, p)
    else if (straddr r.header headerEnd).isSome then (.headerRecvSuccess, r, p)
    else headerScan p r

/-- **The header loop is `headerScan`.** -/
theorem httpRequestRecvHeaderLoop_view {p : Bytes} (hlen : (p.length : Int) ≤ intMax) :
    ∀ {fuel : Nat} (io : ClientIo) {r : HttpRequest} {st : List Store}, io.bevInput = [] →
    io.inputBuffer = p → p.length < fuel →
    (httpRequestRecvHeaderLoop fuel io r st).view = io.scanned (headerScan p r) := by
  induction p with
  | nil =>
      intro fuel io r st hbev hin hf
      obtain ⟨fuel, rfl⟩ := Nat.exists_eq_succ_of_ne_zero (Nat.ne_of_gt hf)
      have hrecv := evserverRecvClient_eq io 1 hbev (by rw [hin]; exact hlen)
        Nat.one_pos
      rw [hin] at hrecv
      rw [httpRequestRecvHeaderLoop, show (1 : Int) = ((1 : Nat) : Int) from rfl, hrecv]
      rfl
  | cons ch p ih =>
      intro fuel io r st hbev hin hf
      obtain ⟨fuel, rfl⟩ := Nat.exists_eq_succ_of_ne_zero (Nat.ne_of_gt (Nat.zero_lt_of_lt hf))
      have hlen' : (p.length : Int) ≤ intMax := by
        rw [List.length_cons] at hlen
        omega
      have hrecv : evserverRecvClient io 1 = ⟨1, [ch], { io with inputBuffer := p }⟩ := by
        have := evserverRecvClient_eq io 1 hbev (by rw [hin]; exact hlen)
          Nat.one_pos
        rw [hin] at this
        have hmin : min (ch :: p).length 1 = 1 := by simp
        rw [hmin] at this
        exact this
      rw [httpRequestRecvHeaderLoop, hrecv, headerScan]
      dsimp only
      rw [if_neg (show ¬ (1 : Int) < 0 by decide), if_neg (show ¬ (1 : Int) = 0 by decide),
        List.headD_cons]
      split
      · rfl
      · split
        · rfl
        · exact ih hlen' { io with inputBuffer := p } hbev rfl (Nat.lt_of_succ_lt_succ hf)

theorem headerScan_length (p : Bytes) (r : HttpRequest) :
    (headerScan p r).2.2.length ≤ p.length := by
  induction p generalizing r with
  | nil => exact Nat.le_refl _
  | cons ch p ih =>
      rw [headerScan]
      split
      · exact Nat.le_succ _
      · split
        · exact Nat.le_succ _
        · exact Nat.le_trans (ih _) (Nat.le_succ _)

/-- A scan that waits has used up its bytes and left room for more. -/
theorem headerScan_wait {p : Bytes} {r : HttpRequest} (hfull : isHttpRequestHeaderBufFull r = false)
    (hwait : (headerScan p r).1 = .recvEmpty) :
    (headerScan p r).2.2 = [] ∧ isHttpRequestHeaderBufFull (headerScan p r).2.1 = false := by
  induction p generalizing r with
  | nil => exact ⟨rfl, hfull⟩
  | cons ch p ih =>
      rw [headerScan] at hwait ⊢
      split at hwait
      · exact absurd hwait (by simp)
      · rename_i hfull'
        split at hwait
        · exact absurd hwait (by simp)
        · rename_i hend
          rw [if_neg hfull', if_neg hend]
          exact ih (by simpa using hfull') hwait

/-- **A cut in the header.** -/
theorem headerScan_append (a b : Bytes) (r : HttpRequest) :
    headerScan (a ++ b) r =
      if (headerScan a r).1 = .recvEmpty then headerScan b (headerScan a r).2.1
      else ((headerScan a r).1, (headerScan a r).2.1, (headerScan a r).2.2 ++ b) := by
  induction a generalizing r with
  | nil => rfl
  | cons ch a ih =>
      rw [List.cons_append, headerScan, headerScan]
      split
      · rw [if_neg (by simp)]
      · split
        · rw [if_neg (by simp)]
        · exact ih _

/-! ## The body -/

/-- The body bytes still missing. -/
def HttpRequest.missing (r : HttpRequest) : Nat := (r.contextLen - r.dataLen).toNat

theorem storeContext_nil {r : HttpRequest} (h : r.Ok) {buf : Bytes} (hc : r.contextBuf = some buf) :
    r.storeContext [] = r := by
  obtain ⟨_, hle, hbuf⟩ := h.context buf hc
  have hnew := storeContext_contextBuf h hc (d := []) (by simpa using hle)
  rw [List.append_nil, List.length_nil, Int.natCast_zero, Int.add_zero, ← hbuf, ← hc] at hnew
  obtain ⟨header, headerLen, contextBuf, contextLen, dataLen⟩ := r
  unfold HttpRequest.storeContext at hnew ⊢
  dsimp only at hnew ⊢
  rw [hnew, List.length_nil, Int.natCast_zero, Int.add_zero]

/-- Two pieces stored one after the other are one piece. -/
theorem storeContext_append {r : HttpRequest} (h : r.Ok) {buf : Bytes}
    (hc : r.contextBuf = some buf)
    {d e : Bytes} (hd : d.length + e.length ≤ r.missing) :
    (r.storeContext d).storeContext e = r.storeContext (d ++ e) := by
  have hle := (h.context buf hc).2.1
  unfold HttpRequest.missing at hd
  have hd' : r.dataLen + d.length ≤ r.contextLen := by omega
  have hde : r.dataLen + (d ++ e).length ≤ r.contextLen := by
    rw [List.length_append]
    omega
  have hsum : r.dataLen + ((d ++ e).length : Int) = r.dataLen + d.length + e.length := by
    rw [List.length_append]
    omega
  have hmid := storeContext_contextBuf h hc hd'
  have hok := storeContext_ok h hc hd'
  have hbuf₁ := storeContext_contextBuf hok hmid (d := e)
    (show r.dataLen + d.length + e.length ≤ r.contextLen by omega)
  have hbuf₂ := storeContext_contextBuf h hc hde
  rw [storeContext_body h hc hd', List.append_assoc r.body] at hbuf₁
  rw [hsum] at hbuf₂
  have hbufs := hbuf₁.trans hbuf₂.symm
  unfold HttpRequest.storeContext at hbufs ⊢
  dsimp only at hbufs ⊢
  rw [hbufs, ← hsum]

/-- The body loop on the bytes `p`. -/
def contextScan (p : Bytes) (r : HttpRequest) : HttpRequestResult × HttpRequest × Bytes :=
  (if r.missing ≤ p.length then .contextRecvSuccess else .recvEmpty,
    r.storeContext (p.take r.missing), p.drop r.missing)

/-- A piece and the rest of what is taken. -/
theorem take_append_take_drop (l : Bytes) {m n : Nat} (h : m ≤ n) :
    l.take m ++ (l.drop m).take (n - min l.length m) = l.take n
      ∧ (l.drop m).drop (n - min l.length m) = l.drop n := by
  rcases Nat.le_total m l.length with hm | hm
  · rw [Nat.min_eq_right hm, List.drop_drop, Nat.add_sub_cancel' h]
    refine ⟨?_, rfl⟩
    conv_rhs => rw [show n = m + (n - m) by omega, List.take_add]
  · rw [List.drop_of_length_le hm, List.take_of_length_le hm, List.take_nil, List.drop_nil,
      List.append_nil, List.take_of_length_le (Nat.le_trans hm h),
      List.drop_of_length_le (Nat.le_trans hm h)]
    exact ⟨rfl, rfl⟩

theorem storeContext_missing {r : HttpRequest} {d : Bytes} :
    (r.storeContext d).missing = r.missing - d.length := by
  unfold HttpRequest.missing HttpRequest.storeContext
  dsimp only
  omega

/-- **The body loop is `contextScan`.** -/
theorem httpRequestRecvContextLoop_view : ∀ (fuel : Nat) (need : Int) (io : ClientIo)
    {r : HttpRequest} {buf : Bytes} (st : List Store), r.Ok → r.contextBuf = some buf →
    io.bevInput = [] → io.inputBuffer.length ≤ intMax → io.inputBuffer.length < fuel →
    0 < need → 0 < r.missing →
    (httpRequestRecvContextLoop fuel need io r st).view
      = io.scanned (contextScan io.inputBuffer r)
  | 0, _, _, _, _, _, _, _, _, _, hf, _, _ => absurd hf (Nat.not_lt_zero _)
  | fuel + 1, need, io, r, buf, st, hok, hc, hbev, hlen, hf, hneed, hmiss => by
      -- what this round asks for
      obtain ⟨m, hm⟩ : ∃ m : Nat, min need (r.contextLen - r.dataLen) = m :=
        ⟨(min need (r.contextLen - r.dataLen)).toNat, by unfold HttpRequest.missing at hmiss; omega⟩
      have hmissing : (r.missing : Int) = r.contextLen - r.dataLen := by
        unfold HttpRequest.missing at *
        omega
      have hrecv := evserverRecvClient_eq _ m hbev hlen (by omega)
      rw [httpRequestRecvContextLoop]
      dsimp only
      rw [hm, hrecv]
      dsimp only
      rw [if_neg (by omega)]
      split
      · -- nothing is left of the bytes
        rename_i hzero
        have hnil : io.inputBuffer = [] := List.length_eq_zero_iff.mp (by omega)
        have hscan : contextScan [] r = (.recvEmpty, r, []) := by
          unfold contextScan
          rw [List.length_nil, if_neg (by omega), List.take_nil, List.drop_nil,
            storeContext_nil hok hc]
        rw [hnil, hscan, List.drop_nil]
        rfl
      · rename_i hpos
        have hk : (io.inputBuffer.take m).length = min io.inputBuffer.length m := by
          rw [List.length_take, Nat.min_comm]
        have hd : r.dataLen + (io.inputBuffer.take m).length ≤ r.contextLen := by
          rw [hk]
          omega
        have hmiss' := storeContext_missing (r := r) (d := io.inputBuffer.take m)
        rw [hk] at hmiss'
        obtain ⟨htake, hdrop⟩ := take_append_take_drop io.inputBuffer (m := m) (n := r.missing)
          (by omega)
        split
        · -- this round asked for all that was missing, and got it
          rename_i hdone
          have hfin : r.contextLen - (r.dataLen + (io.inputBuffer.take m).length) ≤ 0 := hdone
          rw [hk] at hfin
          have hmm : m = r.missing := by omega
          unfold contextScan
          rw [← hmm, if_pos (by omega)]
          rfl
        · -- what this round stored and what the next ones will are one piece
          rename_i hmore
          have hleft : ¬ r.contextLen - (r.dataLen + (io.inputBuffer.take m).length) ≤ 0 := hmore
          rw [hk] at hleft
          have ih := httpRequestRecvContextLoop_view fuel m
            { io with inputBuffer := io.inputBuffer.drop m }
            (st ++ contextStores r (io.inputBuffer.take m).length)
            (storeContext_ok hok hc hd) (storeContext_contextBuf hok hc hd) hbev
            (by dsimp only; rw [List.length_drop]; omega)
            (by dsimp only; rw [List.length_drop]; omega) (by omega) (by omega)
          rw [ih]
          unfold contextScan ClientIo.scanned
          dsimp only
          rw [storeContext_append hok hc
              (by rw [hk, List.length_take, List.length_drop, hmiss']; omega),
            hmiss', htake, hdrop, List.length_drop]
          congr 1
          split
          · rw [if_pos (by omega)]
          · rw [if_neg (by omega)]

/-- The state in which the body is waited for. -/
structure HttpRequest.Wanting (r : HttpRequest) : Prop where
  context : ∃ buf, r.contextBuf = some buf
  dataLen_lt : r.dataLen < r.contextLen

theorem HttpRequest.Wanting.missing_pos {r : HttpRequest} (h : r.Wanting) : 0 < r.missing := by
  have := h.dataLen_lt
  unfold HttpRequest.missing
  omega

/-- A body that waits has taken all of its bytes, and wants more. -/
theorem contextScan_wait {p : Bytes} {r : HttpRequest} (hok : r.Ok) (hwant : r.Wanting)
    (hwait : (contextScan p r).1 = .recvEmpty) :
    p.length < r.missing ∧ contextScan p r = (.recvEmpty, r.storeContext p, [])
      ∧ (r.storeContext p).Ok ∧ (r.storeContext p).Wanting := by
  have hlt : p.length < r.missing := by
    by_contra hge
    unfold contextScan at hwait
    rw [if_pos (by omega)] at hwait
    exact absurd hwait (by simp)
  obtain ⟨buf, hc⟩ := hwant.context
  have hd : r.dataLen + p.length < r.contextLen := by
    unfold HttpRequest.missing at hlt
    omega
  refine ⟨hlt, ?_, storeContext_ok hok hc (Int.le_of_lt hd),
    ⟨_, storeContext_contextBuf hok hc (Int.le_of_lt hd)⟩, hd⟩
  unfold contextScan
  rw [if_neg (by omega), List.take_of_length_le (Nat.le_of_lt hlt),
    List.drop_of_length_le (Nat.le_of_lt hlt)]

/-- **A cut in the body.** -/
theorem contextScan_append {a b : Bytes} {r : HttpRequest} (hok : r.Ok) (hwant : r.Wanting) :
    contextScan (a ++ b) r =
      if (contextScan a r).1 = .recvEmpty then contextScan b (contextScan a r).2.1
      else ((contextScan a r).1, (contextScan a r).2.1, (contextScan a r).2.2 ++ b) := by
  obtain ⟨buf, hc⟩ := hwant.context
  split
  · -- all of `a` is part of the body
    rename_i hwait
    obtain ⟨hlt, heq, _, _⟩ := contextScan_wait hok hwant hwait
    rw [heq]
    dsimp only
    unfold contextScan
    rw [storeContext_missing, List.length_append, List.take_append, List.drop_append,
      List.take_of_length_le (Nat.le_of_lt hlt), List.drop_of_length_le (Nat.le_of_lt hlt),
      storeContext_append hok hc (by rw [List.length_take]; omega), List.nil_append]
    congr 1
    split
    · rw [if_pos (by omega)]
    · rw [if_neg (by omega)]
  · -- the body ends in `a`
    rename_i hdone
    have hge : r.missing ≤ a.length := by
      by_contra hlt
      refine hdone ?_
      unfold contextScan
      rw [if_neg hlt]
    unfold contextScan
    rw [List.length_append, if_pos (by omega), if_pos hge, List.take_append_of_le_length hge,
      List.drop_append_of_le_length hge]

/-! ## A cut between two calls -/

/-- What a receive function that left `x` with some of its bytes leaves with `b` behind
them, `x'`: when it waited, what it leaves when called again with `b`; when it did not,
the same with `b` untouched. -/
structure RecvCut (b : Bytes) (io : ClientIo)
    (again : ClientIo → HttpRequest → HttpRequestResult × HttpRequest × ClientIo)
    (x x' : HttpRecvOut) : Prop where
  bevInput : x.io.bevInput = []
  length : x.io.inputBuffer.length ≤ io.inputBuffer.length
  wait : x.result = .recvEmpty → x.io.inputBuffer = [] ∧ again (x.io.more b) x.req = x'.view
  done : x.result ≠ .recvEmpty → x'.view = (x.result, x.req, x.io.more b)

theorem HttpRecvOut.view_eq {x : HttpRecvOut} {io : ClientIo}
    {y : HttpRequestResult × HttpRequest × Bytes} (h : x.view = io.scanned y) :
    x.result = y.1 ∧ x.req = y.2.1 ∧ x.io = { io with inputBuffer := y.2.2 } :=
  ⟨congrArg (·.1) h, congrArg (·.2.1) h, congrArg (·.2.2) h⟩

/-- A scan that can be cut makes a receive function that can. -/
theorem RecvCut.of_scan {b : Bytes} {io : ClientIo}
    {again : ClientIo → HttpRequest → HttpRequestResult × HttpRequest × ClientIo}
    {x x' : HttpRecvOut} {scan : Bytes → HttpRequest → HttpRequestResult × HttpRequest × Bytes}
    {r : HttpRequest} (hbev : io.bevInput = [])
    (hx : x.view = io.scanned (scan io.inputBuffer r))
    (hx' : x'.view = (io.more b).scanned (scan (io.inputBuffer ++ b) r))
    (happ : scan (io.inputBuffer ++ b) r =
      if (scan io.inputBuffer r).1 = .recvEmpty then scan b (scan io.inputBuffer r).2.1
      else ((scan io.inputBuffer r).1, (scan io.inputBuffer r).2.1, (scan io.inputBuffer r).2.2 ++ b))
    (hlen : (scan io.inputBuffer r).2.2.length ≤ io.inputBuffer.length)
    (hwait : (scan io.inputBuffer r).1 = .recvEmpty → (scan io.inputBuffer r).2.2 = [] ∧
      ∀ io', io'.bevInput = [] → io'.inputBuffer = b →
        again io' (scan io.inputBuffer r).2.1 = io'.scanned (scan b (scan io.inputBuffer r).2.1)) :
    RecvCut b io again x x' := by
  obtain ⟨hres, hreq, hio⟩ := HttpRecvOut.view_eq hx
  rw [happ] at hx'
  refine ⟨by rw [hio]; exact hbev, by rw [hio]; exact hlen, ?_, ?_⟩
  · intro h
    obtain ⟨hnil, hagain⟩ := hwait (hres.symm.trans h)
    rw [if_pos (hres.symm.trans h)] at hx'
    have hin : (x.io.more b).inputBuffer = b := by
      rw [hio]
      show _ ++ b = b
      rw [hnil, List.nil_append]
    refine ⟨by rw [hio]; exact hnil, ?_⟩
    rw [hreq, hagain _ (by rw [hio]; exact hbev) hin, hx', hio]
    rfl
  · intro h
    rw [if_neg fun hw => h (hres.trans hw)] at hx'
    rw [hx', hres, hreq, hio]
    rfl

theorem httpRequestRecvHeader_view (io : ClientIo) {r : HttpRequest}
    (hfull : isHttpRequestHeaderBufFull r = false) (hbev : io.bevInput = [])
    (hlen : io.inputBuffer.length ≤ intMax) :
    (httpRequestRecvHeader io r).view = io.scanned (headerScan io.inputBuffer r) := by
  unfold httpRequestRecvHeader
  rw [if_neg (by simp [hfull])]
  refine httpRequestRecvHeaderLoop_view hlen io hbev rfl ?_
  rw [ClientIo.pending, List.length_append]
  omega

/-- **A cut while the header is read.** -/
theorem httpRequestRecvHeader_cut {b : Bytes} {io : ClientIo} {r : HttpRequest}
    (hfull : isHttpRequestHeaderBufFull r = false) (hbev : io.bevInput = [])
    (hlen : (io.more b).inputBuffer.length ≤ intMax) :
    RecvCut b io (fun io r => (httpRequestRecvHeader io r).view)
        (httpRequestRecvHeader io r) (httpRequestRecvHeader (io.more b) r)
      ∧ ((httpRequestRecvHeader io r).result = .recvEmpty →
          isHttpRequestHeaderBufFull (httpRequestRecvHeader io r).req = false) := by
  have hsum : (io.more b).inputBuffer.length = io.inputBuffer.length + b.length :=
    List.length_append
  have hx := httpRequestRecvHeader_view io hfull hbev (by omega)
  obtain ⟨hres, hreq, _⟩ := HttpRecvOut.view_eq hx
  refine ⟨.of_scan hbev hx (httpRequestRecvHeader_view (io.more b) hfull hbev hlen)
    (headerScan_append _ _ _) (headerScan_length _ _) ?_, ?_⟩
  · intro hwait
    obtain ⟨hnil, hroom⟩ := headerScan_wait hfull hwait
    refine ⟨hnil, ?_⟩
    intro io' hbev' hin
    rw [httpRequestRecvHeader_view _ hroom hbev' (by rw [hin]; omega), hin]
  · intro hwait
    rw [hreq]
    exact (headerScan_wait hfull (hres.symm.trans hwait)).2

/-- A request that has a buffer is received into it, and the system is not asked. -/
theorem httpRequestRecvContext_of_some {io : ClientIo} {r : HttpRequest} {buf : Bytes} (hok : r.Ok)
    (hc : r.contextBuf = some buf) (os : Os) :
    httpRequestRecvContext io r os = (httpRequestRecvContextBody io r, os) := by
  have hinit : httpRequestContextBufInit r os = (true, r, os) := by
    unfold httpRequestContextBufInit
    rw [if_neg (by simp [hc]), decide_eq_true (hok.context buf hc).1]
  unfold httpRequestRecvContext
  rw [hinit]
  rfl

theorem httpRequestRecvContextBody_view (io : ClientIo) {r : HttpRequest} (hok : r.Ok)
    (hwant : r.Wanting) (hbev : io.bevInput = []) (hlen : io.inputBuffer.length ≤ intMax) :
    (httpRequestRecvContextBody io r).view = io.scanned (contextScan io.inputBuffer r) := by
  obtain ⟨buf, hc⟩ := hwant.context
  refine httpRequestRecvContextLoop_view _ _ _ _ hok hc hbev hlen ?_ (by decide) hwant.missing_pos
  rw [ClientIo.pending, List.length_append]
  omega

theorem httpRequestRecvContextBody_cut (b : Bytes) (io : ClientIo) {r : HttpRequest} (os : Os)
    (hok : r.Ok) (hwant : r.Wanting) (hbev : io.bevInput = [])
    (hlen : (io.more b).inputBuffer.length ≤ intMax) :
    RecvCut b io (fun io r => (httpRequestRecvContext io r os).1.view)
        (httpRequestRecvContextBody io r) (httpRequestRecvContextBody (io.more b) r)
      ∧ ((httpRequestRecvContextBody io r).result = .recvEmpty →
          (httpRequestRecvContextBody io r).req.Wanting) := by
  have hsum : (io.more b).inputBuffer.length = io.inputBuffer.length + b.length :=
    List.length_append
  have hx := httpRequestRecvContextBody_view io hok hwant hbev (by omega)
  obtain ⟨hres, hreq, _⟩ := HttpRecvOut.view_eq hx
  refine ⟨.of_scan hbev hx (httpRequestRecvContextBody_view (io.more b) hok hwant hbev hlen)
    (contextScan_append hok hwant) (by unfold contextScan; rw [List.length_drop]; omega) ?_, ?_⟩
  · intro hwait
    obtain ⟨_, heq, hok₁, hwant₁⟩ := contextScan_wait hok hwant hwait
    obtain ⟨buf₁, hc₁⟩ := hwant₁.context
    rw [heq]
    refine ⟨rfl, ?_⟩
    intro io' hbev' hin
    rw [httpRequestRecvContext_of_some hok₁ hc₁, httpRequestRecvContextBody_view _ hok₁ hwant₁ hbev'
      (by rw [hin]; omega), hin]
  · intro hwait
    obtain ⟨_, heq, _, hwant₁⟩ := contextScan_wait hok hwant (hres.symm.trans hwait)
    rw [hreq, heq]
    exact hwant₁

/-- The buffer that is received into is there, and not full. -/
theorem httpRequestContextBufInit_wanting {r : HttpRequest} (os : Os) (hok : r.Ok)
    (hready : r.contextBuf ≠ none → r.Wanting)
    (htrue : (httpRequestContextBufInit r os).1 = true) :
    (httpRequestContextBufInit r os).2.1.Wanting := by
  refine ⟨(httpRequestContextBufInit_spec _ hok).done htrue, ?_⟩
  unfold httpRequestContextBufInit at htrue ⊢
  split at htrue
  · -- the buffer is new, and nothing has been received into it
    rename_i hn
    rw [if_pos hn]
    dsimp only at htrue ⊢
    have hdata := hok.noContext (Option.isNone_iff_eq_none.mp hn)
    split at htrue
    · rename_i hpos
      rw [if_pos hpos]
      split at htrue
      · rename_i ha
        rw [if_pos ha]
        show r.dataLen < httpRequestGetContentLength r
        rw [hdata]
        exact hpos
      · exact absurd htrue (by simp)
    · exact absurd htrue (by simp)
  · rename_i hs
    rw [if_neg hs]
    exact (hready (by simpa using hs)).dataLen_lt

/-- **A cut while the body is read.** The system is asked the same in either case. -/
theorem httpRequestRecvContext_cut (b : Bytes) {io : ClientIo} {r : HttpRequest} (os : Os)
    (hok : r.Ok) (hready : r.contextBuf ≠ none → r.Wanting) (hbev : io.bevInput = [])
    (hlen : (io.more b).inputBuffer.length ≤ intMax) :
    (httpRequestRecvContext (io.more b) r os).2 = (httpRequestRecvContext io r os).2
      ∧ RecvCut b io (fun io r => (httpRequestRecvContext io r os).1.view)
          (httpRequestRecvContext io r os).1 (httpRequestRecvContext (io.more b) r os).1
      ∧ ((httpRequestRecvContext io r os).1.result = .recvEmpty →
          (httpRequestRecvContext io r os).1.req.Ok ∧
            (httpRequestRecvContext io r os).1.req.Wanting) := by
  have hi := httpRequestContextBufInit_spec os hok
  have hwant := httpRequestContextBufInit_wanting os hok hready
  unfold httpRequestRecvContext
  dsimp only
  split
  · rename_i htrue
    obtain ⟨hcut, hwaiting⟩ := httpRequestRecvContextBody_cut b io os hi.ok
      (hwant htrue) hbev hlen
    have hok₁ := (httpRequestRecvContextLoop_spec (io.pending.length + 1) 2048 io [] hi.ok
      (hwant htrue).context.choose_spec (by simp)).ok
    exact ⟨rfl, hcut, fun hwait => ⟨hok₁, hwaiting hwait⟩⟩
  · -- no buffer, so nothing is received
    split
    · exact ⟨rfl, ⟨hbev, Nat.le_refl _, fun h => absurd h (by simp), fun _ => rfl⟩,
        fun h => absurd h (by simp)⟩
    · exact ⟨rfl, ⟨hbev, Nat.le_refl _, fun h => absurd h (by simp), fun _ => rfl⟩,
        fun h => absurd h (by simp)⟩

end TraceServer
