import TraceServer.Proof.HeaderRecv
import TraceServer.Proof.Url
import TraceServer.Proof.Save

/-!
# A request that is sent whole

What a client may be told is said elsewhere; here is what it will be told. A request that announces
its body and sends all of it is answered, in however many segments it comes, as long as there is
memory for it: with `200` if there is a start of an upload in the body, which is then saved from
there on, and with `400` if there is none.
-/

namespace TraceServer

/-- A request for the upload page, and the body it announces. -/
structure CompleteRequest where
  req : RequestText
  body : Bytes
  path : req.path = skylogRequestUrlPath
  url_length : req.url.length ≤ 253
  /-- The header ends where it ends first. -/
  first : List.IsFirstOcc headerEnd req.bytes (req.bytes.length - 4)
  fits : req.bytes.length < 1023
  contentLength : httpRequestGetContentLength req.request = body.length
  body_ne_nil : body ≠ []

namespace CompleteRequest

def bytes (q : CompleteRequest) : Bytes := q.req.bytes ++ q.body

end CompleteRequest

/-- The `calloc`s for the dialogue and for the body work. -/
structure HasMemory (h : Host) : Prop where
  option : (h.os.outcome h.os.tick).succeeds = true
  context : (h.os.outcome (h.os.tick + 1)).succeeds = true

/-! ## The header -/

/-- Receiving a header touches the header only. -/
theorem headerScan_context (p : Bytes) (r : HttpRequest) :
    (headerScan p r).2.1.contextBuf = r.contextBuf
      ∧ (headerScan p r).2.1.contextLen = r.contextLen
      ∧ (headerScan p r).2.1.dataLen = r.dataLen := by
  induction p generalizing r with
  | nil => exact ⟨rfl, rfl, rfl⟩
  | cons ch p ih =>
      rw [headerScan]
      split
      · exact ⟨rfl, rfl, rfl⟩
      · split
        · exact ⟨rfl, rfl, rfl⟩
        · exact ih _

theorem eq_ofHeader {r : HttpRequest} (hok : r.Ok) (hbuf : r.contextBuf = none)
    (hcontext : r.contextLen = 0) (hdata : r.dataLen = 0) : r = .ofHeader r.received := by
  have hheader := hok.header
  have hlen := hok.received_length
  have hnat : r.headerLen.toNat = r.received.length := by omega
  generalize r.received = s at *
  obtain ⟨header, headerLen, contextBuf, contextLen, dataLen⟩ := r
  dsimp only at *
  subst hbuf hcontext hdata
  rw [HttpRequest.ofHeader, hheader, ← hlen, ← hnat]
  rfl

/-- **A header that is there is received**, and what comes behind it is left. -/
theorem headerScan_complete {header : Bytes} (hnul : (0 : UInt8) ∉ header)
    (hfirst : List.IsFirstOcc headerEnd header (header.length - 4)) (hfits : header.length < 1023)
    (rest : Bytes) :
    headerScan (header ++ rest) HttpRequest.zero = (.headerRecvSuccess, .ofHeader header, rest) := by
  have hlen := hfirst.occurs.le headerEnd_ne_nil
  rw [headerEnd_length] at hlen
  have hempty : HttpRequest.zero.received = [] := rfl
  have hscanned := headerScan_scanned header HttpRequest.Ok.zero
    (not_full_iff.mpr (show (0 : Int) < 1023 by decide)) (by rwa [hempty, List.nil_append]) (by
      intro i hocc
      have := hocc.le headerEnd_ne_nil
      rw [headerEnd_length, hempty, List.length_nil] at this
      omega)
  rw [hempty, List.nil_append] at hscanned
  obtain ⟨hbuf, hcontext, hdata⟩ := headerScan_context header HttpRequest.zero
  have hok : (headerScan header HttpRequest.zero).2.1.Ok := by
    have hview := httpRequestRecvHeader_view ⟨[], header, [], []⟩
      (not_full_iff.mpr (show HttpRequest.zero.headerLen < 1023 by decide)) rfl
      (by unfold intMax; show (header.length : Int) ≤ _; omega)
    rw [← (HttpRecvOut.view_eq hview).2.1]
    exact (httpRequestRecvHeader_spec _ HttpRequest.Ok.zero).ok
  have hreq := eq_ofHeader hok hbuf hcontext hdata
  rw [headerScan_append]
  generalize headerScan header HttpRequest.zero = y at hscanned hreq
  obtain ⟨res, r, left⟩ := y
  dsimp only at hscanned hreq ⊢
  rw [hreq]
  generalize r.received = received at hscanned
  cases hscanned with
  | wait _ hno => exact absurd hfirst.occurs (hno _)
  | @done i hfirst' _ =>
      have hi := hfirst'.unique hfirst
      have hend : i + 4 = header.length := by omega
      rw [if_neg (by simp), hend, List.take_length, List.drop_length, List.nil_append]
  | full hfull _ => omega

/-! ## The body -/

namespace CompleteRequest

variable (q : CompleteRequest)

/-- The request when its body has been received: the buffer has room for a terminator. -/
def received : HttpRequest :=
  { q.req.request with
    contextBuf := some (q.body ++ [0])
    contextLen := q.body.length
    dataLen := q.body.length }

theorem body_length_pos : 0 < q.body.length := List.length_pos_iff.mpr q.body_ne_nil

theorem request_ok : q.req.request.Ok := by
  have hbytes : q.req.request.received = q.req.bytes := by
    show (q.req.bytes ++ List.replicate _ 0).take _ = _
    rw [List.take_left' (by rfl)]
  refine ⟨?_, ?_, ?_, Int.le_refl 0, fun _ => rfl, fun buf hbuf => absurd hbuf (by simp [
    RequestText.request, HttpRequest.ofHeader, HttpRequest.zero])⟩
  · exact Int.natCast_nonneg _
  · have hfits := q.fits
    show ((q.req.bytes.length : Nat) : Int) ≤ 1023
    omega
  · rw [hbytes]
    rfl

theorem body_length_lt (hlen : (q.bytes.length : Int) ≤ intMax) :
    (q.body.length : Int) < intMax := by
  have hend := q.first.occurs.le headerEnd_ne_nil
  rw [bytes, List.length_append] at hlen
  rw [headerEnd_length] at hend
  omega

/-- **A body that is there is received.** -/
theorem recvContext {os : Os} (hmem : os.answer.succeeds = true)
    (hlen : (q.bytes.length : Int) ≤ intMax) (io : ClientIo) (hbev : io.bevInput = [])
    (hin : io.inputBuffer = q.body) :
    (httpRequestRecvContext io q.req.request os).1.view
        = (.contextRecvSuccess, q.received, { io with inputBuffer := [] })
      ∧ (httpRequestRecvContext io q.req.request os).2 = os.next := by
  have hpos := q.body_length_pos
  have hlen := q.body_length_lt hlen
  unfold intMax at hlen
  -- the buffer is one byte longer than the body
  have hsize : contextBufSize q.body.length = q.body.length + 1 := by
    unfold contextBufSize
    rw [toInt_eq_self (by omega) (by unfold intMax; omega)]
    omega
  let r : HttpRequest := { q.req.request with
    contextBuf := some (List.replicate (q.body.length + 1) 0)
    contextLen := q.body.length }
  have hinit : httpRequestContextBufInit q.req.request os = (true, r, os.next) := by
    have hnone : q.req.request.contextBuf.isNone = true := rfl
    unfold httpRequestContextBufInit
    rw [if_pos hnone]
    dsimp only
    rw [q.contentLength, if_pos (by omega), hsize]
    have hcalloc : (os.calloc (q.body.length + 1)).1 = true := by
      simp only [Os.calloc, hmem, Bool.true_and, decide_eq_true_eq]
      omega
    rw [if_pos hcalloc]
    rfl
  have hok : r.Ok := by
    have := (httpRequestContextBufInit_spec os q.request_ok).ok
    rwa [hinit] at this
  have hmissing : r.missing = q.body.length := by
    show ((q.body.length : Int) - 0).toNat = _
    omega
  have hwant : r.Wanting := ⟨⟨_, rfl⟩, show (0 : Int) < q.body.length by omega⟩
  have hview := httpRequestRecvContextBody_view io hok hwant hbev (by rw [hin]; unfold intMax; omega)
  have hstored := storeContext_contextBuf hok (d := q.body) rfl
    (show (0 : Int) + q.body.length ≤ q.body.length by omega)
  have hbody : r.body = [] := rfl
  have hroom : ((r.contextLen + 1 - (r.dataLen + q.body.length)).toNat) = 1 := by
    show ((q.body.length : Int) + 1 - (0 + q.body.length)).toNat = 1
    omega
  rw [hbody, List.nil_append, hroom] at hstored
  have hreq : r.storeContext q.body = q.received := by
    unfold HttpRequest.storeContext at hstored ⊢
    dsimp only at hstored ⊢
    rw [hstored]
    show ({ q.req.request with
      contextBuf := _, contextLen := (q.body.length : Int), dataLen := 0 + (q.body.length : Int) }
        : HttpRequest) = _
    rw [Int.zero_add]
    rfl
  unfold httpRequestRecvContext
  rw [hinit]
  dsimp only
  rw [if_pos rfl]
  refine ⟨?_, rfl⟩
  rw [hview, hin]
  unfold contextScan ClientIo.scanned
  rw [hmissing, if_pos (Nat.le_refl _), List.take_length, List.drop_length, hreq]

/-! ## The dialogue -/

theorem strstr_terminated : strstr (q.body ++ [0]) gzipHeader = strstr q.body gzipHeader :=
  strstr_append_zeros q.body gzipHeader 1

/-- The save that the request leads to, if its body has the start of an upload at `p`. -/
structure SavedFrom (h : Host) (p : Nat) (sv : SaveCall) : Prop where
  skylog : sv.skylog = parseSkylogInfo q.received
  data : sv.data = (q.body ++ [0]).drop p
  dataLen : sv.dataLen = payloadLen q.body.length p
  host : sv.host = { h with os := h.os.next.next }

/-- What the client is told and what is saved. -/
structure Answered (h : Host) (c : Client) : Prop where
  ok : ∀ p, strstr q.body gzipHeader = some p →
    c.responses = [.ok] ∧ (∃ sv, c.saves = [sv] ∧ q.SavedFrom h p sv)
    ∧ ∃ os, c.bevOutput = (evserverSendClient ClientIo.zero Response.ok.bytes os).io.bevOutput
  error : strstr q.body gzipHeader = none → c.responses = [.error] ∧ c.saves = []
    ∧ c.bevOutput
      = (evserverSendClient ClientIo.zero Response.error.bytes h.os.next.next).io.bevOutput

end CompleteRequest

section

variable {c c' : Client} {o o' : ClientOption} {h h' : Host} {t : TalkOut}

/-- `client_talk` after a step that says `AGAIN`. -/
theorem Talks.next (ht : Talks c o h t)
    (hstep : (clientOptionStep c o h).view = (.again, c', o', h')) :
    ∃ t₀, Talks c' o' h' t₀ ∧ t.view = t₀.view := by
  obtain ⟨hres, rfl, rfl, rfl⟩ := StepOut.view_eq hstep
  obtain ⟨t₀, ht₀, rfl⟩ := ht.of_again hres
  exact ⟨t₀, ht₀, TalkOut.view_stores t₀ _⟩

/-- A save that finds the start of an upload. -/
theorem clientTalkSkylogSave_found {buf : Bytes} {p : Nat}
    (hbuf : o.httpRequest.contextBuf = some buf) (hdata : 0 < o.httpRequest.dataLen)
    (hmagic : strstr buf gzipHeader = some p) :
    ∃ sv : SaveCall, sv.skylog = parseSkylogInfo o.httpRequest ∧ sv.data = buf.drop p
      ∧ sv.dataLen = payloadLen o.httpRequest.dataLen p ∧ sv.host = h
      ∧ (clientTalkSkylogSave c o h).ret = true
      ∧ (clientTalkSkylogSave c o h).client = { c with saves := c.saves ++ [sv] } := by
  unfold clientTalkSkylogSave
  rw [hbuf]
  dsimp only
  rw [if_neg (by omega), hmagic]
  exact ⟨_, rfl, rfl, rfl, rfl, rfl, rfl⟩

/-- A save that does not. -/
theorem clientTalkSkylogSave_not_found {buf : Bytes} (hbuf : o.httpRequest.contextBuf = some buf)
    (hdata : 0 < o.httpRequest.dataLen) (hmagic : strstr buf gzipHeader = none) :
    clientTalkSkylogSave c o h
      = ⟨false, c, { o with skylog := parseSkylogInfo o.httpRequest }, h⟩ := by
  unfold clientTalkSkylogSave
  rw [hbuf]
  dsimp only
  rw [if_neg (by omega), hmagic]

theorem clientOptionStep_skylogSave (hstep : o.step = .skylogSave) :
    (clientOptionStep c o h).view = (.again, (clientTalkSkylogSave c o h).client,
      { (clientTalkSkylogSave c o h).option with
        step := if (clientTalkSkylogSave c o h).ret then .sendSuccess else .sendError },
      (clientTalkSkylogSave c o h).host) := by
  unfold clientOptionStep StepOut.view
  rw [hstep]
  dsimp only
  split <;> rfl

/-- `client_talk` when an answer is due. -/
theorem Talks.respond {r : Response} (ht : Talks c o h t)
    (hstep : (r = .ok ∧ o.step = .sendSuccess) ∨ (r = .error ∧ o.step = .sendError)) :
    t.view = (.continue,
      { (clientTalkResponse r c h).1 with arg := some { o with step := .finished } },
      (clientTalkResponse r c h).2) := by
  have hview : clientOptionStep c o h = ⟨.once, (clientTalkResponse r c h).1,
      { o with step := .finished }, (clientTalkResponse r c h).2, []⟩ := by
    unfold clientOptionStep
    rcases hstep with ⟨rfl, hs⟩ | ⟨rfl, hs⟩ <;> rw [hs]
  rw [ht.of_once (by rw [hview]), hview]
  rfl

end

namespace CompleteRequest

variable (q : CompleteRequest) {h : Host}

/-- What the request is when it is about to be saved. -/
def dialogue (step : ClientOptionStep) (r : HttpRequest) : ClientOption := ⟨Skylog.zero, r, step⟩

/-- Up to the body. -/
theorem talks_body {t : TalkOut} (hlen : (q.bytes.length : Int) ≤ intMax)
    (ht : Talks (Client.fresh.more q.bytes) ClientOption.zero h t) :
    ∃ t₀, Talks (Client.fresh.more q.body) (dialogue .readContext q.req.request) h t₀
      ∧ t.view = t₀.view := by
  -- the header
  have hrecv := httpRequestRecvHeader_view (Client.fresh.more q.bytes).toClientIo
    (r := HttpRequest.zero) (not_full_iff.mpr (show HttpRequest.zero.headerLen < 1023 by decide)) rfl
    hlen
  have hscan : headerScan (Client.fresh.more q.bytes).inputBuffer HttpRequest.zero
      = (.headerRecvSuccess, q.req.request, q.body) :=
    headerScan_complete q.req.bytes_noNul q.first q.fits q.body
  rw [hscan] at hrecv
  have hheader : (clientOptionStep (Client.fresh.more q.bytes) ClientOption.zero h).view
      = (.again, Client.fresh.more q.body, dialogue .checkUrlPath q.req.request, h) := by
    rw [clientOptionStep_readHeader rfl]
    show recvOut _ _ _ _ _ (httpRequestRecvHeader _ HttpRequest.zero).view = _
    rw [hrecv]
    rfl
  obtain ⟨t₁, ht₁, hview₁⟩ := ht.next hheader
  -- the path
  have hpath := (clientTalkCheckRequestUrlPath_eq q.req).mpr ⟨q.url_length, q.path⟩
  have hurl : (clientOptionStep (Client.fresh.more q.body)
      (dialogue .checkUrlPath q.req.request) h).view
      = (.again, Client.fresh.more q.body, dialogue .readContext q.req.request, h) := by
    unfold clientOptionStep dialogue
    dsimp only
    rw [if_pos hpath]
    rfl
  obtain ⟨t₂, ht₂, hview₂⟩ := ht₁.next hurl
  exact ⟨t₂, ht₂, hview₁.trans hview₂⟩

/-- Up to the save. -/
theorem talks_save {t : TalkOut} (hmem : h.os.answer.succeeds = true)
    (hlen : (q.bytes.length : Int) ≤ intMax)
    (ht : Talks (Client.fresh.more q.bytes) ClientOption.zero h t) :
    ∃ t₀, Talks Client.fresh (dialogue .skylogSave q.received) { h with os := h.os.next } t₀
      ∧ t.view = t₀.view := by
  obtain ⟨t₁, ht₁, hview₁⟩ := q.talks_body hlen ht
  obtain ⟨hrecv, hos⟩ := q.recvContext hmem hlen (Client.fresh.more q.body).toClientIo rfl rfl
  have hcontext : (clientOptionStep (Client.fresh.more q.body)
      (dialogue .readContext q.req.request) h).view
      = (.again, Client.fresh, dialogue .skylogSave q.received, { h with os := h.os.next }) := by
    rw [clientOptionStep_readContext rfl]
    show recvOut _ _ _ _ { h with os := (httpRequestRecvContext _ q.req.request h.os).2 }
      (httpRequestRecvContext _ q.req.request h.os).1.view = _
    rw [hrecv, hos]
    rfl
  obtain ⟨t₂, ht₂, hview₂⟩ := ht₁.next hcontext
  exact ⟨t₂, ht₂, hview₁.trans hview₂⟩

/-- **The save and the answer.** -/
theorem talks_answered {t : TalkOut} (ht : Talks Client.fresh (dialogue .skylogSave q.received)
    { h with os := h.os.next.next } t) : t.result = .continue ∧ q.Answered h t.client := by
  have hpos := q.body_length_pos
  have hdata : 0 < q.received.dataLen := by
    show 0 < ((q.body.length : Nat) : Int)
    omega
  obtain ⟨t₁, ht₁, hview₁⟩ := ht.next (clientOptionStep_skylogSave rfl)
  cases hmagic : strstr q.body gzipHeader with
  | none =>
      have hsave := clientTalkSkylogSave_not_found (c := Client.fresh)
        (o := dialogue .skylogSave q.received) (h := { h with os := h.os.next.next }) rfl hdata
        (q.strstr_terminated.trans hmagic)
      rw [hsave] at ht₁
      have hview := hview₁.trans (ht₁.respond (.inr ⟨rfl, rfl⟩))
      have hresult : t.result = .continue := congrArg (·.1) hview
      have hclient : t.client = _ := congrArg (·.2.1) hview
      rw [hclient]
      exact ⟨hresult, fun p hp => absurd (hmagic.symm.trans hp) (by simp), fun _ => ⟨rfl, rfl, rfl⟩⟩
  | some p =>
      obtain ⟨sv, hskylog, hsaved, hsavedLen, hhost, hret, hclient'⟩ :=
        clientTalkSkylogSave_found (c := Client.fresh) (o := dialogue .skylogSave q.received)
          (h := { h with os := h.os.next.next }) rfl hdata (q.strstr_terminated.trans hmagic)
      rw [hret, hclient'] at ht₁
      have hview := hview₁.trans (ht₁.respond (.inl ⟨rfl, rfl⟩))
      have hresult : t.result = .continue := congrArg (·.1) hview
      have hclient : t.client = _ := congrArg (·.2.1) hview
      rw [hclient]
      refine ⟨hresult, fun p' hp => ?_, fun hno => absurd (hmagic.symm.trans hno) (by simp)⟩
      cases hmagic.symm.trans hp
      exact ⟨rfl, ⟨sv, rfl, hskylog, hsaved, hsavedLen, hhost⟩, _, rfl⟩

/-! ## Any segments -/

theorem bytes_ne_nil : q.bytes ≠ [] := by
  intro hnil
  rw [bytes, List.append_eq_nil_iff] at hnil
  exact q.body_ne_nil hnil.2

/-- In one segment. -/
theorem feed_answered (hmem : HasMemory h) (hlen : (q.bytes.length : Int) ≤ intMax) :
    (reader.feed (ClientRun.init h) q.bytes).released = false
      ∧ q.Answered h (reader.feed (ClientRun.init h) q.bytes).client := by
  obtain ⟨t, ht, heq⟩ := (ready_init h).feed_of_alloc (.inr hmem.option) q.bytes
  obtain ⟨t₀, ht₀, hview⟩ := q.talks_save (h := { h with os := h.os.next }) hmem.context hlen ht
  obtain ⟨hresult, hanswered⟩ := q.talks_answered ht₀
  have hfeed : reader.feed (ClientRun.init h) q.bytes = TalkOut.after t₀.view :=
    heq.trans (by rw [hview])
  rw [hfeed]
  refine ⟨?_, hanswered⟩
  show decide (t₀.result = .finished) = false
  rw [hresult]
  rfl

/-- **A request that is sent whole is answered**, however it is cut into segments, and whatever
is sent after it. -/
theorem serve_answered (hmem : HasMemory h) (hlen : (q.bytes.length : Int) ≤ intMax)
    {segs : List Bytes} (hsegs : ∀ seg ∈ segs, (seg.length : Int) ≤ intMax ∧ seg ≠ [])
    {rest : Bytes} (hstream : segs.flatten = q.bytes ++ rest) :
    (reader.serve (ClientRun.init h) segs).released = false
      ∧ q.Answered h (reader.serve (ClientRun.init h) segs).client := by
  obtain ⟨hreleased, hanswered⟩ := q.feed_answered hmem hlen
  have hne : (reader.feed (ClientRun.init h) q.bytes).client.responses ≠ [] := by
    cases hmagic : strstr q.body gzipHeader with
    | none => rw [(hanswered.error hmagic).1]; exact List.cons_ne_nil _ _
    | some p => rw [(hanswered.ok p hmagic).1]; exact List.cons_ne_nil _ _
  have hended : reader.ended (reader.feed (ClientRun.init h) q.bytes) := .inr hne
  -- the request in one segment, then what follows it byte by byte
  have hseen : (reader.serve (ClientRun.init h) segs).seen
      = (reader.feed (ClientRun.init h) q.bytes).seen := by
    have hfirst : reader.serve (ClientRun.init h) (q.bytes :: Consumer.bytewise rest)
        = reader.feed (ClientRun.init h) q.bytes := Consumer.serve_cons_ended hended
    rw [← hfirst]
    refine Consumer.serve_congr reader_lawful ?_ hsegs ?_ (ready_init h)
    · rw [hstream, List.flatten_cons, Consumer.bytewise, ← List.flatMap_def, List.flatMap_singleton']
    · intro seg hseg
      rcases List.mem_cons.mp hseg with rfl | hseg
      · exact ⟨hlen, q.bytes_ne_nil⟩
      · obtain ⟨x, _, rfl⟩ := List.mem_map.mp hseg
        exact ⟨show (1 : Int) ≤ intMax by decide, List.cons_ne_nil x []⟩
  have hresponses := congrArg (fun s : ClientRun => s.client.responses) hseen
  have hsaves := congrArg (fun s : ClientRun => s.client.saves) hseen
  have hout := congrArg (fun s : ClientRun => s.client.bevOutput) hseen
  dsimp only [ClientRun.seen] at hresponses hsaves hout
  refine ⟨(congrArg ClientRun.released hseen).trans hreleased, ?_, ?_⟩
  · rw [hresponses, hsaves, hout]
    exact hanswered.ok
  · rw [hresponses, hsaves, hout]
    exact hanswered.error

end CompleteRequest

end TraceServer
