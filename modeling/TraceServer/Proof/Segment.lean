import TraceServer.Proof.Answer
import TraceServer.Proof.Scan
import TraceServer.Lib.Resume

/-!
# The segments of a stream do not matter

A client's stream arrives in segments, each of them one read callback, and `client_talk`
can be left and entered again at any byte. Here it is shown to be a lawful `Consumer`:
one delivery of `a ++ b` is a delivery of `a` and one of `b`, unless `a` was enough. Any
two cuts of a stream then lead to the same request, the same answer and the same end.

There is one limit. `evserver_recv_client` keeps the number of pending bytes in an
`int`, so a segment of more than `INT_MAX` bytes reads as a socket error.
-/

namespace TraceServer

/-! ## A cut in one step -/

/-- `b` arrives behind what is in `input_buffer`. -/
def Client.more (c : Client) (b : Bytes) : Client := { c with toClientIo := c.toClientIo.more b }

/-- A step without its stores. -/
def StepOut.view (x : StepOut) : CliOptionRes × Client × ClientOption × Host :=
  (x.res, x.client, x.option, x.host)

/-- What a receiving step makes of what has been received. -/
def recvOut (done : HttpRequestResult) (next : ClientOptionStep) (c : Client) (o : ClientOption)
    (h : Host) (v : HttpRequestResult × HttpRequest × ClientIo) :
    CliOptionRes × Client × ClientOption × Host :=
  let c := { c with toClientIo := v.2.2 }
  let o := { o with httpRequest := v.2.1 }
  if v.1 = done then (.again, c, { o with step := next }, h)
  else if v.1 = .recvEmpty then (.once, c, o, h)
  else (.finished, c, o, h)

section

variable {c : Client} {o : ClientOption} {h : Host} {b : Bytes}

theorem clientOptionStep_readHeader (hstep : o.step = .readHeader) :
    (clientOptionStep c o h).view = recvOut .headerRecvSuccess .checkUrlPath c o h
      (httpRequestRecvHeader c.toClientIo o.httpRequest).view := by
  unfold clientOptionStep recvOut HttpRecvOut.view StepOut.view
  rw [hstep]
  dsimp only
  cases (httpRequestRecvHeader c.toClientIo o.httpRequest).result <;> rfl

theorem clientOptionStep_readContext (hstep : o.step = .readContext) :
    (clientOptionStep c o h).view = recvOut .contextRecvSuccess .skylogSave c o
      { h with os := (httpRequestRecvContext c.toClientIo o.httpRequest h.os).2 }
      (httpRequestRecvContext c.toClientIo o.httpRequest h.os).1.view := by
  unfold clientOptionStep recvOut HttpRecvOut.view StepOut.view
  rw [hstep]
  dsimp only
  cases (httpRequestRecvContext c.toClientIo o.httpRequest h.os).1.result <;> rfl

/-- The states in which a dialogue waits for bytes. -/
def ClientOption.Waiting (o : ClientOption) : Prop :=
  (o.step = .readHeader ∧ isHttpRequestHeaderBufFull o.httpRequest = false)
    ∨ (o.step = .readContext ∧ o.httpRequest.Wanting)

/-- The states of a dialogue between two steps. -/
structure ClientOption.Resumable (o : ClientOption) : Prop where
  header : o.step = .readHeader → isHttpRequestHeaderBufFull o.httpRequest = false
  context : o.step = .readContext → o.httpRequest.contextBuf ≠ none → o.httpRequest.Wanting

theorem ClientOption.Waiting.resumable (hw : o.Waiting) : o.Resumable where
  header := by
    intro hstep
    rcases hw with ⟨_, hfull⟩ | ⟨hstep', _⟩
    · exact hfull
    · exact absurd (hstep.symm.trans hstep') (by simp)
  context := by
    intro hstep _
    rcases hw with ⟨hstep', _⟩ | ⟨_, hwant⟩
    · exact absurd (hstep.symm.trans hstep') (by simp)
    · exact hwant

/-- What a step that left `x` with some of its bytes leaves with `b` behind them, `x'`. -/
structure StepCut (b : Bytes) (c : Client) (x x' : StepOut) : Prop where
  bevInput : x.client.bevInput = []
  length : x.client.inputBuffer.length ≤ c.inputBuffer.length
  /-- A step that waited goes on with `b`. -/
  wait : x.res = .once → x.option.step ≠ .finished →
    x.client.inputBuffer = [] ∧ x.option.Waiting ∧
      (clientOptionStep (x.client.more b) x.option x.host).view = x'.view
  /-- One that did not leaves `b` where it is. -/
  done : ¬ (x.res = .once ∧ x.option.step ≠ .finished) →
    x'.view = (x.res, x.client.more b, x.option, x.host)

theorem StepOut.view_eq {x : StepOut} {res : CliOptionRes} {c : Client} {o : ClientOption}
    {h : Host}
    (hx : x.view = (res, c, o, h)) :
    x.res = res ∧ x.client = c ∧ x.option = o ∧ x.host = h :=
  ⟨congrArg (·.1) hx, congrArg (·.2.1) hx, congrArg (·.2.2.1) hx, congrArg (·.2.2.2) hx⟩

/-- A receive function that can be cut makes a step that can. -/
theorem StepCut.of_recvCut {x x' : StepOut} {y y' : HttpRecvOut} {done : HttpRequestResult}
    {next : ClientOptionStep}
    {again : ClientIo → HttpRequest → HttpRequestResult × HttpRequest × ClientIo}
    (hdone : done ≠ .recvEmpty) (hstep : o.step ≠ .finished)
    (hx : x.view = recvOut done next c o h y.view)
    (hx' : x'.view = recvOut done next (c.more b) o h y'.view)
    (hcut : RecvCut b c.toClientIo again y y')
    (hwait : y.result = .recvEmpty → ({ o with httpRequest := y.req } : ClientOption).Waiting ∧
      (clientOptionStep ({ c with toClientIo := y.io.more b }) { o with httpRequest := y.req } h).view
        = recvOut done next c o h (again (y.io.more b) y.req)) :
    StepCut b c x x' := by
  by_cases hempty : y.result = .recvEmpty
  · -- the input is used up, and the step waits
    obtain ⟨hnil, hagain⟩ := hcut.wait hempty
    obtain ⟨hwaiting, hgo⟩ := hwait hempty
    have hout : recvOut done next c o h y.view
        = (.once, { c with toClientIo := y.io }, { o with httpRequest := y.req }, h) := by
      unfold recvOut HttpRecvOut.view
      dsimp only
      rw [hempty, if_neg hdone.symm, if_pos rfl]
    obtain ⟨hres, hclient, hoption, hhost⟩ := StepOut.view_eq (hx.trans hout)
    refine ⟨by rw [hclient]; exact hcut.bevInput, by rw [hclient]; exact hcut.length,
      ?_, fun hno => absurd ⟨hres, by rw [hoption]; exact hstep⟩ hno⟩
    intro _ _
    rw [hclient, hoption, hhost]
    refine ⟨hnil, hwaiting, ?_⟩
    rw [show ({ c with toClientIo := y.io } : Client).more b
      = { c with toClientIo := y.io.more b } from rfl, hgo, hagain, hx']
    rfl
  · -- the receive function has come to an end, and leaves the rest of the input alone
    have hview := hcut.done hempty
    have hout : ∀ (c : Client) (io : ClientIo), recvOut done next c o h (y.result, y.req, io)
        = (if y.result = done then .again else .finished, { c with toClientIo := io },
            if y.result = done then { o with httpRequest := y.req, step := next }
            else { o with httpRequest := y.req }, h) := by
      intro c io
      unfold recvOut
      dsimp only
      split <;> rfl
    obtain ⟨hres, hclient, hoption, hhost⟩ := StepOut.view_eq (hx.trans (hout c y.io))
    have hnot : x.res ≠ .once := by
      rw [hres]
      split <;> simp
    refine ⟨by rw [hclient]; exact hcut.bevInput, by rw [hclient]; exact hcut.length,
      fun h => absurd h hnot, ?_⟩
    intro _
    rw [hx', hview, hout, hres, hclient, hoption, hhost]
    rfl

/-- The input is of no concern to the other steps. -/
theorem clientTalkSkylogSave_more : clientTalkSkylogSave (c.more b) o h
    = { clientTalkSkylogSave c o h with client := (clientTalkSkylogSave c o h).client.more b } := by
  unfold clientTalkSkylogSave
  cases o.httpRequest.contextBuf with
  | none => rfl
  | some buf =>
      dsimp only
      split
      · rfl
      · cases strstr buf gzipHeader <;> rfl

theorem clientTalkResponse_more (r : Response) : clientTalkResponse r (c.more b) h
    = ((clientTalkResponse r c h).1.more b, (clientTalkResponse r c h).2) := by
  unfold clientTalkResponse evserverSendClient
  dsimp only
  split
  · split
    · split <;> rfl
    · rfl
  · rfl

theorem clientTalkResponse_input (r : Response) :
    (clientTalkResponse r c h).1.bevInput = c.bevInput
      ∧ (clientTalkResponse r c h).1.inputBuffer = c.inputBuffer := by
  unfold clientTalkResponse evserverSendClient
  dsimp only
  split
  · split
    · split <;> exact ⟨rfl, rfl⟩
    · exact ⟨rfl, rfl⟩
  · exact ⟨rfl, rfl⟩

/-- **A cut in one step.** -/
theorem clientOptionStep_cut (hok : o.httpRequest.Ok) (hr : o.Resumable) (hbev : c.bevInput = [])
    (hlen : (c.more b).inputBuffer.length ≤ intMax) :
    StepCut b c (clientOptionStep c o h) (clientOptionStep (c.more b) o h) := by
  cases hstep : o.step with
  | readHeader =>
      obtain ⟨hcut, hroom⟩ := httpRequestRecvHeader_cut (b := b) (hr.header hstep) hbev hlen
      refine .of_recvCut (by simp) (by simp [hstep]) (clientOptionStep_readHeader hstep)
        (clientOptionStep_readHeader hstep) hcut fun hwait => ⟨.inl ⟨hstep, hroom hwait⟩, ?_⟩
      exact clientOptionStep_readHeader (o := { o with httpRequest := _ }) hstep
  | readContext =>
      obtain ⟨hos, hcut, hwanting⟩ := httpRequestRecvContext_cut b h.os hok
        (hr.context hstep) hbev hlen
      have hx' := clientOptionStep_readContext (c := c.more b) (h := h) hstep
      rw [show (c.more b).toClientIo = c.toClientIo.more b from rfl, hos] at hx'
      refine .of_recvCut (by simp) (by simp [hstep]) (clientOptionStep_readContext hstep) hx'
        hcut ?_
      intro hwait
      -- the second call finds the buffer the first has made
      obtain ⟨hok₁, hwant₁⟩ := hwanting hwait
      obtain ⟨buf, hc₁⟩ := hwant₁.context
      refine ⟨.inr ⟨hstep, hwant₁⟩, ?_⟩
      refine (clientOptionStep_readContext (o := { o with
        httpRequest := (httpRequestRecvContext c.toClientIo o.httpRequest h.os).1.req }) hstep).trans ?_
      dsimp only
      rw [httpRequestRecvContext_of_some hok₁ hc₁, httpRequestRecvContext_of_some hok₁ hc₁]
      rfl
  | checkUrlPath =>
      unfold clientOptionStep
      rw [hstep]
      dsimp only
      split <;> exact ⟨hbev, Nat.le_refl _, fun h => absurd h (by simp), fun _ => rfl⟩
  | skylogSave =>
      have hio : (clientTalkSkylogSave c o h).client.toClientIo = c.toClientIo := by
        cases clientTalkSkylogSave_step (c := c) (o := o) (h := h) with
        | refused _ hclient _ _ => rw [hclient]
        | called _ _ _ _ hclient _ => rw [hclient]
      unfold clientOptionStep
      rw [hstep]
      dsimp only
      rw [clientTalkSkylogSave_more]
      dsimp only
      split <;> exact ⟨by rw [← hbev, ← hio], by rw [← hio],
        fun h => absurd h (by simp), fun _ => rfl⟩
  | sendSuccess | sendError =>
      unfold clientOptionStep
      rw [hstep]
      dsimp only
      rw [clientTalkResponse_more]
      obtain ⟨hbev', hin⟩ := clientTalkResponse_input (c := c) (h := h) _
      exact ⟨hbev'.trans hbev, Nat.le_of_eq (congrArg List.length hin),
        fun _ hne => absurd rfl hne, fun _ => rfl⟩
  | finished =>
      unfold clientOptionStep
      rw [hstep]
      exact ⟨hbev, Nat.le_refl _, fun h => absurd h (by simp), fun _ => rfl⟩

/-- The states between two steps are resumable. -/
theorem resumable_step {x : StepOut} (hs : Spoken c o) (hx : DialogueStep c o h x)
    (hres : x.res = .again) : x.option.Resumable := by
  have hpromise := hs.promise
  cases hx with
  | header hstep _ he =>
      cases he with
      | done _ => exact ⟨fun h => absurd h (by simp), fun h => absurd h (by simp)⟩
      | wait _ => exact absurd hres (by simp)
      | fail _ _ => exact absurd hres (by simp)
  | urlPath hstep he =>
      rw [hstep] at hpromise
      -- nothing of the body has been received yet
      refine ⟨?_, fun _ hne => absurd hpromise.1 hne⟩
      intro h
      subst he
      dsimp only at h
      split at h <;> exact absurd h (by simp)
  | context hstep _ he =>
      cases he with
      | done _ => exact ⟨fun h => absurd h (by simp), fun h => absurd h (by simp)⟩
      | wait _ => exact absurd hres (by simp)
      | fail _ _ => exact absurd hres (by simp)
  | save hstep _ =>
      refine ⟨fun h => ?_, fun h => ?_⟩ <;>
      · dsimp only at h
        split at h <;> exact absurd h (by simp)
  | respond _ => exact absurd hres (by simp)
  | finished _ => exact absurd hres (by simp)

end

/-! ## A cut in one call -/

/-- A call without its stores. -/
def TalkOut.view (t : TalkOut) : ClientTalkResult × Client × Host := (t.result, t.client, t.host)

theorem TalkOut.view_stores (t : TalkOut) (st : List Store) :
    ({ t with stores := st } : TalkOut).view = t.view := rfl

theorem talks_exists (c : Client) (o : ClientOption) (h : Host) : ∃ t, Talks c o h t := by
  obtain ⟨t, ht, _⟩ := clientTalkLoop_talks (o.step.rank + 1) (c := c) (o := o) (h := h)
    (Nat.lt_succ_self _)
  exact ⟨t, ht⟩

section

variable {c c' : Client} {o o' : ClientOption} {h h' : Host} {t t' : TalkOut}

/-- Two dialogues whose next step is the same go on in the same way. -/
theorem Talks.view_congr (hview : (clientOptionStep c o h).view = (clientOptionStep c' o' h').view)
    (ht : Talks c o h t) (ht' : Talks c' o' h' t') : t.view = t'.view := by
  obtain ⟨hres, hclient, hoption, hhost⟩ := StepOut.view_eq hview
  cases ht with
  | again hr ht₀ =>
      obtain ⟨t₁, ht₁, rfl⟩ := ht'.of_again (hres.symm.trans hr)
      rw [hclient, hoption, hhost] at ht₀
      rw [ht₀.unique ht₁]
      exact (TalkOut.view_stores _ _).trans (TalkOut.view_stores _ _).symm
  | once hr =>
      rw [ht'.of_once (hres.symm.trans hr)]
      unfold TalkOut.view
      dsimp only
      rw [hclient, hoption, hhost]
  | finished hr =>
      rw [ht'.of_finished (hres.symm.trans hr)]
      unfold TalkOut.view
      dsimp only
      rw [hclient, hoption, hhost]

theorem clientTalkSkylogSave_arg (a : Option ClientOption) :
    clientTalkSkylogSave { c with arg := a } o h = { clientTalkSkylogSave c o h with
      client := { (clientTalkSkylogSave c o h).client with arg := a } } := by
  unfold clientTalkSkylogSave
  cases o.httpRequest.contextBuf with
  | none => rfl
  | some buf =>
      dsimp only
      split
      · rfl
      · cases strstr buf gzipHeader <;> rfl

/-- A step does not look at `arg`. -/
theorem clientOptionStep_arg (a : Option ClientOption) :
    (clientOptionStep { c with arg := a } o h).view =
      ((clientOptionStep c o h).res, { (clientOptionStep c o h).client with arg := a },
        (clientOptionStep c o h).option, (clientOptionStep c o h).host) := by
  unfold clientOptionStep StepOut.view
  cases o.step with
  | readHeader =>
      dsimp only
      cases (httpRequestRecvHeader c.toClientIo o.httpRequest).result <;> rfl
  | readContext =>
      dsimp only
      cases (httpRequestRecvContext c.toClientIo o.httpRequest h.os).1.result <;> rfl
  | checkUrlPath =>
      dsimp only
      split <;> rfl
  | skylogSave =>
      dsimp only
      rw [clientTalkSkylogSave_arg]
      dsimp only
      split <;> rfl
  | sendSuccess | sendError | finished => rfl

theorem Talks.arg_irrelevant (ht : Talks c o h t) (a : Option ClientOption)
    (ht' : Talks { c with arg := a } o h t') : t'.view = t.view := by
  induction ht generalizing t' with
  | @again c o h t hr _ ih =>
      obtain ⟨hres, hclient, hoption, hhost⟩ :=
        StepOut.view_eq (clientOptionStep_arg (c := c) (o := o) (h := h) a)
      obtain ⟨t₁, ht₁, rfl⟩ := ht'.of_again (hres.trans hr)
      rw [hclient, hoption, hhost] at ht₁
      exact (TalkOut.view_stores _ _).trans ((ih ht₁).trans (TalkOut.view_stores _ _).symm)
  | @once c o h hr =>
      obtain ⟨hres, hclient, hoption, hhost⟩ :=
        StepOut.view_eq (clientOptionStep_arg (c := c) (o := o) (h := h) a)
      rw [ht'.of_once (hres.trans hr)]
      unfold TalkOut.view
      dsimp only
      rw [hclient, hoption, hhost]
  | @finished c o h hr =>
      obtain ⟨hres, hclient, hoption, hhost⟩ :=
        StepOut.view_eq (clientOptionStep_arg (c := c) (o := o) (h := h) a)
      rw [ht'.of_finished (hres.trans hr)]
      unfold TalkOut.view
      dsimp only
      rw [hclient, hoption, hhost]

/-- A call that ended in waiting for more. -/
def TalkOut.Waits (t : TalkOut) (o : ClientOption) : Prop :=
  t.result = .continue ∧ t.client.arg = some o ∧ o.step ≠ .finished

/-- **A cut in one call.** A call that waits with the first part goes on with the second;
any other leaves the second part where it is. -/
theorem Talks.cut {b : Bytes} (ht : Talks c o h t) (ht' : Talks (c.more b) o h t') (hs : Spoken c o)
    (hr : o.Resumable) (hbev : c.bevInput = []) (hlen : (c.more b).inputBuffer.length ≤ intMax) :
    (∀ o₁, t.Waits o₁ → t.client.inputBuffer = [] ∧ t.client.bevInput = [] ∧ o₁.Waiting ∧
        ∀ t₁, Talks (t.client.more b) o₁ t.host t₁ → t₁.view = t'.view)
      ∧ ((¬ ∃ o₁, t.Waits o₁) → t'.view = (t.result, t.client.more b, t.host)) := by
  induction ht generalizing t' with
  | @again c o h t hres _ ih =>
      have hcut := clientOptionStep_cut (b := b) (h := h) hs.ok hr hbev hlen
      obtain ⟨hres', hclient, hoption, hhost⟩ :=
        StepOut.view_eq (hcut.done fun hw => absurd (hres.symm.trans hw.1) (by simp))
      obtain ⟨t₁, ht₁, rfl⟩ := ht'.of_again (hres'.trans hres)
      rw [hclient, hoption, hhost] at ht₁
      -- the step has taken from the input, so the rest of the call has no more to take from
      have hlen' : (((clientOptionStep c o h).client.more b).inputBuffer.length : Int) ≤ intMax := by
        have hle := hcut.length
        have hsum : (c.more b).inputBuffer.length = c.inputBuffer.length + b.length :=
          List.length_append
        have hsum' : ((clientOptionStep c o h).client.more b).inputBuffer.length
            = (clientOptionStep c o h).client.inputBuffer.length + b.length :=
          List.length_append
        omega
      obtain ⟨hwait, hdone⟩ := ih ht₁ (spoken_step hs clientOptionStep_step)
        (resumable_step hs clientOptionStep_step hres) hcut.bevInput hlen'
      rw [TalkOut.view_stores]
      exact ⟨hwait, hdone⟩
  | @once c o h hres =>
      have hcut := clientOptionStep_cut (b := b) (h := h) hs.ok hr hbev hlen
      by_cases hfin : (clientOptionStep c o h).option.step = .finished
      · -- an answer has been sent
        obtain ⟨hres', hclient, hoption, hhost⟩ :=
          StepOut.view_eq (hcut.done fun hw => hw.2 hfin)
        constructor
        · intro o₁ hw
          obtain rfl := Option.some.inj hw.2.1
          exact absurd hfin hw.2.2
        · intro _
          rw [ht'.of_once (hres'.trans hres)]
          unfold TalkOut.view
          dsimp only
          rw [hclient, hoption, hhost]
          rfl
      · -- the step waits for more, and with `b` it goes on
        obtain ⟨hnil, hwaiting, hview⟩ := hcut.wait hres hfin
        refine ⟨?_, fun hno => absurd ⟨_, rfl, rfl, hfin⟩ hno⟩
        intro o₁ hw
        obtain rfl := Option.some.inj hw.2.1
        refine ⟨hnil, hcut.bevInput, hwaiting, ?_⟩
        intro t₁ ht₁
        obtain ⟨t₂, ht₂⟩ := talks_exists ((clientOptionStep c o h).client.more b)
          (clientOptionStep c o h).option (clientOptionStep c o h).host
        exact (ht₂.arg_irrelevant _ ht₁).trans (ht₂.view_congr hview ht')
  | @finished c o h hres =>
      have hcut := clientOptionStep_cut (b := b) (h := h) hs.ok hr hbev hlen
      obtain ⟨hres', hclient, hoption, hhost⟩ :=
        StepOut.view_eq (hcut.done fun hw => absurd (hres.symm.trans hw.1) (by simp))
      refine ⟨fun o₁ hw => absurd hw.1 (by simp), ?_⟩
      intro _
      rw [ht'.of_finished (hres'.trans hres)]
      unfold TalkOut.view
      dsimp only
      rw [hclient, hoption, hhost]
      rfl

end

/-! ## From the bufferevent to `input_buffer` -/

/-- The first thing a waiting dialogue does is to move what has arrived. -/
theorem evserverRecvClient_addBuffer (io : ClientIo) {n : Int} (hn : 0 < n) :
    evserverRecvClient io.addBuffer n = evserverRecvClient io n := by
  unfold evserverRecvClient
  rw [if_pos hn, if_pos hn, addBuffer_eq_self (show io.addBuffer.bevInput = [] from rfl)]

theorem httpRequestRecvHeader_addBuffer (io : ClientIo) {r : HttpRequest}
    (hfull : isHttpRequestHeaderBufFull r = false) :
    httpRequestRecvHeader io.addBuffer r = httpRequestRecvHeader io r := by
  have hnot : ¬ isHttpRequestHeaderBufFull r = true := by simp [hfull]
  unfold httpRequestRecvHeader httpRequestRecvHeaderLoop
  rw [if_neg hnot, if_neg hnot, evserverRecvClient_addBuffer io (by decide), addBuffer_pending]

theorem httpRequestRecvContextBody_addBuffer (io : ClientIo) {r : HttpRequest} (hwant : r.Wanting) :
    httpRequestRecvContextBody io.addBuffer r = httpRequestRecvContextBody io r := by
  have hlt := hwant.dataLen_lt
  unfold httpRequestRecvContextBody httpRequestRecvContextLoop
  dsimp only
  rw [evserverRecvClient_addBuffer io (by omega), addBuffer_pending]

theorem clientOptionStep_addBuffer {c : Client} {o : ClientOption} (h : Host)
    (hok : o.httpRequest.Ok) (hw : o.Waiting) :
    (clientOptionStep { c with toClientIo := c.addBuffer } o h).view
      = (clientOptionStep c o h).view := by
  rcases hw with ⟨hstep, hfull⟩ | ⟨hstep, hwant⟩
  · rw [clientOptionStep_readHeader hstep, clientOptionStep_readHeader hstep,
      ← httpRequestRecvHeader_addBuffer c.toClientIo hfull]
    rfl
  · obtain ⟨buf, hc⟩ := hwant.context
    rw [clientOptionStep_readContext hstep, clientOptionStep_readContext hstep,
      httpRequestRecvContext_of_some hok hc, httpRequestRecvContext_of_some hok hc,
      ← httpRequestRecvContextBody_addBuffer c.toClientIo hwant]
    rfl

/-! ## The client as a consumer -/

/-- A client between two read callbacks, in a dialogue that is not over. -/
structure ClientRun.Ready (s : ClientRun) : Prop where
  alive : s.released = false
  silent : s.client.responses = []
  bevInput : s.client.bevInput = []
  inputBuffer : s.client.inputBuffer = []
  spoken : Spoken s.client s.client.option
  waiting : s.client.option.Waiting

/-- A run apart from what it has left unread. -/
def ClientRun.seen (s : ClientRun) : ClientRun :=
  { s with client := { s.client with bevInput := [], inputBuffer := [] } }

/-- A client whose segments are each delivered by one read callback. -/
def reader : Consumer ClientRun UInt8 ClientRun where
  feed s seg := s.step (.read seg)
  ended s := s.released = true ∨ s.client.responses ≠ []
  obs := ClientRun.seen
  Ready := ClientRun.Ready
  Fits seg := seg.length ≤ intMax
  decEnded _ := inferInstance

/-- The state after a callback. -/
def TalkOut.after (v : ClientTalkResult × Client × Host) : ClientRun :=
  ⟨v.2.1, v.2.2, v.1 = .finished⟩

/-- The system once `client_option_arg_init` is done with it. -/
def argInitHost (arg : Option ClientOption) (h : Host) : Host :=
  if arg.isSome then h else { h with os := h.os.call.2 }

/-- **One delivery** to a waiting client. -/
theorem ClientRun.Ready.feed {s : ClientRun} (hs : s.Ready) (seg : Bytes) :
    (s.client.arg = none ∧ s.host.os.call.1 = false ∧ s.step (.read seg)
        = ⟨{ s.client with toClientIo := s.client.arrive seg }, argInitHost none s.host, true⟩)
      ∨ ((s.client.arg.isSome ∨ s.host.os.call.1 = true) ∧
          ∃ t, Talks (s.client.more seg) s.client.option (argInitHost s.client.arg s.host) t ∧
            s.step (.read seg) = TalkOut.after t.view) := by
  have hstep : s.step (.read seg) = TalkOut.after
      (clientTalk { s.client with toClientIo := s.client.arrive seg } s.host).view := by
    unfold ClientRun.step
    rw [if_neg (by simp [hs.alive])]
    rfl
  -- with nothing pending, what arrives is all there is to be moved
  have hio : s.client.more seg = { s.client with toClientIo := (s.client.arrive seg).addBuffer } := by
    unfold Client.more ClientIo.more ClientIo.addBuffer ClientIo.arrive
    simp only [hs.bevInput, hs.inputBuffer, List.nil_append]
  have key : ∀ {h : Host} {t₀ : TalkOut},
      Talks { s.client with toClientIo := s.client.arrive seg } s.client.option h t₀ →
      ∃ t, Talks (s.client.more seg) s.client.option h t ∧ t₀.view = t.view := by
    intro h t₀ ht₀
    obtain ⟨t, ht⟩ := talks_exists (s.client.more seg) s.client.option h
    refine ⟨t, ht, ht₀.view_congr ?_ ht⟩
    rw [hio]
    exact (clientOptionStep_addBuffer (c := { s.client with toClientIo := s.client.arrive seg }) h
      hs.spoken.ok hs.waiting).symm
  cases harg : s.client.arg with
  | some o =>
      refine .inr ⟨.inl rfl, ?_⟩
      have ht₀ := clientTalk_talks (c := { s.client with toClientIo := s.client.arrive seg })
        (h := s.host) harg
      have ho : s.client.option = o := by rw [Client.option, harg, Option.getD_some]
      rw [← ho] at ht₀
      obtain ⟨t, ht, hview⟩ := key ht₀
      exact ⟨t, ht, by rw [hstep, hview]⟩
  | none =>
      rcases clientTalk_fresh (c := { s.client with toClientIo := s.client.arrive seg })
        (h := s.host) harg with ⟨heq, ha⟩ | ⟨ht₀, ha⟩
      · exact .inl ⟨rfl, ha, by rw [hstep, heq]; rfl⟩
      · refine .inr ⟨.inr ha, ?_⟩
        have ho : s.client.option = ClientOption.zero := by
          rw [Client.option, harg, Option.getD_none]
        rw [← ho] at ht₀
        obtain ⟨t, ht, hview⟩ := key ht₀
        exact ⟨t, ht, by rw [hstep, hview]⟩

section

variable {s : ClientRun} {a b : Bytes} {t : TalkOut}

theorem Client.more_append (c : Client) (a b : Bytes) : c.more (a ++ b) = (c.more a).more b := by
  unfold Client.more ClientIo.more
  simp only [List.append_assoc]

theorem ClientRun.Ready.length_more (hs : s.Ready) (hfit : (a.length : Int) ≤ intMax) :
    ((s.client.more a).inputBuffer.length : Int) ≤ intMax := by
  show (((s.client.inputBuffer ++ a).length : Nat) : Int) ≤ intMax
  rwa [hs.inputBuffer, List.nil_append]

theorem ClientRun.Ready.spoken_more (hs : s.Ready) (a : Bytes) :
    Spoken (s.client.more a) s.client.option :=
  ⟨hs.spoken.ok, hs.spoken.promise, hs.spoken.silent, hs.spoken.answered⟩

/-- A call that waits leaves the client ready. -/
theorem ready_of_waits {h : Host} {o₁ : ClientOption} (hs : s.Ready)
    (hfit : (a.length : Int) ≤ intMax) (ht : Talks (s.client.more a) s.client.option h t)
    (hw : t.Waits o₁) : (TalkOut.after t.view).Ready := by
  obtain ⟨t', ht'⟩ := talks_exists ((s.client.more a).more []) s.client.option h
  have hlen := hs.length_more hfit
  obtain ⟨hin, hbev, hwaiting, _⟩ := (ht.cut ht' (hs.spoken_more a) hs.waiting.resumable hs.bevInput
    (by show ((((s.client.more a).inputBuffer ++ []).length : Nat) : Int) ≤ intMax
        rwa [List.append_nil])).1 o₁ hw
  obtain ⟨c', o', hc', hsp⟩ := ht.preserves spoken_step (hs.spoken_more a)
  have hspoken : Spoken t.client o' := by
    rw [hc']
    exact spoken_invariant.arg _ hsp
  obtain rfl : o' = o₁ := by
    have harg := hw.2.1
    rw [hc'] at harg
    exact Option.some.inj harg
  have hopt : t.client.option = o' := by rw [Client.option, hw.2.1, Option.getD_some]
  refine ⟨by simp [TalkOut.after, TalkOut.view, hw.1], hspoken.silent hw.2.2, hbev, hin, ?_, ?_⟩
  · show Spoken t.client t.client.option
    rwa [hopt]
  · show t.client.option.Waiting
    rwa [hopt]

/-- A call that does not wait ends the dialogue. -/
theorem ended_of_not_waits {h : Host} (hs : s.Ready)
    (ht : Talks (s.client.more a) s.client.option h t) (hw : ¬ ∃ o₁, t.Waits o₁) :
    reader.ended (TalkOut.after t.view) := by
  obtain ⟨c', o', hc', hsp⟩ := ht.preserves spoken_step (hs.spoken_more a)
  cases hres : t.result with
  | finished => exact .inl (by simp [TalkOut.after, TalkOut.view, hres])
  | «continue» =>
      have harg : t.client.arg = some o' := by rw [hc']
      have hfin : o'.step = .finished := by
        by_contra hne
        exact hw ⟨o', hres, harg, hne⟩
      obtain ⟨r, hr, _⟩ := hsp.answered hfin
      refine .inr ?_
      show t.client.responses ≠ []
      rw [hc']
      show c'.responses ≠ []
      rw [hr]
      simp

theorem ClientRun.Ready.not_ended (hs : s.Ready) : ¬ reader.ended s := by
  rintro (h | h)
  · exact absurd (h.symm.trans hs.alive) (by simp)
  · exact h hs.silent

theorem fits_append (hfit : ((a ++ b).length : Int) ≤ intMax) :
    (a.length : Int) ≤ intMax ∧ (b.length : Int) ≤ intMax := by
  rw [List.length_append] at hfit
  constructor <;> omega

/-- Where one delivery has memory for the dialogue, another has. -/
theorem ClientRun.Ready.feed_of_alloc (hs : s.Ready)
    (halloc : s.client.arg.isSome ∨ s.host.os.call.1 = true) (seg : Bytes) :
    ∃ t, Talks (s.client.more seg) s.client.option (argInitHost s.client.arg s.host) t
      ∧ s.step (.read seg) = TalkOut.after t.view := by
  rcases hs.feed seg with ⟨hnone, hfail, _⟩ | ⟨_, htalks⟩
  · rw [hnone] at halloc
    exact absurd (halloc.resolve_left (by simp)) (by simp [hfail])
  · exact htalks

/-- A segment that is cut, by a client that is ready. -/
theorem ClientRun.Ready.cut {h : Host} {t' : TalkOut} (hs : s.Ready)
    (hfit : ((a ++ b).length : Int) ≤ intMax) (ht : Talks (s.client.more a) s.client.option h t)
    (ht' : Talks (s.client.more (a ++ b)) s.client.option h t') :
    (∀ o₁, t.Waits o₁ → t.client.inputBuffer = [] ∧ t.client.bevInput = [] ∧ o₁.Waiting ∧
        ∀ t₁, Talks (t.client.more b) o₁ t.host t₁ → t₁.view = t'.view)
      ∧ ((¬ ∃ o₁, t.Waits o₁) → t'.view = (t.result, t.client.more b, t.host)) := by
  have hlen := hs.length_more hfit
  rw [Client.more_append] at ht' hlen
  exact ht.cut ht' (hs.spoken_more a) hs.waiting.resumable hs.bevInput hlen

/-- **A delivery leaves the client ready, or ends the dialogue.** -/
theorem reader_ready (hs : s.Ready) (hfit : (a.length : Int) ≤ intMax)
    (hended : ¬ reader.ended (s.step (.read a))) : (s.step (.read a)).Ready := by
  rcases hs.feed a with ⟨_, _, heq⟩ | ⟨_, t, ht, heq⟩
  · refine absurd (.inl ?_) hended
    rw [heq]
  · rw [heq] at hended ⊢
    by_cases hw : ∃ o₁, t.Waits o₁
    · obtain ⟨o₁, hw⟩ := hw
      exact ready_of_waits hs hfit ht hw
    · exact absurd (ended_of_not_waits hs ht hw) hended

/-- **A segment in two deliveries**, of which the first does not end the dialogue. -/
theorem reader_feed_append (hs : s.Ready) (hfit : ((a ++ b).length : Int) ≤ intMax)
    (hended : ¬ reader.ended (s.step (.read a))) :
    s.step (.read (a ++ b)) = (s.step (.read a)).step (.read b) := by
  rcases hs.feed a with ⟨_, _, heq⟩ | ⟨halloc, t, ht, heq⟩
  · refine absurd (.inl ?_) hended
    rw [heq]
  · rw [heq] at hended ⊢
    -- the first delivery waits for more, and the second brings it
    obtain ⟨o₁, hw⟩ : ∃ o₁, t.Waits o₁ := by
      by_contra hw
      exact hended (ended_of_not_waits hs ht hw)
    have hready := ready_of_waits hs (fits_append hfit).1 ht hw
    obtain ⟨t', ht', heq'⟩ := hs.feed_of_alloc halloc (a ++ b)
    obtain ⟨_, _, _, hgo⟩ := (hs.cut hfit ht ht').1 o₁ hw
    have harg : (TalkOut.after t.view).client.arg = some o₁ := hw.2.1
    have hopt : (TalkOut.after t.view).client.option = o₁ := by
      rw [Client.option, harg, Option.getD_some]
    obtain ⟨t₁, ht₁, heq₁⟩ := hready.feed_of_alloc (.inl (by rw [harg]; rfl)) b
    rw [hopt, harg] at ht₁
    rw [heq', heq₁, hgo t₁ ht₁]

/-- **What follows the end of the dialogue in one segment is not looked at.** -/
theorem reader_ended_append (hs : s.Ready) (hfit : ((a ++ b).length : Int) ≤ intMax)
    (hended : reader.ended (s.step (.read a))) : reader.ended (s.step (.read (a ++ b)))
      ∧ reader.obs (s.step (.read (a ++ b))) = reader.obs (s.step (.read a)) := by
  rcases hs.feed a with ⟨hnone, hfail, heq⟩ | ⟨halloc, t, ht, heq⟩
  · -- no memory for the dialogue, however much has been delivered
    rcases hs.feed (a ++ b) with ⟨_, _, heq'⟩ | ⟨halloc, _⟩
    · rw [heq, heq']
      exact ⟨.inl rfl, rfl⟩
    · rw [hnone] at halloc
      exact absurd (halloc.resolve_left (by simp)) (by simp [hfail])
  · rw [heq] at hended ⊢
    have hw : ¬ ∃ o₁, t.Waits o₁ := by
      rintro ⟨o₁, hw⟩
      exact (ready_of_waits hs (fits_append hfit).1 ht hw).not_ended hended
    obtain ⟨t', ht', heq'⟩ := hs.feed_of_alloc halloc (a ++ b)
    rw [heq', (hs.cut hfit ht ht').2 hw]
    exact ⟨hended, rfl⟩

/-- **A client is a lawful consumer.** -/
theorem reader_lawful : reader.Lawful where
  fits_left hfit := (fits_append hfit).1
  fits_right hfit := (fits_append hfit).2
  ready hs hfit _ hended := reader_ready hs hfit hended
  feed_append hs hfit _ _ hended := reader_feed_append hs hfit hended
  ended_append hs hfit _ _ hended := reader_ended_append hs hfit hended

end

/-! ## Any two cuts -/

theorem ready_init (h : Host) : (ClientRun.init h).Ready where
  alive := rfl
  silent := rfl
  bevInput := rfl
  inputBuffer := rfl
  spoken := spoken_invariant.fresh
  waiting := .inl ⟨rfl, not_full_iff.mpr (show (0 : Int) < 1023 by decide)⟩

/-- Nothing is lost on the way: the header, the body, what is pending and what has not been
delivered make up the stream. -/
theorem serve_taken (segs : List Bytes) : ∀ {s : ClientRun}, s.released = false →
    Spoken s.client s.client.option →
    taken (reader.serve s segs).client (reader.serve s segs).client.option
        ++ (reader.undelivered s segs).flatten
      = taken s.client s.client.option ++ segs.flatten := by
  induction segs with
  | nil => intro s _ _; rfl
  | cons seg segs ih =>
      intro s hrel hs
      have hnext : taken (reader.feed s seg).client (reader.feed s seg).client.option
          = taken s.client s.client.option ++ seg := by
        have := taken_next hs hrel (.read seg)
        rwa [delivered, delivered, List.append_nil] at this
      rw [Consumer.serve, Consumer.undelivered, List.flatten_cons]
      split
      · rw [hnext, List.append_assoc]
      · rename_i hended
        have hrel' : (reader.feed s seg).released = false := by
          by_contra hno
          exact hended (.inl (by simpa using hno))
        rw [ih hrel' (spoken_invariant.next s (.read seg) hs), hnext, List.append_assoc]

/-- **The segments of a stream do not matter**, as long as each of them has a length that
fits an `int`. -/
theorem segmentation_irrelevant (h : Host) {segs segs' : List Bytes}
    (hcut : segs.flatten = segs'.flatten)
    (hsegs : ∀ seg ∈ segs, (seg.length : Int) ≤ intMax ∧ seg ≠ [])
    (hsegs' : ∀ seg ∈ segs', (seg.length : Int) ≤ intMax ∧ seg ≠ []) :
    (reader.serve (ClientRun.init h) segs).client.httpRequest
        = (reader.serve (ClientRun.init h) segs').client.httpRequest
      ∧ (reader.serve (ClientRun.init h) segs).client.responses
        = (reader.serve (ClientRun.init h) segs').client.responses
      ∧ (reader.serve (ClientRun.init h) segs).released
        = (reader.serve (ClientRun.init h) segs').released
      ∧ (reader.serve (ClientRun.init h) segs).seen = (reader.serve (ClientRun.init h) segs').seen
      ∧ (reader.serve (ClientRun.init h) segs).client.httpRequest.received
          ++ (reader.serve (ClientRun.init h) segs).client.httpRequest.body
          ++ (reader.serve (ClientRun.init h) segs).client.pending
          ++ (reader.undelivered (ClientRun.init h) segs).flatten = segs.flatten := by
  have hseen : (reader.serve (ClientRun.init h) segs).seen
      = (reader.serve (ClientRun.init h) segs').seen :=
    Consumer.serve_congr reader_lawful hcut hsegs hsegs' (ready_init h)
  have hclient := congrArg ClientRun.client hseen
  have htaken := serve_taken segs (s := ClientRun.init h) rfl spoken_invariant.fresh
  have harg := congrArg Client.arg hclient
  have hresponses := congrArg Client.responses hclient
  have hreleased := congrArg ClientRun.released hseen
  exact ⟨congrArg (fun a : Option ClientOption => (a.getD ClientOption.zero).httpRequest) harg,
    hresponses, hreleased, hseen, htaken⟩

/-- A request for another page. -/
def notFound : Bytes := lit "GET / HTTP/1.1\r\n\r\n"

theorem notFound_cut_in_two :
    (reader.serve (ClientRun.init Host.fresh) [notFound.take 7, notFound.drop 7]).client.responses
      = (reader.serve (ClientRun.init Host.fresh) [notFound]).client.responses :=
  (@segmentation_irrelevant Host.fresh [notFound.take 7, notFound.drop 7]
    [notFound] (by decide) (by decide) (by decide)).2.1

theorem recvOut_responses (done : HttpRequestResult) (next : ClientOptionStep) (c : Client)
    (o : ClientOption) (h : Host) (v : HttpRequestResult × HttpRequest × ClientIo) :
    (recvOut done next c o h v).2.1.responses = c.responses := by
  unfold recvOut
  dsimp only
  split
  · rfl
  · split <;> rfl

/-- A length that turns negative is a socket error. -/
theorem httpRequestRecvHeader_long (io : ClientIo) {r : HttpRequest}
    (hfull : isHttpRequestHeaderBufFull r = false)
    (hlen : toInt io.addBuffer.inputBuffer.length < 0) :
    (httpRequestRecvHeader io r).result = .socketError := by
  have hrecv : (evserverRecvClient io 1).len < 0 := by
    unfold evserverRecvClient evbufferRemove
    rw [if_pos (by decide), if_neg (by omega)]
    exact hlen
  unfold httpRequestRecvHeader httpRequestRecvHeaderLoop
  rw [if_neg (by simp [hfull])]
  dsimp only
  rw [if_pos hrecv]

/-- It ends the dialogue of a new client without an answer. -/
theorem init_read_long (h : Host) (seg : Bytes) (hlen : toInt seg.length < 0) :
    ((ClientRun.init h).step (.read seg)).client.responses = [] := by
  rcases (ready_init h).feed seg with ⟨_, _, heq⟩ | ⟨_, t, ht, heq⟩
  · rw [heq]
    rfl
  · rw [heq]
    show t.client.responses = []
    have hlong := httpRequestRecvHeader_long ((ClientRun.init h).client.more seg).toClientIo
      (r := HttpRequest.zero) (not_full_iff.mpr (show (0 : Int) < 1023 by decide))
      (by rw [addBuffer_eq_self rfl]; exact hlen)
    have hview := clientOptionStep_readHeader (c := (ClientRun.init h).client.more seg)
      (o := ClientOption.zero) (h := argInitHost none h) rfl
    have hres : (clientOptionStep ((ClientRun.init h).client.more seg) ClientOption.zero
        (argInitHost none h)).res = .finished := by
      refine (congrArg (·.1) hview).trans ?_
      unfold recvOut HttpRecvOut.view
      dsimp only
      rw [show ClientOption.zero.httpRequest = HttpRequest.zero from rfl, hlong]
      rfl
    have hclient := congrArg (·.2.1.responses) hview
    rw [ht.of_finished hres]
    exact hclient.trans (recvOut_responses _ _ _ _ _ _)

/-- The rest of a stream of `2 ^ 31` bytes that begins with that request. -/
def longRest : Bytes := List.replicate (2147483648 - notFound.length) 0

/-- Delivered in two segments, this stream is answered; in one, it is not. -/
theorem longSegment_differs :
    ¬ ∀ (h : Host) (segs segs' : List Bytes), segs.flatten = segs'.flatten →
        (∀ seg ∈ segs, seg ≠ []) → (∀ seg ∈ segs', seg ≠ []) →
        (reader.serve (ClientRun.init h) segs).client.responses
          = (reader.serve (ClientRun.init h) segs').client.responses := by
  intro hall
  have hlen : (notFound ++ longRest).length = 2147483648 := by
    have hle : notFound.length ≤ 2147483648 := by decide
    rw [List.length_append, longRest, List.length_replicate]
    omega
  have hne : notFound ++ longRest ≠ [] := by
    intro hnil
    rw [hnil] at hlen
    exact absurd hlen (by simp)
  have hne' : longRest ≠ [] := by
    intro hnil
    rw [hnil, List.append_nil] at hlen
    exact absurd hlen (by decide)
  have heq := hall Host.fresh [notFound, longRest] [notFound ++ longRest]
    (by simp) (by simp [hne', show notFound ≠ [] by decide]) (by simpa using hne)
  have htwo : (reader.feed (ClientRun.init Host.fresh) notFound).client.responses = [.error] := by
    decide +kernel
  rw [Consumer.serve_cons_ended (C := reader) (.inr (by rw [htwo]; simp)), htwo] at heq
  have hone := init_read_long Host.fresh (notFound ++ longRest)
    (by rw [hlen]; decide)
  have hserve : ∀ seg, reader.serve (ClientRun.init Host.fresh) [seg]
      = (ClientRun.init Host.fresh).step (.read seg) :=
    fun seg => Consumer.serve_singleton (C := reader) _ seg
  generalize notFound ++ longRest = seg at *
  rw [hserve, hone] at heq
  exact absurd heq (by simp)

end TraceServer
