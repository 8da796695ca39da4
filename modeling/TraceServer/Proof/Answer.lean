import TraceServer.Proof.Dialogue

/-!
# One answer to one request

`Spoken` says how far a dialogue has come: what `step` promises about the request, and
that there is a response exactly when `step` is `FINISHED`. It holds of every client at
every callback, in whatever order the callbacks come, and two results are read off it:

* the buffers of a request are in shape at every callback, and no store of the receive
  loops was ever outside them;
* a client is answered at most once, `200` only for a request that was complete, and
  nothing a client sends after its answer is looked at.
-/

namespace TraceServer

/-! ## How far a dialogue has come -/

/-- A request that may be answered with `200`. -/
structure HttpRequest.Accepted (r : HttpRequest) : Prop where
  header : headerEnd <:+: r.received
  urlPath : clientTalkCheckRequestUrlPath r = true
  context : r.contextBuf ≠ none
  complete : r.dataLen = r.contextLen

/-- What is known of the request when a step is about to be made. -/
def ClientOptionStep.Promise (r : HttpRequest) : ClientOptionStep → Prop
  | .readHeader => r.contextBuf = none
  | .checkUrlPath => r.contextBuf = none ∧ headerEnd <:+: r.received
  | .readContext => headerEnd <:+: r.received ∧ clientTalkCheckRequestUrlPath r = true
  | .skylogSave => headerEnd <:+: r.received ∧ clientTalkCheckRequestUrlPath r = true ∧
      (r.contextBuf ≠ none → r.dataLen = r.contextLen)
  | .sendSuccess => r.Accepted
  | .sendError => True
  | .finished => True

structure Spoken (c : Client) (o : ClientOption) : Prop where
  ok : o.httpRequest.Ok
  promise : o.step.Promise o.httpRequest
  /-- No response before the dialogue is finished. -/
  silent : o.step ≠ .finished → c.responses = []
  /-- One response once it is. -/
  answered : o.step = .finished → ∃ r, c.responses = [r] ∧ (r = .ok → o.httpRequest.Accepted)

/-- The URL is read from the header alone. -/
theorem clientTalkCheckRequestUrlPath_congr {r r' : HttpRequest} (hh : r.header = r'.header)
    (hl : r.headerLen = r'.headerLen) :
    clientTalkCheckRequestUrlPath r = clientTalkCheckRequestUrlPath r' := by
  unfold clientTalkCheckRequestUrlPath httpRequestGetUrlPath httpRequestGetUrl
  rw [hh, hl]

theorem received_congr {r r' : HttpRequest} (hh : r.header = r'.header)
    (hl : r.headerLen = r'.headerLen) : r.received = r'.received := by
  unfold HttpRequest.received
  rw [hh, hl]

/-- A receiving step that does not end in success leaves the dialogue where it was. -/
theorem RecvExit.stay {done r : HttpRequestResult} {next cur step : ClientOptionStep}
    {res : CliOptionRes} (he : RecvExit done next cur r res step) :
    (r = done ∧ step = next) ∨ step = cur := by
  cases he with
  | done hr => exact .inl ⟨hr, rfl⟩
  | wait _ => exact .inr rfl
  | fail _ _ => exact .inr rfl

/-- **Every step keeps the promise of the next.** -/
theorem spoken_step {c : Client} {o : ClientOption} {h : Host} {x : StepOut} (hs : Spoken c o)
    (hx : DialogueStep c o h x) : Spoken x.client x.option := by
  have hpromise := hs.promise
  cases hx with
  | header hstep hrecv he =>
      have hr := httpRequestRecvHeader_spec c.toClientIo hs.ok
      rw [hrecv] at hr
      rw [hstep] at hpromise
      have hsilent : c.responses = [] := hs.silent (by simp [hstep])
      have hnone := hr.contextBuf.trans hpromise
      rcases he.stay with ⟨hdone, rfl⟩ | rfl
      · exact ⟨hr.ok, ⟨hnone, hr.done hdone⟩, fun _ => hsilent, by simp⟩
      · exact ⟨hr.ok, hnone, fun _ => hsilent, by simp⟩
  | urlPath hstep he =>
      rw [hstep] at hpromise
      have hsilent : c.responses = [] := hs.silent (by simp [hstep])
      subst he
      split
      · rename_i hu
        exact ⟨hs.ok, ⟨hpromise.2, hu⟩, fun _ => hsilent, by simp⟩
      · exact ⟨hs.ok, trivial, fun _ => hsilent, by simp⟩
  | context hstep hrecv he =>
      have hr := httpRequestRecvContext_spec c.toClientIo h.os hs.ok
      rw [hrecv] at hr
      rw [hstep] at hpromise
      have hsilent : c.responses = [] := hs.silent (by simp [hstep])
      -- the body does not change the header
      have hheader := hpromise.1
      have hurl := hpromise.2
      rw [← received_congr hr.header hr.headerLen] at hheader
      rw [← clientTalkCheckRequestUrlPath_congr hr.header hr.headerLen] at hurl
      rcases he.stay with ⟨hdone, rfl⟩ | rfl
      · exact ⟨hr.ok, ⟨hheader, hurl, hr.done hdone⟩, fun _ => hsilent, by simp⟩
      · exact ⟨hr.ok, ⟨hheader, hurl⟩, fun _ => hsilent, by simp⟩
  | save hstep hsave =>
      have hv := clientTalkSkylogSave_step (c := c) (o := o) (h := h)
      rw [hsave] at hv
      rw [hstep] at hpromise
      have hsilent : c.responses = [] := hs.silent (by simp [hstep])
      cases hv with
      | refused hret hclient _ hreq =>
          rw [if_neg (by simp [hret]), hclient]
          exact ⟨by rw [hreq]; exact hs.ok, trivial, fun _ => hsilent, by simp⟩
      | called hbuf _ _ hret hclient hreq =>
          rw [if_pos hret, hclient]
          have hne : o.httpRequest.contextBuf ≠ none := by rw [hbuf]; simp
          have hacc : o.httpRequest.Accepted :=
            ⟨hpromise.1, hpromise.2.1, hne, hpromise.2.2 hne⟩
          exact ⟨by rw [hreq]; exact hs.ok, by rw [hreq]; exact hacc, fun _ => hsilent, by simp⟩
  | respond hr =>
      rename_i r
      refine ⟨hs.ok, trivial, fun hne => absurd rfl hne, fun _ => ⟨r, ?_, ?_⟩⟩
      · -- the first response is the only one
        have hsilent : c.responses = [] := by
          rcases hr with ⟨_, hstep⟩ | ⟨_, hstep⟩ <;> exact hs.silent (by simp [hstep])
        show c.responses ++ [r] = [r]
        rw [hsilent, List.nil_append]
      · rintro rfl
        rcases hr with ⟨_, hstep⟩ | ⟨hno, _⟩
        · rw [hstep] at hpromise
          exact hpromise
        · exact absurd hno (by simp)
  | finished _ => exact hs

theorem spoken_invariant : DialogueInvariant Spoken where
  fresh := ⟨HttpRequest.Ok.zero, rfl, fun _ => rfl, by simp [ClientOption.zero]⟩
  step := spoken_step
  arg := fun _ h => ⟨h.ok, h.promise, h.silent, h.answered⟩
  arrive := fun _ h => ⟨h.ok, h.promise, h.silent, h.answered⟩
  flush := fun _ h => ⟨h.ok, h.promise, h.silent, h.answered⟩

theorem stores_inBounds_step {c : Client} {o : ClientOption} {h : Host} {x : StepOut}
    (hs : Spoken c o) (hx : DialogueStep c o h x) : ∀ st ∈ x.stores, st.InBounds := by
  cases hx with
  | header _ hrecv _ =>
      have hr := httpRequestRecvHeader_spec c.toClientIo hs.ok
      rw [hrecv] at hr
      exact hr.stores
  | context _ hrecv _ =>
      have hr := httpRequestRecvContext_spec c.toClientIo h.os hs.ok
      rw [hrecv] at hr
      exact hr.stores
  | urlPath _ _ => simp
  | save _ _ => simp
  | respond _ => simp
  | finished _ => simp

theorem clientTalk_stores {c : Client} (h : Host) (hs : Spoken c c.option) :
    ∀ st ∈ (clientTalk c h).stores, st.InBounds := by
  cases harg : c.arg with
  | some o =>
      rw [Client.option, harg, Option.getD_some] at hs
      exact (clientTalk_talks harg).stores spoken_step stores_inBounds_step hs
  | none =>
      rw [Client.option, harg, Option.getD_none] at hs
      rcases clientTalk_fresh (h := h) harg with ⟨heq, _⟩ | ⟨ht, _⟩
      · rw [heq]
        simp
      · exact ht.stores spoken_step stores_inBounds_step hs

theorem ClientRun.stores_inBounds {s : ClientRun} (hs : Spoken s.client s.client.option)
    (e : ClientEvent) : ∀ st ∈ s.stores e, st.InBounds := by
  unfold ClientRun.stores
  split
  · simp
  · cases e with
    | read seg => exact clientTalk_stores s.host (spoken_invariant.arrive seg hs)
    | write => exact clientTalk_stores s.host hs
    | flush n => simp
    | others h => simp

/-! ## The buffers of a request -/

/-- Past what was received, the header buffer is zero. -/
theorem HttpRequest.Ok.header_zero {r : HttpRequest} (h : r.Ok) {i : Nat}
    (h0 : r.headerLen ≤ i) (hi : i < 1024) : r.header[i]? = some 0 := by
  have hlen := h.received_length
  rw [h.header, List.getElem?_append_right (by omega), List.getElem?_replicate_of_lt (by omega)]

/-- **The buffers of a request hold what its counters say, and no store leaves them.** -/
theorem request_inBounds (h : Host) (es : List ClientEvent) :
    ∀ s ∈ Machine.trail ClientRun.step (ClientRun.init h) es,
      (0 ≤ s.client.httpRequest.headerLen ∧ s.client.httpRequest.headerLen ≤ 1023
        ∧ s.client.httpRequest.header.length = 1024
        ∧ (∀ i : Nat, s.client.httpRequest.headerLen ≤ i → i < 1024 →
            s.client.httpRequest.header[i]? = some 0)
        ∧ ∀ buf, s.client.httpRequest.contextBuf = some buf →
            0 ≤ s.client.httpRequest.dataLen
              ∧ s.client.httpRequest.dataLen ≤ s.client.httpRequest.contextLen
              ∧ (buf.length : Int) = s.client.httpRequest.contextLen + 1)
      ∧ ∀ e, ∀ st ∈ s.stores e, st.InBounds := by
  intro s hs
  have hspoken := spoken_invariant.visited h es s hs
  have hok : s.client.httpRequest.Ok := hspoken.ok
  refine ⟨⟨hok.headerLen_nonneg, hok.headerLen_le, hok.header_length,
    fun i => hok.header_zero, ?_⟩, fun e => s.stores_inBounds hspoken e⟩
  intro buf hbuf
  exact ⟨hok.dataLen_nonneg, (hok.context buf hbuf).2.1, hok.context_length hbuf⟩

/-- A request for another page. -/
def otherPage : List ClientEvent := [.read (lit "GET / HTTP/1.1\r\n\r\n")]

theorem otherPage_inBounds :
    (Machine.run ClientRun.step (ClientRun.init Host.fresh) otherPage).client.httpRequest.headerLen
      ≤ 1023 :=
  (request_inBounds Host.fresh otherPage _ (Machine.run_mem_trail _ _ _)).1.2.1

/-! ## The bytes of the stream -/

/-- What a client has sent in a run. -/
def delivered : List ClientEvent → Bytes
  | [] => []
  | .read seg :: es => seg ++ delivered es
  | _ :: es => delivered es

/-- What has become of it: the header, the body, and what is still pending. -/
def taken (c : Client) (o : ClientOption) : Bytes :=
  o.httpRequest.received ++ o.httpRequest.body ++ c.pending

theorem HttpRequest.Ok.body_nil {r : HttpRequest} (h : r.Ok) (hn : r.contextBuf = none) :
    r.body = [] := by
  unfold HttpRequest.body
  rw [h.noContext hn]
  rfl

theorem clientTalkResponse_pending (r : Response) (c : Client) (h : Host) :
    (clientTalkResponse r c h).1.pending = c.pending := by
  unfold clientTalkResponse evserverSendClient
  dsimp only
  split
  · split
    · split <;> rfl
    · rfl
  · rfl

/-- A step loses no byte and makes none up. -/
theorem taken_step {c : Client} {o : ClientOption} {h : Host} {x : StepOut} (hs : Spoken c o)
    (hx : DialogueStep c o h x) : taken x.client x.option = taken c o := by
  unfold taken
  cases hx with
  | header hstep hrecv _ =>
      have hr := httpRequestRecvHeader_spec c.toClientIo hs.ok
      rw [hrecv] at hr
      have hnone := hs.promise
      rw [hstep] at hnone
      -- while the header is read there is no body to stand in between
      dsimp only
      rw [hr.body, hs.ok.body_nil hnone, List.append_nil, List.append_nil]
      exact hr.conserved
  | context _ hrecv _ =>
      have hr := httpRequestRecvContext_spec c.toClientIo h.os hs.ok
      rw [hrecv] at hr
      dsimp only
      rw [received_congr hr.header hr.headerLen, List.append_assoc, List.append_assoc]
      exact congrArg _ hr.conserved
  | urlPath _ _ => rfl
  | save _ hsave =>
      have hv := clientTalkSkylogSave_step (c := c) (o := o) (h := h)
      rw [hsave] at hv
      cases hv with
      | refused _ hclient _ hreq => dsimp only; rw [hclient, hreq]
      | called _ _ _ _ hclient hreq => dsimp only; rw [hclient, hreq]
  | respond _ => exact congrArg _ (clientTalkResponse_pending _ c h)
  | finished _ => rfl

/-- The two together, and a run's input so far. -/
theorem taken_invariant (b : Bytes) : ∀ {c : Client} {o : ClientOption} {h : Host} {x : StepOut},
    (Spoken c o ∧ taken c o = b) → DialogueStep c o h x →
      (Spoken x.client x.option ∧ taken x.client x.option = b) :=
  fun hs hx => ⟨spoken_step hs.1 hx, (taken_step hs.1 hx).trans hs.2⟩

theorem clientTalk_taken {c : Client} (h : Host) (hs : Spoken c c.option) :
    taken (clientTalk c h).client (clientTalk c h).client.option = taken c c.option := by
  have key : ∀ {o : ClientOption} {h' : Host}, c.option = o → Talks c o h' (clientTalk c h) →
      taken (clientTalk c h).client (clientTalk c h).client.option = taken c c.option := by
    intro o h' ho ht
    obtain ⟨c', o', hc', _, hb⟩ :=
      ht.preserves (taken_invariant (taken c o)) ⟨ho ▸ hs, rfl⟩
    rw [hc', ho]
    exact hb
  cases harg : c.arg with
  | some o => exact key (by rw [Client.option, harg, Option.getD_some]) (clientTalk_talks harg)
  | none =>
      rcases clientTalk_fresh (h := h) harg with ⟨heq, _⟩ | ⟨ht, _⟩
      · rw [heq]
      · exact key (by rw [Client.option, harg, Option.getD_none]) ht

theorem taken_arrive (c : Client) (o : ClientOption) (seg : Bytes) :
    taken { c with toClientIo := c.arrive seg } o = taken c o ++ seg := by
  simp [taken, ClientIo.pending, ClientIo.arrive]

theorem ClientRun.step_released {s : ClientRun} (h : s.released = true) (e : ClientEvent) :
    s.step e = s := by
  unfold ClientRun.step
  rw [if_pos h]

theorem ClientRun.run_released {s : ClientRun} (h : s.released = true) (es : List ClientEvent) :
    Machine.run ClientRun.step s es = s := by
  induction es with
  | nil => rfl
  | cons e es ih => rw [Machine.run_cons, ClientRun.step_released h, ih]

theorem taken_next {s : ClientRun} (hs : Spoken s.client s.client.option)
    (hrel : s.released = false) (e : ClientEvent) :
    taken (s.step e).client (s.step e).client.option
      = taken s.client s.client.option ++ delivered [e] := by
  unfold ClientRun.step
  rw [if_neg (by simp [hrel])]
  cases e with
  | read seg =>
      have h1 := clientTalk_taken s.host (spoken_invariant.arrive seg hs)
      rw [delivered, delivered, List.append_nil, ← taken_arrive]
      exact h1
  | write => exact (clientTalk_taken s.host hs).trans (List.append_nil _).symm
  | flush n => exact (List.append_nil _).symm
  | others h => exact (List.append_nil _).symm

theorem delivered_append (es fs : List ClientEvent) :
    delivered (es ++ fs) = delivered es ++ delivered fs := by
  induction es with
  | nil => rfl
  | cons e es ih => cases e <;> simp [delivered, ih]

theorem delivered_cons (e : ClientEvent) (es : List ClientEvent) :
    delivered (e :: es) = delivered [e] ++ delivered es := delivered_append [e] es

/-- **What a run has made of the stream**: everything delivered up to the client's end is
in the header buffer, in the body buffer or pending, in this order. -/
theorem taken_run {s : ClientRun} (hs : Spoken s.client s.client.option) (es : List ClientEvent) :
    ∃ rest, taken s.client s.client.option ++ delivered es
      = taken (Machine.run ClientRun.step s es).client
          (Machine.run ClientRun.step s es).client.option ++ rest := by
  induction es generalizing s with
  | nil => exact ⟨[], rfl⟩
  | cons e es ih =>
      cases hrel : s.released with
      | true =>
          -- nothing is read any more
          rw [ClientRun.run_released hrel]
          exact ⟨_, rfl⟩
      | false =>
          obtain ⟨rest, hrest⟩ := ih (spoken_invariant.next s e hs)
          refine ⟨rest, ?_⟩
          rw [Machine.run_cons, ← hrest, taken_next hs hrel, delivered_cons, List.append_assoc]

/-! ## One answer -/

/-- A dialogue that is finished does nothing any more. -/
theorem clientTalk_finished {c : Client} {o : ClientOption} (harg : c.arg = some o)
    (hfin : o.step = .finished) (h : Host) : clientTalk c h = ⟨.finished, c, h, []⟩ := by
  obtain ⟨io, arg, responses, saves⟩ := c
  obtain rfl : arg = some o := harg
  unfold clientTalk
  dsimp only
  rw [hfin]
  unfold ClientOptionStep.rank clientTalkLoop clientOptionStep
  rw [hfin]
  rfl

/-- A client that has been answered is at the end of its dialogue. -/
theorem Spoken.finished_of_answered {c : Client} (hs : Spoken c c.option)
    (hne : c.responses ≠ []) : ∃ o, c.arg = some o ∧ o.step = .finished := by
  have hfin : c.option.step = .finished := by
    by_contra hstep
    exact hne (hs.silent hstep)
  cases harg : c.arg with
  | some o =>
      rw [Client.option, harg, Option.getD_some] at hfin
      exact ⟨o, rfl, hfin⟩
  | none =>
      rw [Client.option, harg, Option.getD_none] at hfin
      exact absurd hfin (by decide)

theorem checkUrlPath_iff {r : HttpRequest} (h : clientTalkCheckRequestUrlPath r = true) :
    httpRequestGetUrlPath r 254 = some skylogRequestUrlPath := by
  have h' : (httpRequestGetUrlPath r 254).getD [] = skylogRequestUrlPath := by
    simpa [clientTalkCheckRequestUrlPath] using h
  cases hp : httpRequestGetUrlPath r 254 with
  | none =>
      rw [hp] at h'
      exact absurd h' (by decide)
  | some path => rw [← h', hp, Option.getD_some]

/-- **A client is answered at most once**, with `200` only when it has sent a complete
upload, and what it sends after the answer changes nothing. -/
theorem client_answered_once (h : Host) (es : List ClientEvent) :
    ∀ s ∈ Machine.trail ClientRun.step (ClientRun.init h) es,
      s.client.responses.length ≤ 1
      ∧ (Response.ok ∈ s.client.responses →
          headerEnd <:+: s.client.httpRequest.received
          ∧ httpRequestGetUrlPath s.client.httpRequest 254 = some skylogRequestUrlPath
          ∧ s.client.httpRequest.dataLen = s.client.httpRequest.contextLen
          ∧ 0 < s.client.httpRequest.contextLen
          ∧ (s.client.httpRequest.body.length : Int) = s.client.httpRequest.contextLen
          ∧ ∃ rest, delivered es
              = s.client.httpRequest.received ++ s.client.httpRequest.body ++ rest)
      ∧ (s.client.responses ≠ [] → ∀ (seg : Bytes) (h' : Host),
          clientTalk { s.client with toClientIo := s.client.arrive seg } h'
            = ⟨.finished, { s.client with toClientIo := s.client.arrive seg }, h', []⟩) := by
  intro s hmem
  have hs := spoken_invariant.visited h es s hmem
  refine ⟨?_, ?_, ?_⟩
  · by_cases hfin : s.client.option.step = .finished
    · obtain ⟨r, hr, _⟩ := hs.answered hfin
      rw [hr]
      exact Nat.le_refl 1
    · rw [hs.silent hfin]
      exact Nat.zero_le 1
  · intro hok
    have hfin : s.client.option.step = .finished := by
      by_contra hstep
      rw [hs.silent hstep] at hok
      exact absurd hok (by simp)
    obtain ⟨r, hr, hacc⟩ := hs.answered hfin
    rw [hr] at hok
    have hacc' : s.client.httpRequest.Accepted := hacc (List.mem_singleton.mp hok).symm
    obtain ⟨buf, hbuf⟩ := Option.ne_none_iff_exists'.mp hacc'.context
    have hlen := hs.ok.body_length
    obtain ⟨fs, gs, rfl, rfl⟩ := (Machine.mem_trail_iff ClientRun.step).mp hmem
    obtain ⟨rest, hrest⟩ := taken_run (s := ClientRun.init h) spoken_invariant.fresh fs
    have hfs : delivered fs = taken _ _ ++ rest := hrest
    refine ⟨hacc'.header, checkUrlPath_iff hacc'.urlPath, hacc'.complete,
      (hs.ok.context buf hbuf).1, hlen.trans hacc'.complete, ?_⟩
    rw [delivered_append, hfs, taken, List.append_assoc, List.append_assoc]
    exact ⟨_, rfl⟩
  · intro hne seg h'
    obtain ⟨o, harg, hfin⟩ := hs.finished_of_answered hne
    exact clientTalk_finished (c := { s.client with toClientIo := s.client.arrive seg }) harg hfin h'

/-- An upload whose body is three bytes, the magic. -/
def shortUpload : List ClientEvent :=
  [.read (lit "POST /index HTTP/1.1\r\nContent-Length:3\r\n\r\n" ++ [0x1f, 0x8b, 0x08])]

theorem shortUpload_answered_once :
    (Machine.run ClientRun.step (ClientRun.init Host.fresh) shortUpload).client.responses.length ≤ 1
      ∧ headerEnd <:+: (Machine.run ClientRun.step (ClientRun.init Host.fresh)
          shortUpload).client.httpRequest.received := by
  obtain ⟨honce, hok, _⟩ :=
    client_answered_once Host.fresh shortUpload _ (Machine.run_mem_trail _ _ _)
  exact ⟨honce, (hok (by decide +kernel)).1⟩

end TraceServer
