import TraceServer.Proof.Answer

/-!
# Is the answer sent before the client is released?

A response is put into the bufferevent by one callback and the client is released by a
later one, the first that finds the dialogue finished. libevent calls the write
callback once the output has drained, and then the release is harmless. But the read
callback runs the same `client_talk`, so any byte that arrives while output is waiting
has the client released there and then, and `bufferevent_free` throws the output away.

`released_flushed_iff` says that this is the only way: in every run the answer is lost
exactly when a read callback runs on a client with unsent output.
-/

namespace TraceServer

/-- What libevent promises: the write callback comes when the output has drained. -/
def WriteOnDrain (s : ClientRun) (e : ClientEvent) : Prop :=
  e = .write → s.client.bevOutput = []

/-- No read callback on a client with unsent output. -/
def ReadWhenFlushed (s : ClientRun) (e : ClientEvent) : Prop :=
  ∀ seg, e = .read seg → s.released = false → s.client.bevOutput = []

/-- A released client leaves nothing unsent. -/
def ReleasedFlushed (s : ClientRun) : Prop := s.released = true → s.client.bevOutput = []

/-! ## Output and the end of a dialogue -/

/-- Only the step that answers touches the output. -/
theorem bevOutput_step {c : Client} {o : ClientOption} {h : Host} {x : StepOut}
    (hok : o.httpRequest.Ok) (hx : DialogueStep c o h x) :
    x.client.bevOutput = c.bevOutput ∨ (x.res = .once ∧ x.option.step = .finished) := by
  cases hx with
  | header _ hrecv _ =>
      have hr := httpRequestRecvHeader_spec c.toClientIo hok
      rw [hrecv] at hr
      exact .inl hr.bevOutput
  | urlPath _ _ => exact .inl rfl
  | context _ hrecv _ =>
      have hr := httpRequestRecvContext_spec c.toClientIo h.os hok
      rw [hrecv] at hr
      exact .inl hr.bevOutput
  | save _ hsave =>
      have hv := clientTalkSkylogSave_step (c := c) (o := o) (h := h)
      rw [hsave] at hv
      cases hv with
      | refused _ hclient _ _ => exact .inl (by dsimp only; rw [hclient])
      | called _ _ _ _ hclient _ => exact .inl (by dsimp only; rw [hclient])
  | respond _ => exact .inr ⟨rfl, rfl⟩
  | finished _ => exact .inl rfl

/-- A finished dialogue stays finished. -/
theorem finished_step {c : Client} {o : ClientOption} {h : Host} {x : StepOut}
    (hfin : o.step = .finished) (hx : DialogueStep c o h x) : x.option.step = .finished := by
  cases hx with
  | header hstep _ _ => exact absurd (hfin.symm.trans hstep) (by simp)
  | urlPath hstep _ => exact absurd (hfin.symm.trans hstep) (by simp)
  | context hstep _ _ => exact absurd (hfin.symm.trans hstep) (by simp)
  | save hstep _ => exact absurd (hfin.symm.trans hstep) (by simp)
  | respond _ => rfl
  | finished _ => exact hfin

/-- Output is waiting only once the dialogue is finished. -/
structure OutputLast (c : Client) (o : ClientOption) : Prop where
  spoken : Spoken c o
  unsent : c.bevOutput ≠ [] → o.step = .finished

theorem outputLast_invariant : DialogueInvariant OutputLast where
  fresh := ⟨spoken_invariant.fresh, fun h => absurd rfl h⟩
  step := by
    intro c o h x hs hx
    refine ⟨spoken_step hs.spoken hx, ?_⟩
    intro hne
    rcases bevOutput_step hs.spoken.ok hx with heq | ⟨_, hfin⟩
    · exact finished_step (hs.unsent (heq ▸ hne)) hx
    · exact hfin
  arg := fun a h => ⟨spoken_invariant.arg a h.spoken, h.unsent⟩
  arrive := fun seg h => ⟨spoken_invariant.arrive seg h.spoken, h.unsent⟩
  flush := fun n h => ⟨spoken_invariant.flush n h.spoken, fun hne =>
    h.unsent fun hnil => hne (by rw [hnil]; exact List.drop_nil)⟩

/-- A `client_talk` that ends the dialogue has queued nothing. -/
theorem Talks.bevOutput_of_finished {c : Client} {o : ClientOption} {h : Host} {t : TalkOut}
    (ht : Talks c o h t) (hs : Spoken c o) (hfin : t.result = .finished) :
    t.client.bevOutput = c.bevOutput := by
  induction ht with
  | again hres _ ih =>
      rcases bevOutput_step hs.ok clientOptionStep_step with heq | ⟨honce, _⟩
      · exact (ih (spoken_step hs clientOptionStep_step) hfin).trans heq
      · exact absurd (hres.symm.trans honce) (by simp)
  | once _ => exact absurd hfin (by simp)
  | finished hres =>
      rcases bevOutput_step hs.ok clientOptionStep_step with heq | ⟨honce, _⟩
      · exact heq
      · exact absurd (hres.symm.trans honce) (by simp)

theorem clientTalk_bevOutput {c : Client} (h : Host) (hs : Spoken c c.option)
    (hfin : (clientTalk c h).result = .finished) :
    (clientTalk c h).client.bevOutput = c.bevOutput := by
  cases harg : c.arg with
  | some o =>
      rw [Client.option, harg, Option.getD_some] at hs
      exact (clientTalk_talks harg).bevOutput_of_finished hs hfin
  | none =>
      rw [Client.option, harg, Option.getD_none] at hs
      rcases clientTalk_fresh (h := h) harg with ⟨heq, _⟩ | ⟨ht, _⟩
      · rw [heq]
      · exact ht.bevOutput_of_finished hs hfin

/-! ## Release -/

/-- A callback on a client with nothing unsent releases it with nothing unsent. -/
theorem talk_releasedFlushed {s : ClientRun} {c : Client} (hs : Spoken c c.option)
    (hsent : c.bevOutput = []) : ReleasedFlushed (s.talk c) := by
  intro hrel
  have hfin : (clientTalk c s.host).result = .finished := by simpa [ClientRun.talk] using hrel
  exact (clientTalk_bevOutput s.host hs hfin).trans hsent

theorem releasedFlushed_step {s : ClientRun} (hs : OutputLast s.client s.client.option)
    (hf : ReleasedFlushed s) {e : ClientEvent} (hw : WriteOnDrain s e) (hr : ReadWhenFlushed s e) :
    ReleasedFlushed (s.step e) := by
  unfold ClientRun.step
  split
  · exact hf
  · rename_i hrel
    cases e with
    | read seg =>
        have hsent := hr seg rfl (by simpa using hrel)
        exact talk_releasedFlushed (spoken_invariant.arrive seg hs.spoken) hsent
    | write => exact talk_releasedFlushed hs.spoken (hw rfl)
    | flush n => exact fun h => absurd h hrel
    | others h => exact fun h => absurd h hrel

/-- A read callback on a client with unsent output releases it. -/
theorem read_unsent {s : ClientRun} (hs : OutputLast s.client s.client.option) {seg : Bytes}
    (hrel : s.released = false) (hne : s.client.bevOutput ≠ []) :
    ¬ ReleasedFlushed (s.step (.read seg)) := by
  obtain ⟨o, harg, hfin⟩ : ∃ o, s.client.arg = some o ∧ o.step = .finished := by
    have hfin := hs.unsent hne
    cases harg : s.client.arg with
    | some o =>
        rw [Client.option, harg, Option.getD_some] at hfin
        exact ⟨o, rfl, hfin⟩
    | none =>
        rw [Client.option, harg, Option.getD_none] at hfin
        exact absurd hfin (by decide)
  have htalk := clientTalk_finished (c := { s.client with toClientIo := s.client.arrive seg })
    harg hfin s.host
  have hstep : s.step (.read seg)
      = ⟨{ s.client with toClientIo := s.client.arrive seg }, s.host, true⟩ := by
    unfold ClientRun.step
    rw [if_neg (by simp [hrel])]
    show ClientRun.talk s _ = _
    unfold ClientRun.talk
    rw [htalk]
    simp
  rw [hstep]
  exact fun hflushed => hne (hflushed rfl)

/-- **The answer is lost exactly when bytes arrive before it is sent.** -/
theorem released_flushed_iff (h : Host) (es : List ClientEvent)
    (hw : Machine.Along ClientRun.step WriteOnDrain (ClientRun.init h) es) :
    (∀ s ∈ Machine.trail ClientRun.step (ClientRun.init h) es,
        s.released = true → s.client.bevOutput = [])
      ↔ Machine.Along ClientRun.step ReadWhenFlushed (ClientRun.init h) es := by
  refine Machine.trail_iff_along ClientRun.step
    (fun s => OutputLast s.client s.client.option ∧ ReleasedFlushed s) ReleasedFlushed
    (fun s hs => hs.2) ?_ ?_ ⟨outputLast_invariant.fresh, fun _ => rfl⟩ hw
  · intro s e hs hw hr
    exact ⟨outputLast_invariant.next s e hs.1, releasedFlushed_step hs.1 hs.2 hw hr⟩
  · intro s e hs _ hr
    unfold ReadWhenFlushed at hr
    push Not at hr
    obtain ⟨seg, rfl, hrel, hne⟩ := hr
    exact read_unsent hs.1 hrel hne

/-- A request for another page, then one byte more. -/
def lateByte : List ClientEvent := [.read (lit "GET / HTTP/1.1\r\n\r\n"), .read [0]]

/-- The client is released with its `400` unsent. -/
theorem lateByte_unsent :
    ¬ (Machine.Along ClientRun.step WriteOnDrain (ClientRun.init Host.fresh) lateByte →
        ∀ s ∈ Machine.trail ClientRun.step (ClientRun.init Host.fresh) lateByte,
          s.released = true → s.client.bevOutput = []) := by
  intro hall
  have hlost := hall ⟨by simp [WriteOnDrain], by simp [WriteOnDrain], trivial⟩ _
    (Machine.run_mem_trail ClientRun.step _ _) (by decide +kernel)
  exact absurd hlost (by decide +kernel)

/-- The same request with nothing after it: the answer is sent, then the client is released. -/
def flushedAnswer : List ClientEvent :=
  [.read (lit "GET / HTTP/1.1\r\n\r\n"), .flush 1024, .write]

theorem flushedAnswer_sent :
    Machine.Along ClientRun.step WriteOnDrain (ClientRun.init Host.fresh) flushedAnswer
      ∧ ∀ s ∈ Machine.trail ClientRun.step (ClientRun.init Host.fresh) flushedAnswer,
        s.released = true → s.client.bevOutput = [] := by
  have hw : Machine.Along ClientRun.step WriteOnDrain (ClientRun.init Host.fresh) flushedAnswer :=
    ⟨by simp [WriteOnDrain], by simp [WriteOnDrain], fun _ => by decide +kernel, trivial⟩
  refine ⟨hw, (released_flushed_iff Host.fresh flushedAnswer hw).mpr ?_⟩
  exact ⟨fun _ _ _ => by decide +kernel, by simp [ReadWhenFlushed], by simp [ReadWhenFlushed],
    trivial⟩

end TraceServer
