import TraceServer.Proof.Recv

/-!
# Steps of the dialogue

`DialogueStep` lists the ways out of `_client_option_step`, and `Talks` is `client_talk`
without its fuel: steps as long as they say `AGAIN`, then one that does not. Everything
proved about a client later is a case analysis on the first and an induction on the
second, packaged once as `DialogueInvariant`.
-/

namespace TraceServer

/-! ## One step -/

/-- What a receiving step makes of a result: go on with `next`, wait in `cur`, or give up. -/
inductive RecvExit (done : HttpRequestResult) (next cur : ClientOptionStep) :
    HttpRequestResult → CliOptionRes → ClientOptionStep → Prop
  | done {r : HttpRequestResult} : r = done → RecvExit done next cur r .again next
  | wait {r : HttpRequestResult} : r = .recvEmpty → RecvExit done next cur r .once cur
  | fail {r : HttpRequestResult} : r ≠ done → r ≠ .recvEmpty →
      RecvExit done next cur r .finished cur

/-- What `_client_option_step` can do. -/
inductive DialogueStep (c : Client) (o : ClientOption) (h : Host) : StepOut → Prop
  | header {x : HttpRecvOut} {res : CliOptionRes} {step : ClientOptionStep} :
      o.step = .readHeader → httpRequestRecvHeader c.toClientIo o.httpRequest = x →
      RecvExit .headerRecvSuccess .checkUrlPath .readHeader x.result res step →
      DialogueStep c o h
        ⟨res, { c with toClientIo := x.io }, { o with httpRequest := x.req, step := step }, h,
          x.stores⟩
  | urlPath {step : ClientOptionStep} : o.step = .checkUrlPath →
      (if clientTalkCheckRequestUrlPath o.httpRequest then .readContext else .sendError) = step →
      DialogueStep c o h ⟨.again, c, { o with step := step }, h, []⟩
  | context {x : HttpRecvOut} {os : Os} {res : CliOptionRes} {step : ClientOptionStep} :
      o.step = .readContext → httpRequestRecvContext c.toClientIo o.httpRequest h.os = (x, os) →
      RecvExit .contextRecvSuccess .skylogSave .readContext x.result res step →
      DialogueStep c o h
        ⟨res, { c with toClientIo := x.io }, { o with httpRequest := x.req, step := step },
          { h with os := os }, x.stores⟩
  | save {s : TalkSaveOut} : o.step = .skylogSave → clientTalkSkylogSave c o h = s →
      DialogueStep c o h
        ⟨.again, s.client, { s.option with step := if s.ret then .sendSuccess else .sendError },
          s.host, []⟩
  | respond {r : Response} :
      (r = .ok ∧ o.step = .sendSuccess) ∨ (r = .error ∧ o.step = .sendError) →
      DialogueStep c o h
        ⟨.once, (clientTalkResponse r c h).1, { o with step := .finished },
          (clientTalkResponse r c h).2, []⟩
  | finished : o.step = .finished → DialogueStep c o h ⟨.finished, c, o, h, []⟩

section

variable {c : Client} {o : ClientOption} {h : Host}

theorem clientOptionStep_step : DialogueStep c o h (clientOptionStep c o h) := by
  obtain ⟨skylog, req, step⟩ := o
  cases step with
  | readHeader =>
      unfold clientOptionStep
      dsimp only
      split
      · rename_i hr
        exact .header rfl rfl (.done hr)
      · rename_i hr
        exact .header rfl rfl (.wait hr)
      · rename_i hr hr'
        exact .header rfl rfl (.fail hr hr')
  | checkUrlPath =>
      unfold clientOptionStep
      dsimp only
      split
      · rename_i hu
        exact .urlPath rfl (if_pos hu)
      · rename_i hu
        exact .urlPath rfl (if_neg hu)
  | readContext =>
      unfold clientOptionStep
      dsimp only
      split
      · rename_i hr
        exact .context rfl rfl (.done hr)
      · rename_i hr
        exact .context rfl rfl (.wait hr)
      · rename_i hr hr'
        exact .context rfl rfl (.fail hr hr')
  | skylogSave =>
      have hsave := DialogueStep.save (c := c) (o := ⟨skylog, req, .skylogSave⟩) (h := h) rfl rfl
      unfold clientOptionStep
      dsimp only
      split
      · rename_i hs
        rwa [if_pos hs] at hsave
      · rename_i hs
        rwa [if_neg hs] at hsave
  | sendSuccess => exact .respond (r := .ok) (.inl ⟨rfl, rfl⟩)
  | sendError => exact .respond (r := .error) (.inr ⟨rfl, rfl⟩)
  | finished => exact .finished rfl

/-- What `client_talk_skylog_save` can do: nothing but report a failure, or call
`skylog_save` once and report a success. -/
inductive SaveStep (c : Client) (o : ClientOption) (h : Host) : TalkSaveOut → Prop
  | refused {s : TalkSaveOut} : s.ret = false → s.client = c → s.host = h →
      s.option.httpRequest = o.httpRequest → SaveStep c o h s
  | called {s : TalkSaveOut} {buf : Bytes} {p : Nat} : o.httpRequest.contextBuf = some buf →
      0 < o.httpRequest.dataLen → strstr buf gzipHeader = some p → s.ret = true →
      s.client = { c with saves := c.saves ++
        [⟨parseSkylogInfo o.httpRequest, buf.drop p, payloadLen o.httpRequest.dataLen p, h,
          (skylogSave (parseSkylogInfo o.httpRequest) (buf.drop p)
            (payloadLen o.httpRequest.dataLen p) h).ret⟩] } →
      s.option.httpRequest = o.httpRequest → SaveStep c o h s

theorem clientTalkSkylogSave_step : SaveStep c o h (clientTalkSkylogSave c o h) := by
  unfold clientTalkSkylogSave
  cases hc : o.httpRequest.contextBuf with
  | none => exact .refused rfl rfl rfl rfl
  | some buf =>
      dsimp only
      split
      · exact .refused rfl rfl rfl rfl
      · rename_i hd
        cases hp : strstr buf gzipHeader with
        | none => exact .refused rfl rfl rfl rfl
        | some p => exact .called hc (by omega) hp rfl rfl rfl

/-- A step that says `AGAIN` moves on. -/
theorem DialogueStep.rank_lt {x : StepOut} (hx : DialogueStep c o h x) (hres : x.res = .again) :
    x.option.step.rank < o.step.rank := by
  cases hx with
  | header hs _ he =>
      cases he with
      | done _ => rw [hs]; exact Nat.lt_succ_self _
      | wait _ => exact absurd hres (by simp)
      | fail _ _ => exact absurd hres (by simp)
  | urlPath hs he =>
      rw [hs, ← he]
      dsimp only
      split <;> decide
  | context hs _ he =>
      cases he with
      | done _ => rw [hs]; exact Nat.lt_succ_self _
      | wait _ => exact absurd hres (by simp)
      | fail _ _ => exact absurd hres (by simp)
  | save hs _ =>
      rw [hs]
      dsimp only
      split <;> decide
  | respond _ => exact absurd hres (by simp)
  | finished _ => exact absurd hres (by simp)

end

/-! ## One call of `client_talk` -/

/-- `client_talk` from `client_option_arg_init` on. -/
inductive Talks : Client → ClientOption → Host → TalkOut → Prop
  | again {c : Client} {o : ClientOption} {h : Host} {t : TalkOut} :
      (clientOptionStep c o h).res = .again →
      Talks (clientOptionStep c o h).client (clientOptionStep c o h).option
        (clientOptionStep c o h).host t →
      Talks c o h { t with stores := (clientOptionStep c o h).stores ++ t.stores }
  | once {c : Client} {o : ClientOption} {h : Host} : (clientOptionStep c o h).res = .once →
      Talks c o h ⟨.continue,
        { (clientOptionStep c o h).client with arg := some (clientOptionStep c o h).option },
        (clientOptionStep c o h).host, (clientOptionStep c o h).stores⟩
  | finished {c : Client} {o : ClientOption} {h : Host} : (clientOptionStep c o h).res = .finished →
      Talks c o h ⟨.finished,
        { (clientOptionStep c o h).client with arg := some (clientOptionStep c o h).option },
        (clientOptionStep c o h).host, (clientOptionStep c o h).stores⟩

section

variable {c : Client} {o : ClientOption} {h : Host} {t : TalkOut}

/-- What the result of the first step says about the call. -/
theorem Talks.of_again (ht : Talks c o h t) (hres : (clientOptionStep c o h).res = .again) :
    ∃ t₀, Talks (clientOptionStep c o h).client (clientOptionStep c o h).option
        (clientOptionStep c o h).host t₀
      ∧ t = { t₀ with stores := (clientOptionStep c o h).stores ++ t₀.stores } := by
  cases ht with
  | again _ ht₀ => exact ⟨_, ht₀, rfl⟩
  | once hres' => exact absurd (hres.symm.trans hres') (by simp)
  | finished hres' => exact absurd (hres.symm.trans hres') (by simp)

theorem Talks.of_once (ht : Talks c o h t) (hres : (clientOptionStep c o h).res = .once) :
    t = ⟨.continue,
      { (clientOptionStep c o h).client with arg := some (clientOptionStep c o h).option },
      (clientOptionStep c o h).host, (clientOptionStep c o h).stores⟩ := by
  cases ht with
  | again hres' _ => exact absurd (hres.symm.trans hres') (by simp)
  | once _ => rfl
  | finished hres' => exact absurd (hres.symm.trans hres') (by simp)

theorem Talks.of_finished (ht : Talks c o h t) (hres : (clientOptionStep c o h).res = .finished) :
    t = ⟨.finished,
      { (clientOptionStep c o h).client with arg := some (clientOptionStep c o h).option },
      (clientOptionStep c o h).host, (clientOptionStep c o h).stores⟩ := by
  cases ht with
  | again hres' _ => exact absurd (hres.symm.trans hres') (by simp)
  | once hres' => exact absurd (hres.symm.trans hres') (by simp)
  | finished _ => rfl

end

/-- The fuel of the loop is enough, and what has been stored before does not matter. -/
theorem clientTalkLoop_talks : ∀ (fuel : Nat) {c : Client} {o : ClientOption} {h : Host},
    o.step.rank < fuel → ∃ t, Talks c o h t ∧
      ∀ st, clientTalkLoop fuel c o h st = { t with stores := st ++ t.stores }
  | 0, c, o, h, hf => absurd hf (Nat.not_lt_zero _)
  | fuel + 1, c, o, h, hf => by
      have hx := clientOptionStep_step (c := c) (o := o) (h := h)
      cases hres : (clientOptionStep c o h).res with
      | again =>
          have hlt := hx.rank_lt hres
          obtain ⟨t, ht, heq⟩ := clientTalkLoop_talks fuel (c := (clientOptionStep c o h).client)
            (o := (clientOptionStep c o h).option) (h := (clientOptionStep c o h).host) (by omega)
          refine ⟨_, .again hres ht, ?_⟩
          intro st
          rw [clientTalkLoop]
          simp only [hres]
          rw [heq, List.append_assoc]
      | once =>
          refine ⟨_, .once hres, ?_⟩
          intro st
          rw [clientTalkLoop]
          simp only [hres]
      | finished =>
          refine ⟨_, .finished hres, ?_⟩
          intro st
          rw [clientTalkLoop]
          simp only [hres]

/-- `client_talk` of a client with its `arg`. -/
theorem clientTalk_talks {c : Client} {o : ClientOption} {h : Host} (harg : c.arg = some o) :
    Talks c o h (clientTalk c h) := by
  obtain ⟨t, ht, heq⟩ := clientTalkLoop_talks (o.step.rank + 1) (c := c) (o := o) (h := h)
    (Nat.lt_succ_self _)
  have : clientTalk c h = t := by
    unfold clientTalk
    rw [harg]
    dsimp only
    rw [heq [], List.nil_append]
  rwa [this]

/-- The first `client_talk` of a client. -/
theorem clientTalk_fresh {c : Client} {h : Host} (harg : c.arg = none) :
    (clientTalk c h = ⟨.finished, c, { h with os := h.os.call.2 }, []⟩ ∧ h.os.call.1 = false)
      ∨ (Talks c ClientOption.zero { h with os := h.os.call.2 } (clientTalk c h)
          ∧ h.os.call.1 = true) := by
  unfold clientTalk
  rw [harg]
  dsimp only
  split
  · rename_i ha
    obtain ⟨t, ht, heq⟩ := clientTalkLoop_talks (ClientOption.zero.step.rank + 1) (c := c)
      (o := ClientOption.zero) (h := { h with os := h.os.call.2 }) (Nat.lt_succ_self _)
    rw [heq [], List.nil_append]
    exact .inr ⟨ht, ha⟩
  · rename_i ha
    exact .inl ⟨rfl, by simpa using ha⟩

theorem Talks.unique {c : Client} {o : ClientOption} {h : Host} {t t' : TalkOut}
    (ht : Talks c o h t) (ht' : Talks c o h t') : t = t' := by
  induction ht generalizing t' with
  | again hres _ ih =>
      obtain ⟨t₁, ht₁, rfl⟩ := ht'.of_again hres
      rw [ih ht₁]
  | once hres => exact (ht'.of_once hres).symm
  | finished hres => exact (ht'.of_finished hres).symm

/-! ## Invariants -/

section

variable {P : Client → ClientOption → Prop} {c : Client} {o : ClientOption} {h : Host} {t : TalkOut}

/-- What every step preserves, `client_talk` preserves. -/
theorem Talks.preserves
    (hstep : ∀ {c : Client} {o : ClientOption} {h : Host} {x : StepOut}, P c o →
      DialogueStep c o h x → P x.client x.option)
    (ht : Talks c o h t) (h0 : P c o) :
    ∃ c' o', t.client = { c' with arg := some o' } ∧ P c' o' := by
  induction ht with
  | again _ _ ih => exact ih (hstep h0 clientOptionStep_step)
  | once _ => exact ⟨_, _, rfl, hstep h0 clientOptionStep_step⟩
  | finished _ => exact ⟨_, _, rfl, hstep h0 clientOptionStep_step⟩

/-- What is true of the stores of every step is true of the stores of `client_talk`. -/
theorem Talks.stores {Q : Store → Prop}
    (hstep : ∀ {c : Client} {o : ClientOption} {h : Host} {x : StepOut}, P c o →
      DialogueStep c o h x → P x.client x.option)
    (hstores : ∀ {c : Client} {o : ClientOption} {h : Host} {x : StepOut}, P c o →
      DialogueStep c o h x → ∀ st ∈ x.stores, Q st)
    (ht : Talks c o h t) (h0 : P c o) : ∀ st ∈ t.stores, Q st := by
  induction ht with
  | again _ _ ih =>
      intro st hst
      rcases List.mem_append.mp hst with hst | hst
      · exact hstores h0 clientOptionStep_step st hst
      · exact ih (hstep h0 clientOptionStep_step) st hst
  | once _ => exact hstores h0 clientOptionStep_step
  | finished _ => exact hstores h0 clientOptionStep_step

end

/-- A property of a client and its `client_option_t` that holds from the first callback
to the last. Where `arg` points to is not part of it. -/
structure DialogueInvariant (P : Client → ClientOption → Prop) : Prop where
  fresh : P Client.fresh ClientOption.zero
  step : ∀ {c : Client} {o : ClientOption} {h : Host} {x : StepOut}, P c o →
    DialogueStep c o h x → P x.client x.option
  arg : ∀ {c : Client} {o : ClientOption} (a : Option ClientOption), P c o →
    P { c with arg := a } o
  arrive : ∀ {c : Client} {o : ClientOption} (seg : Bytes), P c o →
    P { c with toClientIo := c.arrive seg } o
  flush : ∀ {c : Client} {o : ClientOption} (n : Nat), P c o →
    P { c with bevOutput := c.bevOutput.drop n } o

namespace DialogueInvariant

variable {P : Client → ClientOption → Prop}

theorem talk (hP : DialogueInvariant P) {c : Client} (h : Host) (h0 : P c c.option) :
    P (clientTalk c h).client (clientTalk c h).client.option := by
  have key : ∀ {o : ClientOption} {h' : Host}, c.option = o → Talks c o h' (clientTalk c h) →
      P (clientTalk c h).client (clientTalk c h).client.option := by
    intro o h' ho ht
    obtain ⟨c', o', hc', hp⟩ := ht.preserves hP.step (ho ▸ h0)
    rw [hc']
    exact hP.arg (some o') hp
  cases harg : c.arg with
  | some o => exact key (by rw [Client.option, harg, Option.getD_some]) (clientTalk_talks harg)
  | none =>
      rcases clientTalk_fresh (h := h) harg with ⟨heq, _⟩ | ⟨ht, _⟩
      · rw [heq]
        exact h0
      · exact key (by rw [Client.option, harg, Option.getD_none]) ht

theorem next (hP : DialogueInvariant P) (s : ClientRun) (e : ClientEvent)
    (h0 : P s.client s.client.option) : P (s.step e).client (s.step e).client.option := by
  unfold ClientRun.step
  split
  · exact h0
  · cases e with
    | read seg => exact hP.talk s.host (hP.arrive seg h0)
    | write => exact hP.talk s.host h0
    | flush n => exact hP.flush n h0
    | others h => exact h0

/-- **The invariant rule for clients.** -/
theorem visited (hP : DialogueInvariant P) (h : Host) (es : List ClientEvent) :
    ∀ s ∈ Machine.trail ClientRun.step (ClientRun.init h) es, P s.client s.client.option :=
  Machine.inv_trail ClientRun.step (fun s => P s.client s.client.option)
    (fun s e hs _ => hP.next s e hs) hP.fresh (Machine.along_true _ _ _)

theorem run (hP : DialogueInvariant P) (h : Host) (es : List ClientEvent) :
    P (Machine.run ClientRun.step (ClientRun.init h) es).client
      (Machine.run ClientRun.step (ClientRun.init h) es).client.option :=
  hP.visited h es _ (Machine.run_mem_trail ClientRun.step _ es)

end DialogueInvariant

end TraceServer
