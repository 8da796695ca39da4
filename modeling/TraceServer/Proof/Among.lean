import TraceServer.Proof.Complete
import TraceServer.Proof.Flush

/-!
# A client among others is told what it would be told alone

What the others do to the files and to the clock between two callbacks of a client is not seen by
its dialogue until the log is saved, as long as there is memory. So a client that waits is the same
among others as alone, and one that has been answered has been told the same, and the same has been
asked of `skylog_save`.

`Follows` is the simulation: it pairs a client that waits with one that is alone and that still has
to get what is missing in a single segment (`told_alike`).
-/

namespace TraceServer

/-- What `skylog_save` has been asked to save. -/
def SaveCall.asked (x : SaveCall) : Skylog × Bytes × Int := (x.skylog, x.data, x.dataLen)

/-- Two clients that have been answered alike. -/
structure ToldAlike (c c' : Client) : Prop where
  told : c.responses ≠ []
  responses : c'.responses = c.responses
  saves : c'.saves.map SaveCall.asked = c.saves.map SaveCall.asked

/-- What two calls for the same client come to, of which the first was made on `h`. -/
def TalkAlike (h : Host) (t t' : TalkOut) : Prop :=
  t'.result = t.result
    ∧ ((t'.client = t.client ∧ t.host.os.outcome = h.os.outcome) ∨ ToldAlike t.client t'.client)

section

variable {c c' : Client} {o o' : ClientOption} {h h' : Host} {t t' : TalkOut}

/-! ## One call on two hosts -/

theorem TalkAlike.of_view {t₁ t₁' : TalkOut} (halike : TalkAlike h t₁ t₁')
    (hview : t.view = t₁.view)
    (hview' : t'.view = t₁'.view) : TalkAlike h t t' := by
  unfold TalkAlike at halike ⊢
  rwa [show t.result = t₁.result from congrArg (·.1) hview,
    show t.client = t₁.client from congrArg (·.2.1) hview,
    show t.host = t₁.host from congrArg (·.2.2) hview,
    show t'.result = t₁'.result from congrArg (·.1) hview',
    show t'.client = t₁'.client from congrArg (·.2.1) hview']

theorem Talks.waits_once {h₁ : Host} (ht : Talks c o h t)
    (hstep : (clientOptionStep c o h).view = (.once, c', o', h₁)) :
    t.result = .continue ∧ t.client = { c' with arg := some o' } ∧ t.host = h₁ := by
  obtain ⟨hres, rfl, rfl, rfl⟩ := StepOut.view_eq hstep
  rw [ht.of_once hres]
  exact ⟨rfl, rfl, rfl⟩

theorem Talks.ends_finished {h₁ : Host} (ht : Talks c o h t)
    (hstep : (clientOptionStep c o h).view = (.finished, c', o', h₁)) :
    t.result = .finished ∧ t.client = { c' with arg := some o' } ∧ t.host = h₁ := by
  obtain ⟨hres, rfl, rfl, rfl⟩ := StepOut.view_eq hstep
  rw [ht.of_finished hres]
  exact ⟨rfl, rfl, rfl⟩

/-- Two clients that are about to get the same answer. -/
theorem talkAlike_respond {r : Response} (ht : Talks c o h t) (ht' : Talks c' o' h' t')
    (hstep : (r = .ok ∧ o.step = .sendSuccess) ∨ (r = .error ∧ o.step = .sendError))
    (hstep' : (r = .ok ∧ o'.step = .sendSuccess) ∨ (r = .error ∧ o'.step = .sendError))
    (hresponses : c'.responses = c.responses)
    (hsaves : c'.saves.map SaveCall.asked = c.saves.map SaveCall.asked) (h₀ : Host) :
    TalkAlike h₀ t t' := by
  have hview := ht.respond hstep
  have hview' := ht'.respond hstep'
  have hclient : t.client = _ := congrArg (·.2.1) hview
  have hclient' : t'.client = _ := congrArg (·.2.1) hview'
  refine ⟨(congrArg (·.1) hview').trans (congrArg (·.1) hview).symm, .inr ⟨?_, ?_, ?_⟩⟩
  · rw [hclient]
    exact List.append_ne_nil_of_right_ne_nil _ (List.cons_ne_nil _ _)
  · rw [hclient, hclient']
    exact congrArg (· ++ [r]) hresponses
  · rw [hclient, hclient']
    exact hsaves

/-- What is saved does not depend on the host. -/
theorem clientTalkSkylogSave_alike (c : Client) (o : ClientOption) (h h' : Host) :
    (clientTalkSkylogSave c o h').ret = (clientTalkSkylogSave c o h).ret
      ∧ (clientTalkSkylogSave c o h').client.responses = (clientTalkSkylogSave c o h).client.responses
      ∧ (clientTalkSkylogSave c o h').client.saves.map SaveCall.asked
        = (clientTalkSkylogSave c o h).client.saves.map SaveCall.asked := by
  unfold clientTalkSkylogSave
  cases o.httpRequest.contextBuf with
  | none => exact ⟨rfl, rfl, rfl⟩
  | some buf =>
      dsimp only
      split
      · exact ⟨rfl, rfl, rfl⟩
      · cases strstr buf gzipHeader with
        | none => exact ⟨rfl, rfl, rfl⟩
        | some p => exact ⟨rfl, rfl, by simp [SaveCall.asked]⟩

theorem talkAlike_save (hstep : o.step = .skylogSave) (ht : Talks c o h t) (ht' : Talks c o h' t')
    (h₀ : Host) : TalkAlike h₀ t t' := by
  obtain ⟨t₁, ht₁, hview⟩ := ht.next (clientOptionStep_skylogSave hstep)
  obtain ⟨t₁', ht₁', hview'⟩ := ht'.next (clientOptionStep_skylogSave hstep)
  obtain ⟨hret, hresponses, hsaves⟩ := clientTalkSkylogSave_alike c o h h'
  have hanswer : TalkAlike h₀ t₁ t₁' := by
    rw [hret] at ht₁'
    cases hsaved : (clientTalkSkylogSave c o h).ret with
    | true =>
        rw [hsaved] at ht₁ ht₁'
        exact talkAlike_respond (r := .ok) ht₁ ht₁' (.inl ⟨rfl, rfl⟩) (.inl ⟨rfl, rfl⟩) hresponses
          hsaves h₀
    | false =>
        rw [hsaved] at ht₁ ht₁'
        exact talkAlike_respond (r := .error) ht₁ ht₁' (.inr ⟨rfl, rfl⟩) (.inr ⟨rfl, rfl⟩) hresponses
          hsaves h₀
  exact hanswer.of_view hview hview'

/-- What `_httpRequest_recv_context` wants of the system is memory. -/
theorem httpRequestRecvContext_hosts (io : ClientIo) (r : HttpRequest) {os os' : Os}
    (hmem : os.answer.succeeds = true) (hmem' : os'.answer.succeeds = true) :
    (httpRequestRecvContext io r os').1 = (httpRequestRecvContext io r os).1
      ∧ (httpRequestRecvContext io r os).2.outcome = os.outcome := by
  have hcalloc : ∀ n, (os'.calloc n).1 = (os.calloc n).1 := by
    intro n
    rw [Os.calloc, Os.calloc, hmem, hmem']
  have hinit : (httpRequestContextBufInit r os').1 = (httpRequestContextBufInit r os).1
      ∧ (httpRequestContextBufInit r os').2.1 = (httpRequestContextBufInit r os).2.1
      ∧ (httpRequestContextBufInit r os).2.2.outcome = os.outcome := by
    unfold httpRequestContextBufInit
    split
    · dsimp only
      split
      · rw [hcalloc]
        split <;> exact ⟨rfl, rfl, rfl⟩
      · exact ⟨rfl, rfl, rfl⟩
    · exact ⟨rfl, rfl, rfl⟩
  obtain ⟨hret, hreq, hout⟩ := hinit
  unfold httpRequestRecvContext
  dsimp only
  rw [hret, hreq]
  split
  · exact ⟨rfl, hout⟩
  · split <;> exact ⟨rfl, hout⟩

/-- A step that goes on, waits or ends alike on both hosts. -/
theorem talkAlike_recv {done : HttpRequestResult} {next : ClientOptionStep} {h₁ h₁' : Host}
    {v : HttpRequestResult × HttpRequest × ClientIo} (ht : Talks c o h t) (ht' : Talks c o h' t')
    (hview : (clientOptionStep c o h).view = recvOut done next c o h₁ v)
    (hview' : (clientOptionStep c o h').view = recvOut done next c o h₁' v)
    (hout : h₁.os.outcome = h.os.outcome)
    (hdone : ∀ {t₁ t₁' : TalkOut},
      Talks { c with toClientIo := v.2.2 } { o with httpRequest := v.2.1, step := next } h₁ t₁ →
      Talks { c with toClientIo := v.2.2 } { o with httpRequest := v.2.1, step := next } h₁' t₁' →
      TalkAlike h t₁ t₁') : TalkAlike h t t' := by
  unfold recvOut at hview hview'
  dsimp only at hview hview'
  split at hview
  · rename_i hgo
    rw [if_pos hgo] at hview'
    obtain ⟨t₁, ht₁, hsame⟩ := ht.next hview
    obtain ⟨t₁', ht₁', hsame'⟩ := ht'.next hview'
    exact (hdone ht₁ ht₁').of_view hsame hsame'
  · rename_i hno
    rw [if_neg hno] at hview'
    split at hview
    · rename_i hempty
      rw [if_pos hempty] at hview'
      obtain ⟨hresult, hclient, hhost⟩ := ht.waits_once hview
      obtain ⟨hresult', hclient', _⟩ := ht'.waits_once hview'
      exact ⟨hresult'.trans hresult.symm, .inl ⟨hclient'.trans hclient.symm, by rw [hhost, hout]⟩⟩
    · rename_i hempty
      rw [if_neg hempty] at hview'
      obtain ⟨hresult, hclient, hhost⟩ := ht.ends_finished hview
      obtain ⟨hresult', hclient', _⟩ := ht'.ends_finished hview'
      exact ⟨hresult'.trans hresult.symm, .inl ⟨hclient'.trans hclient.symm, by rw [hhost, hout]⟩⟩

theorem talkAlike_context (hstep : o.step = .readContext) (ht : Talks c o h t)
    (ht' : Talks c o h' t') (hmem : h.os.answer.succeeds = true)
    (hmem' : h'.os.answer.succeeds = true) : TalkAlike h t t' := by
  obtain ⟨hrecv, hout⟩ := httpRequestRecvContext_hosts c.toClientIo o.httpRequest hmem hmem'
  have hview' := clientOptionStep_readContext (c := c) (h := h') hstep
  rw [hrecv] at hview'
  exact talkAlike_recv ht ht' (clientOptionStep_readContext hstep) hview' hout
    fun ht₁ ht₁' => talkAlike_save rfl ht₁ ht₁' h

theorem talkAlike_urlPath (hstep : o.step = .checkUrlPath) (ht : Talks c o h t)
    (ht' : Talks c o h' t') (hmem : h.os.answer.succeeds = true)
    (hmem' : h'.os.answer.succeeds = true) : TalkAlike h t t' := by
  have hview : ∀ h : Host, (clientOptionStep c o h).view = (.again, c,
      { o with
        step := if clientTalkCheckRequestUrlPath o.httpRequest then .readContext else .sendError },
      h) := by
    intro h
    unfold clientOptionStep
    rw [hstep]
    dsimp only
    split <;> rfl
  obtain ⟨t₁, ht₁, hsame⟩ := ht.next (hview h)
  obtain ⟨t₁', ht₁', hsame'⟩ := ht'.next (hview h')
  refine TalkAlike.of_view ?_ hsame hsame'
  cases hpath : clientTalkCheckRequestUrlPath o.httpRequest with
  | true =>
      rw [hpath] at ht₁ ht₁'
      exact talkAlike_context rfl ht₁ ht₁' hmem hmem'
  | false =>
      rw [hpath] at ht₁ ht₁'
      exact talkAlike_respond (r := .error) ht₁ ht₁' (.inr ⟨rfl, rfl⟩) (.inr ⟨rfl, rfl⟩) rfl rfl h

/-- **One call for a client that waits**, on two hosts that have memory. -/
theorem talkAlike_waiting (hwaiting : o.Waiting) (ht : Talks c o h t) (ht' : Talks c o h' t')
    (hmem : h.os.answer.succeeds = true) (hmem' : h'.os.answer.succeeds = true) :
    TalkAlike h t t' := by
  rcases hwaiting with ⟨hstep, _⟩ | ⟨hstep, _⟩
  · exact talkAlike_recv ht ht' (clientOptionStep_readHeader hstep)
      (clientOptionStep_readHeader hstep) rfl fun ht₁ ht₁' => talkAlike_urlPath rfl ht₁ ht₁' hmem hmem'
  · exact talkAlike_context hstep ht ht' hmem hmem'

end

/-! ## One delivery -/

theorem argInitHost_memory {h : Host} (hmem : HasMemory h) (arg : Option ClientOption) :
    (argInitHost arg h).os.answer.succeeds = true
      ∧ (argInitHost arg h).os.outcome = h.os.outcome := by
  unfold argInitHost
  split
  · exact ⟨hmem.option, rfl⟩
  · exact ⟨hmem.context, rfl⟩

/-- **A segment for a client that waits**, among others and alone. -/
theorem ClientRun.Ready.read_alike {r r' : ClientRun} (hr : r.Ready) (hr' : r'.Ready)
    (hclient : r'.client = r.client) (hmem : HasMemory r.host) (hmem' : HasMemory r'.host)
    (seg : Bytes) :
    (r'.step (.read seg)).released = (r.step (.read seg)).released
      ∧ (((r'.step (.read seg)).client = (r.step (.read seg)).client
          ∧ (r.step (.read seg)).host.os.outcome = r.host.os.outcome)
        ∨ ToldAlike (r.step (.read seg)).client (r'.step (.read seg)).client) := by
  obtain ⟨t, ht, heq⟩ := hr.feed_of_alloc (.inr hmem.option) seg
  obtain ⟨t', ht', heq'⟩ := hr'.feed_of_alloc (.inr hmem'.option) seg
  obtain ⟨hanswer, hout⟩ := argInitHost_memory hmem r.client.arg
  obtain ⟨hanswer', _⟩ := argInitHost_memory hmem' r'.client.arg
  rw [hclient] at ht' hanswer'
  obtain ⟨hresult, halike⟩ := talkAlike_waiting hr.waiting ht ht' hanswer hanswer'
  rw [heq, heq']
  refine ⟨?_, ?_⟩
  · show decide (t'.result = .finished) = decide (t.result = .finished)
    rw [hresult]
  · exact halike.imp (fun hsame => ⟨hsame.1, hsame.2.trans hout⟩) id

/-- A write callback is a read callback for nothing. -/
theorem ClientRun.step_write (r : ClientRun) : r.step .write = r.step (.read []) := by
  have harrive : r.client.arrive [] = r.client.toClientIo := by
    unfold ClientIo.arrive
    rw [List.append_nil]
  unfold ClientRun.step
  split
  · rfl
  · dsimp only
    rw [harrive]

/-- **A client that has been answered** is not answered again, and nothing more is saved for it. -/
theorem ClientRun.step_told {r : ClientRun} (e : ClientEvent)
    (hs : Spoken r.client r.client.option) (hne : r.client.responses ≠ []) :
    (r.step e).client.responses = r.client.responses ∧ (r.step e).client.saves = r.client.saves := by
  obtain ⟨o, harg, hfin⟩ := hs.finished_of_answered hne
  unfold ClientRun.step
  split
  · exact ⟨rfl, rfl⟩
  · cases e with
    | read seg =>
        have htalk := clientTalk_finished (c := { r.client with toClientIo := r.client.arrive seg })
          harg hfin r.host
        dsimp only [ClientRun.talk]
        rw [htalk]
        exact ⟨rfl, rfl⟩
    | write =>
        dsimp only [ClientRun.talk]
        rw [clientTalk_finished harg hfin r.host]
        exact ⟨rfl, rfl⟩
    | flush n => exact ⟨rfl, rfl⟩
    | others h => exact ⟨rfl, rfl⟩

/-- What is seen of two runs says whether they have told their clients the same. -/
theorem ToldAlike.of_seen {r r' : ClientRun} {c : Client} (hseen : r'.seen = r.seen)
    (hne : r.client.responses ≠ []) (halike : c = r'.client ∨ ToldAlike r'.client c) :
    ToldAlike r.client c := by
  have hresponses := congrArg (fun s : ClientRun => s.client.responses) hseen
  have hsaves := congrArg (fun s : ClientRun => s.client.saves) hseen
  dsimp only [ClientRun.seen] at hresponses hsaves
  rcases halike with rfl | halike
  · exact ⟨hne, hresponses, by rw [hsaves]⟩
  · exact ⟨hne, halike.responses.trans hresponses, by rw [halike.saves, hsaves]⟩

/-- What a segment does to a client that is answered when it has got `w`: it is answered by now, or
it waits for the rest of `w`. -/
theorem ClientRun.Ready.read_cases {r : ClientRun} {w seg d rest : Bytes} (hr : r.Ready)
    (hw : (w.length : Int) ≤ intMax) (hseg : (seg.length : Int) ≤ intMax)
    (hanswered : (r.step (.read w)).client.responses ≠ []) (hd : seg ++ d = w ++ rest) :
    (r.step (.read seg)).seen = (r.step (.read w)).seen
      ∨ (¬ reader.ended (r.step (.read seg)) ∧ ∃ v, v ≠ [] ∧ (v.length : Int) ≤ intMax ∧ d = v ++ rest
        ∧ (r.step (.read seg)).step (.read v) = r.step (.read w)) := by
  have hmore : ∀ v, seg = w ++ v → (r.step (.read seg)).seen = (r.step (.read w)).seen := by
    rintro v rfl
    exact (reader_ended_append hr hseg (.inr hanswered)).2
  rcases List.append_eq_append_iff.mp hd with ⟨v, rfl, hrest⟩ | ⟨v, hv, _⟩
  · by_cases hnil : v = []
    · exact .inl (hmore [] (by rw [hnil, List.append_nil, List.append_nil]))
    · by_cases hended : reader.ended (r.step (.read seg))
      · exact .inl (reader_ended_append hr hw hended).2.symm
      · exact .inr ⟨hended, v, hnil, (fits_append hw).2, hrest,
          (reader_feed_append hr hw hended).symm⟩
  · exact .inl (hmore v hv)

/-! ## A whole run -/

namespace ClientRun

/-- There is memory for the dialogue when the client is called back. -/
def MemoryFor (s : ClientRun) : ClientEvent → Prop
  | .read _ => HasMemory s.host
  | .write => HasMemory s.host
  | _ => True

/-- `s` waits, as does `r`, which is alone, and is answered when it has got `w`. -/
structure Follows (s r : ClientRun) (w : Bytes) : Prop where
  ready : s.Ready
  output : OutputLast s.client s.client.option
  alone : r.Ready
  client : r.client = s.client
  memory : ∀ n, (r.host.os.outcome n).succeeds = true
  missing : w ≠ []
  fits : (w.length : Int) ≤ intMax
  answered : (r.step (.read w)).client.responses ≠ []

variable {s r : ClientRun} {w : Bytes}

/-- What others do is not seen. -/
theorem Follows.others (hf : Follows s r w) (h : Host) : Follows { s with host := h } r w :=
  ⟨⟨hf.ready.alive, hf.ready.silent, hf.ready.bevInput, hf.ready.inputBuffer, hf.ready.spoken,
    hf.ready.waiting⟩, hf.output, hf.alone, hf.client, hf.memory, hf.missing, hf.fits, hf.answered⟩

/-- A client that waits has no output. -/
theorem Follows.flush (hf : Follows s r w) (n : Nat) : s.step (.flush n) = s := by
  have hnil : s.client.bevOutput = [] := by
    by_contra hne
    have hfin := hf.output.unsent hne
    obtain ⟨a, ha, _⟩ := hf.ready.spoken.answered hfin
    exact absurd (hf.ready.silent.symm.trans ha) (by simp)
  unfold ClientRun.step
  rw [if_neg (by simp [hf.ready.alive])]
  dsimp only
  rw [hnil, List.drop_nil, ← hnil]

/-- **One delivery**: the client waits for the rest, or has been told what it would be told alone.
-/
theorem Follows.read {seg d rest : Bytes} (hf : Follows s r w) (hmem : HasMemory s.host)
    (hseg : (seg.length : Int) ≤ intMax) (hd : seg ++ d = w ++ rest) :
    (∃ r' v, Follows (s.step (.read seg)) r' v ∧ d = v ++ rest
        ∧ r'.step (.read v) = r.step (.read w))
      ∨ (Spoken (s.step (.read seg)).client (s.step (.read seg)).client.option
        ∧ ToldAlike (r.step (.read w)).client (s.step (.read seg)).client) := by
  have houtput := outputLast_invariant.next s (.read seg) hf.output
  obtain ⟨hreleased, halike⟩ := hf.alone.read_alike hf.ready hf.client.symm
    ⟨hf.memory _, hf.memory _⟩ hmem seg
  rcases hf.alone.read_cases hf.fits hseg hf.answered hd with
    hseen | ⟨hended, v, hv, hfits, hrest, hstep⟩
  · exact .inr ⟨houtput.spoken, .of_seen hseen hf.answered (halike.imp (fun hsame => hsame.1) id)⟩
  · -- neither has been answered
    rcases halike with ⟨hsame, hout⟩ | htold
    · have hready : (s.step (.read seg)).Ready := by
        refine reader_ready hf.ready hseg ?_
        rintro (hrel | hne)
        · exact hended (.inl (hreleased.symm.trans hrel))
        · exact hended (.inr (by rwa [← hsame]))
      refine .inl ⟨_, v, ⟨hready, houtput, reader_ready hf.alone hseg hended, hsame.symm, ?_, hv,
        hfits, ?_⟩, hrest, hstep⟩
      · intro n
        rw [hout]
        exact hf.memory n
      · rw [hstep]
        exact hf.answered
    · exact absurd (.inr htold.told) hended

/-- A client that has been answered keeps what it has been told. -/
theorem run_told (es : List ClientEvent) {s : ClientRun} (hs : Spoken s.client s.client.option)
    (hne : s.client.responses ≠ []) :
    (Machine.run step s es).client.responses = s.client.responses
      ∧ (Machine.run step s es).client.saves = s.client.saves := by
  induction es generalizing s with
  | nil => exact ⟨rfl, rfl⟩
  | cons e es ih =>
      obtain ⟨hresponses, hsaves⟩ := step_told e hs hne
      obtain ⟨hres', hsav'⟩ := ih (spoken_invariant.next s e hs) (by rw [hresponses]; exact hne)
      exact ⟨hres'.trans hresponses, hsav'.trans hsaves⟩

/-- **A client is told what it would be told alone**: the answer it would get if it were the only
one and had sent what it has to send at once. -/
theorem told_alike (es : List ClientEvent) {s r : ClientRun} {w rest : Bytes} (hf : Follows s r w)
    (hmem : Machine.Along step MemoryFor s es)
    (hfits : ∀ seg, ClientEvent.read seg ∈ es → (seg.length : Int) ≤ intMax)
    (hd : delivered es = w ++ rest) :
    ToldAlike (r.step (.read w)).client (Machine.run step s es).client := by
  induction es generalizing s r w with
  | nil => exact absurd (List.append_eq_nil_iff.mp hd.symm).1 hf.missing
  | cons e es ih =>
      rw [Machine.run_cons]
      have hlater := fun seg hseg => hfits seg (List.mem_cons_of_mem _ hseg)
      obtain ⟨hmem, hmem'⟩ := hmem
      -- a read callback, or a write callback, which is one for nothing
      have hcall : ∀ seg : Bytes, s.step e = s.step (.read seg) → HasMemory s.host →
          (seg.length : Int) ≤ intMax → seg ++ delivered es = w ++ rest →
          ToldAlike (r.step (.read w)).client (Machine.run step (s.step e) es).client := by
        intro seg hsame hmemory hseg hd
        rw [hsame] at hmem' ⊢
        rcases hf.read hmemory hseg hd with ⟨r', v, hf', hd', hr'⟩ | ⟨hspoken, htold⟩
        · rw [← hr']
          exact ih hf' hmem' hlater hd'
        · obtain ⟨hresponses, hsaves⟩ :=
            run_told es hspoken (by rw [htold.responses]; exact htold.told)
          exact ⟨htold.told, hresponses.trans htold.responses, by rw [hsaves, htold.saves]⟩
      cases e with
      | read seg => exact hcall seg rfl hmem (hfits seg List.mem_cons_self) hd
      | write => exact hcall [] s.step_write hmem (by decide) hd
      | flush n =>
          have hsame := hf.flush n
          rw [hsame] at hmem' ⊢
          exact ih hf hmem' hlater hd
      | others h =>
          have hsame : s.step (.others h) = { s with host := h } := by
            unfold ClientRun.step
            rw [if_neg (by simp [hf.ready.alive])]
          rw [hsame] at hmem' ⊢
          exact ih (hf.others h) hmem' hlater hd

end ClientRun

end TraceServer
