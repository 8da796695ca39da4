import TraceServer.Proof.Answer
import TraceServer.Proof.Attempt

/-!
# What is saved, and what is answered then

`client_talk_skylog_save` cuts the upload out of the body: it searches for the start and
subtracts a fixed length at the end. So what it saves is the upload exactly when the
body does end in the token (`saved_exactly_iff`).

It then calls `skylog_save` and does not look at the result. So a client is told the
truth exactly when every save goes through (`answer_honest_iff`); when the disk refuses,
or nothing is left between the start and the end, it is told `200` all the same.
-/

namespace TraceServer

/-! ## The call of `skylog_save` -/

/-- `sv` is the save that the upload in `r` leads to. -/
def MadeFrom (r : HttpRequest) (sv : SaveCall) : Prop :=
  ∃ buf p, r.contextBuf = some buf ∧ strstr buf gzipHeader = some p ∧
    sv.skylog = parseSkylogInfo r ∧ sv.data = buf.drop p ∧ sv.dataLen = payloadLen r.dataLen p ∧
    sv.ret = (skylogSave sv.skylog sv.data sv.dataLen sv.host).ret

/-- Where the saves of a client stand before a step. -/
def ClientOptionStep.Saves (c : Client) (r : HttpRequest) : ClientOptionStep → Prop
  | .sendSuccess => ∃ sv, c.saves = [sv] ∧ MadeFrom r sv
  | .finished => (c.responses = [.ok] ∧ ∃ sv, c.saves = [sv] ∧ MadeFrom r sv)
      ∨ (c.responses = [.error] ∧ c.saves = [])
  | _ => c.saves = []

structure SavedOnce (c : Client) (o : ClientOption) : Prop where
  spoken : Spoken c o
  saves : o.step.Saves c o.httpRequest

/-- **A save is made once, from the body, on the way to a `200`.** -/
theorem savedOnce_step {c : Client} {o : ClientOption} {h : Host} {x : StepOut}
    (hs : SavedOnce c o) (hx : DialogueStep c o h x) : SavedOnce x.client x.option := by
  refine ⟨spoken_step hs.spoken hx, ?_⟩
  have hsaves := hs.saves
  cases hx with
  | header hstep _ he =>
      rw [hstep] at hsaves
      rcases he.stay with ⟨_, rfl⟩ | rfl <;> exact hsaves
  | urlPath hstep he =>
      rw [hstep] at hsaves
      subst he
      split <;> exact hsaves
  | context hstep _ he =>
      rw [hstep] at hsaves
      rcases he.stay with ⟨_, rfl⟩ | rfl <;> exact hsaves
  | save hstep hsave =>
      have hv := clientTalkSkylogSave_step (c := c) (o := o) (h := h)
      rw [hsave] at hv
      rw [hstep] at hsaves
      have hnil : c.saves = [] := hsaves
      cases hv with
      | refused hret hclient _ _ =>
          rw [if_neg (by simp [hret]), hclient]
          exact hnil
      | called hbuf _ hp hret hclient hreq =>
          rw [if_pos hret, hclient, hreq]
          exact ⟨_, by rw [hnil]; rfl, _, _, hbuf, hp, rfl, rfl, rfl, rfl⟩
  | respond hr =>
      rename_i r
      have hsilent : c.responses = [] := by
        rcases hr with ⟨_, hstep⟩ | ⟨_, hstep⟩ <;> exact hs.spoken.silent (by simp [hstep])
      rcases hr with ⟨rfl, hstep⟩ | ⟨rfl, hstep⟩
      · rw [hstep] at hsaves
        exact .inl ⟨by show c.responses ++ [.ok] = _; rw [hsilent]; rfl, hsaves⟩
      · rw [hstep] at hsaves
        exact .inr ⟨by show c.responses ++ [.error] = _; rw [hsilent]; rfl, hsaves⟩
  | finished _ => exact hsaves

/-- Nothing but the saves and the responses matters. -/
theorem SavedOnce.congr {c c' : Client} {o : ClientOption} (hs : SavedOnce c o)
    (hspoken : Spoken c' o) (hsaves : c'.saves = c.saves) (hresp : c'.responses = c.responses) :
    SavedOnce c' o := by
  refine ⟨hspoken, ?_⟩
  have h := hs.saves
  cases hstep : o.step <;> rw [hstep] at h <;>
    simpa only [ClientOptionStep.Saves, hsaves, hresp] using h

theorem savedOnce_invariant : DialogueInvariant SavedOnce where
  fresh := ⟨spoken_invariant.fresh, rfl⟩
  step := savedOnce_step
  arg := fun a h => h.congr (spoken_invariant.arg a h.spoken) rfl rfl
  arrive := fun seg h => h.congr (spoken_invariant.arrive seg h.spoken) rfl rfl
  flush := fun n h => h.congr (spoken_invariant.flush n h.spoken) rfl rfl

/-! ## The answer -/

/-- The upload in `r` is not empty, and the answers of a machine in the state `os` are those of a
save. -/
def UploadGoesThrough (r : HttpRequest) (os : Os) : Prop :=
  ∃ buf p, r.contextBuf = some buf ∧ strstr buf gzipHeader = some p ∧
    0 < payloadLen r.dataLen p ∧
    ∃ x, Saves ((buf.drop p).take (payloadLen r.dataLen p).toNat) 3 (parseSkylogInfo r) x
      ∧ os.Answers x.calls

/-- `200` only for an upload that was saved, `400` for one that was not. -/
structure HonestAnswer (c : Client) : Prop where
  ok : Response.ok ∈ c.responses → ∃ sv ∈ c.saves, 0 < sv.dataLen ∧ sv.ret = true
  error : (∃ sv ∈ c.saves, ¬ (0 < sv.dataLen ∧ sv.ret = true)) → Response.error ∈ c.responses

/-- What is left of a buffer from an offset on is at least what is saved of it. -/
theorem payloadLen_le {r : HttpRequest} (h : r.Ok) {buf : Bytes} (hbuf : r.contextBuf = some buf)
    (p : Nat) : payloadLen r.dataLen p ≤ (buf.drop p).length := by
  have hlen := h.context_length hbuf
  have hle := (h.context buf hbuf).2.1
  unfold payloadLen
  rw [List.length_drop]
  omega

/-- A save succeeds exactly when the upload goes through. -/
theorem MadeFrom.ret_iff {r : HttpRequest} (h : r.Ok) {sv : SaveCall} (hsv : MadeFrom r sv) :
    (0 < sv.dataLen ∧ sv.ret = true) ↔ UploadGoesThrough r sv.host.os := by
  obtain ⟨buf, p, hbuf, hp, hskylog, hdata, hlen, hret⟩ := hsv
  have hiff := skylogSave_ret_iff (s := parseSkylogInfo r) (h := sv.host) rfl
    (payloadLen_le h hbuf p)
  rw [hret, hskylog, hdata, hlen, hiff]
  constructor
  · rintro ⟨_, hpos, hthrough⟩
    exact ⟨buf, p, hbuf, hp, hpos, hthrough⟩
  · rintro ⟨buf', p', hbuf', hp', hpos, hthrough⟩
    obtain rfl : buf = buf' := Option.some.inj (hbuf.symm.trans hbuf')
    obtain rfl : p = p' := Option.some.inj (hp.symm.trans hp')
    exact ⟨hpos, hpos, hthrough⟩

/-- One client, at one moment. -/
theorem honestAnswer_iff {c : Client} {o : ClientOption} (hs : SavedOnce c o) :
    HonestAnswer c ↔ ∀ sv ∈ c.saves, UploadGoesThrough o.httpRequest sv.host.os := by
  have hsaves := hs.saves
  -- without a save there is no `200`, and nothing to go through
  have hnone : c.saves = [] → Response.ok ∉ c.responses →
      (HonestAnswer c ↔ ∀ sv ∈ c.saves, UploadGoesThrough o.httpRequest sv.host.os) := by
    intro hnil hok
    rw [hnil]
    refine ⟨fun _ sv hsv => absurd hsv (by simp), fun _ => ⟨fun h => absurd h hok, ?_⟩⟩
    rintro ⟨sv, hsv, _⟩
    rw [hnil] at hsv
    exact absurd hsv (by simp)
  -- with one, there is no `400`
  have hone : (∃ sv, c.saves = [sv] ∧ MadeFrom o.httpRequest sv) → Response.error ∉ c.responses →
      (HonestAnswer c ↔ ∀ sv ∈ c.saves, UploadGoesThrough o.httpRequest sv.host.os) := by
    rintro ⟨sv, hsv, hmade⟩ herror
    have hiff := hmade.ret_iff hs.spoken.ok
    constructor
    · intro hhonest sv' hsv'
      rw [hsv] at hsv'
      obtain rfl := List.mem_singleton.mp hsv'
      by_contra hnot
      exact herror (hhonest.error ⟨sv', by rw [hsv]; exact List.mem_singleton_self _,
        fun hgood => hnot (hiff.mp hgood)⟩)
    · intro hall
      have hgood := hiff.mpr (hall sv (by rw [hsv]; exact List.mem_singleton_self _))
      refine ⟨fun _ => ⟨sv, by rw [hsv]; exact List.mem_singleton_self _, hgood⟩, ?_⟩
      rintro ⟨sv', hsv', hbad⟩
      rw [hsv] at hsv'
      obtain rfl := List.mem_singleton.mp hsv'
      exact absurd hgood hbad
  cases hstep : o.step with
  | finished =>
      rw [hstep] at hsaves
      rcases hsaves with ⟨hresp, hsv⟩ | ⟨hresp, hnil⟩
      · exact hone hsv (by rw [hresp]; decide)
      · exact hnone hnil (by rw [hresp]; decide)
  | sendSuccess =>
      rw [hstep] at hsaves
      exact hone hsaves (by rw [hs.spoken.silent (by simp [hstep])]; simp)
  | readHeader | checkUrlPath | readContext | skylogSave | sendError =>
      rw [hstep] at hsaves
      exact hnone hsaves (by rw [hs.spoken.silent (by simp [hstep])]; simp)

/-- **A client is told the truth in a run exactly when every save it leads to goes through.** -/
theorem answer_honest_iff (h : Host) (es : List ClientEvent) :
    (∀ s ∈ Machine.trail ClientRun.step (ClientRun.init h) es, HonestAnswer s.client)
      ↔ ∀ s ∈ Machine.trail ClientRun.step (ClientRun.init h) es,
          ∀ sv ∈ s.client.saves, UploadGoesThrough s.client.httpRequest sv.host.os :=
  forall₂_congr fun s hs => honestAnswer_iff (savedOnce_invariant.visited h es s hs)

/-- A body of three bytes is answered with `200`, and nothing is saved. -/
theorem shortUpload_not_honest :
    ¬ ∀ s ∈ Machine.trail ClientRun.step (ClientRun.init Host.fresh) shortUpload,
        HonestAnswer s.client := by
  intro hall
  have hhonest := hall _ (Machine.run_mem_trail ClientRun.step _ _)
  have hrun : ((Machine.run ClientRun.step (ClientRun.init Host.fresh) shortUpload).client.responses,
      (Machine.run ClientRun.step (ClientRun.init Host.fresh)
        shortUpload).client.saves.map SaveCall.dataLen) = ([.ok], [-43]) := by decide +kernel
  obtain ⟨hresp, hlens⟩ := Prod.mk.inj hrun
  obtain ⟨sv, hsv, hpos, _⟩ := hhonest.ok (by rw [hresp]; exact List.mem_singleton_self _)
  have hlen := List.mem_map_of_mem (f := SaveCall.dataLen) hsv
  rw [hlens] at hlen
  rw [List.mem_singleton.mp hlen] at hpos
  exact absurd hpos (by decide)

/-! ## What is saved -/

/-- What is passed to `skylog_save` is what the body has between the first magic and the
token it ends in. -/
def SavedExactly (body : Bytes) (sv : SaveCall) : Prop :=
  0 < sv.dataLen → ∃ P, body = P ++ sv.data.take sv.dataLen.toNat ++ clientTalkTokenEnd ∧
    List.IsFirstOcc gzipHeader body P.length

/-- Nothing is left between the first magic and the token, or the token is there. -/
def EndsInToken (body : Bytes) : Prop :=
  ∀ p, strstr body gzipHeader = some p →
    payloadLen body.length p ≤ 0 ∨ clientTalkTokenEnd <:+ body

theorem strstr_append_zeros (s find : Bytes) (n : Nat) :
    strstr (s ++ List.replicate n 0) find = strstr s find := by
  unfold strstr
  rw [cstr_append_zeros]

/-- The search in the buffer is a search in the body. -/
theorem strstr_contextBuf {r : HttpRequest} (h : r.Ok) {buf : Bytes}
    (hbuf : r.contextBuf = some buf) (find : Bytes) : strstr buf find = strstr r.body find := by
  obtain ⟨_, _, heq⟩ := h.context buf hbuf
  rw [heq, strstr_append_zeros]

/-- A hit of `strstr` is the first occurrence in the whole buffer. -/
theorem strstr_isFirstOcc {buf find : Bytes} {p : Nat} (h : strstr buf find = some p)
    (hne : cstr find ≠ []) : List.IsFirstOcc (cstr find) buf p := by
  obtain ⟨rest, hrest⟩ := cstr_isPrefix buf
  rw [← hrest]
  exact (List.firstOcc_spec h).extend hne

theorem gzipHeader_cstr : cstr gzipHeader = gzipHeader := by decide

theorem clientTalkTokenEnd_length : clientTalkTokenEnd.length = 46 := by decide

theorem payloadLen_eq (n : Int) (p : Nat) : payloadLen n p = n - p - 46 := by
  rw [payloadLen, show strlen clientTalkTokenEnd = 46 by decide]
  rfl

variable {c : Client} {o : ClientOption} {h : Host}

/-- Exactness needs the token. -/
theorem endsInToken_of_savedExactly (hok : o.httpRequest.Ok)
    (hall : ∀ sv, (clientTalkSkylogSave c o h).client.saves = c.saves ++ [sv] →
      SavedExactly o.httpRequest.body sv) : EndsInToken o.httpRequest.body := by
  intro p hp
  by_cases hpos : 0 < payloadLen o.httpRequest.body.length p
  · refine .inr ?_
    have hlen := hok.body_length
    rw [payloadLen_eq] at hpos
    cases hbuf : o.httpRequest.contextBuf with
    | none =>
        rw [hok.noContext hbuf] at hlen
        omega
    | some buf =>
        have hpbuf : strstr buf gzipHeader = some p := by rw [strstr_contextBuf hok hbuf, hp]
        obtain ⟨sv, hsv, hpos'⟩ : ∃ sv, (clientTalkSkylogSave c o h).client.saves = c.saves ++ [sv]
            ∧ 0 < sv.dataLen := by
          unfold clientTalkSkylogSave
          rw [hbuf]
          dsimp only
          rw [if_neg (by omega), hpbuf]
          refine ⟨_, rfl, ?_⟩
          show 0 < payloadLen o.httpRequest.dataLen p
          rw [payloadLen_eq]
          omega
        obtain ⟨P, hbody, _⟩ := hall sv hsv hpos'
        rw [hbody]
        exact List.suffix_append _ _
  · exact .inl (by omega)

/-- **The upload is saved exactly when the body ends in the token**, or when there is none. -/
theorem saved_exactly_iff (hok : o.httpRequest.Ok) :
    (∀ sv, (clientTalkSkylogSave c o h).client.saves = c.saves ++ [sv] →
        SavedExactly o.httpRequest.body sv)
      ↔ EndsInToken o.httpRequest.body := by
  refine ⟨endsInToken_of_savedExactly hok, ?_⟩
  intro hend sv hsv hpos
  cases clientTalkSkylogSave_step (c := c) (o := o) (h := h) with
  | refused _ hclient _ _ =>
      rw [hclient] at hsv
      exact absurd (congrArg List.length hsv) (by simp)
  | @called buf p hbuf _ hp _ hclient _ =>
      rw [hclient] at hsv
      obtain rfl := List.singleton_inj.mp (List.append_cancel_left hsv)
      have hpos' : 0 < payloadLen o.httpRequest.dataLen p := hpos
      have hlen := hok.body_length
      have hpbody : strstr o.httpRequest.body gzipHeader = some p := by
        rw [← strstr_contextBuf hok hbuf, hp]
      obtain ⟨front, hfront⟩ : clientTalkTokenEnd <:+ o.httpRequest.body := by
        refine (hend p hpbody).resolve_left ?_
        rw [hlen]
        omega
      have hfirst := strstr_isFirstOcc hpbody (by rw [gzipHeader_cstr]; decide)
      rw [gzipHeader_cstr] at hfirst
      have hsum := congrArg List.length hfront
      rw [List.length_append, clientTalkTokenEnd_length] at hsum
      rw [payloadLen_eq] at hpos'
      have htake : (front.take p).length = p := by
        rw [List.length_take]
        omega
      refine ⟨front.take p, ?_, by rw [htake]; exact hfirst⟩
      -- the buffer goes on after the body, but the payload does not reach that far
      obtain ⟨_, _, hzeros⟩ := hok.context buf hbuf
      have hpay : (buf.drop p).take (payloadLen o.httpRequest.dataLen p).toNat = front.drop p := by
        rw [payloadLen_eq, hzeros, ← hfront, List.append_assoc, List.drop_append_of_le_length
          (by omega)]
        refine List.take_left' ?_
        rw [List.length_drop]
        omega
      show o.httpRequest.body = front.take p ++
        (buf.drop p).take (payloadLen o.httpRequest.dataLen p).toNat ++ clientTalkTokenEnd
      rw [hpay, List.take_append_drop, hfront]

/-- An upload that ends in the token, as a browser sends it. -/
def wholeUpload : List ClientEvent :=
  [.read (lit "POST /index HTTP/1.1\r\nContent-Length:53\r\n\r\n" ++
    [0x1f, 0x8b, 0x08, 0, 1, 2, 3] ++ clientTalkTokenEnd)]

/-- It is saved as it is. -/
theorem wholeUpload_saved_exactly :
    EndsInToken (Machine.run ClientRun.step (ClientRun.init Host.fresh)
        wholeUpload).client.httpRequest.body
      ∧ ∀ sv, (clientTalkSkylogSave Client.fresh (Machine.run ClientRun.step
            (ClientRun.init Host.fresh) wholeUpload).client.option Host.fresh).client.saves = [sv] →
        SavedExactly (Machine.run ClientRun.step
          (ClientRun.init Host.fresh) wholeUpload).client.httpRequest.body sv := by
  have hend : EndsInToken (Machine.run ClientRun.step (ClientRun.init Host.fresh)
      wholeUpload).client.httpRequest.body := by
    intro p _
    exact .inr (by decide +kernel)
  exact ⟨hend, (saved_exactly_iff (c := Client.fresh) (h := Host.fresh)
    (spoken_invariant.run Host.fresh wholeUpload).ok).mpr hend⟩

/-- An upload with another end. -/
def bareUpload : List ClientEvent :=
  [.read (lit "POST /index HTTP/1.1\r\nContent-Length:53\r\n\r\n" ++
    [0x1f, 0x8b, 0x08] ++ List.replicate 50 97)]

/-- Its last 46 bytes are not saved. -/
theorem bareUpload_truncated :
    ¬ ∀ sv, (clientTalkSkylogSave Client.fresh (Machine.run ClientRun.step
          (ClientRun.init Host.fresh) bareUpload).client.option Host.fresh).client.saves = [sv] →
      SavedExactly (Machine.run ClientRun.step
        (ClientRun.init Host.fresh) bareUpload).client.httpRequest.body sv := by
  intro hall
  have hbody : (Machine.run ClientRun.step (ClientRun.init Host.fresh)
      bareUpload).client.httpRequest.body = [0x1f, 0x8b, 0x08] ++ List.replicate 50 97 := by
    decide +kernel
  have hend : EndsInToken ([0x1f, 0x8b, 0x08] ++ List.replicate 50 97) := by
    rw [← hbody]
    exact endsInToken_of_savedExactly (spoken_invariant.run Host.fresh bareUpload).ok hall
  rcases hend 0 (by decide +kernel) with hlen | hsuffix
  · exact absurd hlen (by decide +kernel)
  · exact absurd hsuffix (by decide +kernel)

end TraceServer
