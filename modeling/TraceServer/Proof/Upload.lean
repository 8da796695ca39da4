import TraceServer.Proof.Post
import TraceServer.Proof.Among

/-!
# An upload from end to end

What a client prints, the server reads back: the one save an upload leads to is called with the
product, the version, the serial number, the channel, the type, the date and the log that were put
into the request, in however many segments it comes. A request of the test has no log in it, so the
server refuses it, which is what the test counts as a success.
-/

namespace TraceServer

theorem parseSkylogInfo_createData {r : HttpRequest} {value : Bytes}
    (h : httpRequestFindField r (lit "Create-Data") 1023 = some value) :
    (parseSkylogInfo r).createData = snprintf 32 31 value := by
  unfold parseSkylogInfo
  rw [h]

/-! ## An upload -/

namespace Upload

variable (u : Upload)

theorem url_token : IsToken u.url := by
  have hno : ∀ d : UInt8, d ≠ 61 → d ≠ 38 → d ∉ skylogRequestUrlPath → d ≠ 63 →
      (∀ p : Parmer, d ∉ p.key ∧ d ∉ p.value) → d ∉ u.url := by
    intro d heq hand hpath hquestion hwords
    simp only [url, List.mem_append, List.mem_cons, not_or]
    exact ⟨hpath, hquestion, not_mem_queryBytes heq hand fun p _ => hwords p⟩
  refine ⟨⟨hno 13 ?_ ?_ ?_ ?_ fun p => ⟨p.key_word.noCr, p.value_word.noCr⟩,
    hno 10 ?_ ?_ ?_ ?_ fun p => ⟨p.key_word.noLf, p.value_word.noLf⟩,
    hno 0 ?_ ?_ ?_ ?_ fun p => ⟨p.key_word.noNul, p.value_word.noNul⟩⟩,
    hno 32 ?_ ?_ ?_ ?_ fun p => ⟨p.key_word.noSpace, p.value_word.noSpace⟩, ?_⟩
  all_goals first | decide | exact List.append_ne_nil_of_right_ne_nil _ (List.cons_ne_nil _ _)

/-- The request of an upload. -/
def post (hfits : u.Fits) : Post := ⟨u.url, u.fields, u.body, u.url_token, hfits.header⟩

variable {u}

theorem post_path (hfits : u.Fits) : (u.post hfits).requestText.path = skylogRequestUrlPath := by
  show (skylogRequestUrlPath ++ 63 :: queryBytes u.parmers).takeWhile (· != 63) = _
  have hpath : ∀ c ∈ skylogRequestUrlPath, (c != 63) = true := List.all_eq_true.mp rfl
  rw [List.takeWhile_append_of_pos hpath, List.takeWhile_cons_of_neg (by simp), List.append_nil]

/-- **A parameter of the query is read back.** -/
theorem post_parmer (hfits : u.Fits) {k : Bytes} {p : Parmer}
    (hfind : u.parmers.find? (fun p => k.isSuffixOf p.key) = some p) (hkey : p.key = k)
    (hlen : k.length ≤ 60) (hvalue : p.value.length ≤ 62) :
    httpRequestGetUrlParmerValue (u.post hfits).requestText.request k k.length 1023
      = some p.value := by
  have hword := p.key_word
  have hpos := List.length_pos_iff.mpr hword.ne_nil
  rw [hkey] at hword hpos
  rw [httpRequestGetUrlParmerValue_eq (u.post hfits).requestText rfl (by decide) hword.noEq
    hword.noAnd hword.noNul hlen (by omega), hfind, Option.bind_some, if_pos ⟨hkey, by omega⟩]

theorem post_parmerField (hfits : u.Fits) {k : String} {p : Parmer} (dflt : CArr 64)
    (hfind : u.parmers.find? (fun p => (lit k).isSuffixOf p.key) = some p) (hkey : p.key = lit k)
    (hlen : (lit k).length ≤ 60) (hvalue : p.value.length ≤ 62) :
    (urlParmerField (u.post hfits).requestText.request k dflt).str = p.value := by
  unfold urlParmerField
  rw [post_parmer hfits hfind hkey hlen hvalue]
  exact snprintf_str_of_fits p.value_word.noNul (by omega)

theorem post_parmerNumber (hfits : u.Fits) {k : String} {p : Parmer} {n : Nat} (dflt : Int)
    (hfind : u.parmers.find? (fun p => (lit k).isSuffixOf p.key) = some p) (hkey : p.key = lit k)
    (hlen : (lit k).length ≤ 60) (hvalue : p.value = fmtLu n) (hn : (n : Int) ≤ intMax) :
    urlParmerNumber (u.post hfits).requestText.request k dflt = n := by
  have hshort : (fmtLu n).length ≤ 10 := by
    unfold intMax at hn
    exact fmtLu_length_le (by decide) (by omega)
  have hcstr : cstr (fmtLu n) = fmtLu n := cstr_eq_self (fmtLu_word n).noNul
  unfold urlParmerNumber
  rw [post_parmer hfits hfind hkey hlen (by rw [hvalue]; omega), hvalue]
  dsimp only
  rw [if_pos (isdigitStr_fmtLu n), atoi_of_isdigitStr (isdigitStr_fmtLu n), hcstr, decimalValue_fmtLu,
    toInt_saturated hn]

/-! ### What is saved -/

/-- A save of the log, with everything that was said about it. -/
structure SavedAs (u : Upload) (sv : SaveCall) : Prop where
  hw : sv.skylog.hw.str
    = if (strstr u.hw (lit "SolisHome")).isSome then lit "SolisHome" else u.hw
  ver : sv.skylog.ver.str = u.ver
  sn : sv.skylog.sn.str = u.sn
  ch : sv.skylog.ch = u.ch
  type : sv.skylog.type = u.type
  createData : sv.skylog.createData.str = u.createData
  block : sv.data.take sv.dataLen.toNat = u.payload

theorem body_length : u.body.length = u.payload.length + strlen clientTalkTokenEnd := by
  rw [body, List.length_append]
  rfl

theorem strstr_body : strstr u.body gzipHeader = some 0 := by
  obtain ⟨rest, hrest⟩ := u.magic
  have hcstr : cstr u.body = gzipHeader ++ cstr (rest ++ clientTalkTokenEnd) := by
    rw [body, ← hrest, List.append_assoc]
    exact List.takeWhile_append_of_pos (List.all_eq_true.mp rfl)
  unfold strstr
  rw [hcstr, show cstr gzipHeader = gzipHeader by decide]
  exact List.firstOcc_eq_some
    ⟨List.occursAt_zero.mpr (List.prefix_append _ _), fun j hj => absurd hj (Nat.not_lt_zero j)⟩

/-- The request of an upload is read as a whole. -/
def complete (hfits : u.Fits) (hlen : (u.body.length : Int) ≤ intMax) : CompleteRequest :=
  (u.post hfits).complete (post_path hfits) hfits.url
    (List.append_ne_nil_of_right_ne_nil _ (by decide)) hlen rfl

theorem complete_savedAs (hfits : u.Fits) (hlen : (u.body.length : Int) ≤ intMax) {h : Host}
    {sv : SaveCall} (hsv : (complete hfits hlen).SavedFrom h 0 sv) : u.SavedAs sv := by
  have hskylog : sv.skylog = parseSkylogInfo (u.post hfits).requestText.request := hsv.skylog
  refine ⟨?_, ?_, ?_, ?_, ?_, ?_, ?_⟩
  · have hhw :
        (urlParmerField (u.post hfits).requestText.request "Hw" skylogInfoInit.hw).str = u.hw :=
      post_parmerField (k := "Hw") hfits _ rfl rfl (by decide) u.hw_fits
    rw [hskylog]
    show (hwProduct _).str = _
    unfold hwProduct
    rw [hhw]
    split
    · rfl
    · exact hhw
  · rw [hskylog]
    exact post_parmerField (k := "Ver") hfits _ rfl rfl (by decide) u.ver_fits
  · rw [hskylog]
    exact post_parmerField (k := "Sn") hfits _ rfl rfl (by decide) u.sn_fits
  · rw [hskylog]
    exact post_parmerNumber (k := "Ch") hfits _ rfl rfl (by decide) rfl u.ch_fits
  · rw [hskylog]
    exact post_parmerNumber (k := "Type") hfits _ rfl rfl (by decide) rfl u.type_fits
  · have hdate : httpRequestFindField (u.post hfits).requestText.request (lit "Create-Data") 1023
        = some u.createData := by
      have hshort := u.createData_fits
      rw [Post.request_eq]
      exact httpRequestFindField_spaced _ ⟨⟨by decide, by decide, by decide⟩, by decide, by decide⟩
        (by decide) rfl rfl u.createData_token (by omega)
    rw [hskylog, parseSkylogInfo_createData hdate]
    exact snprintf_str_of_fits u.createData_token.noNul (Nat.lt_succ_of_le u.createData_fits)
  · have hdata : sv.data = u.payload ++ (clientTalkTokenEnd ++ [0]) :=
      hsv.data.trans (List.append_assoc _ _ _)
    have hdataLen : sv.dataLen.toNat = u.payload.length := by
      rw [hsv.dataLen]
      show (payloadLen (u.body.length : Nat) 0).toNat = _
      rw [payloadLen, u.body_length]
      omega
    rw [hdata, hdataLen, List.take_left]

/-! ### The whole way -/

/-- What is sent. -/
def bytes (u : Upload) : Bytes := headerBytes (postLine u.url) u.fields ++ u.body

/-- The log and what is said about it are all that is asked of `skylog_save`. -/
theorem SavedAs.of_asked {sv sv' : SaveCall} (hsv : u.SavedAs sv) (hasked : sv'.asked = sv.asked) :
    u.SavedAs sv' := by
  unfold SaveCall.asked at hasked
  obtain ⟨hskylog, hrest⟩ := Prod.ext_iff.mp hasked
  obtain ⟨hdata, hdataLen⟩ := Prod.ext_iff.mp hrest
  dsimp only at hskylog hdata hdataLen
  refine ⟨?_, ?_, ?_, ?_, ?_, ?_, by rw [hdata, hdataLen]; exact hsv.block⟩
  · rw [hskylog]; exact hsv.hw
  · rw [hskylog]; exact hsv.ver
  · rw [hskylog]; exact hsv.sn
  · rw [hskylog]; exact hsv.ch
  · rw [hskylog]; exact hsv.type
  · rw [hskylog]; exact hsv.createData

/-- A client with an upload to send, and the same client alone and in one segment. -/
theorem follows_init (hfits : u.Fits) (hlen : (u.bytes.length : Int) ≤ intMax) (h : Host) :
    ∃ sv, ClientRun.Follows (ClientRun.init h) (ClientRun.init Host.fresh) u.bytes
      ∧ ((ClientRun.init Host.fresh).step (.read u.bytes)).client.responses = [.ok]
      ∧ ((ClientRun.init Host.fresh).step (.read u.bytes)).client.saves = [sv] ∧ u.SavedAs sv := by
  have hbody : (u.body.length : Int) ≤ intMax := by
    rw [bytes, List.length_append] at hlen
    omega
  have hbytes : (complete hfits hbody).bytes = u.bytes :=
    congrArg (· ++ u.body) (u.post hfits).requestText_bytes
  have hlen' := hlen
  rw [← hbytes] at hlen'
  obtain ⟨_, hanswered⟩ := (complete hfits hbody).feed_answered (h := Host.fresh) ⟨rfl, rfl⟩ hlen'
  obtain ⟨hresponses, ⟨sv, hsv, hfrom⟩, _⟩ := hanswered.ok 0 strstr_body
  rw [hbytes] at hresponses hsv
  have hmissing : u.bytes ≠ [] := hbytes ▸ (complete hfits hbody).bytes_ne_nil
  refine ⟨sv, ⟨ready_init h, outputLast_invariant.fresh, ready_init Host.fresh, rfl, fun _ => rfl,
    hmissing, hlen, ?_⟩, hresponses, hsv, complete_savedAs hfits hbody hfrom⟩
  show (reader.feed (ClientRun.init Host.fresh) u.bytes).client.responses ≠ []
  rw [hresponses]
  exact List.cons_ne_nil _ _

/-- What a client with an upload is told: `evserver_send_client` has been called with the `200` and
with nothing else, and `skylog_save` with the log and nothing else. -/
def Received (u : Upload) (c : Client) : Prop :=
  c.responses = [.ok] ∧ ∃ sv, c.saves = [sv] ∧ u.SavedAs sv

theorem Received.of_told {c c' : Client} {sv : SaveCall} (hresponses : c.responses = [.ok])
    (hsaves : c.saves = [sv]) (hsaved : u.SavedAs sv) (htold : ToldAlike c c') : u.Received c' := by
  obtain ⟨_, hresponses', hsaves'⟩ := htold
  rw [hresponses] at hresponses'
  rw [hsaves, List.map_singleton] at hsaves'
  obtain ⟨sv', hsv', hasked⟩ := List.map_eq_singleton_iff.mp hsaves'
  exact ⟨hresponses', sv', hsv', hsaved.of_asked hasked⟩

/-- **What is uploaded is what is asked to be saved.** In whatever segments an upload comes,
whatever comes after it, and whatever else happens to the files and the clock meanwhile,
`evserver_send_client` is called with the `200` once, and one call of `skylog_save` gets what has
been put into the request. -/
theorem received (hfits : u.Fits) (hlen : (u.bytes.length : Int) ≤ intMax) {h : Host}
    {es : List ClientEvent}
    (hmem : Machine.Along ClientRun.step ClientRun.MemoryFor (ClientRun.init h) es)
    (hsegs : ∀ seg, ClientEvent.read seg ∈ es → (seg.length : Int) ≤ intMax) {rest : Bytes}
    (hstream : delivered es = u.bytes ++ rest) :
    u.Received (Machine.run ClientRun.step (ClientRun.init h) es).client := by
  obtain ⟨sv, hfollows, hresponses, hsaves, hsaved⟩ := follows_init hfits hlen h
  exact .of_told hresponses hsaves hsaved (ClientRun.told_alike es hfollows hmem hsegs hstream)

end Upload

/-- A log of the product that the test names. -/
def moonCake : Upload where
  hw := lit "MoonCake"
  ver := lit "9.0.1"
  sn := lit "20190101"
  ch := 1
  type := 4
  createData := lit "2019-01-01"
  host := lit "log.skyroam.com.cn"
  payload := gzipHeader ++ [0, 1, 2, 3]
  hw_word := .of_all (by decide) (by decide)
  hw_fits := by decide
  ver_word := .of_all (by decide) (by decide)
  ver_fits := by decide
  sn_word := .of_all (by decide) (by decide)
  sn_fits := by decide
  ch_fits := by decide
  type_fits := by decide
  createData_token := ⟨⟨by decide, by decide, by decide⟩, by decide, by decide⟩
  createData_fits := by decide
  host_token := ⟨⟨by decide, by decide, by decide⟩, by decide, by decide⟩
  magic := List.prefix_append _ _

/-- In two segments, with work of others in between. -/
def moonCakeEvents : List ClientEvent :=
  [.read (moonCake.bytes.take 5), .others Host.fresh, .read (moonCake.bytes.drop 5)]

theorem moonCake_received :
    moonCake.Received
      (Machine.run ClientRun.step (ClientRun.init Host.fresh) moonCakeEvents).client := by
  have hlen : (moonCake.bytes.length : Int) ≤ intMax := by decide +kernel
  have hstream : delivered moonCakeEvents = moonCake.bytes ++ [] := by
    simp only [moonCakeEvents, delivered, List.append_nil, List.take_append_drop]
  have hsegs : ∀ seg, ClientEvent.read seg ∈ moonCakeEvents → (seg.length : Int) ≤ intMax := by
    intro seg hseg
    simp only [moonCakeEvents, List.mem_cons, List.not_mem_nil, or_false, ClientEvent.read.injEq,
      reduceCtorEq, false_or] at hseg
    rcases hseg with rfl | rfl
    · rw [List.length_take]
      omega
    · rw [List.length_drop]
      omega
  exact Upload.received ⟨by decide +kernel, by decide +kernel⟩ hlen
    ⟨⟨rfl, rfl⟩, trivial, ⟨by decide +kernel, by decide +kernel⟩, trivial⟩ hsegs hstream

/-! ## The test -/

/-- What the client can be sent when nothing has been sent before. -/
theorem evserverSendClient_zero (data : Bytes) (os : Os) :
    (evserverSendClient ClientIo.zero data os).io.bevOutput = []
      ∨ (evserverSendClient ClientIo.zero data os).io.bevOutput = data := by
  unfold evserverSendClient
  dsimp only
  split
  · split
    · split
      · exact .inr rfl
      · exact .inl rfl
    · exact .inl rfl
  · exact .inl rfl

theorem evserverSendClient_sent {data : Bytes} {os : Os} (hne : data ≠ [])
    (hadd : os.answer.succeeds = true) (hwrite : os.next.answer.succeeds = true) :
    (evserverSendClient ClientIo.zero data os).io.bevOutput = data := by
  unfold evserverSendClient Os.call
  rw [if_pos (List.length_pos_iff.mpr hne)]
  dsimp only
  rw [if_pos hadd, if_pos hwrite]
  rfl

/-- The zeros behind what has been read do not matter. -/
theorem testWorkCounts_recvline {received : Bytes} (h : received.length ≤ 1024) :
    testWorkCounts (testWorkRecvline received)
      = (decide (0 < strlen received) && (strstr received (lit "400")).isSome) := by
  rw [testWorkCounts, testWorkRecvline, List.take_of_length_le h, strstr_append_zeros, strlen,
    cstr_append_zeros]
  rfl

namespace TestWork

variable (w : TestWork)

def fields : List Field := [contentLengthField w.data.length, hostField w.host w.host_line]

theorem length_le : (w.data.length : Int) ≤ intMax := by
  have hfits := w.fits
  rw [testWorkText, List.length_append] at hfits
  unfold intMax
  omega

theorem text_eq : testWorkText w.host w.data
    = headerBytes (postLine (lit "/index?Hw=&Ver=&Sn=&Ch=&Type=")) w.fields ++ w.data := by
  have hlen := w.length_le
  have hnumber : fmtD (toInt (strlen w.data)) = fmtLu w.data.length := by
    rw [strlen, cstr_eq_self w.data_noNul, toInt_eq_self (by unfold intMax at *; omega) hlen, fmtD,
      if_neg (by omega), Int.natAbs_natCast]
  have hline : lit "POST /index?Hw=&Ver=&Sn=&Ch=&Type=  HTTP/1.1 \r\nContent-Length: "
      = postLine (lit "/index?Hw=&Ver=&Sn=&Ch=&Type=")
        ++ (crlf ++ (lit "Content-Length" ++ (lit ":" ++ [32]))) := by
    decide +kernel
  have hhost : lit " \r\nHost: " = [32] ++ (crlf ++ (lit "Host" ++ (lit ":" ++ [32]))) := by decide
  have hend : lit " \r\n\r\n" = [32] ++ (crlf ++ crlf) := by decide
  rw [testWorkText, hnumber, hline, hhost, hend, headerBytes, fields]
  simp [Field.bytes, contentLengthField, hostField, spaced]

/-- The request of the test. -/
def post : Post where
  url := lit "/index?Hw=&Ver=&Sn=&Ch=&Type="
  fields := w.fields
  body := w.data
  url_token := ⟨⟨by decide, by decide, by decide⟩, by decide, by decide⟩
  fits := by
    have hfits := w.fits
    rw [w.text_eq, List.length_append] at hfits
    omega

theorem post_bytes : w.post.bytes = testWorkText w.host w.data := w.text_eq.symm

/-- It is sent whole. -/
theorem send_eq : testWorkSend w.host w.data = w.post.bytes := by
  have hnul : (0 : UInt8) ∉ testWorkText w.host w.data := by
    rw [← w.post_bytes, Post.bytes, List.mem_append, not_or]
    exact ⟨w.post.headerText.noNul, w.data_noNul⟩
  rw [w.post_bytes, testWorkSend, snprintf_str_of_fits hnul w.fits]

def complete : CompleteRequest :=
  w.post.complete (show (lit "/index?Hw=&Ver=&Sn=&Ch=&Type=").takeWhile (· != 63) = _ by decide)
    (show (lit "/index?Hw=&Ver=&Sn=&Ch=&Type=").length ≤ 253 by decide) w.data_ne_nil w.length_le rfl

/-- **The test counts the refusal of what is no log**, however its request comes. -/
theorem counts_iff {h : Host} (hmem : HasMemory h)
    (hadd : (h.os.outcome (h.os.tick + 2)).succeeds = true)
    (hwrite : (h.os.outcome (h.os.tick + 3)).succeeds = true) {segs : List Bytes}
    (hsegs : ∀ seg ∈ segs, seg ≠ []) (hstream : segs.flatten = testWorkSend w.host w.data) :
    testWorkCounts (testWorkRecvline (reader.serve (ClientRun.init h) segs).client.bevOutput) = true
      ↔ strstr w.data gzipHeader = none := by
  have hlen : (w.complete.bytes.length : Int) ≤ intMax := by
    have hfits := w.fits
    have hbytes : w.complete.bytes = testWorkText w.host w.data :=
      (congrArg (· ++ w.data) w.post.requestText_bytes).trans w.post_bytes
    rw [hbytes]
    unfold intMax
    omega
  have hstream' : segs.flatten = w.complete.bytes ++ [] := by
    rw [hstream, w.send_eq, List.append_nil]
    exact congrArg (· ++ w.data) w.post.requestText_bytes.symm
  have hfit : ∀ seg ∈ segs, (seg.length : Int) ≤ intMax ∧ seg ≠ [] := by
    intro seg hseg
    have hle := (List.sublist_flatten_of_mem hseg).length_le
    rw [hstream', List.append_nil] at hle
    exact ⟨by omega, hsegs seg hseg⟩
  obtain ⟨_, hok, herror⟩ := w.complete.serve_answered hmem hlen hfit hstream'
  cases hmagic : strstr w.data gzipHeader with
  | none =>
      obtain ⟨_, _, hout⟩ := herror hmagic
      have hsent : (evserverSendClient ClientIo.zero Response.error.bytes h.os.next.next).io.bevOutput
          = Response.error.bytes := evserverSendClient_sent (by decide) hadd hwrite
      rw [hout, hsent, testWorkCounts_recvline (by decide)]
      exact ⟨fun _ => rfl, fun _ => by decide +kernel⟩
  | some p =>
      obtain ⟨_, _, os, hout⟩ := hok p hmagic
      rw [hout]
      rcases evserverSendClient_zero Response.ok.bytes os with hnone | hsent
      · rw [hnone, testWorkCounts_recvline (by decide)]
        exact ⟨fun hcounts => absurd hcounts (by decide), fun hno => absurd hno (by simp)⟩
      · rw [hsent, testWorkCounts_recvline (by decide)]
        exact ⟨fun hcounts => absurd hcounts (by decide +kernel), fun hno => absurd hno (by simp)⟩

end TestWork

/-- What `test_work` is run with. -/
def skyroamTest : TestWork where
  host := lit "log.skyroam.com.cn"
  data := lit "ksdjflksdjkfjklsjelkwjeiowjflksdjlkfjsdlskdfjlsdjfsej"
  host_line := ⟨by decide, by decide, by decide⟩
  data_noNul := by decide
  data_ne_nil := by decide
  fits := by decide +kernel

theorem skyroamTest_counts :
    testWorkCounts (testWorkRecvline (reader.serve (ClientRun.init Host.fresh)
        [testWorkSend skyroamTest.host skyroamTest.data]).client.bevOutput) = true
      ↔ strstr skyroamTest.data gzipHeader = none := by
  refine skyroamTest.counts_iff ⟨by decide, by decide⟩ (by decide) (by decide) ?_ (by simp)
  intro seg hseg
  obtain rfl := List.mem_singleton.mp hseg
  decide +kernel

end TraceServer
