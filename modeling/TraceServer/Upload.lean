import TraceServer.ClientTalk
import TraceServer.Proof.Parmer

/-!
# What a client sends (`client_test.c`)

`test_work` prints a request with a URL, some fields and a body, and looks for a `400` in what it
reads. The request has the parameters of an upload in its query and leaves their values out; an
`Upload` is the same request with the values put in, and with a log for a body.
-/

namespace TraceServer

/-! ## Words -/

/-- A digit is none of the bytes that separate words. -/
theorem isDigit_ne {c d : UInt8} (hc : isDigit c = true) (hd : isDigit d = false) : c ≠ d := by
  rintro rfl
  rw [hc] at hd
  exact absurd hd (by simp)

theorem fmtLu_ne_nil (n : Nat) : fmtLu n ≠ [] := by
  unfold fmtLu
  rw [Ne, List.map_eq_nil_iff]
  exact Nat.toDigits_ne_nil

/-- A number is a word. -/
theorem fmtLu_word (n : Nat) : IsWord (fmtLu n) := by
  have hno : ∀ d : UInt8, isDigit d = false → d ∉ fmtLu n :=
    fun d hd hmem => isDigit_ne (isDigit_of_mem_fmtLu hmem) hd rfl
  exact ⟨⟨⟨hno 13 rfl, hno 10 rfl, hno 0 rfl⟩, hno 32 rfl, fmtLu_ne_nil n⟩, hno 63 rfl, hno 38 rfl,
    hno 61 rfl⟩

/-- The value that `"%s: %s \r\n"` gives a field. -/
def spaced (value : Bytes) : Bytes := 32 :: (value ++ [32])

theorem spaced_line {value : Bytes} (h : IsLine value) : IsLine (spaced value) := by
  have hno : ∀ d : UInt8, d ≠ 32 → d ∉ value → d ∉ spaced value := by
    intro d hd hmem
    simp only [spaced, List.mem_cons, List.mem_append, List.not_mem_nil, or_false, not_or]
    exact ⟨hd, hmem, hd⟩
  exact ⟨hno 13 (by decide) h.noCr, hno 10 (by decide) h.noLf, hno 0 (by decide) h.noNul⟩

/-- `Content-Length: %d \r\n`. -/
def contentLengthField (n : Nat) : Field where
  name := lit "Content-Length"
  value := spaced (fmtLu n)
  name_line := ⟨by decide, by decide, by decide⟩
  name_noColon := by decide
  value_line := spaced_line (fmtLu_word n).toIsLine

/-- `Host: %s \r\n`. -/
def hostField (host : Bytes) (h : IsLine host) : Field where
  name := lit "Host"
  value := spaced host
  name_line := ⟨by decide, by decide, by decide⟩
  name_noColon := by decide
  value_line := spaced_line h

/-- The field that `parse_skylog_info` looks for. -/
def createDataField (createData : Bytes) (h : IsLine createData) : Field where
  name := lit "Create-Data"
  value := spaced createData
  name_line := ⟨by decide, by decide, by decide⟩
  name_noColon := by decide
  value_line := spaced_line h

/-! ## A request -/

/-- `POST %s  HTTP/1.1`, with two spaces and one. -/
def postLine (url : Bytes) : Bytes := lit "POST " ++ (url ++ lit "  HTTP/1.1 ")

/-- A request as `test_work` prints it. -/
structure Post where
  url : Bytes
  fields : List Field
  body : Bytes
  url_token : IsToken url
  /-- There is room for the header. -/
  fits : (headerBytes (postLine url) fields).length < 1023

namespace Post

def header (p : Post) : Bytes := headerBytes (postLine p.url) p.fields

def bytes (p : Post) : Bytes := p.header ++ p.body

end Post

/-! ## The test -/

/-- What `test_work` prints into `sendline`. -/
def testWorkText (host data : Bytes) : Bytes :=
  lit "POST /index?Hw=&Ver=&Sn=&Ch=&Type=  HTTP/1.1 \r\nContent-Length: "
    ++ fmtD (toInt (strlen data)) ++ lit " \r\nHost: " ++ host ++ lit " \r\n\r\n" ++ data

/-- What `test_work` sends: `strlen(sendline)` bytes of `sendline`. -/
def testWorkSend (host data : Bytes) : Bytes := (snprintf 1024 1023 (testWorkText host data)).str

/-- `recvline`, when `read` has given it what the server has sent. -/
def testWorkRecvline (received : Bytes) : Bytes :=
  received.take 1024 ++ List.replicate (1024 - received.length) 0

/-- The condition under which `test_work` counts a success. -/
def testWorkCounts (recvline : Bytes) : Bool :=
  decide (0 < strlen recvline) && (strstr recvline (lit "400")).isSome

/-- A host and data for `test_work`. Its request has room in `sendline`. -/
structure TestWork where
  host : Bytes
  data : Bytes
  host_line : IsLine host
  data_noNul : (0 : UInt8) ∉ data
  data_ne_nil : data ≠ []
  fits : (testWorkText host data).length < 1023

/-! ## An upload -/

/-- A log and what is said about it. The strings have room in a `skylog_t`. -/
structure Upload where
  hw : Bytes
  ver : Bytes
  sn : Bytes
  ch : Nat
  type : Nat
  createData : Bytes
  host : Bytes
  payload : Bytes
  hw_word : IsWord hw
  hw_fits : hw.length ≤ 62
  ver_word : IsWord ver
  ver_fits : ver.length ≤ 62
  sn_word : IsWord sn
  sn_fits : sn.length ≤ 62
  ch_fits : (ch : Int) ≤ intMax
  type_fits : (type : Int) ≤ intMax
  createData_token : IsToken createData
  createData_fits : createData.length ≤ 30
  host_token : IsToken host
  /-- A log is a gzip stream. -/
  magic : gzipHeader <+: payload

namespace Upload

variable (u : Upload)

theorem keyHw_word : IsWord (lit "Hw") := .of_all (by decide) rfl
theorem keyVer_word : IsWord (lit "Ver") := .of_all (by decide) rfl
theorem keySn_word : IsWord (lit "Sn") := .of_all (by decide) rfl
theorem keyCh_word : IsWord (lit "Ch") := .of_all (by decide) rfl
theorem keyType_word : IsWord (lit "Type") := .of_all (by decide) rfl

/-- The parameters, in the order of `test_work`. -/
def parmers : List Parmer :=
  [⟨lit "Hw", u.hw, keyHw_word, u.hw_word⟩,
    ⟨lit "Ver", u.ver, keyVer_word, u.ver_word⟩,
    ⟨lit "Sn", u.sn, keySn_word, u.sn_word⟩,
    ⟨lit "Ch", fmtLu u.ch, keyCh_word, fmtLu_word u.ch⟩,
    ⟨lit "Type", fmtLu u.type, keyType_word, fmtLu_word u.type⟩]

def url : Bytes := skylogRequestUrlPath ++ 63 :: queryBytes u.parmers

/-- The body: the log, and the end of a form. -/
def body : Bytes := u.payload ++ clientTalkTokenEnd

def fields : List Field :=
  [contentLengthField u.body.length, createDataField u.createData u.createData_token.toIsLine,
    hostField u.host u.host_token.toIsLine]

/-- The URL and the header have room where they are read into. -/
structure Fits : Prop where
  url : u.url.length ≤ 253
  header : (headerBytes (postLine u.url) u.fields).length < 1023

end Upload

end TraceServer
