import TraceServer.HttpRecv
import TraceServer.Lib.Run

/-!
# The dialogue with a client (`client_talk_option.c`, `client_talk.c`)

`client_talk` runs the steps of the dialogue until one of them has to wait or ends it.
It is entered by the read callback and by the write callback alike, and remembers in
`client_option->step` where it was.

The last part of the file is what libevent does with it: a client lives through read
callbacks, write callbacks and partial flushes of its output, in any order, until a
`client_talk` that returns `FINISHED` has it released. A run is a list of such events.
-/

namespace TraceServer

def skylogRequestUrlPath : Bytes := lit "/index"

def clientTalkTokenEnd : Bytes := lit "\r\n------WebKitFormBoundaryapMKTQABBP6vWIo0--\r\n"

/-- `gzip_header`, without its terminator. -/
def gzipHeader : Bytes := [0x1f, 0x8b, 0x08]

/-- `cli_option_res_t`. -/
inductive CliOptionRes where
  | once
  | again
  | finished
deriving DecidableEq, Repr

/-- `client_talk_result_t`. -/
inductive ClientTalkResult where
  | continue
  | finished
deriving DecidableEq, Repr

/-- `client_talk_check_request_url_path`: `buf` stays empty when there is no URL. -/
def clientTalkCheckRequestUrlPath (r : HttpRequest) : Bool :=
  ((httpRequestGetUrlPath r 254).getD []) = skylogRequestUrlPath

/-- What a step of the dialogue returns and leaves behind. -/
structure StepOut where
  res : CliOptionRes
  client : Client
  option : ClientOption
  host : Host
  stores : List Store

/-- `file_len`: what is left of the body from the magic on, less the end token. -/
def payloadLen (dataLen : Int) (magic : Nat) : Int :=
  dataLen - magic - strlen clientTalkTokenEnd

/-- What `client_talk_skylog_save` returns and leaves behind. -/
structure TalkSaveOut where
  ret : Bool
  client : Client
  option : ClientOption
  host : Host

/-- `client_talk_skylog_save`. What `skylog_save` returns is not looked at. -/
def clientTalkSkylogSave (c : Client) (o : ClientOption) (h : Host) : TalkSaveOut :=
  match o.httpRequest.contextBuf with
  | none => ⟨false, c, o, h⟩
  | some buf =>
    if o.httpRequest.dataLen ≤ 0 then ⟨false, c, o, h⟩
    else
      let skylog := parseSkylogInfo o.httpRequest
      match strstr buf gzipHeader with
      | some p =>
        let fileLen := payloadLen o.httpRequest.dataLen p
        let s := skylogSave skylog (buf.drop p) fileLen h
        let f := skylogWriteFinish s.skylog s.host.os
        ⟨true, { c with saves := c.saves ++ [⟨skylog, buf.drop p, fileLen, h, s.ret⟩] },
          { o with skylog := f.1 }, { s.host with os := f.2 }⟩
      | none => ⟨false, c, { o with skylog := skylog }, h⟩

/-- `client_talk_response_success` and `client_talk_response_failt`. The call is noted whether or
not it has queued anything. -/
def clientTalkResponse (r : Response) (c : Client) (h : Host) : Client × Host :=
  let s := evserverSendClient c.toClientIo r.bytes h.os
  ({ c with toClientIo := s.io, responses := c.responses ++ [r] }, { h with os := s.os })

/-- `_client_option_step`. -/
def clientOptionStep (c : Client) (o : ClientOption) (h : Host) : StepOut :=
  match o.step with
  | .readHeader =>
    let x := httpRequestRecvHeader c.toClientIo o.httpRequest
    let c := { c with toClientIo := x.io }
    let o := { o with httpRequest := x.req }
    match x.result with
    | .headerRecvSuccess => ⟨.again, c, { o with step := .checkUrlPath }, h, x.stores⟩
    | .recvEmpty => ⟨.once, c, o, h, x.stores⟩
    | _ => ⟨.finished, c, o, h, x.stores⟩
  | .checkUrlPath =>
    if clientTalkCheckRequestUrlPath o.httpRequest then
      ⟨.again, c, { o with step := .readContext }, h, []⟩
    else ⟨.again, c, { o with step := .sendError }, h, []⟩
  | .readContext =>
    let y := httpRequestRecvContext c.toClientIo o.httpRequest h.os
    let x := y.1
    let c := { c with toClientIo := x.io }
    let o := { o with httpRequest := x.req }
    let h := { h with os := y.2 }
    match x.result with
    | .contextRecvSuccess => ⟨.again, c, { o with step := .skylogSave }, h, x.stores⟩
    | .recvEmpty => ⟨.once, c, o, h, x.stores⟩
    | _ => ⟨.finished, c, o, h, x.stores⟩
  | .skylogSave =>
    let s := clientTalkSkylogSave c o h
    if s.ret then ⟨.again, s.client, { s.option with step := .sendSuccess }, s.host, []⟩
    else ⟨.again, s.client, { s.option with step := .sendError }, s.host, []⟩
  | .sendSuccess =>
    let s := clientTalkResponse .ok c h
    ⟨.once, s.1, { o with step := .finished }, s.2, []⟩
  | .sendError =>
    let s := clientTalkResponse .error c h
    ⟨.once, s.1, { o with step := .finished }, s.2, []⟩
  | .finished => ⟨.finished, c, o, h, []⟩

/-- What `client_talk` returns and leaves behind. -/
structure TalkOut where
  result : ClientTalkResult
  client : Client
  host : Host
  stores : List Store

/-- The steps that can still follow without waiting. -/
def ClientOptionStep.rank : ClientOptionStep → Nat
  | .readHeader => 5
  | .checkUrlPath => 4
  | .readContext => 3
  | .skylogSave => 2
  | .sendSuccess => 1
  | .sendError => 1
  | .finished => 0

/-- The loop of `client_talk`; `rank` bounds its rounds. -/
def clientTalkLoop : Nat → Client → ClientOption → Host → List Store → TalkOut
  | 0, c, o, h, st => ⟨.finished, { c with arg := some o }, h, st⟩
  | fuel + 1, c, o, h, st =>
    let x := clientOptionStep c o h
    match x.res with
    | .again => clientTalkLoop fuel x.client x.option x.host (st ++ x.stores)
    | .once => ⟨.continue, { x.client with arg := some x.option }, x.host, st ++ x.stores⟩
    | .finished => ⟨.finished, { x.client with arg := some x.option }, x.host, st ++ x.stores⟩

/-- `client_talk`, with `client_option_arg_init` in front. -/
def clientTalk (c : Client) (h : Host) : TalkOut :=
  match c.arg with
  | some o => clientTalkLoop (o.step.rank + 1) c o h []
  | none =>
    -- the `calloc` of a `client_option_t`
    let a := h.os.call
    let h := { h with os := a.2 }
    if a.1 then clientTalkLoop (ClientOption.zero.step.rank + 1) c ClientOption.zero h []
    else ⟨.finished, c, h, []⟩

/-! ## A client under libevent -/

/-- A client and the rest of the process. -/
structure ClientRun where
  client : Client
  host : Host
  /-- `evserver_client_exit` has been called: its buffers are gone. -/
  released : Bool

/-- A client as the worker has just made it. -/
def ClientRun.init (h : Host) : ClientRun := ⟨Client.fresh, h, false⟩

inductive ClientEvent where
  /-- `seg` has arrived and `ev_buffered_read_callback` is called. -/
  | read (seg : Bytes)
  /-- `ev_buffered_write_callback` is called. -/
  | write
  /-- The socket takes the next `n` bytes of output. -/
  | flush (n : Nat)
  /-- Other clients and other programs have worked on the files. -/
  | others (h : Host)

/-- What `ev_buffered_read_callback` and `ev_buffered_write_callback` do: a dialogue that
is finished has its client released. -/
def ClientRun.talk (s : ClientRun) (c : Client) : ClientRun :=
  let t := clientTalk c s.host
  ⟨t.client, t.host, t.result = .finished⟩

def ClientRun.step (s : ClientRun) (e : ClientEvent) : ClientRun :=
  if s.released then s
  else
    match e with
    | .read seg => s.talk { s.client with toClientIo := s.client.arrive seg }
    | .write => s.talk s.client
    | .flush n =>
      { s with client := { s.client with bevOutput := s.client.bevOutput.drop n } }
    | .others h => { s with host := h }

/-- The stores the step on `e` makes into the request's buffers. -/
def ClientRun.stores (s : ClientRun) (e : ClientEvent) : List Store :=
  if s.released then []
  else
    match e with
    | .read seg => (clientTalk { s.client with toClientIo := s.client.arrive seg } s.host).stores
    | .write => (clientTalk s.client s.host).stores
    | _ => []

/-- The `client_option_t` of a client, as `calloc` leaves it when there is none yet. -/
def Client.option (c : Client) : ClientOption := c.arg.getD ClientOption.zero

def Client.httpRequest (c : Client) : HttpRequest := c.option.httpRequest

end TraceServer
