import TraceServer.Client

/-!
# Receiving a request (`http_request.c`)

The header is read byte by byte, and searched from its start after every byte, until
it holds an empty line or its buffer is full. The body is read in pieces of at most
2048 bytes into a buffer of the announced length plus one. Both loops end when there
is nothing to receive and are entered again by the next callback.

Every store the loops make is listed in `stores`, with the size of the buffer it goes
to, because the source checks none of them: a store past the end of a buffer would be an
entry of that list.
-/

namespace TraceServer

/-- A store by one of the receive loops. -/
inductive Store where
  /-- `header[i]`. -/
  | header (i : Int)
  /-- `context_buf[i]`, in an allocation of `size` bytes for a body of `contextLen`. -/
  | context (i contextLen : Int) (size : Nat)
deriving DecidableEq, Repr

/-- What a receive function returns and leaves behind. -/
structure HttpRecvOut where
  result : HttpRequestResult
  io : ClientIo
  req : HttpRequest
  stores : List Store

/-- `is_http_request_header_buf_full`. -/
def isHttpRequestHeaderBufFull (r : HttpRequest) : Bool :=
  r.headerLen ≥ (httpRequestHeaderBufSize : Int) - 1

def headerEnd : Bytes := lit "\r\n\r\n"

/-- `header[header_len] = ch; header_len += len`. -/
def HttpRequest.storeHeader (r : HttpRequest) (ch : UInt8) (len : Int) : HttpRequest :=
  { r with header := r.header.set r.headerLen.toNat ch, headerLen := r.headerLen + len }

/-- The loop of `_httpRequest_recv_header`; a round consumes a byte, so what is pending
bounds the rounds. -/
def httpRequestRecvHeaderLoop : Nat → ClientIo → HttpRequest → List Store → HttpRecvOut
  | 0, io, r, st => ⟨.socketError, io, r, st⟩
  | fuel + 1, io, r, st =>
    let x := evserverRecvClient io 1
    if x.len < 0 then ⟨.socketError, x.io, r, st⟩
    else if x.len = 0 then ⟨.recvEmpty, x.io, r, st⟩
    else
      let st := st ++ [.header r.headerLen]
      let r := r.storeHeader (x.data.headD 0) x.len
      if isHttpRequestHeaderBufFull r then ⟨.headerBufFull, x.io, r, st⟩
      else if (straddr r.header headerEnd).isSome then ⟨.headerRecvSuccess, x.io, r, st⟩
      else httpRequestRecvHeaderLoop fuel x.io r st

/-- `httpRequest_recv_header`. -/
def httpRequestRecvHeader (io : ClientIo) (r : HttpRequest) : HttpRecvOut :=
  if isHttpRequestHeaderBufFull r then ⟨.headerBufFull, io, r, []⟩
  else httpRequestRecvHeaderLoop (io.pending.length + 1) io r []

/-- The `size_t` that `calloc` gets for `context_len + 1`, an `int` sum. -/
def contextBufSize (contextLen : Int) : Nat := (toInt (contextLen + 1) % 2 ^ 64).toNat

/-- `_httpRequest_context_buf_init`. -/
def httpRequestContextBufInit (r : HttpRequest) (os : Os) : Bool × HttpRequest × Os :=
  if r.contextBuf.isNone then
    let r := { r with contextLen := httpRequestGetContentLength r }
    if 0 < r.contextLen then
      let a := os.calloc (contextBufSize r.contextLen)
      if a.1 then
        (true, { r with contextBuf := some (List.replicate (contextBufSize r.contextLen) 0) }, a.2)
      else (false, r, a.2)
    else (false, r, os)
  else (0 < r.contextLen, r, os)

/-- `d` stored over `buf` from `i` on. -/
def storeAt (buf : Bytes) (i : Nat) (d : Bytes) : Bytes :=
  buf.take i ++ d ++ buf.drop (i + d.length)

/-- The stores of one round: what `evserver_recv_client` copies in, then the NUL. -/
def contextStores (r : HttpRequest) (n : Nat) : List Store :=
  (List.range (n + 1)).map fun (k : Nat) =>
    .context (r.dataLen + k) r.contextLen (r.contextBuf.getD []).length

/-- One round's effect on the request: `d` is received, `data_len` moves on, a NUL is
put after it. -/
def HttpRequest.storeContext (r : HttpRequest) (d : Bytes) : HttpRequest :=
  { r with
    contextBuf := r.contextBuf.map fun buf =>
      storeAt (storeAt buf r.dataLen.toNat d) (r.dataLen + d.length).toNat [0]
    dataLen := r.dataLen + d.length }

/-- The loop of `_httpRequest_recv_context`; `need` is `need_read_len`. -/
def httpRequestRecvContextLoop : Nat → Int → ClientIo → HttpRequest → List Store → HttpRecvOut
  | 0, _, io, r, st => ⟨.socketError, io, r, st⟩
  | fuel + 1, need, io, r, st =>
    let need := min need (r.contextLen - r.dataLen)
    let x := evserverRecvClient io need
    if x.len < 0 then ⟨.socketError, x.io, r, st⟩
    else if x.len = 0 then ⟨.recvEmpty, x.io, r, st⟩
    else
      let st := st ++ contextStores r x.data.length
      let r := r.storeContext x.data
      if r.contextLen - r.dataLen ≤ 0 then ⟨.contextRecvSuccess, x.io, r, st⟩
      else httpRequestRecvContextLoop fuel need x.io r st

/-- `_httpRequest_recv_context`. -/
def httpRequestRecvContextBody (io : ClientIo) (r : HttpRequest) : HttpRecvOut :=
  httpRequestRecvContextLoop (io.pending.length + 1) 2048 io r []

/-- `httpRequest_recv_context`. -/
def httpRequestRecvContext (io : ClientIo) (r : HttpRequest) (os : Os) : HttpRecvOut × Os :=
  let i := httpRequestContextBufInit r os
  if i.1 then (httpRequestRecvContextBody io i.2.1, i.2.2)
  else if i.2.1.contextLen ≤ 0 then (⟨.contextRecvSuccess, io, i.2.1, []⟩, i.2.2)
  else (⟨.socketError, io, i.2.1, []⟩, i.2.2)

end TraceServer
