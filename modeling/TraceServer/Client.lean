import TraceServer.Skylog

/-!
# One client (`evserver_client.c`, `client_option_struct.c`)

The side of a `client_t` that talks to libevent is four byte strings: what the
bufferevent has read (`bevInput`), what has been moved on to `client->input_buffer`,
what waits in `client->output_buffer`, and what the bufferevent has yet to hand to the
socket (`bevOutput`).

`responses` and `saves` are ghosts. They list the calls of `evserver_send_client` with
a response and of `skylog_save`, each save with the state it was called in, because
what the server promises a client is a relation between the two. A call is listed when it
has failed, too: what has been queued is in `outputBuffer` and `bevOutput`.
-/

namespace TraceServer

/-- `client_option_step_t`. -/
inductive ClientOptionStep where
  | readHeader
  | checkUrlPath
  | skylogSave
  | readContext
  | sendSuccess
  | sendError
  | finished
deriving DecidableEq, Repr

/-- `client_option_t`. -/
structure ClientOption where
  skylog : Skylog
  httpRequest : HttpRequest
  step : ClientOptionStep

/-- As `client_option_arg_init` leaves it. -/
def ClientOption.zero : ClientOption := ⟨Skylog.zero, HttpRequest.zero, .readHeader⟩

/-- The evbuffers of a client. -/
structure ClientIo where
  bevInput : Bytes
  inputBuffer : Bytes
  outputBuffer : Bytes
  bevOutput : Bytes
deriving DecidableEq

def ClientIo.zero : ClientIo := ⟨[], [], [], []⟩

/-- Everything received and not yet consumed. -/
def ClientIo.pending (io : ClientIo) : Bytes := io.inputBuffer ++ io.bevInput

/-- libevent has read `seg` from the socket. -/
def ClientIo.arrive (io : ClientIo) (seg : Bytes) : ClientIo :=
  { io with bevInput := io.bevInput ++ seg }

inductive Response where
  | ok
  | error
deriving DecidableEq, Repr

/-- `CLIENT_TALK_RESPONSE_OK` and `CLIENT_TALK_RESPONSE_ERROR`. -/
def Response.bytes : Response → Bytes
  | .ok => lit "HTTP/1.1 200 OK \r\nContent-length:0 \r\n\r\n"
  | .error => lit "HTTP/1.1 400 Bad Request \r\nContent-length:0 \r\n\r\n"

/-- One call of `skylog_save`: what it was called with and what it returned. -/
structure SaveCall where
  skylog : Skylog
  data : Bytes
  dataLen : Int
  host : Host
  ret : Bool

/-- `client_t`. -/
structure Client extends ClientIo where
  arg : Option ClientOption
  responses : List Response
  saves : List SaveCall

/-- As `evserver_client_new` leaves it. -/
def Client.fresh : Client := { ClientIo.zero with arg := none, responses := [], saves := [] }

/-- What `evserver_recv_client` returns, stores at `buf` and leaves behind. -/
structure RecvOut where
  len : Int
  data : Bytes
  io : ClientIo

/-- `evbuffer_add_buffer`: what the bufferevent has read moves to `input_buffer`. -/
def ClientIo.addBuffer (io : ClientIo) : ClientIo :=
  { io with bevInput := [], inputBuffer := io.inputBuffer ++ io.bevInput }

/-- The end of `evserver_recv_client`, for a length of `len`. `evbuffer_remove` takes what
is asked for, or what there is; a length that is not positive is returned as it is. -/
def evbufferRemove (io : ClientIo) (len bufSize : Int) : RecvOut :=
  if 0 < len then
    let n := min (min len bufSize).toNat io.inputBuffer.length
    ⟨n, io.inputBuffer.take n, { io with inputBuffer := io.inputBuffer.drop n }⟩
  else ⟨len, [], io⟩

/-- `evserver_recv_client`. `evbuffer_get_length` is a `size_t` that is kept in an `int`. -/
def evserverRecvClient (io : ClientIo) (bufSize : Int) : RecvOut :=
  if 0 < bufSize then
    evbufferRemove io.addBuffer (toInt io.addBuffer.inputBuffer.length) bufSize
  else ⟨0, [], io⟩

/-- What `evserver_send_client` returns and leaves behind. -/
structure SendOut where
  ret : Bool
  io : ClientIo
  os : Os

/-- `evserver_send_client`; both evbuffer calls fail when memory runs out. -/
def evserverSendClient (io : ClientIo) (data : Bytes) (os : Os) : SendOut :=
  if 0 < data.length then
    let a := os.call
    if a.1 then
      let io := { io with outputBuffer := io.outputBuffer ++ data }
      let w := a.2.call
      if w.1 then
        ⟨true, { io with outputBuffer := [], bevOutput := io.bevOutput ++ io.outputBuffer }, w.2⟩
      else ⟨false, io, w.2⟩
    else ⟨false, io, a.2⟩
  else ⟨false, io, os⟩

end TraceServer
