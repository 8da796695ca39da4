import TraceServer.EventLoop
import TraceServer.Clients

/-!
# The server with its dialogues (`event_server_callback.c`)

The server knows a client by its connection and leaves it to the callback whether that ends it; a
dialogue knows nothing of connections. In the process they are one. A read or a write callback runs
the dialogue of the connection, and ends the client when that is finished. The timer callback ends
it when no other callback has come for longer than `timeout`, and the error callback in any case.

The workers' threads share the files. Callbacks of different workers are taken one after the other
here.

`get_system_sec` is the number of seconds since `time_init` as an `unsigned int`. `clock` counts
them without an end.
-/

namespace TraceServer

/-- `CLIENT_TIMEOUT_SEC`, which `evserver_client_new` sets `timeout` to. -/
def clientTimeoutSec : UInt32 := 10

/-- `get_system_sec`. -/
def getSystemSec (clock : Nat) : UInt32 := UInt32.ofNat clock

/-- `_ev_timer_callback`: whether it ends the client, and what `time_count` is then. The clock is
read twice. -/
def evTimerCallback (timeCount sec sec' : UInt32) : Bool × UInt32 :=
  let timeCount := if timeCount ≤ 0 then sec else timeCount
  (sec' - timeCount > clientTimeoutSec, timeCount)

structure Process (n : Nat) where
  loop : EventLoop n
  /-- The dialogues, by connection. -/
  clients : Clients Nat
  /-- `time_count` of the client of a connection. -/
  timeCount : Nat → UInt32
  clock : Nat

inductive ProcessEvent (n : Nat) where
  /-- Anything but a callback of a client. -/
  | server (e : ServerEvent n)
  /-- `seg` has arrived for a client and `ev_buffered_read_callback` is called. -/
  | read (client : ServerClient) (seg : Bytes)
  /-- `ev_buffered_write_callback` is called. -/
  | write (client : ServerClient)
  /-- `_ev_timer_callback` is called, and takes `sec` seconds up to its last look at the clock. -/
  | timer (client : ServerClient) (sec : Nat)
  /-- `ev_buffered_error_callback` is called. -/
  | error (client : ServerClient)
  /-- The socket of a client takes the next `k` bytes of output. -/
  | flush (client : ServerClient) (k : Nat)
  /-- Other programs have worked on the files. -/
  | others (h : Host)
  | passes (sec : Nat)

namespace Process

variable {n : Nat}

def init (n : Nat) (queueSize : Int) (h : Host) : Process n :=
  ⟨.init n queueSize, .init Nat h, fun _ => 0, 0⟩

/-- An event of the server itself. A client that it makes has `time_count` set. -/
def serverStep (s : Process n) (e : ServerEvent n) : Process n :=
  match e with
  | .clientCallback _ _ => s
  | e =>
    { s with
      loop := s.loop.step e
      timeCount := match s.loop.server.creates e with
        | some client => Function.update s.timeCount client.conn (getSystemSec s.clock)
        | none => s.timeCount }

/-- A callback that runs the dialogue. -/
def talk (s : Process n) (client : ServerClient) (e : ClientsEvent Nat)
    (callback : Bool → Server.ClientCallback) : Process n :=
  if s.loop.mayCall client (callback false) then
    let clients := s.clients.step e
    { s with
      loop := s.loop.step (.clientCallback client (callback (clients.released client.conn)))
      clients
      timeCount := Function.update s.timeCount client.conn (getSystemSec s.clock) }
  else s

def timerStep (s : Process n) (client : ServerClient) (sec : Nat) : Process n :=
  if s.loop.mayCall client (.timer false) then
    let t := evTimerCallback (s.timeCount client.conn) (getSystemSec s.clock)
      (getSystemSec (s.clock + sec))
    { s with
      loop := s.loop.step (.clientCallback client (.timer t.1))
      timeCount := Function.update s.timeCount client.conn t.2
      clock := s.clock + sec }
  else s

def step (s : Process n) (e : ProcessEvent n) : Process n :=
  match e with
  | .server e => s.serverStep e
  | .read client seg => s.talk client (.read client.conn seg) .read
  | .write client => s.talk client (.write client.conn) .write
  | .timer client sec => s.timerStep client sec
  | .error client => { s with loop := s.loop.step (.clientCallback client .error) }
  | .flush client k =>
    if client ∈ s.loop.bufferevents then
      { s with clients := s.clients.step (.flush client.conn k) }
    else s
  | .others h => { s with clients := s.clients.step (.others h) }
  | .passes sec => { s with clock := s.clock + sec }

end Process

end TraceServer
