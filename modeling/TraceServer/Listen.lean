import TraceServer.Lib.Run

/-!
# Opening the server (`event_server.c`, `socket.c`, `main.c`)

The monitor calls `evserver_create` whenever it finds the server not running, so an attempt
starts from whatever the one before has left in `_server`. An attempt opens one descriptor
and one event base, and what is done to either is noted in `deeds`, which starts empty with
every attempt.

Descriptors and bases are the numbers the kernel and libevent have answered with.
-/

namespace TraceServer

/-- What `server_t` holds of its descriptor and its event base. -/
structure EvServer where
  listenFd : Int
  evbaseServer : Option Nat
  serverOk : Bool
deriving DecidableEq, Repr

/-- `_server`, as the program starts with it. -/
def EvServer.initial : EvServer := ⟨-1, none, false⟩

/-- A call that opens or lets go of a descriptor or an event base. -/
inductive ListenDeed where
  | socket (fd : Int)
  | shutdown (fd : Int)
  | close (fd : Int)
  | eventBaseNew (evbase : Nat)
  | eventBaseFree (evbase : Nat)
deriving DecidableEq, Repr

/-- What the calls in `evserver_create` answer. -/
structure CreateAnswers where
  eventBaseNew : Option Nat
  socket : Option Nat
  bind : Bool
  listen : Bool
  makeListenSocketReuseable : Bool
  makeSocketNonblocking : Bool
  eventAssign : Bool
  eventAdd : Bool
  pthreadCreate : Bool
deriving DecidableEq, Repr

/-- An attempt that is under way, and what it has done, the last first. -/
structure Creating extends EvServer where
  deeds : List ListenDeed
deriving DecidableEq, Repr

namespace Creating

def note (c : Creating) (d : ListenDeed) : Creating := { c with deeds := d :: c.deeds }

/-- `socket_close`. -/
def socketClose (c : Creating) (socket : Int) : Creating :=
  if 0 < socket then c.note (.close socket) else c

/-- `socket_listen`. A descriptor of 0 is taken for an error. -/
def socketListen (c : Creating) (a : CreateAnswers) : Int × Creating :=
  match a.socket with
  | none => (-1, c)
  | some fd =>
    let listenfd : Int := fd
    let c := c.note (.socket listenfd)
    if listenfd ≤ 0 then (-1, c)
    else if ¬ a.bind then (-1, c.socketClose listenfd)
    else if ¬ a.listen then (-1, c.socketClose listenfd)
    else (listenfd, c)

/-- `_evserver_socket_create`. -/
def evserverSocketCreate (c : Creating) (a : CreateAnswers) : Int × Creating :=
  let r := c.socketListen a
  let listenFd := r.1
  if 0 < listenFd then
    if ¬ a.makeListenSocketReuseable then (-1, r.2.socketClose listenFd)
    else if ¬ a.makeSocketNonblocking then (-1, r.2.socketClose listenFd)
    else r
  else r

/-- `_evserver_destroy`. -/
def evserverDestroyStatic (c : Creating) : Creating :=
  match c.evbaseServer with
  | some evbase =>
    let c := c.note (.eventBaseFree evbase)
    let c := c.note (.shutdown c.listenFd)
    let c := c.socketClose c.listenFd
    { c with listenFd := -1, evbaseServer := none, serverOk := false }
  | none => c

/-- `_evserver_create`. -/
def evserverCreateStatic (c : Creating) (a : CreateAnswers) : Bool × Creating :=
  let c := { c with evbaseServer := a.eventBaseNew }
  match a.eventBaseNew with
  | none => (false, c)
  | some evbase =>
    let r := (c.note (.eventBaseNew evbase)).evserverSocketCreate a
    let c : Creating := { r.2 with listenFd := r.1 }
    if c.listenFd < 0 then (false, c.evserverDestroyStatic)
    else if ¬ a.eventAssign then (false, c.socketClose c.listenFd)
    else if ¬ a.eventAdd then (false, c.socketClose c.listenFd)
    else (true, c)

/-- `evserver_destroy`. -/
def evserverDestroy (c : Creating) : Creating := c.evserverDestroyStatic

end Creating

/-- `evserver_create`: what it returns, and what it has done. -/
def EvServer.evserverCreate (s : EvServer) (a : CreateAnswers) : Bool × Creating :=
  let r := Creating.evserverCreateStatic ⟨s, []⟩ a
  if r.1 = false then (false, r.2.evserverDestroy)
  else if ¬ a.pthreadCreate then (false, r.2)
  else (true, r.2)

inductive MonitorEvent where
  /-- The monitor looks at the server, and calls `evserver_create` if it is not running. -/
  | create (a : CreateAnswers)
  /-- `_evserver_factory` begins in its thread. -/
  | factoryBegins
  /-- Its `event_base_dispatch` returns. -/
  | factoryEnds
  /-- `ev_accept_callback` fails to accept, and destroys the server. -/
  | acceptError

def EvServer.step (s : EvServer) (e : MonitorEvent) : EvServer :=
  match e with
  | .create a => if s.serverOk = false then (s.evserverCreate a).2.toEvServer else s
  | .factoryBegins => if s.evbaseServer.isSome then { s with serverOk := true } else s
  | .factoryEnds => { s with serverOk := false }
  | .acceptError => (Creating.evserverDestroy ⟨s, []⟩).toEvServer

end TraceServer
