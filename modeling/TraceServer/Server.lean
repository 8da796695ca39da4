import Mathlib.Logic.Function.Basic
import TraceServer.Worker

/-!
# The server and its pool (`event_server_callback.c`, `event_server_tpool.c`,
`event_server_worker.c`, `evserver_client.c`)

A connection goes from `ev_accept_callback` into a job, with the job into the queue of
one of the workers, and from there into a client of that worker, which is released by
one of its callbacks. This file follows the connections; what is said on them is in
`ClientTalk.lean`, and here it is left to the event whether `client_talk` finishes.

A connection is numbered when it is accepted, because its descriptor is a number the
kernel hands out again: whoever passes that number to `close` later on closes the connection
it stands for then. `holder` is the ghost that says which one that is, and `deeds` another one:
what has been done about which connection.

A bufferevent that is freed closes its descriptor later, when the event loop gets to its
finalizer. The pool is the shipped one with `n + 1` workers in place of 1024.
-/

namespace TraceServer

def clientAcceptMaxCount : Int := 65530

/-- Something done about a connection. -/
inductive Deed where
  /-- Its descriptor has been passed to `close`, by whomever. -/
  | closed (conn : Nat)
  /-- `bufferevent_socket_new` has made a bufferevent for it. -/
  | buffered (conn : Nat)
  /-- Its item has been freed. -/
  | itemFreed (conn : Nat)
deriving DecidableEq, Repr

/-- `evserver_worker_job_t`, which `_evserver_worker_job_init` only fills for a positive
descriptor. -/
structure WorkerJob where
  connectFd : Nat
  connectFd_pos : 0 < connectFd
  processing : Bool
deriving DecidableEq

/-- An `item_t` with the job of a connection; `job` is `none` where `memdup` ran out of
memory. -/
structure JobItem where
  conn : Nat
  job : Option WorkerJob
deriving DecidableEq

/-- The part of a `client_t` that its release looks at; `bufEv` says whether `buf_ev` is
set. -/
structure ServerClient where
  conn : Nat
  fd : Nat
  bufEv : Bool
deriving DecidableEq

/-- The static variables of the server's files, the workers and their clients. -/
structure Server (n : Nat) where
  workers : Fin (n + 1) → Worker JobItem
  currentWorker : UInt32
  clientWaitCount : Int
  clientHandlingCount : Int
  clientConnectedCount : Int
  clients : List ServerClient
  /-- The descriptors of the bufferevents that are freed and not finalized. -/
  finalizers : List Nat
  /-- Connections accepted so far. -/
  accepted : Nat
  /-- The connection that `accept` has last returned a descriptor for. -/
  holder : Nat → Option Nat
  deeds : List Deed

/-- `evserver_tpool_create` and `evserver_create`. -/
def Server.init (n : Nat) (queueSize : Int) : Server n where
  workers _ := evserverWorkerInit queueSize
  currentWorker := 0
  clientWaitCount := 0
  clientHandlingCount := 0
  clientConnectedCount := 0
  clients := []
  finalizers := []
  accepted := 0
  holder _ := none
  deeds := []

namespace Server

variable {n : Nat}

def note (s : Server n) (d : Deed) : Server n := { s with deeds := d :: s.deeds }

/-- `close`, of the connection that `fd` stands for now. -/
def close (s : Server n) (fd : Nat) : Server n :=
  match s.holder fd with
  | some conn => s.note (.closed conn)
  | none => s

/-- `socket_close`. -/
def socketClose (s : Server n) (fd : Nat) : Server n := if 0 < fd then s.close fd else s

/-- `_evserver_worker_job_free`. -/
def jobFree (s : Server n) (item : JobItem) : Server n :=
  match item.job with
  | some job => if job.processing = false then s.socketClose job.connectFd else s
  | none => s

/-- `item_free`, with the free hook of the workers' queues. -/
def itemFree (s : Server n) (item : JobItem) : Server n :=
  (s.jobFree item).note (.itemFreed item.conn)

/-! ## Clients -/

/-- What the calls in `evserver_client_new` meet. -/
structure ClientNewAnswers where
  calloc : Bool
  inputBuffer : Bool
  outputBuffer : Bool
  eventAssign : Bool
  eventAdd : Bool
  buffereventSocketNew : Bool
  buffereventEnable : Bool
deriving DecidableEq

/-- `_evserver_client_free`: `bufferevent_free` leaves a finalizer behind. -/
def clientFree (s : Server n) (client : ServerClient) : Server n :=
  if client.bufEv then { s with finalizers := client.fd :: s.finalizers } else s

/-- `evserver_client_new`. -/
def evserverClientNew (s : Server n) (conn fd : Nat) (a : ClientNewAnswers) :
    Option ServerClient × Server n :=
  if a.calloc then
    let client : ServerClient := ⟨conn, fd, false⟩
    if ¬ a.inputBuffer then (none, s.clientFree client)
    else if ¬ a.outputBuffer then (none, s.clientFree client)
    else if ¬ a.eventAssign then (none, s.clientFree client)
    else if ¬ a.eventAdd then (none, s.clientFree client)
    else if ¬ a.buffereventSocketNew then (none, s.clientFree client)
    else
      let client := { client with bufEv := true }
      let s := s.note (.buffered conn)
      if ¬ a.buffereventEnable then (none, s.clientFree client) else (some client, s)
  else (none, s)

/-- `evserver_client_release`, which is all `evserver_client_exit` does in a pool. -/
def evserverClientRelease (s : Server n) (client : ServerClient) : Server n :=
  ({ s with clients := s.clients.erase client }.clientFree client).socketClose client.fd

/-- A callback on a client, with what decides whether it ends it. -/
inductive ClientCallback where
  /-- `_ev_timer_callback`. -/
  | timer (expired : Bool)
  /-- `ev_buffered_read_callback`. -/
  | read (finished : Bool)
  /-- `ev_buffered_write_callback`. -/
  | write (finished : Bool)
  /-- `ev_buffered_error_callback`. -/
  | error
deriving DecidableEq, Repr

def ClientCallback.exits : ClientCallback → Bool
  | timer expired => expired
  | read finished => finished
  | write finished => finished
  | error => true

/-- Every callback ends a client the same way. -/
def clientCallback (s : Server n) (client : ServerClient) (c : ClientCallback) : Server n :=
  if c.exits then
    let s := s.evserverClientRelease client
    { s with clientHandlingCount := s.clientHandlingCount - 1 }
  else s

/-- A finalizer runs: `BEV_OPT_CLOSE_ON_FREE`. -/
def finalize (s : Server n) (fd : Nat) : Server n :=
  { s with finalizers := s.finalizers.erase fd }.close fd

/-! ## Workers -/

def setWorker (s : Server n) (i : Fin (n + 1)) (w : Worker JobItem) : Server n :=
  { s with workers := Function.update s.workers i w }

/-- `_evserver_worker_add_event` after its `queue_pop`. -/
def evserverWorkerAddEvent (s : Server n) (popped : Option JobItem) (a : ClientNewAnswers) :
    Server n :=
  match popped with
  | none => s
  | some item =>
    match item.job with
    | none => s.itemFree item
    | some job =>
      let job := { job with processing := false }
      let s := { s with clientWaitCount := s.clientWaitCount - 1 }
      if 0 < job.connectFd then
        match s.evserverClientNew item.conn job.connectFd a with
        | (none, s) => s.itemFree { item with job := some job }
        | (some client, s) =>
          let s := { s with
            clients := client :: s.clients
            clientHandlingCount := s.clientHandlingCount + 1 }
          s.itemFree { item with job := some { job with processing := true } }
      else s.itemFree { item with job := some job }

/-- The next section of a worker's read callback. -/
def readCallbackStep (s : Server n) (i : Fin (n + 1)) (w : WaitEnd) (a : ClientNewAnswers) :
    Server n :=
  let r := (s.workers i).readCallbackStep w
  let s := s.setWorker i r.2
  match r.1 with
  | none => s
  | some popped => s.evserverWorkerAddEvent popped a

/-- The next section of `evserver_worker_add_job`; the job is counted together with the
byte that is sent for it. -/
def addJobStep (s : Server n) (i : Fin (n + 1)) (w : WaitEnd) : Server n :=
  let r := (s.workers i).addJobStep w
  let counts : Int := match (s.workers i).addJob with
    | some .notify => 1
    | _ => 0
  r.1.foldl itemFree
    { s.setWorker i r.2 with clientWaitCount := s.clientWaitCount + counts }

/-! ## Accepting -/

/-- What the calls in `ev_accept_callback` meet. -/
structure AcceptAnswers where
  makeSocketNonblocking : Bool
  itemAlloc : Bool
  memdup : Bool
deriving DecidableEq

/-- The worker whose turn it is: `current_worker % worker_size`. -/
def selected (s : Server n) : Fin (n + 1) := Fin.ofNat (n + 1) s.currentWorker.toNat

/-- `evserver_tpool_add_job`, up to the `queue_push` of the worker it has picked, after
which it can only return `true`. -/
def evserverTpoolAddJob (s : Server n) (conn fd : Nat) (a : AcceptAnswers) : Bool × Server n :=
  if h : 0 < fd then
    let i := s.selected
    let s := { s with currentWorker := s.currentWorker + 1 }
    if a.itemAlloc then
      let item : JobItem := ⟨conn, if a.memdup then some ⟨fd, h, false⟩ else none⟩
      (true, s.setWorker i ((s.workers i).startAddJob item))
    else (false, s)
  else (false, s)

/-- `accept` has returned `fd`, which stands for a new connection from now on. -/
def accepting (s : Server n) (fd : Nat) : Server n :=
  { s with
    accepted := s.accepted + 1
    holder := Function.update s.holder fd (some s.accepted) }

/-- `ev_accept_callback`, for an `accept` that has returned `fd`. -/
def evAcceptCallback (s : Server n) (fd : Nat) (a : AcceptAnswers) : Server n :=
  let conn := s.accepted
  let s := s.accepting fd
  if s.clientConnectedCount > clientAcceptMaxCount then s.socketClose fd
  else if ¬ a.makeSocketNonblocking then s.socketClose fd
  else
    match s.evserverTpoolAddJob conn fd a with
    | (false, s) => s.socketClose fd
    | (true, s) => s

end Server

inductive ServerEvent (n : Nat) where
  /-- `accept` has returned `fd`. -/
  | accept (fd : Nat) (a : Server.AcceptAnswers)
  | addJobStep (i : Fin (n + 1)) (w : WaitEnd)
  /-- The socket of worker `i` is readable. -/
  | readCallback (i : Fin (n + 1))
  | readCallbackStep (i : Fin (n + 1)) (w : WaitEnd) (a : Server.ClientNewAnswers)
  | clientCallback (client : ServerClient) (c : Server.ClientCallback)
  /-- The event loop gets to the finalizer of a bufferevent. -/
  | finalize (fd : Nat)

/-- No `ev_accept_callback` is under way: there is one thread for them. -/
def Server.AcceptIdle {n : Nat} (s : Server n) : Prop := ∀ i, (s.workers i).addJob.isNone

instance {n : Nat} (s : Server n) : Decidable s.AcceptIdle := inferInstanceAs (Decidable (∀ _, _))

/-- An event that cannot happen yet changes nothing. -/
def Server.step {n : Nat} (s : Server n) (e : ServerEvent n) : Server n :=
  match e with
  | .accept fd a => if s.AcceptIdle then s.evAcceptCallback fd a else s
  | .addJobStep i w => s.addJobStep i w
  | .readCallback i =>
    if (s.workers i).readCallback.isNone then s.setWorker i (s.workers i).startReadCallback else s
  | .readCallbackStep i w a => s.readCallbackStep i w a
  | .clientCallback client c => if client ∈ s.clients then s.clientCallback client c else s
  | .finalize fd => if fd ∈ s.finalizers then s.finalize fd else s

end TraceServer
