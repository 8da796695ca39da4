import TraceServer.Queue

/-!
# A worker and those who give it jobs (`event_server_worker.c`)

A job reaches a worker over two channels: the queue holds it, and a byte in the
worker's socket pair makes its read callback run. `evserver_worker_add_job` pushes the
job and then sends the byte, with the worker's lock held, so at most one call is under
way at a time; the read callback receives one byte and then calls `queue_pop` once.

The sections of the two calls interleave freely. A run is a list of events, each of
which lets one of the two parties take its next step.
-/

namespace TraceServer

variable {α : Type}

/-- Where the `evserver_worker_add_job` that holds the worker's lock stands. -/
inductive AddJob (α : Type) where
  | push (p : QueuePush α)
  /-- `queue_push` has returned: the job is counted and the byte is sent next. -/
  | notify

/-- `evserver_worker_t`, with the socket pair and the two calls that can be under way. -/
structure Worker (α : Type) where
  queue : Queue α
  /-- Bytes in the socket pair. -/
  notified : Nat
  addJob : Option (AddJob α)
  /-- The read callback has received its byte and stands in `queue_pop`. -/
  readCallback : Option QueuePop

/-- `evserver_worker_init`. -/
def evserverWorkerInit (queueSize : Int) : Worker α :=
  ⟨queueSetDepth queueCreate queueSize, 0, none, none⟩

/-- The item of an `evserver_worker_add_job` that has not linked it yet. -/
def AddJob.items : AddJob α → List α
  | .push p => [p.item]
  | .notify => []

/-- Every item a worker is answerable for: those in its queue and the one on the way. -/
def Worker.items (s : Worker α) : List α :=
  s.queue.head ++ (s.addJob.map AddJob.items).getD []

/-- `evserver_worker_add_job` takes the lock and calls `queue_push`. -/
def Worker.startAddJob (s : Worker α) (item : α) : Worker α :=
  { s with addJob := some (.push (.test item)) }

/-- The next section of `evserver_worker_add_job`, and what it frees. -/
def Worker.addJobStep (s : Worker α) (w : WaitEnd) : List α × Worker α :=
  match s.addJob with
  | none => ([], s)
  | some (.push p) =>
    let r := p.step w s.queue
    (r.freed, { s with
      queue := r.queue
      addJob := some (match r.next with | some p => .push p | none => .notify) })
  | some .notify => ([], { s with notified := s.notified + 1, addJob := none })

/-- `_evserver_worker_read_callback` up to its `queue_pop`. libevent calls it when there
is something to receive. -/
def Worker.startReadCallback (s : Worker α) : Worker α :=
  if 0 < s.notified then { s with notified := s.notified - 1, readCallback := some .enter } else s

/-- The next section of its `queue_pop`, and what that returns when it returns. -/
def Worker.readCallbackStep (s : Worker α) (w : WaitEnd) : Option (Option α) × Worker α :=
  match s.readCallback with
  | none => (none, s)
  | some p =>
    match p.step w s.queue with
    | (.waits, q) => (none, { s with queue := q, readCallback := some .wait })
    | (.returns item, q) => (some item, { s with queue := q, readCallback := none })

inductive WorkerEvent (α : Type) where
  /-- Someone calls `evserver_worker_add_job`. -/
  | addJob (item : α)
  | addJobStep (w : WaitEnd)
  /-- The socket is readable. -/
  | readCallback
  | readCallbackStep (w : WaitEnd)

/-- A caller that finds the lock taken waits, and so does a callback for the one before. -/
def Worker.step (s : Worker α) (e : WorkerEvent α) : Worker α :=
  match e with
  | .addJob item => if s.addJob.isNone then s.startAddJob item else s
  | .addJobStep w => (s.addJobStep w).2
  | .readCallback => if s.readCallback.isNone then s.startReadCallback else s
  | .readCallbackStep w => (s.readCallbackStep w).2

end TraceServer
