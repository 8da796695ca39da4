import Mathlib.Data.List.Basic

/-!
# Making the workers (`event_server_worker.c`, `event_server_tpool.c`)

Every worker has a queue, a socket pair and an event base of its own, and the memory of all of them
is one array. When one of the workers cannot be made, `_evserver_tpool_free` is to give back what
the others have got, and what that one has got so far.

What has been taken and what has been given back is noted, each in its order. Resources are the
numbers that libc, the kernel and libevent have answered with. The locks are left out.
-/

namespace TraceServer

inductive Resource where
  /-- A block that `calloc` has returned. -/
  | memory (p : Nat)
  | queue (q : Nat)
  | fd (fd : Nat)
  | evbase (evbase : Nat)
deriving DecidableEq, Repr

structure Ledger where
  taken : List Resource
  given : List Resource
deriving DecidableEq, Repr

namespace Ledger

def take (l : Ledger) (r : Resource) : Ledger := { l with taken := l.taken ++ [r] }

def give (l : Ledger) (r : Resource) : Ledger := { l with given := l.given ++ [r] }

/-- `socket_close`. -/
def socketClose (l : Ledger) (fd : Nat) : Ledger := if 0 < fd then l.give (.fd fd) else l

end Ledger

/-- `evserver_worker_t`. A descriptor that is not there is 0. -/
structure EvserverWorker where
  readFd : Nat
  writeFd : Nat
  evbase : Option Nat
  queue : Option Nat
  createByMalloc : Bool
deriving DecidableEq, Repr

/-- As `memset` and `calloc` leave it. -/
def EvserverWorker.zero : EvserverWorker := ⟨0, 0, none, none, false⟩

/-- What the calls in `evserver_worker_init` answer. -/
structure WorkerAnswers where
  queueCreate : Option Nat
  evutilSocketpair : Option (Nat × Nat)
  eventBaseNew : Option Nat
  eventAssign : Bool
  eventAdd : Bool
deriving DecidableEq, Repr

/-- `evserver_worker_init`: whether it has worked, and what it has made of the worker. -/
def EvserverWorker.init (a : WorkerAnswers) (l : Ledger) : Bool × EvserverWorker × Ledger :=
  let worker := zero
  match a.queueCreate with
  | none => (false, worker, l)
  | some queue =>
    let worker := { worker with queue := some queue }
    let l := l.take (.queue queue)
    match a.evutilSocketpair with
    | none => (false, worker, l)
    | some fd =>
      let worker := { worker with writeFd := fd.1, readFd := fd.2 }
      let l := (l.take (.fd fd.1)).take (.fd fd.2)
      match a.eventBaseNew with
      | none => (false, worker, l)
      | some evbase =>
        let worker := { worker with evbase := some evbase }
        let l := l.take (.evbase evbase)
        if ¬ a.eventAssign then (false, worker, l)
        else if ¬ a.eventAdd then (false, worker, l)
        else (true, worker, l)

/-- `evserver_worker_free`, of a worker in the block `p`. It looks at `create_by_malloc` when the
worker has been cleared. -/
def EvserverWorker.free (worker : EvserverWorker) (p : Nat) (l : Ledger) : Ledger :=
  let l := match worker.evbase with
    | some evbase => l.give (.evbase evbase)
    | none => l
  let l := if worker.readFd ≠ 0 then l.socketClose worker.readFd else l
  let l := if worker.writeFd ≠ 0 then l.socketClose worker.writeFd else l
  let l := match worker.queue with
    | some queue => l.give (.queue queue)
    | none => l
  let worker := zero
  if worker.createByMalloc then l.give (.memory p) else l

/-- `evserver_worker_new`. -/
def evserverWorkerNew (calloc : Option Nat) (a : WorkerAnswers) (l : Ledger) :
    Option EvserverWorker × Ledger :=
  match calloc with
  | none => (none, l)
  | some p =>
    let r := EvserverWorker.init a (l.take (.memory p))
    if r.1 = false then (none, r.2.1.free p r.2.2)
    else (some { r.2.1 with createByMalloc := true }, r.2.2)

/-- `evserver_tpool_t`, in its block of memory, and the block of its workers. -/
structure EvserverTpool where
  memory : Nat
  workersMemory : Option Nat
  workers : List EvserverWorker
deriving DecidableEq, Repr

/-- `_evserver_tpool_free`. -/
def EvserverTpool.free (tpool : EvserverTpool) (l : Ledger) : Ledger :=
  let l := match tpool.workersMemory with
    | some p =>
      (tpool.workers.foldl (fun l (worker : EvserverWorker) => worker.free p l) l).give (.memory p)
    | none => l
  l.give (.memory tpool.memory)

/-- The loop of `_evserver_tpool_new` from worker `i` on, of which `n` are left: whether they have
all been made, and the array as it then is. -/
def workersInitLoop (a : Nat → WorkerAnswers) : Nat → Nat → Ledger →
    Bool × List EvserverWorker × Ledger
  | 0, _, l => (true, [], l)
  | n + 1, i, l =>
    let r := EvserverWorker.init (a i) l
    if r.1 = false then (false, r.2.1 :: List.replicate n .zero, r.2.2)
    else
      let rest := workersInitLoop a n (i + 1) r.2.2
      (rest.1, r.2.1 :: rest.2.1, rest.2.2)

/-- What the calls in `_evserver_tpool_new` answer. -/
structure TpoolAnswers where
  calloc : Option Nat
  callocWorkers : Option Nat
  workers : Nat → WorkerAnswers

/-- `_evserver_tpool_new`. -/
def evserverTpoolNew (workerSize : Int) (workerQueueSize : UInt32) (a : TpoolAnswers) (l : Ledger) :
    Option EvserverTpool × Ledger :=
  if 0 < workerSize ∧ 0 < workerQueueSize then
    match a.calloc with
    | none => (none, l)
    | some memory =>
      let l := l.take (.memory memory)
      match a.callocWorkers with
      | none => (none, (EvserverTpool.mk memory none []).free l)
      | some p =>
        let r := workersInitLoop a.workers workerSize.toNat 0 (l.take (.memory p))
        let tpool : EvserverTpool := ⟨memory, some p, r.2.1⟩
        if r.1 = false then (none, tpool.free r.2.2) else (some tpool, r.2.2)
  else (none, l)

end TraceServer
