import TraceServer.Threadpool

/-!
# Starting up (`main.c`, `event_server_tpool.c`)

`main` makes the thread pool and waits until all of its threads have begun. Then
`evserver_tpool_create` passes its workers to `tpool_add_work` one after the other, and does not
look at what that returns. A worker's routine is `evserver_worker_factory`, whose
`event_base_dispatch` has an event that stays registered, so it does not return.

The pool of threads is as large as the pool of workers, and nobody else calls `tpool_add_work`.
-/

namespace TraceServer

/-- Where `main` stands. -/
inductive StartupMain where
  /-- It waits for `tpool_get_worker_count`. -/
  | waits
  /-- It has come to worker `i` in the loop of `evserver_tpool_create`. -/
  | adds (i : Nat)
  | monitors
deriving DecidableEq, Repr

/-- The thread pool and `main`. A work is a worker, by its `tpool_index`. -/
structure Startup (n : Nat) where
  tpool : Tpool n (Fin n)
  main : StartupMain

namespace Startup

variable {n : Nat}

/-- `tpool_create` has returned. -/
def init (n : Nat) : Startup n := ⟨.create n (Fin n), .waits⟩

/-- What `main` does next. `calloc` is what a call of `tpool_add_work` gets. -/
def mainStep (s : Startup n) (calloc : Option Nat) : Startup n :=
  match s.main with
  | .waits => if s.tpool.workerCounts ≠ n then s else { s with main := .adds 0 }
  | .adds i =>
    if hi : i < n then
      if s.tpool.calls.isEmpty then { s with tpool := s.tpool.step (.addWork (some ⟨i, hi⟩)) }
      else
        let tpool := s.tpool.step (.addWorkStep 0 calloc)
        { tpool, main := if tpool.calls.isEmpty then .adds (i + 1) else .adds i }
    else { s with main := .monitors }
  | .monitors => s

/-- A thread that runs a worker stays in `event_base_dispatch`. -/
def threadStep (s : Startup n) (i : Fin n) : Startup n :=
  match s.tpool.threads i with
  | .runs _ => s
  | _ => { s with tpool := s.tpool.step (.thread i) }

end Startup

inductive StartupEvent (n : Nat) where
  | main (calloc : Option Nat)
  | thread (i : Fin n)
deriving DecidableEq

def Startup.step {n : Nat} (s : Startup n) (e : StartupEvent n) : Startup n :=
  match e with
  | .main calloc => s.mainStep calloc
  | .thread i => s.threadStep i

end TraceServer
