import TraceServer.Lib.Chain
import TraceServer.Lib.Run

/-!
# The thread pool (`threadpool.c`)

Works are passed to the threads in a list that is linked by hand, under `queue_lock`; how
many threads are at work is counted under `_tpool_working_count_lock`, by the threads, after
they have taken a work and after they have done it. `tpool_add_work` tests the count first
and links the work later, and these are two sections as well.

A step lets one thread or one call take its next section. What it does between sections
with a work of its own (filling it, running it, freeing it) goes with the section before.

`linked`, `taken`, `ran`, `finished` and `returns` are ghosts. A work is a routine with its
argument; `none` in a call is a null routine.
-/

namespace TraceServer

/-- `tpool_work_t`. -/
structure TpoolWork (α : Type) where
  routine : α
  next : Option Nat

/-- Where a thread stands in `thread_routine`. -/
inductive ThreadRoutine where
  | begins
  /-- At the head of its loop, with or without the lock. -/
  | waits
  /-- It has taken the work at this address off the list. -/
  | taken (work : Nat)
  /-- It has been counted and runs the work. -/
  | runs (work : Nat)
  /-- The work is done and freed, and the thread is still counted. -/
  | returned
  | exited
deriving DecidableEq, Repr

/-- Where a call of `tpool_add_work` stands. -/
inductive AddWork (α : Type) where
  | test (routine : Option α)
  /-- The test is passed, and the routine is not null. -/
  | link (routine : α)

/-- `tpool_t`, the memory its works are in, its threads, and the calls under way. -/
structure Tpool (n : Nat) (α : Type) where
  shutdown : Bool
  maxThrNum : Int
  workerCounts : Int
  workingCounts : Int
  queueHead : Option Nat
  works : Nat → Option (TpoolWork α)
  threads : Fin n → ThreadRoutine
  calls : List (AddWork α)
  /-- The works linked, first to last: `tpool_add_work` then returns 0. -/
  linked : List α
  /-- The works taken off the list, and by which thread. -/
  taken : List (Fin n × α)
  /-- The routines called, and by which thread. -/
  ran : List (Fin n × α)
  /-- Routines that have returned. -/
  finished : Nat
  /-- What the calls have returned, the last first. -/
  returns : List Int

namespace Tpool

variable {n : Nat} {α : Type}

/-- `tpool_create`. -/
def create (n : Nat) (α : Type) : Tpool n α where
  shutdown := false
  maxThrNum := n
  workerCounts := 0
  workingCounts := 0
  queueHead := none
  works _ := none
  threads _ := .begins
  calls := []
  linked := []
  taken := []
  ran := []
  finished := 0
  returns := []

def setThread (s : Tpool n α) (i : Fin n) (t : ThreadRoutine) : Tpool n α :=
  { s with threads := Function.update s.threads i t }

/-- The next section of `thread_routine`. Whatever wakes a waiting thread, it looks at the
list again. -/
def threadRoutine (s : Tpool n α) (i : Fin n) : Tpool n α :=
  match s.threads i with
  | .begins => { s.setThread i .waits with workerCounts := s.workerCounts + 1 }
  | .waits =>
    if s.queueHead.isNone ∧ s.shutdown = false then s
    else if s.shutdown then s.setThread i .exited
    else
      match s.queueHead with
      | none => s
      | some work =>
        match s.works work with
        | none => s
        | some w =>
          { s.setThread i (.taken work) with
            queueHead := w.next
            taken := s.taken ++ [(i, w.routine)] }
  | .taken work =>
    { s.setThread i (.runs work) with
      workingCounts := s.workingCounts + 1
      ran := s.ran ++ ((s.works work).map fun w => (i, w.routine)).toList }
  | .runs work =>
    { s.setThread i .returned with
      works := Function.update s.works work none
      finished := s.finished + 1 }
  | .returned => { s.setThread i .waits with workingCounts := s.workingCounts - 1 }
  | .exited => s

/-- The last section of `tpool_add_work`: `work` goes behind the last of the list. -/
def linkWork (s : Tpool n α) (work : Nat) (routine : α) : Tpool n α :=
  let works := Function.update s.works work (some ⟨routine, none⟩)
  let s' := { s with linked := s.linked ++ [routine], returns := 0 :: s.returns }
  match s.queueHead with
  | none => { s' with works, queueHead := some work }
  | some member =>
    match lastCell TpoolWork.next works s.linked.length member with
    | none => s
    | some member =>
      match works member with
      | none => s
      | some w => { s' with works := Function.update works member (some { w with next := some work }) }

/-- The next section of the `k`th call of `tpool_add_work`. `calloc` answers with an address or
with none, and never with one that is in use. -/
def tpoolAddWork (s : Tpool n α) (k : Nat) (calloc : Option Nat) : Tpool n α :=
  let s' := { s with calls := s.calls.eraseIdx k }
  match s.calls[k]? with
  | none => s
  | some (.test routine) =>
    if s.workingCounts ≥ s.maxThrNum then { s' with returns := -2 :: s.returns }
    else
      match routine with
      | none => { s' with returns := -1 :: s.returns }
      | some routine => { s' with calls := .link routine :: s'.calls }
  | some (.link routine) =>
    match calloc with
    | none => { s' with returns := -1 :: s.returns }
    | some work => if (s.works work).isNone then s'.linkWork work routine else s

end Tpool

inductive TpoolEvent (n : Nat) (α : Type) where
  /-- Someone calls `tpool_add_work`. -/
  | addWork (routine : Option α)
  | addWorkStep (k : Nat) (calloc : Option Nat)
  | thread (i : Fin n)

def Tpool.step {n : Nat} {α : Type} (s : Tpool n α) (e : TpoolEvent n α) : Tpool n α :=
  match e with
  | .addWork routine => { s with calls := .test routine :: s.calls }
  | .addWorkStep k calloc => s.tpoolAddWork k calloc
  | .thread i => s.threadRoutine i

end TraceServer
