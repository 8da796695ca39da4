import Mathlib.Data.List.Perm.Subperm
import TraceServer.Lib.Custody
import TraceServer.WorkerPool

/-!
# A pool of workers is made whole or not at all

However far the making of a pool gets, what it has taken is what the pool has, and a pool that
cannot be made is freed with everything that has been taken for it. Descriptor 0 apart, which a
worker takes for none. A worker that `evserver_worker_new` has made is freed but for its own memory.
-/

namespace TraceServer

/-- Everything that has been taken, descriptor 0 apart, has been given back once or is among
`held`. -/
def Ledger.Holds (l : Ledger) (held : List Resource) : Prop :=
  Custody (l.taken.filter (· ≠ .fd 0)) held l.given

namespace Ledger

variable {l : Ledger} {held held' : List Resource}

theorem holds_empty : (Ledger.mk [] []).Holds [] := Custody.empty

theorem Holds.take (h : l.Holds held) {r : Resource} (hr : r ≠ .fd 0)
    (hheld : held'.Perm (held ++ [r])) : (l.take r).Holds held' := by
  have hsingle : [r].filter (fun r => decide (r ≠ .fd 0)) = [r] :=
    List.filter_cons_of_pos (decide_eq_true hr)
  unfold Holds at h ⊢
  rw [Ledger.take, List.filter_append, hsingle]
  exact h.enter hheld

/-- A descriptor that may be 0. -/
theorem Holds.takeFd (h : l.Holds held) {fd : Nat}
    (hheld : held'.Perm (held ++ if fd ≠ 0 then [.fd fd] else [])) :
    (l.take (.fd fd)).Holds held' := by
  by_cases hfd : fd ≠ 0
  · rw [if_pos hfd] at hheld
    exact h.take (by simpa using hfd) hheld
  · obtain rfl : fd = 0 := not_not.mp hfd
    rw [if_neg hfd, List.append_nil] at hheld
    have hnone : [Resource.fd 0].filter (fun r => decide (r ≠ .fd 0)) = [] := rfl
    unfold Holds at h ⊢
    rw [Ledger.take, List.filter_append, hnone, List.append_nil]
    exact h.perm hheld (.refl _)

/-- What is given back is not held any more. -/
theorem Holds.give {gone : List Resource} (h : l.Holds held) (hheld : held.Perm (gone ++ held')) :
    (Ledger.mk l.taken (l.given ++ gone)).Holds held' := Custody.leave h hheld.symm

end Ledger

/-! ## One worker -/

namespace EvserverWorker

/-- What a worker has, in the order in which it gives it back. -/
def held (worker : EvserverWorker) : List Resource :=
  worker.evbase.toList.map .evbase
    ++ ((if worker.readFd ≠ 0 then [.fd worker.readFd] else [])
      ++ ((if worker.writeFd ≠ 0 then [.fd worker.writeFd] else [])
        ++ worker.queue.toList.map .queue))

theorem held_zero : zero.held = [] := rfl

/-- A worker that `event_base_dispatch` can be called for: it has the queue, the socket pair and the
event base that the calls have answered with, and its event is there. -/
structure Ready (a : WorkerAnswers) (worker : EvserverWorker) : Prop where
  queue : ∃ queue, a.queueCreate = some queue ∧ worker.queue = some queue
  pair : a.evutilSocketpair = some (worker.writeFd, worker.readFd)
  evbase : ∃ evbase, a.eventBaseNew = some evbase ∧ worker.evbase = some evbase
  event : a.eventAssign ∧ a.eventAdd

/-- What is taken last stands first. -/
theorem perm_front (held xs ys : List Resource) : (held ++ (xs ++ ys)).Perm (held ++ ys ++ xs) := by
  rw [List.append_assoc]
  exact List.perm_append_comm.append_left held

/-- **What `evserver_worker_init` has taken, the worker has**, whether it has worked or not. -/
theorem init_holds (a : WorkerAnswers) {l : Ledger} {held : List Resource} (h : l.Holds held) :
    (init a l).2.2.Holds (held ++ (init a l).2.1.held) ∧ (init a l).2.2.given = l.given
      ∧ ((init a l).1 = true → (init a l).2.1.Ready a) := by
  unfold init
  dsimp only
  cases hcreate : a.queueCreate with
  | none => exact ⟨by simpa [held_zero] using h, rfl, fun h => absurd h (by simp)⟩
  | some queue =>
      have hqueue := h.take (r := .queue queue) (by simp) (.refl _)
      dsimp only
      cases hpair : a.evutilSocketpair with
      | none => exact ⟨hqueue, rfl, fun h => absurd h (by simp)⟩
      | some fd =>
          have hwrite := hqueue.takeFd (perm_front held (if fd.1 ≠ 0 then [.fd fd.1] else []) _)
          have hread := hwrite.takeFd (perm_front held (if fd.2 ≠ 0 then [.fd fd.2] else []) _)
          dsimp only
          cases hnew : a.eventBaseNew with
          | none => exact ⟨hread, rfl, fun h => absurd h (by simp)⟩
          | some evbase =>
              have hbase := hread.take (r := .evbase evbase) (by simp) (perm_front held [_] _)
              -- the event is not a resource, so what the worker has is the same from here on
              dsimp only
              split
              · exact ⟨hbase, rfl, fun h => absurd h (by simp)⟩
              · rename_i hassign
                split
                · exact ⟨hbase, rfl, fun h => absurd h (by simp)⟩
                · rename_i hadd
                  exact ⟨hbase, rfl, fun _ => ⟨⟨queue, hcreate, rfl⟩, hpair, ⟨evbase, hnew, rfl⟩,
                    not_not.mp hassign, not_not.mp hadd⟩⟩

/-- `evserver_worker_free` gives back what the worker has, and not the worker. -/
theorem free_eq (worker : EvserverWorker) (p : Nat) (l : Ledger) :
    worker.free p l = ⟨l.taken, l.given ++ worker.held⟩ := by
  obtain ⟨readFd, writeFd, evbase, queue, createByMalloc⟩ := worker
  have hclose : ∀ (l : Ledger) (fd : Nat), (if fd ≠ 0 then l.socketClose fd else l)
      = ⟨l.taken, l.given ++ if fd ≠ 0 then [.fd fd] else []⟩ := by
    intro l fd
    unfold Ledger.socketClose
    by_cases hfd : fd ≠ 0
    · rw [if_pos hfd, if_pos hfd, if_pos (Nat.pos_of_ne_zero hfd)]
      rfl
    · rw [if_neg hfd, if_neg hfd, List.append_nil]
  unfold free held
  dsimp only
  rw [hclose, hclose]
  cases evbase <;> cases queue <;> simp [zero, Ledger.give]

end EvserverWorker

/-- **A worker of `evserver_worker_new` is freed but for its memory**, and so is one that could not
be made. -/
theorem evserverWorkerNew_holds (p : Nat) (a : WorkerAnswers) :
    let r := evserverWorkerNew (some p) a ⟨[], []⟩
    (r.1 = none → r.2.Holds [.memory p])
      ∧ ∀ worker, r.1 = some worker → r.2.given = [] ∧ (worker.free p r.2).Holds [.memory p] := by
  intro r
  have hmemory : ((Ledger.mk [] []).take (.memory p)).Holds [.memory p] :=
    Ledger.holds_empty.take (by simp) (.refl _)
  obtain ⟨hheld, hgiven, _⟩ := EvserverWorker.init_holds a hmemory
  have hr : r = if (EvserverWorker.init a ((Ledger.mk [] []).take (.memory p))).1 = false then
      (none, (EvserverWorker.init a ((Ledger.mk [] []).take (.memory p))).2.1.free p
        (EvserverWorker.init a ((Ledger.mk [] []).take (.memory p))).2.2)
    else (some { (EvserverWorker.init a ((Ledger.mk [] []).take (.memory p))).2.1 with
      createByMalloc := true },
      (EvserverWorker.init a ((Ledger.mk [] []).take (.memory p))).2.2) := rfl
  rw [hr]
  generalize EvserverWorker.init a ((Ledger.mk [] []).take (.memory p)) = i at hheld hgiven
  have hfree : ∀ worker : EvserverWorker, worker.held = i.2.1.held →
      (worker.free p i.2.2).Holds [.memory p] := by
    intro worker hworker
    rw [EvserverWorker.free_eq, hworker]
    exact hheld.give List.perm_append_comm
  split
  · exact ⟨fun _ => hfree _ rfl, fun worker h => absurd h (by simp)⟩
  · refine ⟨fun h => absurd h (by simp), ?_⟩
    rintro worker ⟨⟩
    exact ⟨hgiven, hfree _ rfl⟩

/-! ## The pool -/

namespace EvserverTpool

/-- What a pool has, in the order in which it gives it back. -/
def held (tpool : EvserverTpool) : List Resource :=
  (match tpool.workersMemory with
    | some p => tpool.workers.flatMap EvserverWorker.held ++ [.memory p]
    | none => []) ++ [.memory tpool.memory]

theorem freeWorkers_eq (p : Nat) (workers : List EvserverWorker) (l : Ledger) :
    workers.foldl (fun l (worker : EvserverWorker) => worker.free p l) l
      = ⟨l.taken, l.given ++ workers.flatMap EvserverWorker.held⟩ := by
  induction workers generalizing l with
  | nil => simp
  | cons worker workers ih =>
      rw [List.foldl_cons, ih, EvserverWorker.free_eq, List.flatMap_cons, List.append_assoc]

theorem free_eq (tpool : EvserverTpool) (l : Ledger) :
    tpool.free l = ⟨l.taken, l.given ++ tpool.held⟩ := by
  obtain ⟨memory, workersMemory, workers⟩ := tpool
  unfold free held
  cases workersMemory with
  | none => rfl
  | some p =>
      dsimp only
      rw [freeWorkers_eq]
      simp [Ledger.give]

/-- The blocks of a pool and what its workers have are what it has. -/
theorem holds_made {memory p : Nat} {workers : List EvserverWorker} {l : Ledger}
    (h : l.Holds ([.memory p] ++ [.memory memory] ++ workers.flatMap EvserverWorker.held)) :
    l.Holds (held ⟨memory, some p, workers⟩) := by
  refine h.perm ?_ (.refl _)
  unfold held
  dsimp only
  rw [List.append_assoc]
  exact List.perm_append_comm

/-- A pool that is freed has nothing left. -/
theorem free_holds {tpool : EvserverTpool} {l : Ledger} (h : l.Holds tpool.held) :
    (tpool.free l).Holds [] := by
  rw [free_eq]
  exact h.give (by rw [List.append_nil])

end EvserverTpool

/-- **The loop of `_evserver_tpool_new`.** -/
theorem workersInitLoop_holds (a : Nat → WorkerAnswers) : ∀ (n i : Nat) {l : Ledger}
    {held : List Resource}, l.Holds held →
    (workersInitLoop a n i l).2.2.Holds
        (held ++ (workersInitLoop a n i l).2.1.flatMap EvserverWorker.held)
      ∧ (workersInitLoop a n i l).2.2.given = l.given
      ∧ (workersInitLoop a n i l).2.1.length = n
      ∧ ((workersInitLoop a n i l).1 = true →
        ∀ j worker, (workersInitLoop a n i l).2.1[j]? = some worker →
          EvserverWorker.Ready (a (i + j)) worker)
  | 0, i, l, held, h =>
      ⟨by simpa [workersInitLoop] using h, rfl, rfl, fun _ j worker hj => absurd hj (by
        simp [workersInitLoop])⟩
  | n + 1, i, l, held, h => by
      obtain ⟨hheld, hgiven, hready⟩ := EvserverWorker.init_holds (a i) h
      rw [workersInitLoop]
      dsimp only
      generalize EvserverWorker.init (a i) l = r at hheld hgiven hready
      split
      · -- the workers behind it are as `calloc` has left them
        have hzeros : (List.replicate n EvserverWorker.zero).flatMap EvserverWorker.held = [] := by
          rw [List.flatMap_eq_nil_iff]
          intro worker hmem
          rw [List.eq_of_mem_replicate hmem]
          rfl
        refine ⟨?_, hgiven, by simp, fun h => absurd h (by simp)⟩
        rw [List.flatMap_cons, hzeros, List.append_nil]
        exact hheld
      · rename_i hmade
        obtain ⟨hrest, hgiven', hlength, hready'⟩ := workersInitLoop_holds a n (i + 1) hheld
        refine ⟨?_, hgiven'.trans hgiven, by simp [hlength], ?_⟩
        · rw [List.flatMap_cons, ← List.append_assoc]
          exact hrest
        · intro hall j worker hj
          cases j with
          | zero =>
              obtain rfl := Option.some.inj hj
              exact hready (by simpa using hmade)
          | succ j =>
              rw [← Nat.add_assoc, Nat.add_right_comm]
              exact hready' hall j worker hj

/-- **A pool is made whole, or nothing of it is left.** What has been taken for a pool that cannot
be made is given back, each thing once; one that has been made has given nothing back, has a worker
for every number, with what the calls for that worker have answered, and gives back everything when
it is freed. -/
theorem evserverTpoolNew_holds (workerSize : Int) (workerQueueSize : UInt32) (a : TpoolAnswers) :
    let r := evserverTpoolNew workerSize workerQueueSize a ⟨[], []⟩
    (r.1 = none → r.2.Holds [])
      ∧ ∀ tpool, r.1 = some tpool → r.2.given = [] ∧ tpool.workers.length = workerSize
        ∧ (∀ i worker, tpool.workers[i]? = some worker → EvserverWorker.Ready (a.workers i) worker)
        ∧ (tpool.free r.2).Holds [] := by
  intro r
  have hr : r = evserverTpoolNew workerSize workerQueueSize a ⟨[], []⟩ := rfl
  clear_value r
  unfold evserverTpoolNew at hr
  split at hr
  · rename_i hsize
    cases hcalloc : a.calloc with
    | none =>
        rw [hcalloc] at hr
        subst hr
        exact ⟨fun _ => Ledger.holds_empty, fun tpool h => absurd h (by simp)⟩
    | some memory =>
        have hmemory : ((Ledger.mk [] []).take (.memory memory)).Holds [.memory memory] :=
          Ledger.holds_empty.take (by simp) (.refl _)
        rw [hcalloc] at hr
        dsimp only at hr
        cases hworkers : a.callocWorkers with
        | none =>
            rw [hworkers] at hr
            subst hr
            exact ⟨fun _ => EvserverTpool.free_holds hmemory, fun tpool h => absurd h (by simp)⟩
        | some p =>
            rw [hworkers] at hr
            dsimp only at hr
            have hblock : ((((Ledger.mk [] []).take (.memory memory)).take (.memory p))).Holds
                ([.memory p] ++ [.memory memory]) :=
              hmemory.take (by simp) List.perm_append_comm
            obtain ⟨hheld, hgiven, hlength, hready⟩ :=
              workersInitLoop_holds a.workers workerSize.toNat 0 hblock
            generalize workersInitLoop a.workers workerSize.toNat 0 _ = w
              at hr hheld hgiven hlength hready
            have htpool := EvserverTpool.holds_made hheld
            split at hr
            · subst hr
              exact ⟨fun _ => EvserverTpool.free_holds htpool, fun tpool h => absurd h (by simp)⟩
            · rename_i hmade
              subst hr
              refine ⟨fun h => absurd h (by simp), ?_⟩
              rintro tpool ⟨⟩
              refine ⟨hgiven, ?_, ?_, EvserverTpool.free_holds htpool⟩
              · rw [hlength]
                omega
              · intro i worker hi
                rw [← Nat.zero_add i]
                exact hready (by simpa using hmade) i worker hi
  · subst hr
    exact ⟨fun _ => Ledger.holds_empty, fun tpool h => absurd h (by simp)⟩

end TraceServer
