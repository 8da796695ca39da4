import Mathlib.Algebra.BigOperators.Ring.Finset
import TraceServer.Proof.Descriptor
import TraceServer.Proof.Pool

/-!
# Does `client_wait_count` count the waiting jobs?

`evserver_worker_add_job` counts a job after it has queued it, and the worker counts it
off after it has taken it. In between the two numbers differ by what is under way, and
that is all, but for the jobs a `queue_flush` throws away: nobody counts these off. So the
drift never goes down, and it goes up exactly when a flush finds a job.
-/

namespace TraceServer

variable {n : Nat}

/-- The jobs that wait in the queues. -/
def Server.queued (s : Server n) : Nat := ∑ i, (s.workers i).queue.head.length

/-- No `evserver_worker_add_job` and no read callback of a worker is in progress. -/
def Server.Idle (s : Server n) : Prop :=
  ∀ i, (s.workers i).addJob = none ∧ (s.workers i).readCallback = none

/-- There is memory for the copy of the job. -/
def Allocates (_ : Server n) : ServerEvent n → Prop
  | .accept _ a => a.memdup = true
  | _ => True

/-- The jobs a section of `evserver_worker_add_job` throws away. -/
def Worker.flushed {α : Type} (w : Worker α) : Nat :=
  match w.addJob with
  | some (.push (.flush _)) => w.queue.head.length
  | _ => 0

/-- The jobs a step throws away. -/
def Server.drops (s : Server n) : ServerEvent n → Nat
  | .addJobStep i _ => (s.workers i).flushed
  | _ => 0

/-- No `queue_flush` finds a job in its queue. -/
def DropsNothing (s : Server n) (e : ServerEvent n) : Prop := s.drops e = 0

/-! ## One worker -/

/-- The worker's queue is flushed when it is full, as `queue_create` has set it. -/
structure FlushOnly {α : Type} (w : Worker α) : Prop where
  mode : w.queue.mode = .queueFullFlush
  notRing : ∀ item p, w.addJob ≠ some (.push (.popFree item p))

/-- What the worker's jobs have still to add to the count, less those that wait. -/
def Worker.owed {α : Type} (w : Worker α) : Int := unsent w.addJob - w.queue.head.length

section Worker

variable {α : Type} {x : Worker α}

theorem flushOnly_startAddJob (h : FlushOnly x) (item : α) : FlushOnly (x.startAddJob item) :=
  ⟨h.mode, fun _ _ hne => absurd hne (by simp [Worker.startAddJob])⟩

theorem flushOnly_startReadCallback (h : FlushOnly x) : FlushOnly x.startReadCallback := by
  unfold Worker.startReadCallback
  split <;> exact ⟨h.mode, h.notRing⟩

theorem owed_startAddJob (hidle : x.addJob.isNone) (item : α) :
    (x.startAddJob item).owed = x.owed := by
  unfold Worker.owed
  rw [Option.isNone_iff_eq_none.mp hidle]
  rfl

theorem owed_startReadCallback (x : Worker α) : x.startReadCallback.owed = x.owed := by
  unfold Worker.startReadCallback
  split <;> rfl

/-- **A section of `evserver_worker_add_job`** owes less by what it counts, and more by what
it throws away. -/
theorem owed_addJobStep (h : FlushOnly x) (w : WaitEnd) : FlushOnly (x.addJobStep w).2
    ∧ (x.addJobStep w).2.owed + unsent x.addJob = x.owed + x.flushed := by
  obtain ⟨hmode, hring⟩ := h
  obtain ⟨q, notified, addJob, readCallback⟩ := x
  dsimp only at hmode hring
  cases addJob with
  | none => exact ⟨⟨hmode, hring⟩, rfl⟩
  | some call =>
    cases call with
    | notify =>
        -- here the job is counted
        simp only [Worker.addJobStep, Worker.owed, Worker.flushed, unsent]
        exact ⟨⟨hmode, fun _ _ hne => absurd hne (by simp)⟩, by omega⟩
    | push p =>
      cases p with
      | test item =>
          simp only [Worker.addJobStep, QueuePush.step, hmode, Worker.owed, Worker.flushed]
          split
          · exact ⟨⟨hmode, fun _ _ hne => absurd hne (by simp)⟩, rfl⟩
          · exact ⟨⟨hmode, fun _ _ hne => absurd hne (by simp)⟩, rfl⟩
      | flush item =>
          -- the jobs that go had been counted, and nobody counts them off
          simp only [Worker.addJobStep, QueuePush.step, queueFlush, Worker.owed, Worker.flushed,
            unsent, List.length_nil]
          exact ⟨⟨hmode, fun _ _ hne => absurd hne (by simp)⟩, by omega⟩
      | popFree item p => exact absurd rfl (hring item p)
      | link item =>
          -- one job more waits, and one more is to be counted
          simp only [Worker.addJobStep, QueuePush.step, queueLink, Worker.owed, Worker.flushed,
            unsent, List.length_append, List.length_singleton]
          exact ⟨⟨hmode, fun _ _ hne => absurd hne (by simp)⟩, by omega⟩

/-- **A section of the read callback** owes more by the item it takes. -/
theorem owed_readCallbackStep (h : FlushOnly x) (w : WaitEnd) : FlushOnly (x.readCallbackStep w).2
    ∧ (x.readCallbackStep w).2.owed
      = x.owed + ((x.readCallbackStep w).1.getD none).toList.length := by
  obtain ⟨hmode, hring⟩ := h
  obtain ⟨q, notified, addJob, readCallback⟩ := x
  dsimp only at hmode hring
  cases readCallback with
  | none => exact ⟨⟨hmode, hring⟩, by simp [Worker.readCallbackStep]⟩
  | some p =>
      have hpop := queuePop_items p w q
      have hqmode : (p.step w q).2.mode = q.mode := by
        unfold QueuePop.step queueTakeFirst
        split
        · rfl
        · dsimp only
          split <;> rfl
      unfold Worker.readCallbackStep
      dsimp only
      generalize p.step w q = r at hpop hqmode
      obtain ⟨out, q'⟩ := r
      have hlen := congrArg List.length hpop
      rw [List.length_append] at hlen
      cases out with
      | waits =>
          simp only [PopOut.items, List.length_nil, Worker.owed] at hlen ⊢
          exact ⟨⟨hqmode.trans hmode, hring⟩, by simp; omega⟩
      | returns item =>
          simp only [PopOut.items, Worker.owed] at hlen ⊢
          exact ⟨⟨hqmode.trans hmode, hring⟩, by simp only [Option.getD_some]; omega⟩

end Worker

/-! ## The pool -/

/-- What the count relies on, of a worker. -/
structure Sound (w : Worker JobItem) : Prop extends FlushOnly w where
  jobs : ∀ item ∈ w.items, item.job.isSome = true

namespace Pool

/-- How far the count is ahead of the jobs. -/
def drift (p : Pool n) : Int := p.clientWaitCount + ∑ i, (p.workers i).owed

/-- What the count relies on. -/
structure Counts (p : Pool n) : Prop where
  workers : ∀ i, Sound (p.workers i)
  drift : 0 ≤ p.drift

/-- One worker changes, and the count by `c`. -/
theorem Counts.update {p p' : Pool n} (h : p.Counts) {i : Fin (n + 1)} {w : Worker JobItem}
    {c : Int}
    {d : Nat} (hworkers : p'.workers = Function.update p.workers i w)
    (hwait : p'.clientWaitCount = p.clientWaitCount + c) (hw : Sound w)
    (howed : w.owed + c = (p.workers i).owed + d) : p'.Counts ∧ p'.drift = p.drift + d := by
  have hi : p'.workers i = w := by rw [hworkers, Function.update_self]
  have hdrift : p'.drift = p.drift + d := by
    have hsum := sum_update (fun x : Worker JobItem => x.owed) p.workers i w
    unfold Pool.drift
    rw [hworkers, hwait]
    omega
  refine ⟨⟨?_, ?_⟩, hdrift⟩
  · intro j
    by_cases hj : j = i
    · subst hj
      rw [hi]
      exact hw
    · rw [hworkers, Function.update_of_ne hj]
      exact h.workers j
  · have := h.drift
    omega

/-- A worker goes on with its read callback. -/
theorem Counts.sound_readCallbackStep {p : Pool n} (h : p.Counts) (i : Fin (n + 1)) (w : WaitEnd) :
    Sound ((p.workers i).readCallbackStep w).2 := by
  have hw : Sound (p.workers i) := h.workers i
  have hitems := readCallbackStep_items (p.workers i) w
  refine ⟨(owed_readCallbackStep hw.toFlushOnly w).1, fun item hmem => hw.jobs item ?_⟩
  rw [← hitems]
  exact List.mem_append_right _ hmem

/-- **A worker takes an item out of its queue**, and counts it off. -/
theorem Counts.takes {p p' : Pool n} (h : p.Counts) {i : Fin (n + 1)} {w : WaitEnd} {item : JobItem}
    (hpop : ((p.workers i).readCallbackStep w).1 = some (some item))
    (hworkers : p'.workers = Function.update p.workers i ((p.workers i).readCallbackStep w).2)
    (hwait : p'.clientWaitCount = p.clientWaitCount - 1) :
    p'.Counts ∧ p'.drift = p.drift + (0 : Nat) := by
  have hw : Sound (p.workers i) := h.workers i
  obtain ⟨_, howed⟩ := owed_readCallbackStep hw.toFlushOnly w
  have htaken : ((p.workers i).readCallbackStep w).2.owed + -1 = (p.workers i).owed + (0 : Nat) := by
    rw [hpop] at howed
    rw [howed]
    simp
  exact h.update hworkers hwait (h.sound_readCallbackStep i w) htaken

end Pool

/-- **The drift only grows, by the jobs that are thrown away.** -/
theorem drift_step {s : Server n} (h : s.pool.Counts) {e : ServerEvent n} (he : Allocates s e) :
    (s.step e).pool.Counts ∧ (s.step e).pool.drift = s.pool.drift + s.drops e := by
  have hstep := Server.poolStep s e
  generalize (s.step e).pool = p at hstep
  cases hstep with
  | stays hadd _ =>
      cases e with
      | addJobStep i w => exact absurd rfl (hadd i w)
      | _ => exact ⟨h, (Int.add_zero _).symm⟩
  | given hidle hadmits hjob =>
      -- the item has a job, since there was memory for the copy
      rename_i fd a i job
      have hw : Sound (s.workers i) := h.workers i
      refine h.update rfl (Int.add_zero _).symm ⟨flushOnly_startAddJob hw.toFlushOnly _, ?_⟩
        (by rw [owed_startAddJob (hidle i)]; rfl)
      rw [startAddJob_items (hidle i)]
      intro item hmem
      rcases List.mem_append.mp hmem with hmem | hmem
      · exact hw.jobs item hmem
      · obtain rfl := List.mem_singleton.mp hmem
        exact hjob.trans he
  | pushes i w =>
      have hw : Sound (s.workers i) := h.workers i
      have hout := addJobStep_items (s.workers i) w
      obtain ⟨hflush, howed⟩ := owed_addJobStep hw.toFlushOnly w
      exact h.update rfl rfl
        ⟨hflush, fun item hmem => hw.jobs item (hout.subset (List.mem_append_right _ hmem))⟩ howed
  | called i hidle =>
      have hw : Sound (s.workers i) := h.workers i
      refine h.update rfl (Int.add_zero _).symm ⟨flushOnly_startReadCallback hw.toFlushOnly, ?_⟩
        (by rw [owed_startReadCallback]; rfl)
      rw [startReadCallback_items]
      exact hw.jobs
  | jobless i w a hpop =>
      have hw : Sound (s.workers i) := h.workers i
      obtain ⟨_, howed⟩ := owed_readCallbackStep hw.toFlushOnly w
      -- every item has a job, so none has come out
      have hnone : ((s.workers i).readCallbackStep w).1.getD none = none := by
        cases hret : ((s.workers i).readCallbackStep w).1 with
        | none => rfl
        | some popped =>
          cases popped with
          | none => rfl
          | some item =>
              have hmem : item ∈ (s.workers i).items := by
                rw [← readCallbackStep_items (s.workers i) w, hret]
                exact List.mem_append_left _ (by simp)
              exact absurd (hw.jobs item hmem) (by simp [hpop item hret])
      rw [hnone] at howed
      exact h.update rfl (Int.add_zero _).symm (h.sound_readCallbackStep i w)
        ((Int.add_zero _).trans howed)
  | fails hfails hpop hjob => exact h.takes hpop rfl rfl
  | creates hmakes hpop hjob =>
      -- the new client is no part of the count
      exact h.takes hpop rfl rfl
  | releases hmem c hexits => exact ⟨⟨h.workers, h.drift⟩, (Int.add_zero _).symm⟩

/-! ## Runs -/

theorem counts_init (n : Nat) (queueSize : Int) :
    (Server.init n queueSize).pool.Counts ∧ (Server.init n queueSize).pool.drift = 0 := by
  have hdrift : (Server.init n queueSize).pool.drift = 0 := by
    simp [Pool.drift, Server.pool, Server.init, evserverWorkerInit, queueSetDepth, queueCreate,
      Worker.owed, unsent]
  refine ⟨⟨fun i => ⟨⟨rfl, fun _ _ hne => absurd hne ?_⟩, fun _ hmem => absurd hmem ?_⟩, ?_⟩, hdrift⟩
  · simp [Server.pool, Server.init, evserverWorkerInit]
  · simp [Server.pool, Server.init, evserverWorkerInit, queueSetDepth, queueCreate, Worker.items]
  · rw [hdrift]

/-- At rest the drift is the difference of the two numbers. -/
theorem drift_of_idle {s : Server n} (hidle : s.Idle) :
    s.pool.drift = s.clientWaitCount - s.queued := by
  have howed : ∀ i, (s.workers i).owed = -((s.workers i).queue.head.length : Int) := by
    intro i
    unfold Worker.owed
    rw [(hidle i).1]
    simp [unsent]
  unfold Pool.drift Server.queued
  show s.clientWaitCount + ∑ i, (s.workers i).owed = _
  rw [Finset.sum_congr rfl fun i _ => howed i, Finset.sum_neg_distrib, Nat.cast_sum]
  exact Int.sub_eq_add_neg.symm

/-- **`client_wait_count` is the number of jobs that wait exactly as long as no `queue_flush`
has thrown one away.** -/
theorem waitCount_iff (n : Nat) (queueSize : Int) (es : List (ServerEvent n))
    (halloc : Machine.Along Server.step Allocates (Server.init n queueSize) es)
    (hidle : (Machine.run Server.step (Server.init n queueSize) es).Idle) :
    (Machine.run Server.step (Server.init n queueSize) es).clientWaitCount
        = (Machine.run Server.step (Server.init n queueSize) es).queued
      ↔ Machine.Along Server.step DropsNothing (Server.init n queueSize) es := by
  have hrest := drift_of_idle hidle
  obtain ⟨hinit, hzero⟩ := counts_init n queueSize
  constructor
  · -- a drift above zero stays above zero
    intro heq
    rcases Machine.along_or_spoilt Server.step (fun s => s.pool.Counts) (fun s => 0 < s.pool.drift)
        (fun s e h ha => (drift_step h ha).1)
        (fun s e h ha hpos => by
          have := (drift_step h ha).2
          omega)
        (fun s e h ha hdrop => by
          have := (drift_step h ha).2
          have := h.drift
          have : s.drops e ≠ 0 := hdrop
          omega)
        hinit halloc with h | h
    · exact h
    · omega
  · intro hdrops
    have hinv := Machine.inv_trail Server.step (fun s => s.pool.Counts ∧ s.pool.drift = 0)
      (fun s e h hP => by
        obtain ⟨h', hstep⟩ := drift_step h.1 hP.1
        have : s.drops e = 0 := hP.2
        exact ⟨h', by omega⟩)
      ⟨hinit, hzero⟩ (halloc.and Server.step hdrops) _ (Machine.run_mem_trail _ _ es)
    omega

/-- A client is accepted, and its worker pushes the job. -/
def jobPushed (fd : Nat) : List (ServerEvent 0) :=
  .accept fd ⟨true, true, true⟩ :: List.replicate 3 (.addJobStep (Fin.last 0) .timedOut)

/-- A queue of one is given two jobs, one after the other. -/
def twoJobs : List (ServerEvent 0) :=
  jobPushed 7 ++ jobPushed 8 ++ [.addJobStep (Fin.last 0) .timedOut]

theorem idle_of_isNone {s : Server 0}
    (h : ((s.workers 0).addJob.isNone && (s.workers 0).readCallback.isNone) = true) : s.Idle := by
  intro i
  obtain rfl : i = 0 := Fin.fin_one_eq_zero i
  obtain ⟨hadd, hread⟩ := Bool.and_eq_true_iff.mp h
  exact ⟨Option.isNone_iff_eq_none.mp hadd, Option.isNone_iff_eq_none.mp hread⟩

/-- The first of them is thrown away, and goes on being counted. -/
theorem flushedJob_counted :
    ¬ ∀ s ∈ Machine.trail Server.step (Server.init 0 1) twoJobs,
      s.Idle → s.clientWaitCount = s.queued := by
  intro hall
  have heq := hall _ (Machine.run_mem_trail Server.step _ _) (idle_of_isNone (by decide +kernel))
  exact absurd heq (by decide +kernel)

/-- A job that is picked up is counted off. -/
theorem pickedUp_counted :
    (Machine.run Server.step (Server.init 0 32)
        (pickedUp 7 ⟨true, true, true, true, true, true, true⟩)).clientWaitCount
      = (Machine.run Server.step (Server.init 0 32)
        (pickedUp 7 ⟨true, true, true, true, true, true, true⟩)).queued := by
  refine (waitCount_iff 0 32 _ ?_ (idle_of_isNone (by decide +kernel))).mpr ?_
  · exact ⟨rfl, trivial, trivial, trivial, trivial, trivial, trivial⟩
  · exact ⟨rfl, rfl, rfl, rfl, rfl, rfl, trivial⟩

end TraceServer
