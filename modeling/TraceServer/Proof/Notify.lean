import TraceServer.Worker

/-!
# Does every notification find its job?

As long as nothing is dropped the two channels agree: every job in the queue has its
byte in the socket pair, or in the hands of the read callback, or is about to have it
sent (`Counted`). A `queue_push` that finds the queue full throws the jobs away and
leaves their bytes where they are, and the read callbacks those bytes cause find the
queue empty and wait in it.
-/

namespace TraceServer

variable {α : Type}

/-- What the read callback relies on. -/
structure Notified (s : Worker α) : Prop where
  le : s.notified ≤ s.queue.head.length
  nonempty : s.readCallback = some .enter → s.queue.head ≠ []
  neverWaits : s.readCallback ≠ some .wait

/-- No `queue_flush` finds a job in the queue. -/
def FlushesNothing (s : Worker α) (e : WorkerEvent α) : Prop :=
  ∀ w item, e = .addJobStep w → s.addJob = some (.push (.flush item)) → s.queue.head = []

/-- The byte the read callback has received and not yet used. -/
def received : Option QueuePop → Nat
  | some _ => 1
  | none => 0

/-- The byte that is sent next. -/
def unsent : Option (AddJob α) → Nat
  | some .notify => 1
  | _ => 0

/-- Every job in the queue has exactly one byte. -/
structure Counted (s : Worker α) : Prop where
  jobs : s.queue.head.length = s.notified + received s.readCallback + unsent s.addJob
  depth : s.queue.depth = s.queue.head.length
  mode : s.queue.mode = .queueFullFlush
  notRing : ∀ item p, s.addJob ≠ some (.push (.popFree item p))
  neverWaits : s.readCallback ≠ some .wait

theorem counted_init (queueSize : Int) : Counted (evserverWorkerInit queueSize : Worker α) :=
  ⟨rfl, rfl, rfl, fun _ _ h => absurd h (by simp [evserverWorkerInit]),
    fun h => absurd h (by simp [evserverWorkerInit])⟩

theorem Counted.notified {s : Worker α} (h : Counted s) : Notified s where
  le := by
    have := h.jobs
    omega
  nonempty := by
    intro hread hnil
    have hjobs := h.jobs
    rw [hnil, hread] at hjobs
    simp only [List.length_nil, received] at hjobs
    omega
  neverWaits := h.neverWaits

/-- The caller of `evserver_worker_add_job` keeps the count, unless it drops jobs. -/
theorem counted_addJobStep {s : Worker α} (h : Counted s) {w : WaitEnd}
    (hflush : ∀ item, s.addJob = some (.push (.flush item)) → s.queue.head = []) :
    Counted (s.addJobStep w).2 := by
  obtain ⟨hjobs, hdepth, hmode, hring, hwaits⟩ := h
  obtain ⟨q, notified, addJob, readCallback⟩ := s
  dsimp only at hjobs hdepth hmode hring hwaits hflush
  cases addJob with
  | none => exact ⟨hjobs, hdepth, hmode, hring, hwaits⟩
  | some a =>
    cases a with
    | notify =>
        simp only [Worker.addJobStep]
        refine ⟨?_, hdepth, hmode, fun _ _ hne => absurd hne (by simp), hwaits⟩
        simp only [unsent] at hjobs ⊢
        omega
    | push p =>
      cases p with
      | test item =>
          simp only [Worker.addJobStep, QueuePush.step, hmode]
          split
          · exact ⟨hjobs, hdepth, hmode, fun _ _ hne => absurd hne (by simp), hwaits⟩
          · exact ⟨hjobs, hdepth, hmode, fun _ _ hne => absurd hne (by simp), hwaits⟩
      | flush item =>
          have hnil := hflush item rfl
          rw [hnil] at hjobs
          simp only [Worker.addJobStep, QueuePush.step, queueFlush]
          exact ⟨hjobs, rfl, hmode, fun _ _ hne => absurd hne (by simp), hwaits⟩
      | popFree item p => exact absurd rfl (hring item p)
      | link item =>
          simp only [Worker.addJobStep, QueuePush.step, queueLink]
          refine ⟨?_, ?_, hmode, fun _ _ hne => absurd hne (by simp), hwaits⟩
          · simp only [unsent] at hjobs
            simp only [List.length_append, List.length_singleton, unsent]
            omega
          · simp only [List.length_append, List.length_singleton]
            omega

/-- The read callback finds a job in the queue, and takes it. -/
theorem counted_readCallbackStep {s : Worker α} (h : Counted s) {w : WaitEnd} :
    Counted (s.readCallbackStep w).2 := by
  have hne := h.notified.nonempty
  obtain ⟨hjobs, hdepth, hmode, hring, hwaits⟩ := h
  obtain ⟨q, notified, addJob, readCallback⟩ := s
  dsimp only at hjobs hdepth hmode hring hwaits hne
  cases readCallback with
  | none => exact ⟨hjobs, hdepth, hmode, hring, hwaits⟩
  | some p =>
    cases p with
    | wait => exact absurd rfl hwaits
    | enter =>
        obtain ⟨item, rest, hhead⟩ := List.exists_cons_of_ne_nil (hne rfl)
        rw [hhead] at hjobs hdepth
        simp only [List.length_cons, received] at hjobs hdepth
        simp only [Worker.readCallbackStep, QueuePop.step, queueTakeFirst, hhead]
        refine ⟨?_, ?_, hmode, hring, by simp⟩
        · show rest.length = notified + 0 + unsent addJob
          omega
        · show q.depth - 1 = rest.length
          omega

theorem counted_step {s : Worker α} {e : WorkerEvent α} (h : Counted s)
    (hflush : FlushesNothing s e) : Counted (s.step e) := by
  cases e with
  | addJob item =>
      unfold Worker.step
      dsimp only
      split
      · rename_i hnone
        obtain ⟨hjobs, hdepth, hmode, hring, hwaits⟩ := h
        rw [Option.isNone_iff_eq_none.mp hnone] at hjobs
        exact ⟨hjobs, hdepth, hmode, fun _ _ hne => absurd hne (by simp [Worker.startAddJob]), hwaits⟩
      · exact h
  | addJobStep w => exact counted_addJobStep h fun item hadd => hflush w item rfl hadd
  | readCallback =>
      unfold Worker.step Worker.startReadCallback
      dsimp only
      split
      · rename_i hnone
        split
        · obtain ⟨hjobs, hdepth, hmode, hring, hwaits⟩ := h
          rw [Option.isNone_iff_eq_none.mp hnone] at hjobs
          refine ⟨?_, hdepth, hmode, hring, by simp⟩
          simp only [received] at hjobs ⊢
          omega
        · exact h
      · exact h
  | readCallbackStep w => exact counted_readCallbackStep h

/-- What a flush throws away, the notifications outlive. -/
theorem flush_not_notified {s : Worker α} {e : WorkerEvent α} (h : Counted s)
    (hdrops : ¬ FlushesNothing s e) : ¬ Notified (s.step e) := by
  unfold FlushesNothing at hdrops
  push Not at hdrops
  obtain ⟨w, item, rfl, hadd, hne⟩ := hdrops
  obtain ⟨hjobs, hdepth, hmode, hring, hwaits⟩ := h
  obtain ⟨q, notified, addJob, readCallback⟩ := s
  dsimp only at hadd hne hjobs hwaits
  subst hadd
  have hpos := List.length_pos_iff.mpr hne
  intro hafter
  have hle : notified ≤ 0 := hafter.le
  cases readCallback with
  | none =>
      simp only [received, unsent] at hjobs
      omega
  | some p =>
    cases p with
    | wait => exact hwaits rfl
    | enter => exact hafter.nonempty rfl rfl

/-- **Every byte finds its job exactly as long as no flush drops one.** -/
theorem notified_iff (queueSize : Int) (es : List (WorkerEvent α)) :
    (∀ s ∈ Machine.trail Worker.step (evserverWorkerInit queueSize) es, Notified s)
      ↔ Machine.Along Worker.step FlushesNothing (evserverWorkerInit queueSize) es :=
  Machine.trail_iff_along Worker.step Counted Notified (fun _ h => h.notified)
    (fun _ _ h _ hf => counted_step h hf) (fun _ _ h _ hd => flush_not_notified h hd)
    (counted_init queueSize) (Machine.along_true _ _ _)

/-- A whole call of `evserver_worker_add_job` on a queue that is not full. -/
def addsJob (item : α) : List (WorkerEvent α) :=
  [.addJob item, .addJobStep .timedOut, .addJobStep .timedOut, .addJobStep .timedOut]

/-- Two jobs for a worker that has room for one, and then its two read callbacks. -/
def fullQueue : List (WorkerEvent Unit) :=
  addsJob () ++ addsJob () ++ [.addJobStep .timedOut] ++
    [.readCallback, .readCallbackStep .timedOut, .readCallback, .readCallbackStep .timedOut]

/-- The second callback waits for a job that nobody is sending. -/
theorem fullQueue_waits :
    ¬ ∀ s ∈ Machine.trail Worker.step (evserverWorkerInit 1) fullQueue, Notified s := by
  intro hall
  exact (hall _ (Machine.run_mem_trail Worker.step _ _)).neverWaits rfl

end TraceServer
