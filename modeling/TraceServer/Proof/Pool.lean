import TraceServer.Proof.Notify
import TraceServer.Proof.Tally

/-!
# What a step does to the pool

The counters of the server are about its workers and their clients, and a step changes
these in one of a few ways. They are listed once, so that what is said about a counter
needs a case for each of them and nothing more of the callbacks.
-/

namespace TraceServer

/-- The part of the server its counters are about. -/
structure Pool (n : Nat) where
  workers : Fin (n + 1) → Worker JobItem
  clientWaitCount : Int
  clientHandlingCount : Int
  clientConnectedCount : Int
  clients : List ServerClient

variable {n : Nat}

def Server.pool (s : Server n) : Pool n :=
  ⟨s.workers, s.clientWaitCount, s.clientHandlingCount, s.clientConnectedCount, s.clients⟩

/-- Worker `i` is now `w`. -/
def Pool.setWorker (p : Pool n) (i : Fin (n + 1)) (w : Worker JobItem) : Pool n :=
  { p with workers := Function.update p.workers i w }

/-- Every call in `evserver_client_new` works. -/
def Server.ClientNewAnswers.makesClient (a : Server.ClientNewAnswers) : Bool :=
  a.makesBufferevent && a.buffereventEnable

/-- `ev_accept_callback` hands the connection on. -/
structure Server.Admits (s : Server n) (fd : Nat) (a : Server.AcceptAnswers) : Prop where
  count : s.clientConnectedCount ≤ clientAcceptMaxCount
  nonblocking : a.makeSocketNonblocking = true
  fd_pos : 0 < fd
  itemAlloc : a.itemAlloc = true

/-- What an event can do to the pool. -/
inductive PoolStep (s : Server n) : ServerEvent n → Pool n → Prop where
  | stays {e : ServerEvent n} (hadd : ∀ i w, e ≠ .addJobStep i w)
      (hread : ∀ i w a, e ≠ .readCallbackStep i w a) : PoolStep s e s.pool
  /-- A connection has been accepted and an item made for it. -/
  | given {fd : Nat} {a : Server.AcceptAnswers} {i : Fin (n + 1)} {job : Option WorkerJob}
      (hidle : s.AcceptIdle) (hadmits : s.Admits fd a) (hjob : Option.isSome job = a.memdup) :
      PoolStep s (.accept fd a) (s.pool.setWorker i ((s.workers i).startAddJob ⟨s.accepted, job⟩))
  | pushes (i : Fin (n + 1)) (w : WaitEnd) :
      PoolStep s (.addJobStep i w) { s.pool.setWorker i ((s.workers i).addJobStep w).2 with
        clientWaitCount := s.clientWaitCount + unsent (s.workers i).addJob }
  | called (i : Fin (n + 1)) (hidle : (s.workers i).readCallback.isNone) :
      PoolStep s (.readCallback i) (s.pool.setWorker i (s.workers i).startReadCallback)
  /-- `queue_pop` waits, or has come back with no job. -/
  | jobless (i : Fin (n + 1)) (w : WaitEnd) (a : Server.ClientNewAnswers)
      (hpop : ∀ item, ((s.workers i).readCallbackStep w).1 = some (some item) → item.job = none) :
      PoolStep s (.readCallbackStep i w a) (s.pool.setWorker i ((s.workers i).readCallbackStep w).2)
  /-- There is a job, and no client can be made for it. -/
  | fails {i : Fin (n + 1)} {w : WaitEnd} {a : Server.ClientNewAnswers} (hfails : a.makesClient = false)
      {item : JobItem} (hpop : ((s.workers i).readCallbackStep w).1 = some (some item))
      {job : WorkerJob} (hjob : item.job = some job) :
      PoolStep s (.readCallbackStep i w a)
        { s.pool.setWorker i ((s.workers i).readCallbackStep w).2 with
          clientWaitCount := s.clientWaitCount - 1 }
  | creates {i : Fin (n + 1)} {w : WaitEnd} {a : Server.ClientNewAnswers} (hmakes : a.makesClient = true)
      {item : JobItem} (hpop : ((s.workers i).readCallbackStep w).1 = some (some item))
      {job : WorkerJob} (hjob : item.job = some job) :
      PoolStep s (.readCallbackStep i w a)
        { s.pool.setWorker i ((s.workers i).readCallbackStep w).2 with
          clientWaitCount := s.clientWaitCount - 1
          clients := ⟨item.conn, job.connectFd, true⟩ :: s.clients
          clientHandlingCount := s.clientHandlingCount + 1 }
  | releases {client : ServerClient} (hmem : client ∈ s.clients) (c : Server.ClientCallback)
      (hexits : c.exits = true) :
      PoolStep s (.clientCallback client c)
        { s.pool with
          clients := s.clients.erase client
          clientHandlingCount := s.clientHandlingCount - 1 }

namespace Server

variable {s : Server n}

theorem pool_close (s : Server n) (fd : Nat) : (s.close fd).pool = s.pool := by
  unfold close
  split <;> rfl

theorem pool_socketClose (s : Server n) (fd : Nat) : (s.socketClose fd).pool = s.pool := by
  unfold socketClose
  split
  · exact pool_close s fd
  · rfl

theorem pool_itemFree (s : Server n) (item : JobItem) : (s.itemFree item).pool = s.pool := by
  unfold itemFree jobFree
  cases item.job with
  | none => rfl
  | some job =>
      dsimp only
      split
      · exact pool_socketClose s _
      · rfl

theorem pool_foldl_itemFree (items : List JobItem) :
    ∀ s : Server n, (items.foldl itemFree s).pool = s.pool := by
  induction items with
  | nil => exact fun _ => rfl
  | cons item items ih => exact fun s => (ih _).trans (pool_itemFree s item)

theorem pool_clientFree (s : Server n) (client : ServerClient) :
    (s.clientFree client).pool = s.pool := by
  unfold clientFree
  split <;> rfl

theorem pool_evserverClientRelease (s : Server n) (client : ServerClient) :
    (s.evserverClientRelease client).pool = { s.pool with clients := s.clients.erase client } :=
  (pool_socketClose _ _).trans (pool_clientFree _ _)

theorem poolStep_accept (fd : Nat) (a : AcceptAnswers) (hidle : s.AcceptIdle) :
    PoolStep s (.accept fd a) (s.evAcceptCallback fd a).pool := by
  rcases evAcceptCallback_cases s fd a with
    ⟨_, haccept⟩ | ⟨_, _, haccept⟩ | ⟨⟨hcount, hblock, hfd⟩, hitem, job, hjob, _, haccept⟩
  · rw [haccept, pool_socketClose]
    exact .stays (by simp) (by simp)
  · rw [haccept, pool_socketClose]
    exact .stays (by simp) (by simp)
  · rw [haccept]
    exact .given hidle ⟨hcount, hblock, hfd, hitem⟩ hjob

theorem evserverClientNew_fst (s : Server n) (conn fd : Nat) (a : ClientNewAnswers) :
    (s.evserverClientNew conn fd a).1
      = if a.makesClient then some ⟨conn, fd, true⟩ else none := by
  unfold ClientNewAnswers.makesClient
  rcases evserverClientNew_cases s conn fd a with
    ⟨hmakes, hnew⟩ | ⟨hmakes, henable, hnew⟩ | ⟨hmakes, henable, hnew⟩
  · rw [hnew, hmakes]
    rfl
  · rw [hnew, hmakes, henable]
    rfl
  · rw [hnew, hmakes, henable]
    rfl

/-- What `_evserver_worker_add_event` does with the item it is handed. -/
theorem pool_addEvent (s : Server n) (item : JobItem) (a : ClientNewAnswers) :
    (item.job = none ∧ (s.evserverWorkerAddEvent (some item) a).pool = s.pool)
      ∨ (∃ job, item.job = some job ∧ a.makesClient = false
        ∧ (s.evserverWorkerAddEvent (some item) a).pool
          = { s.pool with clientWaitCount := s.clientWaitCount - 1 })
      ∨ (∃ job, item.job = some job ∧ a.makesClient = true
        ∧ (s.evserverWorkerAddEvent (some item) a).pool
          = { s.pool with
              clientWaitCount := s.clientWaitCount - 1
              clients := ⟨item.conn, job.connectFd, true⟩ :: s.clients
              clientHandlingCount := s.clientHandlingCount + 1 }) := by
  rcases addEvent_cases s item a with ⟨hjob, hadd⟩ | ⟨job, hjob, hadd⟩
  · exact .inl ⟨hjob, by rw [hadd, pool_itemFree]⟩
  · refine .inr ?_
    rcases hadd with ⟨hmakes, hadd⟩ | ⟨hmakes, henable, hadd⟩ | ⟨hmakes, henable, hadd⟩
    · refine .inl ⟨job, hjob, by simp [ClientNewAnswers.makesClient, hmakes], ?_⟩
      rw [hadd]
      exact pool_itemFree _ _
    · refine .inl ⟨job, hjob, by simp [ClientNewAnswers.makesClient, henable], ?_⟩
      rw [hadd]
      exact (pool_itemFree _ _).trans (pool_clientFree _ _)
    · refine .inr ⟨job, hjob, by simp [ClientNewAnswers.makesClient, hmakes, henable], ?_⟩
      rw [hadd]
      exact pool_itemFree _ _

theorem poolStep_readCallbackStep (i : Fin (n + 1)) (w : WaitEnd) (a : ClientNewAnswers) :
    PoolStep s (.readCallbackStep i w a) (s.readCallbackStep i w a).pool := by
  unfold readCallbackStep
  dsimp only
  cases hpop : ((s.workers i).readCallbackStep w).1 with
  | none => exact .jobless i w a fun item h => absurd (hpop.symm.trans h) (by simp)
  | some popped =>
    cases popped with
    | none => exact .jobless i w a fun item h => absurd (hpop.symm.trans h) (by simp)
    | some item =>
      rcases pool_addEvent (s.setWorker i ((s.workers i).readCallbackStep w).2) item a with
        ⟨hjob, hpool⟩ | ⟨job, hjob, hfails, hpool⟩ | ⟨job, hjob, hmakes, hpool⟩
      · dsimp only
        rw [hpool]
        refine .jobless i w a ?_
        intro item' h
        obtain rfl := Option.some.inj (Option.some.inj (hpop.symm.trans h))
        exact hjob
      · dsimp only
        rw [hpool]
        exact .fails hfails hpop hjob
      · dsimp only
        rw [hpool]
        exact .creates hmakes hpop hjob

/-- A client that ends is released and counted off. -/
theorem poolStep_clientCallback {client : ServerClient} (hmem : client ∈ s.clients)
    (k : ClientCallback) : PoolStep s (.clientCallback client k) (s.clientCallback client k).pool := by
  unfold clientCallback
  split
  · rename_i hexits
    have hpool := pool_evserverClientRelease s client
    have hafter : ({ s.evserverClientRelease client with
          clientHandlingCount := (s.evserverClientRelease client).clientHandlingCount - 1 } :
            Server n).pool
        = { (s.evserverClientRelease client).pool with
            clientHandlingCount := (s.evserverClientRelease client).pool.clientHandlingCount - 1 } :=
      rfl
    dsimp only
    rw [hafter, hpool]
    exact .releases hmem k hexits
  · exact .stays (by simp) (by simp)

/-- **Every step does one of the things listed.** -/
theorem poolStep (s : Server n) (e : ServerEvent n) : PoolStep s e (s.step e).pool := by
  cases e with
  | accept fd a =>
      unfold step
      dsimp only
      split
      · rename_i hidle
        exact poolStep_accept fd a hidle
      · exact .stays (by simp) (by simp)
  | addJobStep i w =>
      show PoolStep s _ (s.addJobStep i w).pool
      unfold addJobStep
      dsimp only
      rw [pool_foldl_itemFree]
      have hstep := PoolStep.pushes (s := s) i w
      cases hadd : (s.workers i).addJob with
      | none =>
          rw [hadd] at hstep
          exact hstep
      | some call =>
          rw [hadd] at hstep
          cases call <;> exact hstep
  | readCallback i =>
      unfold step
      dsimp only
      split
      · rename_i hidle
        exact .called i hidle
      · exact .stays (by simp) (by simp)
  | readCallbackStep i w a => exact poolStep_readCallbackStep i w a
  | clientCallback client k =>
      unfold step
      dsimp only
      split
      · rename_i hmem
        exact poolStep_clientCallback hmem k
      · exact .stays (by simp) (by simp)
  | finalize fd =>
      unfold step
      dsimp only
      split
      · unfold finalize
        rw [pool_close]
        exact .stays (by simp) (by simp)
      · exact .stays (by simp) (by simp)

end Server

end TraceServer
