import TraceServer.Proof.Descriptor
import TraceServer.Proof.Pool

/-!
# Does `ev_accept_callback` keep the connections below its limit?

It refuses a connection when `client_connected_count` is over `CLIENT_ACCEPT_MAX_COUNT`,
and nobody in a pool ever changes that count: `_ev_talk_worker`, which does, is only run by
a thread of its own. So the test refuses nobody, and the limit holds as long as the
connections themselves stay below it.
-/

namespace TraceServer

variable {n : Nat}

/-- Connections handed to the pool and not released: those in a worker's hands or its queue,
and those with a client. -/
def Pool.live (p : Pool n) : Nat := ∑ i, (p.workers i).items.length + p.clients.length

def Server.live (s : Server n) : Nat := s.pool.live

/-- A connection that is accepted when the limit is reached is closed. -/
def ClosesAtLimit (s : Server n) : ServerEvent n → Prop
  | .accept fd a => s.AcceptIdle → clientAcceptMaxCount ≤ s.live →
      .closed s.accepted ∈ (s.step (.accept fd a)).deeds
  | _ => True

/-- A connection comes while there are fewer than the limit, or one that cannot be handed on
comes as a descriptor that can be closed. -/
def BelowLimit (s : Server n) : ServerEvent n → Prop
  | .accept fd a => s.AcceptIdle → s.live < clientAcceptMaxCount ∨
      (0 < fd ∧ ¬ (a.makeSocketNonblocking = true ∧ a.itemAlloc = true))
  | _ => True

namespace Server

variable {s : Server n}

/-- Nobody counts a connection. -/
theorem connectedCount_step (s : Server n) (e : ServerEvent n) :
    (s.step e).clientConnectedCount = s.clientConnectedCount := by
  have hstep := poolStep s e
  show (s.step e).pool.clientConnectedCount = s.pool.clientConnectedCount
  generalize (s.step e).pool = p at hstep
  cases hstep <;> rfl

theorem deeds_socketClose {c fd : Nat} (hholder : s.holder fd = some c) :
    (s.socketClose fd).deeds = if 0 < fd then .closed c :: s.deeds else s.deeds := by
  unfold socketClose close
  rw [hholder]
  split <;> rfl

/-- What `ev_accept_callback` does about the connection when the count is below the limit. -/
theorem deeds_accept (hcount : s.clientConnectedCount ≤ clientAcceptMaxCount) (fd : Nat)
    (a : AcceptAnswers) : (s.evAcceptCallback fd a).deeds
      = if 0 < fd then
          if a.makeSocketNonblocking = true ∧ a.itemAlloc = true then s.deeds
          else .closed s.accepted :: s.deeds
        else s.deeds := by
  have hholder : (s.accepting fd).holder fd = some s.accepted := Function.update_self _ _ _
  rcases evAcceptCallback_cases s fd a with
    ⟨hcall, haccept⟩ | ⟨⟨_, _, hfd⟩, hitem, haccept⟩
    | ⟨⟨_, hblock, hfd⟩, hitem, job, _, _, haccept⟩
  · rw [haccept, deeds_socketClose hholder]
    by_cases hfd : 0 < fd
    · rw [if_pos hfd, if_pos hfd, if_neg fun h => hcall ⟨hcount, h.1, hfd⟩]
      rfl
    · rw [if_neg hfd, if_neg hfd]
      rfl
  · have hmoved := @deeds_socketClose n
      { s.accepting fd with currentWorker := s.currentWorker + 1 } s.accepted fd hholder
    rw [haccept, hmoved, if_pos hfd, if_pos hfd, if_neg (by simp [hitem])]
    rfl
  · rw [haccept, if_pos hfd, if_pos ⟨hblock, hitem⟩]
    rfl

/-- A connection that is still to come has not been closed. -/
theorem Numbered.closed_not_mem (h : s.Numbered) : .closed s.accepted ∉ s.deeds :=
  List.count_eq_zero.mp (h s.accepted (Nat.le_refl _)).closed

/-- At the limit, the connections that are closed are those that cannot be handed on. -/
theorem closesAtLimit_iff (hcount : s.clientConnectedCount ≤ clientAcceptMaxCount)
    (hnumbered : s.Numbered) (e : ServerEvent n) : ClosesAtLimit s e ↔ BelowLimit s e := by
  cases e with
  | accept fd a =>
      have hstep : s.AcceptIdle → (s.step (.accept fd a)).deeds = _ :=
        fun hidle => (congrArg Server.deeds (if_pos hidle)).trans (deeds_accept hcount fd a)
      unfold ClosesAtLimit BelowLimit
      refine forall_congr' ?_
      intro hidle
      rw [hstep hidle]
      have hnew := hnumbered.closed_not_mem
      by_cases hlive : s.live < clientAcceptMaxCount
      · exact ⟨fun _ => .inl hlive, fun _ hlimit => absurd hlive (by omega)⟩
      · have hlimit : clientAcceptMaxCount ≤ s.live := by omega
        by_cases hfd : 0 < fd
        · rw [if_pos hfd]
          by_cases hpass : a.makeSocketNonblocking = true ∧ a.itemAlloc = true
          · rw [if_pos hpass]
            exact ⟨fun h => absurd (h hlimit) hnew, fun h => absurd h (by simp [hlive, hpass])⟩
          · rw [if_neg hpass]
            exact ⟨fun _ => .inr ⟨hfd, hpass⟩, fun _ _ => List.mem_cons_self⟩
        · rw [if_neg hfd]
          exact ⟨fun h => absurd (h hlimit) hnew, fun h => absurd h (by simp [hlive, hfd])⟩
  | _ => exact Iff.rfl

/-- **A step adds a connection only by accepting it.** -/
theorem live_step (s : Server n) (e : ServerEvent n) : (s.step e).live ≤ s.live
    ∨ (∃ fd a, e = .accept fd a ∧ s.AcceptIdle ∧ s.Admits fd a ∧ (s.step e).live = s.live + 1) := by
  have hstep := poolStep s e
  show (s.step e).pool.live ≤ s.pool.live ∨ ∃ fd a, e = .accept fd a ∧ s.AcceptIdle
    ∧ s.Admits fd a ∧ (s.step e).pool.live = s.pool.live + 1
  generalize (s.step e).pool = p at hstep
  -- the items of the worker that the step is about, before and after it
  have hsum : ∀ (i : Fin (n + 1)) (w : Worker JobItem),
      ∑ j, (Function.update s.workers i w j).items.length + (s.workers i).items.length
        = ∑ j, (s.workers j).items.length + w.items.length :=
    fun i w => sum_update (fun x : Worker JobItem => x.items.length) s.workers i w
  -- a section of the read callback has them all still, or hands one out
  have hread : ∀ (i : Fin (n + 1)) (w : WaitEnd),
      ∑ j, (Function.update s.workers i ((s.workers i).readCallbackStep w).2 j).items.length
          + (((s.workers i).readCallbackStep w).1.getD none).toList.length
        = ∑ j, (s.workers j).items.length := by
    intro i w
    have hlen := congrArg List.length (readCallbackStep_items (s.workers i) w)
    rw [List.length_append] at hlen
    have := hsum i ((s.workers i).readCallbackStep w).2
    omega
  unfold Pool.live
  cases hstep with
  | stays _ _ => exact .inl (Nat.le_refl _)
  | given hidle hadmits hjob =>
      -- the one way in
      rename_i fd a i job
      have hitems := startAddJob_items (hidle i) (⟨s.accepted, job⟩ : JobItem)
      have hlen := congrArg List.length hitems
      rw [List.length_append, List.length_singleton] at hlen
      have := hsum i ((s.workers i).startAddJob ⟨s.accepted, job⟩)
      refine .inr ⟨fd, a, rfl, hidle, hadmits, ?_⟩
      dsimp only [Pool.setWorker, Server.pool]
      omega
  | pushes i w =>
      have hlen := (addJobStep_items (s.workers i) w).length_eq
      rw [List.length_append] at hlen
      have := hsum i ((s.workers i).addJobStep w).2
      exact .inl (by dsimp only [Pool.setWorker, Server.pool]; omega)
  | called i hidle =>
      have := hsum i (s.workers i).startReadCallback
      rw [startReadCallback_items] at this
      exact .inl (by dsimp only [Pool.setWorker, Server.pool]; omega)
  | jobless i w a hpop =>
      have := hread i w
      exact .inl (by dsimp only [Pool.setWorker, Server.pool]; omega)
  | fails hfails hpop hjob =>
      rename_i i w a item job
      have := hread i w
      exact .inl (by dsimp only [Pool.setWorker, Server.pool]; omega)
  | creates hmakes hpop hjob =>
      -- an item goes and a client comes
      rename_i i w a item job
      have := hread i w
      rw [hpop] at this
      simp only [Option.getD_some, Option.toList_some, List.length_singleton] at this
      exact .inl (by dsimp only [Pool.setWorker, Server.pool, List.length_cons]; omega)
  | releases hmem c hexits =>
      have := List.length_erase_of_mem hmem
      exact .inl (by dsimp only [Pool.setWorker, Server.pool]; omega)

end Server

/-! ## Runs -/

/-- **The connections stay within the limit, and what comes at the limit is closed, exactly as
long as nothing comes at the limit that could be handed on.** -/
theorem admission_iff (n : Nat) (queueSize : Int) (es : List (ServerEvent n)) :
    ((∀ s ∈ Machine.trail Server.step (Server.init n queueSize) es, s.live ≤ clientAcceptMaxCount)
        ∧ Machine.Along Server.step ClosesAtLimit (Server.init n queueSize) es)
      ↔ Machine.Along Server.step BelowLimit (Server.init n queueSize) es := by
  have hcloses : Machine.Along Server.step ClosesAtLimit (Server.init n queueSize) es
      ↔ Machine.Along Server.step BelowLimit (Server.init n queueSize) es :=
    Machine.along_congr Server.step
      (fun s => s.clientConnectedCount = 0 ∧ s.Numbered)
      (fun s e h => ⟨(s.connectedCount_step e).trans h.1, Server.numbered_step h.2 e⟩)
      (fun s e h => Server.closesAtLimit_iff (by rw [h.1]; decide) h.2 e)
      ⟨rfl, Server.numbered_init queueSize⟩ es
  constructor
  · rintro ⟨_, hall⟩
    exact hcloses.mp hall
  · intro hbelow
    refine ⟨Machine.inv_trail Server.step (fun s => s.live ≤ clientAcceptMaxCount) ?_ ?_ hbelow,
      hcloses.mpr hbelow⟩
    · intro s e hlive hbelow
      rcases s.live_step e with hle | ⟨fd, a, rfl, hidle, hadmits, hlen⟩
      · omega
      · rcases hbelow hidle with hlt | ⟨_, hfails⟩
        · omega
        · exact absurd ⟨hadmits.nonblocking, hadmits.itemAlloc⟩ hfails
    · have hzero : (Server.init n queueSize).live = 0 := by
        simp [Server.live, Pool.live, Server.pool, Server.init, evserverWorkerInit, queueSetDepth,
          queueCreate, Worker.items]
      rw [hzero]
      decide

/-- Connections come and are picked up, one after the other, each as a number of its own. -/
def pickedUpTimes : Nat → List (ServerEvent 0)
  | 0 => []
  | k + 1 => pickedUp (7 + k) ⟨true, true, true, true, true, true, true⟩ ++ pickedUpTimes k

theorem update_fin_one {α : Type*} (g : Fin (0 + 1) → α) (i : Fin (0 + 1)) (x : α) :
    Function.update g i x = fun _ => x := by
  funext j
  rw [Fin.fin_one_eq_zero j, Fin.fin_one_eq_zero i, Function.update_self]

/-- A connection that comes to an idle worker becomes a client of it. -/
theorem run_pickedUp {s : Server 0} (hidle : s.workers = fun _ => evserverWorkerInit 32)
    (hcount : s.clientConnectedCount = 0) {fd : Nat} (hfd : 0 < fd) :
    let s' := Machine.run Server.step s (pickedUp fd ⟨true, true, true, true, true, true, true⟩)
    s'.workers = (fun _ => evserverWorkerInit 32) ∧ s'.clientConnectedCount = 0
      ∧ s'.clients.length = s.clients.length + 1 := by
  simp [pickedUp, Server.step, Server.AcceptIdle, hidle, hcount, hfd, Server.evAcceptCallback,
    Server.accepting, Server.selected, Server.evserverTpoolAddJob, Server.setWorker, update_fin_one,
    Server.addJobStep, Worker.addJobStep, QueuePush.step, Worker.startAddJob, evserverWorkerInit,
    queueSetDepth, queueCreate, queueLink, Worker.startReadCallback, Server.readCallbackStep,
    Worker.readCallbackStep, QueuePop.step, queueTakeFirst, Server.evserverWorkerAddEvent,
    Server.evserverClientNew, Server.note, Server.itemFree, Server.jobFree, clientAcceptMaxCount]

theorem clients_pickedUpTimes (k : Nat) : ∀ s : Server 0,
    s.workers = (fun _ => evserverWorkerInit 32) → s.clientConnectedCount = 0 →
      (Machine.run Server.step s (pickedUpTimes k)).clients.length = s.clients.length + k := by
  induction k with
  | zero => exact fun _ _ _ => rfl
  | succ k ih =>
      intro s hidle hcount
      obtain ⟨hidle', hcount', hlen⟩ := run_pickedUp hidle hcount (show 0 < 7 + k by omega)
      have hrun : Machine.run Server.step s (pickedUpTimes (k + 1))
          = Machine.run Server.step (Machine.run Server.step s
            (pickedUp (7 + k) ⟨true, true, true, true, true, true, true⟩)) (pickedUpTimes k) :=
        Machine.run_append Server.step s _ _
      rw [hrun, ih _ hidle' hcount', hlen]
      omega

theorem live_pickedUpTimes (k : Nat) :
    k ≤ (Machine.run Server.step (Server.init 0 32) (pickedUpTimes k)).live := by
  have hclients := clients_pickedUpTimes k (Server.init 0 32) rfl rfl
  have hinit : (Server.init 0 32).clients.length = 0 := rfl
  calc k = (Machine.run Server.step (Server.init 0 32) (pickedUpTimes k)).clients.length := by omega
    _ ≤ _ := Nat.le_add_left _ _

/-- One more than the limit are served at a time. -/
theorem limit_exceeded :
    ¬ ((∀ s ∈ Machine.trail Server.step (Server.init 0 32) (pickedUpTimes 65531),
          s.live ≤ clientAcceptMaxCount)
        ∧ Machine.Along Server.step ClosesAtLimit (Server.init 0 32) (pickedUpTimes 65531)) := by
  rintro ⟨hall, _⟩
  have hle := hall _ (Machine.run_mem_trail Server.step _ _)
  have hlive := live_pickedUpTimes 65531
  have hmax : clientAcceptMaxCount = 65530 := rfl
  omega

end TraceServer
