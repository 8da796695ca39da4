import TraceServer.Proof.Tally

/-!
# How often is a descriptor closed?

A client has its descriptor closed twice, because `evserver_client_release` closes it and the
bufferevent it frees closes it again, and the second close hits whatever connection has the number
by then. So a connection is closed once when its number is not left over with anybody as it comes
(`Unused`), when no bufferevent is made for it, and when its job is not lost: from then on nothing
that is still there would close the number but its own job (`Holding`), and when the number has been
handed out again nobody can close the connection any more (`Past`).
-/

namespace TraceServer

variable {n : Nat}

/-! ## What is assumed, and what is needed -/

/-- `accept` returns no descriptor that is still open. -/
def FreshFd (s : Server n) : ServerEvent n → Prop
  | .accept fd _ => s.AcceptIdle → ∀ c, s.holder fd = some c → .closed c ∈ s.deeds
  | _ => True

/-- Nothing is left that has `fd` still to close. -/
structure Server.Unused (s : Server n) (fd : Nat) : Prop where
  jobs : ∀ i, ∀ item ∈ (s.workers i).items, ∀ job, item.job = some job → job.connectFd ≠ fd
  clients : ∀ client ∈ s.clients, client.fd ≠ fd
  finalizers : fd ∉ s.finalizers

/-- Connection `c` comes as a descriptor that is not left over with anybody; the step does not lose
its job, for want of memory, and makes no bufferevent for it. -/
def Careful (c : Nat) (s : Server n) : ServerEvent n → Prop
  | .accept fd a => s.AcceptIdle → s.accepted = c → s.Unused fd ∧
      (s.clientConnectedCount ≤ clientAcceptMaxCount → a.makeSocketNonblocking = true → 0 < fd →
        a.itemAlloc = true → a.memdup = true)
  | .readCallbackStep i w a => ∀ item, ((s.workers i).readCallbackStep w).1 = some (some item) →
      item.conn = c → item.job.isSome → a.makesBufferevent = false
  | _ => True

/-- The job and the client of connection `c` are gone. -/
structure Destroyed (s : Server n) (c : Nat) : Prop where
  item : .itemFreed c ∈ s.deeds
  client : ∀ client ∈ s.clients, client.conn ≠ c

/-- The descriptor of `c` is closed at most once, and exactly once when its job and client
are gone. -/
structure ClosedOnce (s : Server n) (c : Nat) : Prop where
  atMostOnce : s.deeds.count (.closed c) ≤ 1
  once : Destroyed s c → s.deeds.count (.closed c) = 1

/-- The item is the one of `c`, with a job for `fd`, or one without a job for `fd`. -/
structure JobItem.Apart (c fd : Nat) (item : JobItem) : Prop where
  own : item.conn = c → ∃ job, item.job = some job ∧ job.processing = false ∧ job.connectFd = fd
  other : item.conn ≠ c → ∀ job, item.job = some job → job.connectFd ≠ fd

namespace Server

variable {s : Server n} {c fd k : Nat}

/-! ## A connection that no descriptor stands for -/

/-- No number stands for `c`, which has been closed `k` times. -/
structure Unheld (s : Server n) (c k : Nat) : Prop where
  holder : ∀ fd, s.holder fd ≠ some c
  closed : s.deeds.count (.closed c) = k

namespace Unheld

theorem note (h : Unheld s c k) {d : Deed} (hd : d ≠ .closed c) : Unheld (s.note d) c k :=
  ⟨h.holder, (List.count_cons_of_ne hd).trans h.closed⟩

theorem close (h : Unheld s c k) (fd : Nat) : Unheld (s.close fd) c k := by
  unfold Server.close
  split
  · rename_i conn hconn
    exact h.note fun heq => h.holder fd (hconn.trans (congrArg some (Deed.closed.inj heq)))
  · exact h

theorem socketClose (h : Unheld s c k) (fd : Nat) : Unheld (s.socketClose fd) c k := by
  unfold Server.socketClose
  split
  · exact h.close fd
  · exact h

theorem itemFree (h : Unheld s c k) (item : JobItem) : Unheld (s.itemFree item) c k := by
  have hjob : Unheld (s.jobFree item) c k := by
    unfold jobFree
    split
    · split
      · exact h.socketClose _
      · exact h
    · exact h
  exact hjob.note (by simp)

theorem foldl_itemFree (items : List JobItem) : ∀ {s : Server n}, Unheld s c k →
    Unheld (items.foldl Server.itemFree s) c k := by
  induction items with
  | nil => exact fun h => h
  | cons item items ih => exact fun h => ih (h.itemFree item)

theorem clientFree (h : Unheld s c k) (client : ServerClient) :
    Unheld (s.clientFree client) c k := by
  unfold Server.clientFree
  split <;> exact ⟨h.holder, h.closed⟩

theorem addEvent (h : Unheld s c k) (popped : Option JobItem) (a : ClientNewAnswers) :
    Unheld (s.evserverWorkerAddEvent popped a) c k := by
  cases popped with
  | none => exact h
  | some item =>
    have hwait : Unheld { s with clientWaitCount := s.clientWaitCount - 1 } c k :=
      ⟨h.holder, h.closed⟩
    rcases addEvent_cases s item a with ⟨_, hadd⟩ | ⟨job, _, ⟨_, hadd⟩ | ⟨_, _, hadd⟩ | ⟨_, _, hadd⟩⟩
    · rw [hadd]
      exact h.itemFree item
    · rw [hadd]
      exact hwait.itemFree _
    · rw [hadd]
      exact ((hwait.note (by simp)).clientFree _).itemFree _
    · rw [hadd]
      refine itemFree (note ?_ (by simp)) _
      exact ⟨h.holder, h.closed⟩

/-- What becomes of a connection does not concern the others. -/
theorem accept (h : Unheld (s.accepting fd) c k) (a : AcceptAnswers) :
    Unheld (s.evAcceptCallback fd a) c k := by
  rcases evAcceptCallback_cases s fd a with
    ⟨_, haccept⟩ | ⟨_, _, haccept⟩ | ⟨_, _, job, _, _, haccept⟩
  · rw [haccept]
    exact h.socketClose fd
  · rw [haccept]
    refine socketClose ?_ fd
    exact ⟨h.holder, h.closed⟩
  · rw [haccept]
    exact ⟨h.holder, h.closed⟩

theorem accepting (h : Unheld s c k) (fd : Nat) (hc : s.accepted ≠ c) :
    Unheld (s.accepting fd) c k := by
  refine ⟨?_, h.closed⟩
  intro fd'
  show Function.update s.holder fd (some s.accepted) fd' ≠ some c
  by_cases hfd : fd' = fd
  · rw [hfd, Function.update_self]
    exact fun heq => hc (Option.some.inj heq)
  · rw [Function.update_of_ne hfd]
    exact h.holder fd'

/-- **A connection that no number stands for is not closed**, and gets none. -/
theorem step (h : Unheld s c k) (e : ServerEvent n)
    (hc : ∀ fd a, e = .accept fd a → s.AcceptIdle → s.accepted ≠ c) : Unheld (s.step e) c k := by
  cases e with
  | accept fd a =>
      unfold Server.step
      dsimp only
      split
      · rename_i hidle
        exact (h.accepting fd (hc fd a rfl hidle)).accept a
      · exact h
  | addJobStep i w => exact foldl_itemFree _ ⟨h.holder, h.closed⟩
  | readCallback i =>
      unfold Server.step
      dsimp only
      split
      · exact ⟨h.holder, h.closed⟩
      · exact h
  | readCallbackStep i w a =>
      have hset : Unheld (s.setWorker i ((s.workers i).readCallbackStep w).2) c k :=
        ⟨h.holder, h.closed⟩
      show Unheld (s.readCallbackStep i w a) c k
      unfold readCallbackStep
      dsimp only
      cases ((s.workers i).readCallbackStep w).1 with
      | none => exact hset
      | some popped => exact hset.addEvent popped a
  | clientCallback client callback =>
      unfold Server.step
      dsimp only
      split
      · unfold clientCallback evserverClientRelease
        dsimp only
        split
        · have hrest : Unheld { s with clients := s.clients.erase client } c k :=
            ⟨h.holder, h.closed⟩
          have hend := (hrest.clientFree client).socketClose client.fd
          exact ⟨hend.holder, hend.closed⟩
        · exact h
      · exact h
  | finalize fd =>
      unfold Server.step
      dsimp only
      split
      · refine close ?_ fd
        exact ⟨h.holder, h.closed⟩
      · exact h

end Unheld

/-- Connections are numbered one by one, by the callback that accepts them. -/
theorem accepted_step (s : Server n) (e : ServerEvent n) : (s.step e).accepted = s.accepted
    ∨ (∃ fd a, e = .accept fd a ∧ s.AcceptIdle ∧ (s.step e).accepted = s.accepted + 1) := by
  by_cases haccepts : ∃ fd a, e = .accept fd a ∧ s.AcceptIdle
  · obtain ⟨fd, a, rfl, hidle⟩ := haccepts
    have hstep : s.step (.accept fd a) = s.evAcceptCallback fd a := if_pos hidle
    refine .inr ⟨fd, a, rfl, hidle, ?_⟩
    rw [hstep]
    exact (quiet_accept s fd a).accepted
  · exact .inl (Quiet.step s fun fd a he hidle => haccepts ⟨fd, a, he, hidle⟩).accepted

/-- No number stands for a connection that is still to come. -/
def Numbered (s : Server n) : Prop := ∀ c, s.accepted ≤ c → Unheld s c 0

theorem numbered_init (queueSize : Int) : (init n queueSize).Numbered :=
  fun _ _ => ⟨fun _ h => absurd h (by simp [init]), rfl⟩

theorem numbered_step (h : s.Numbered) (e : ServerEvent n) : (s.step e).Numbered := by
  intro c hc
  rcases accepted_step s e with hsame | ⟨fd, a, rfl, hidle, hmore⟩
  · exact (h c (by omega)).step e fun fd a he hidle => by
      have hstep : s.step e = s.evAcceptCallback fd a := by
        rw [he]
        exact if_pos hidle
      have hmore := (quiet_accept s fd a).accepted
      rw [← hstep, hsame] at hmore
      exact absurd hmore (Nat.ne_of_lt (Nat.lt_succ_self _))
  · exact (h c (by omega)).step _ fun _ _ _ _ => by omega

/-! ## A connection whose number nobody else has -/

/-- `fd` stands for `c`, and only the item of `c` has it still to close. The items of `hand` are out
of the workers. -/
structure Holding (s : Server n) (c fd : Nat) (hand : List JobItem) : Prop where
  accepted : c < s.accepted
  holder : ∀ fd', s.holder fd' = some c ↔ fd' = fd
  items : ∀ i, ∀ item ∈ (s.workers i).items, item.Apart c fd
  inHand : ∀ item ∈ hand, item.Apart c fd
  clients : ∀ client ∈ s.clients, client.fd ≠ fd
  finalizers : fd ∉ s.finalizers
  once : s.deeds.count (.closed c)
    + (s.countItems (JobItem.isOf c) + hand.countP (JobItem.isOf c)) ≤ 1
  freed : .itemFreed c ∈ s.deeds → .closed c ∈ s.deeds

/-- The number of `c` has been handed out again. -/
structure Past (s : Server n) (c : Nat) : Prop extends Unheld s c 1 where
  accepted : c < s.accepted

namespace Holding

variable {hand : List JobItem}

theorem note (h : Holding s c fd hand) {d : Deed} (hclosed : d ≠ .closed c)
    (hfreed : d = .itemFreed c → .closed c ∈ s.deeds) : Holding (s.note d) c fd hand where
  accepted := h.accepted
  holder := h.holder
  items := h.items
  inHand := h.inHand
  clients := h.clients
  finalizers := h.finalizers
  once := (congrArg (· + _) (List.count_cons_of_ne hclosed)).trans_le h.once
  freed := by
    intro hmem
    refine List.mem_cons_of_mem d ?_
    rcases List.mem_cons.mp hmem with heq | hmem
    · exact hfreed heq.symm
    · exact h.freed hmem

/-- A close of another number is not one of `c`. -/
theorem close (h : Holding s c fd hand) {fd' : Nat} (hne : fd' ≠ fd) :
    Holding (s.close fd') c fd hand := by
  unfold Server.close
  split
  · rename_i conn hconn
    refine h.note ?_ (fun heq => absurd heq (by simp))
    intro heq
    exact hne ((h.holder fd').mp (hconn.trans (congrArg some (Deed.closed.inj heq))))
  · exact h

theorem socketClose (h : Holding s c fd hand) {fd' : Nat} (hne : fd' ≠ fd) :
    Holding (s.socketClose fd') c fd hand := by
  unfold Server.socketClose
  split
  · exact h.close hne
  · exact h

/-- The close of its own. -/
theorem socketClose_self (h : Holding s c fd hand) (hpos : 0 < fd)
    (hnone : s.deeds.count (.closed c)
      + (s.countItems (JobItem.isOf c) + hand.countP (JobItem.isOf c)) = 0) :
    Holding (s.socketClose fd) c fd hand ∧ .closed c ∈ (s.socketClose fd).deeds := by
  have hclose : s.socketClose fd = s.note (.closed c) := by
    unfold Server.socketClose Server.close
    rw [if_pos hpos, (h.holder fd).mpr rfl]
  rw [hclose]
  refine ⟨⟨h.accepted, h.holder, h.items, h.inHand, h.clients, h.finalizers, ?_, ?_⟩,
    List.mem_cons_self⟩
  · have hcount : (s.note (.closed c)).deeds.count (.closed c) = s.deeds.count (.closed c) + 1 :=
      List.count_cons_self
    have hitems : (s.note (.closed c)).countItems (JobItem.isOf c)
      = s.countItems (JobItem.isOf c) := rfl
    omega
  · exact fun _ => List.mem_cons_self

/-- An item that is freed has its job closed. -/
theorem itemFree {item : JobItem} (h : Holding s c fd (item :: hand)) :
    Holding (s.itemFree item) c fd hand := by
  have hitem := h.inHand item List.mem_cons_self
  have hsum := h.once
  rw [List.countP_cons] at hsum
  have hrest : Holding s c fd hand :=
    ⟨h.accepted, h.holder, h.items, fun x hx => h.inHand x (List.mem_cons_of_mem _ hx), h.clients,
      h.finalizers, by omega, h.freed⟩
  unfold Server.itemFree jobFree
  by_cases hconn : item.conn = c
  · obtain ⟨job, hjob, hwaits, rfl⟩ := hitem.own hconn
    rw [if_pos (by simpa [JobItem.isOf] using hconn)] at hsum
    rw [hjob]
    dsimp only
    rw [if_pos hwaits]
    obtain ⟨hclosed, hmem⟩ := hrest.socketClose_self job.connectFd_pos (by omega)
    exact hclosed.note (by simp) fun _ => hmem
  · have hdeed : Deed.itemFreed item.conn = .itemFreed c → .closed c ∈ s.deeds :=
      fun heq => absurd (Deed.itemFreed.inj heq) hconn
    cases hjob : item.job with
    | none => exact hrest.note (by simp) hdeed
    | some job =>
        dsimp only
        split
        · exact (hrest.socketClose (hitem.other hconn job hjob)).note (by simp)
            fun heq => absurd (Deed.itemFreed.inj heq) hconn
        · exact hrest.note (by simp) hdeed

theorem foldl_itemFree : ∀ {hand : List JobItem} {s : Server n}, Holding s c fd hand →
    Holding (hand.foldl Server.itemFree s) c fd []
  | [], _, h => h
  | item :: hand, s, h => @foldl_itemFree hand (s.itemFree item) h.itemFree

/-- What comes out of a worker is in hand. -/
theorem setWorker (h : Holding s c fd []) {i : Fin (n + 1)} {w : Worker JobItem}
    (hout : (hand ++ w.items).Perm (s.workers i).items) : Holding (s.setWorker i w) c fd hand where
  accepted := h.accepted
  holder := h.holder
  items := by
    intro j
    by_cases hj : j = i
    · subst hj
      show ∀ item ∈ (Function.update s.workers j w j).items, _
      rw [Function.update_self]
      exact fun item hmem => h.items j item (hout.subset (List.mem_append_right _ hmem))
    · show ∀ item ∈ (Function.update s.workers i w j).items, _
      rw [Function.update_of_ne hj]
      exact h.items j
  inHand := fun item hmem => h.items i item (hout.subset (List.mem_append_left _ hmem))
  clients := h.clients
  finalizers := h.finalizers
  once := by
    have hcount := countItems_out hout (JobItem.isOf c)
    have hsum := h.once
    rw [List.countP_nil] at hsum
    show s.deeds.count (.closed c) + _ ≤ 1
    omega
  freed := h.freed

/-- A client that is freed has its number closed by a finalizer. -/
theorem clientFree (h : Holding s c fd hand) {client : ServerClient} (hne : client.fd ≠ fd) :
    Holding (s.clientFree client) c fd hand := by
  unfold Server.clientFree
  split
  · refine ⟨h.accepted, h.holder, h.items, h.inHand, h.clients, ?_, h.once, h.freed⟩
    intro hmem
    rcases List.mem_cons.mp hmem with heq | hmem
    · exact hne heq.symm
    · exact h.finalizers hmem
  · exact h

/-- **A worker picks up an item**, and makes no bufferevent for `c`. -/
theorem addEvent {item : JobItem} (h : Holding s c fd [item]) (a : ClientNewAnswers)
    (hcareful : item.conn = c → item.job.isSome → a.makesBufferevent = false) :
    Holding (s.evserverWorkerAddEvent (some item) a) c fd [] := by
  have hitem := h.inHand item (List.mem_singleton_self item)
  have hwait : Holding { s with clientWaitCount := s.clientWaitCount - 1 } c fd [item] :=
    ⟨h.accepted, h.holder, h.items, h.inHand, h.clients, h.finalizers, h.once, h.freed⟩
  -- the item with its job marked one way or the other
  have hmarked : ∀ {x : Server n} {job : WorkerJob}, item.job = some job → Holding x c fd [item] →
      Holding x c fd [⟨item.conn, some { job with processing := false }⟩] := by
    intro x job hjob hx
    refine ⟨hx.accepted, hx.holder, hx.items, ?_, hx.clients, hx.finalizers, hx.once, hx.freed⟩
    intro y hy
    obtain rfl := List.mem_singleton.mp hy
    refine ⟨?_, ?_⟩
    · intro hconn
      obtain ⟨job', hjob', _, hfd⟩ := hitem.own hconn
      obtain rfl := Option.some.inj (hjob.symm.trans hjob')
      exact ⟨_, rfl, rfl, hfd⟩
    · intro hconn job' hjob'
      rw [← Option.some.inj hjob']
      exact hitem.other hconn job hjob
  rcases addEvent_cases s item a with ⟨_, hadd⟩ | ⟨job, hjob, hadd⟩
  · rw [hadd]
    exact h.itemFree
  · have hsome : item.job.isSome = true := by rw [hjob]; rfl
    rcases hadd with ⟨_, hadd⟩ | ⟨hmakes, _, hadd⟩ | ⟨hmakes, _, hadd⟩
    · rw [hadd]
      exact (hmarked hjob hwait).itemFree
    · -- somebody else's
      have hconn : item.conn ≠ c := fun hconn => absurd (hcareful hconn hsome) (by simp [hmakes])
      have hnoted := hwait.note (d := .buffered item.conn) (by simp) fun heq => absurd heq (by simp)
      have hfree := @clientFree n _ c fd _ hnoted ⟨item.conn, job.connectFd, true⟩
        (hitem.other hconn job hjob)
      rw [hadd]
      exact (hmarked hjob hfree).itemFree
    · have hconn : item.conn ≠ c := fun hconn => absurd (hcareful hconn hsome) (by simp [hmakes])
      rw [hadd]
      -- the job is marked as being processed, and it is not the one of `c`
      refine itemFree ⟨h.accepted, h.holder, h.items, ?_, ?_, h.finalizers, ?_, ?_⟩
      · intro y hy
        obtain rfl := List.mem_singleton.mp hy
        refine ⟨fun heq => absurd heq hconn, ?_⟩
        intro _ job' hjob'
        rw [← Option.some.inj hjob']
        exact hitem.other hconn job hjob
      · intro client hmem
        rcases List.mem_cons.mp hmem with rfl | hmem
        · exact hitem.other hconn job hjob
        · exact h.clients client hmem
      · exact (congrArg (· + _) (List.count_cons_of_ne (by simp))).trans_le h.once
      · intro hmem
        refine List.mem_cons_of_mem _ (h.freed ?_)
        exact (List.mem_cons.mp hmem).resolve_left (by simp)

/-- Another connection comes as another number. -/
theorem accepting (h : Holding s c fd []) {fd' : Nat} (hne : fd' ≠ fd) :
    Holding (s.accepting fd') c fd [] := by
  refine ⟨Nat.lt_succ_of_lt h.accepted, ?_, h.items, h.inHand, h.clients, h.finalizers, h.once,
    h.freed⟩
  intro fd''
  show Function.update s.holder fd' (some s.accepted) fd'' = some c ↔ fd'' = fd
  by_cases hfd : fd'' = fd'
  · rw [hfd, Function.update_self]
    have hlt := h.accepted
    exact ⟨fun heq => absurd (Option.some.inj heq) (by omega), fun heq => absurd heq hne⟩
  · rw [Function.update_of_ne hfd]
    exact h.holder fd''

/-- An item is given to a worker. -/
theorem startAddJob (h : Holding s c fd []) {i : Fin (n + 1)} (hidle : (s.workers i).addJob.isNone)
    {item : JobItem} (hitem : item.Apart c fd)
    (hsum : s.deeds.count (.closed c) + s.countItems (JobItem.isOf c)
      + (if item.isOf c then 1 else 0) ≤ 1) :
    Holding (s.setWorker i ((s.workers i).startAddJob item)) c fd [] where
  accepted := h.accepted
  holder := h.holder
  items := by
    intro j
    by_cases hj : j = i
    · subst hj
      show ∀ x ∈ (Function.update s.workers j _ j).items, _
      rw [Function.update_self, startAddJob_items hidle]
      intro x hx
      rcases List.mem_append.mp hx with hx | hx
      · exact h.items j x hx
      · obtain rfl := List.mem_singleton.mp hx
        exact hitem
    · show ∀ x ∈ (Function.update s.workers i _ j).items, _
      rw [Function.update_of_ne hj]
      exact h.items j
  inHand := h.inHand
  clients := h.clients
  finalizers := h.finalizers
  once := by
    have hset := countItems_setWorker s i ((s.workers i).startAddJob item) (JobItem.isOf c)
    rw [startAddJob_items hidle, List.countP_append, List.countP_singleton] at hset
    show s.deeds.count (.closed c) + _ ≤ 1
    rw [List.countP_nil]
    omega
  freed := h.freed

/-- **Another connection comes.** -/
theorem accept (h : Holding s c fd []) {fd' : Nat} (a : AcceptAnswers) (hidle : s.AcceptIdle)
    (hne : fd' ≠ fd) : Holding (s.evAcceptCallback fd' a) c fd [] := by
  have haccepting := h.accepting hne
  have hlt := h.accepted
  rcases evAcceptCallback_cases s fd' a with
    ⟨_, haccept⟩ | ⟨_, _, haccept⟩ | ⟨_, _, job, _, hnew, haccept⟩
  · rw [haccept]
    exact haccepting.socketClose hne
  · rw [haccept]
    refine socketClose ?_ hne
    exact ⟨haccepting.accepted, haccepting.holder, h.items, h.inHand, h.clients, h.finalizers, h.once,
      h.freed⟩
  · rw [haccept]
    refine @startAddJob n { s.accepting fd' with currentWorker := s.currentWorker + 1 } c fd
      ⟨haccepting.accepted, haccepting.holder, h.items, h.inHand, h.clients, h.finalizers, h.once,
        h.freed⟩ s.selected (hidle _) _ ⟨?_, ?_⟩ ?_
    · intro heq
      dsimp only at heq
      omega
    · intro _ j hj
      rw [(hnew j hj).2]
      exact hne
    · have hsum := h.once
      rw [List.countP_nil] at hsum
      rw [if_neg (by simp [JobItem.isOf]; omega)]
      exact hsum

/-- **Its number is handed out again**, which it can only be when it has been closed. -/
theorem handedOut (h : Holding s c fd []) (a : AcceptAnswers) (hclosed : .closed c ∈ s.deeds) :
    Past (s.evAcceptCallback fd a) c := by
  have hpos := List.count_pos_iff.mpr hclosed
  have hsum := h.once
  have hlt := h.accepted
  have hunheld : Unheld (s.accepting fd) c 1 := by
    refine ⟨?_, by show s.deeds.count (.closed c) = 1; omega⟩
    intro fd'
    show Function.update s.holder fd (some s.accepted) fd' ≠ some c
    by_cases hfd : fd' = fd
    · rw [hfd, Function.update_self]
      exact fun heq => absurd (Option.some.inj heq) (by omega)
    · rw [Function.update_of_ne hfd]
      exact fun heq => hfd ((h.holder fd').mp heq)
  refine ⟨hunheld.accept a, ?_⟩
  rw [(quiet_accept s fd a).accepted]
  exact Nat.lt_succ_of_lt hlt

/-- A client that is called back has another number. -/
theorem clientCallback (h : Holding s c fd []) {client : ServerClient} (hmem : client ∈ s.clients)
    (callback : ClientCallback) : Holding (s.clientCallback client callback) c fd [] := by
  unfold Server.clientCallback
  split
  · have hrest : Holding { s with clients := s.clients.erase client } c fd [] :=
      ⟨h.accepted, h.holder, h.items, h.inHand,
        fun x hx => h.clients x (List.mem_of_mem_erase hx), h.finalizers, h.once, h.freed⟩
    have hne := h.clients client hmem
    have hend := (hrest.clientFree hne).socketClose hne
    exact ⟨hend.accepted, hend.holder, hend.items, hend.inHand, hend.clients, hend.finalizers,
      hend.once, hend.freed⟩
  · exact h

/-- So has a finalizer that is due. -/
theorem finalize (h : Holding s c fd []) {fd' : Nat} (hmem : fd' ∈ s.finalizers) :
    Holding (s.finalize fd') c fd [] := by
  have hne : fd' ≠ fd := fun heq => h.finalizers (heq ▸ hmem)
  have hrest : Holding { s with finalizers := s.finalizers.erase fd' } c fd [] :=
    ⟨h.accepted, h.holder, h.items, h.inHand, h.clients,
      fun hin => h.finalizers (List.mem_of_mem_erase hin), h.once, h.freed⟩
  exact hrest.close hne

/-- **One step.** `c` keeps its number, or the number is handed out again. -/
theorem step (h : Holding s c fd []) {e : ServerEvent n} (hfresh : FreshFd s e)
    (hcareful : Careful c s e) : Holding (s.step e) c fd [] ∨ Past (s.step e) c := by
  cases e with
  | accept fd' a =>
      unfold Server.step
      dsimp only
      split
      · rename_i hidle
        by_cases hne : fd' = fd
        · subst hne
          exact .inr (h.handedOut a (hfresh hidle c ((h.holder fd').mpr rfl)))
        · exact .inl (h.accept a hidle hne)
      · exact .inl h
  | addJobStep i w =>
      have hset := h.setWorker (addJobStep_items (s.workers i) w)
      refine .inl (foldl_itemFree ?_)
      exact ⟨hset.accepted, hset.holder, hset.items, hset.inHand, hset.clients, hset.finalizers,
        hset.once, hset.freed⟩
  | readCallback i =>
      unfold Server.step
      dsimp only
      split
      · exact .inl (@setWorker n s c fd [] h i _ (.of_eq (startReadCallback_items _)))
      · exact .inl h
  | readCallbackStep i w a =>
      have hset := h.setWorker (List.Perm.of_eq (readCallbackStep_items (s.workers i) w))
      refine .inl ?_
      show Holding (s.readCallbackStep i w a) c fd []
      unfold readCallbackStep
      dsimp only
      cases hpop : ((s.workers i).readCallbackStep w).1 with
      | none =>
          rw [hpop] at hset
          exact hset
      | some popped =>
        rw [hpop] at hset
        cases popped with
        | none => exact hset
        | some item => exact hset.addEvent a (hcareful item hpop)
  | clientCallback client callback =>
      unfold Server.step
      dsimp only
      split
      · rename_i hmem
        exact .inl (h.clientCallback hmem callback)
      · exact .inl h
  | finalize fd' =>
      unfold Server.step
      dsimp only
      split
      · rename_i hmem
        exact .inl (h.finalize hmem)
      · exact .inl h

end Holding

/-- **Connection `c` comes**, as a number that is not left over with anybody. -/
theorem Unheld.comes (h : Unheld s c 0) (hbalanced : Balanced (s.tally c)) (hc : s.accepted = c)
    (hunused : s.Unused fd) : Holding (s.accepting fd) c fd []
      ∧ (s.accepting fd).deeds.count (.closed c)
        + ((s.accepting fd).countItems (JobItem.isOf c) + 0) = 0 := by
  obtain ⟨_, howned, hgone⟩ := hbalanced
  have hzero : (s.tally c).accepted = 0 := if_neg (by omega)
  have hitems : s.countItems (JobItem.isOf c) = 0 := by
    show (s.tally c).items = 0
    omega
  have hfreed : .itemFreed c ∉ s.deeds := by
    refine List.count_eq_zero.mp ?_
    show (s.tally c).freed = 0
    omega
  have hnone : ∀ i, ∀ item ∈ (s.workers i).items, item.conn ≠ c := by
    intro i item hmem hconn
    have hworker := Finset.sum_eq_zero_iff.mp hitems i (Finset.mem_univ i)
    exact absurd (List.countP_eq_zero.mp hworker item hmem) (by simpa [JobItem.isOf] using hconn)
  have hsum : s.deeds.count (.closed c) + (s.countItems (JobItem.isOf c) + 0) = 0 := by
    rw [h.closed, hitems]
  refine ⟨⟨by show c < s.accepted + 1; omega, ?_, ?_, by simp, hunused.clients, hunused.finalizers,
    ?_, fun hmem => absurd hmem hfreed⟩, hsum⟩
  · intro fd'
    show Function.update s.holder fd (some s.accepted) fd' = some c ↔ fd' = fd
    by_cases hfd : fd' = fd
    · rw [hfd, Function.update_self, hc]
      exact ⟨fun _ => rfl, fun _ => rfl⟩
    · rw [Function.update_of_ne hfd]
      exact ⟨fun heq => absurd heq (h.holder fd'), fun heq => absurd heq hfd⟩
  · exact fun i item hmem => ⟨fun hconn => absurd hconn (hnone i item hmem),
      fun _ => hunused.jobs i item hmem⟩
  · exact hsum.trans_le (Nat.zero_le 1)

/-- It is closed at once, or its job is. -/
theorem Holding.comes (h : Holding (s.accepting fd) c fd [])
    (hzero : (s.accepting fd).deeds.count (.closed c)
      + ((s.accepting fd).countItems (JobItem.isOf c) + 0) = 0) (hc : s.accepted = c)
    (hidle : s.AcceptIdle) (a : AcceptAnswers)
    (hmemdup : s.clientConnectedCount ≤ clientAcceptMaxCount → a.makeSocketNonblocking = true →
      0 < fd → a.itemAlloc = true → a.memdup = true) :
    Holding (s.evAcceptCallback fd a) c fd [] := by
  have hmoved : Holding { s.accepting fd with currentWorker := s.currentWorker + 1 } c fd [] :=
    ⟨h.accepted, h.holder, h.items, h.inHand, h.clients, h.finalizers, h.once, h.freed⟩
  rcases evAcceptCallback_cases s fd a with
    ⟨_, haccept⟩ | ⟨⟨_, _, hpos⟩, _, haccept⟩
    | ⟨⟨hcount, hblock, hpos⟩, hitem, job, hjob, hnew, haccept⟩
  · rw [haccept]
    by_cases hpos : 0 < fd
    · exact (h.socketClose_self hpos hzero).1
    · rw [Server.socketClose, if_neg hpos]
      exact h
  · rw [haccept]
    exact (hmoved.socketClose_self hpos hzero).1
  · rw [hmemdup hcount hblock hpos hitem] at hjob
    obtain ⟨j, rfl⟩ := Option.isSome_iff_exists.mp hjob
    obtain ⟨hwaits, hfd⟩ := hnew j rfl
    rw [haccept]
    refine hmoved.startAddJob (hidle _)
      ⟨fun _ => ⟨j, rfl, hwaits, hfd⟩, fun hne => absurd hc hne⟩ ?_
    rw [if_pos (by simpa [JobItem.isOf] using hc)]
    exact Nat.add_le_add_right hzero.le 1

/-! ## Every state of a run -/

/-- Where `c` is in its life. -/
structure Sound (c : Nat) (s : Server n) : Prop where
  numbered : s.Numbered
  balanced : Balanced (s.tally c)
  life : s.accepted ≤ c ∨ (∃ fd, Holding s c fd []) ∨ Past s c

theorem Sound.step (h : Sound c s) {e : ServerEvent n} (hfresh : FreshFd s e)
    (hcareful : Careful c s e) : Sound c (s.step e) := by
  refine ⟨numbered_step h.numbered e, balanced_step h.balanced (tallyStep s c e), ?_⟩
  rcases h.life with hpending | ⟨fd, hholding⟩ | hpast
  · rcases accepted_step s e with hsame | ⟨fd, a, rfl, hidle, hmore⟩
    · exact .inl (by omega)
    · by_cases hc : s.accepted = c
      · obtain ⟨hunused, hmemdup⟩ := hcareful hidle hc
        have hstep : s.step (.accept fd a) = s.evAcceptCallback fd a := if_pos hidle
        obtain ⟨hcomes, hzero⟩ := (h.numbered c hpending).comes h.balanced hc hunused
        rw [hstep]
        exact .inr (.inl ⟨fd, hcomes.comes hzero hc hidle a hmemdup⟩)
      · exact .inl (by omega)
  · rcases hholding.step hfresh hcareful with hnext | hnext
    · exact .inr (.inl ⟨fd, hnext⟩)
    · exact .inr (.inr hnext)
  · have hlt := hpast.accepted
    refine .inr (.inr ⟨hpast.toUnheld.step e fun _ _ _ _ => by omega, ?_⟩)
    rcases accepted_step s e with hsame | ⟨_, _, _, _, hmore⟩ <;> omega

theorem Sound.closedOnce (h : Sound c s) : ClosedOnce s c := by
  have hfreed : .itemFreed c ∈ s.deeds → 0 < (s.tally c).freed := List.count_pos_iff.mpr
  rcases h.life with hpending | ⟨fd, hholding⟩ | hpast
  · have hclosed := (h.numbered c hpending).closed
    have hgone := h.balanced.gone
    have hzero : (s.tally c).accepted = 0 := if_neg (by omega)
    refine ⟨by omega, ?_⟩
    intro hdestroyed
    have := hfreed hdestroyed.item
    omega
  · have hsum := hholding.once
    refine ⟨by omega, ?_⟩
    intro hdestroyed
    have := List.count_pos_iff.mpr (hholding.freed hdestroyed.item)
    omega
  · exact ⟨hpast.closed.le, fun _ => hpast.closed⟩

theorem sound_init (queueSize : Int) (c : Nat) : Sound c (init n queueSize) :=
  ⟨numbered_init queueSize, balanced_init queueSize c, .inl (Nat.zero_le c)⟩

end Server

/-- **A connection is closed once**, by whomever, in every run in which it comes as a number that is
not left over with anybody, gets no bufferevent and does not lose its job. -/
theorem closedOnce_along (n : Nat) (queueSize : Int) (c : Nat) (es : List (ServerEvent n))
    (hkernel : Machine.Along Server.step FreshFd (Server.init n queueSize) es)
    (hcareful : Machine.Along Server.step (Careful c) (Server.init n queueSize) es) :
    ∀ s ∈ Machine.trail Server.step (Server.init n queueSize) es, ClosedOnce s c := by
  intro s hmem
  have hsound := Machine.inv_trail Server.step (Server.Sound c) (fun s e h hs => h.step hs.1 hs.2)
    (Server.sound_init queueSize c) (hkernel.and Server.step hcareful) s hmem
  exact hsound.closedOnce

/-- A connection is accepted as `fd`, its job queued and picked up. -/
def pickedUp (fd : Nat) (a : Server.ClientNewAnswers) : List (ServerEvent 0) :=
  [.accept fd ⟨true, true, true⟩, .addJobStep 0 .timedOut, .addJobStep 0 .timedOut,
    .addJobStep 0 .timedOut, .readCallback 0, .readCallbackStep 0 .timedOut a]

/-- Its client is made, and released when the dialogue is finished. -/
def servedClient : List (ServerEvent 0) :=
  pickedUp 7 ⟨true, true, true, true, true, true, true⟩ ++
    [.clientCallback ⟨0, 7, true⟩ (.read true), .finalize 7]

/-- Its descriptor is closed twice. -/
theorem servedClient_closed_twice :
    ¬ ∀ s ∈ Machine.trail Server.step (Server.init 0 32) servedClient, ClosedOnce s 0 := by
  intro hall
  have hle := (hall _ (Machine.run_mem_trail Server.step _ _)).atMostOnce
  exact absurd hle (by decide +kernel)

/-- When another connection comes as the same number in between, the second close is one of it: it
is closed while its job is still in the queue. -/
example :
    let s := Machine.run Server.step (Server.init 0 32)
      (pickedUp 7 ⟨true, true, true, true, true, true, true⟩ ++
        [.clientCallback ⟨0, 7, true⟩ (.read true), .accept 7 ⟨true, true, true⟩, .finalize 7])
    .closed 1 ∈ s.deeds ∧ .itemFreed 1 ∉ s.deeds := by
  decide +kernel

/-- Two connections come as the same number, one after the other, and there is no memory for the
client of either. -/
def failedClients : List (ServerEvent 0) :=
  pickedUp 7 ⟨false, true, true, true, true, true, true⟩
    ++ pickedUp 7 ⟨false, true, true, true, true, true, true⟩

/-- Their jobs close them. -/
theorem failedClients_closed_once :
    Destroyed (Machine.run Server.step (Server.init 0 32) failedClients) 1
      ∧ ∀ s ∈ Machine.trail Server.step (Server.init 0 32) failedClients, ClosedOnce s 1 := by
  let s := Machine.run Server.step (Server.init 0 32)
    (pickedUp 7 ⟨false, true, true, true, true, true, true⟩)
  have hholder : s.holder 7 = some 0 := by decide +kernel
  have hclosed : .closed 0 ∈ s.deeds := by decide +kernel
  have hitems : ∀ i, (s.workers i).items = [] := by decide +kernel
  have hclients : s.clients = [] := by decide +kernel
  have hfinalizers : s.finalizers = [] := by decide +kernel
  have hunused : s.Unused 7 := by
    refine ⟨?_, ?_, ?_⟩
    · exact fun i item hmem => absurd (hitems i ▸ hmem) List.not_mem_nil
    · exact fun client hmem => absurd (hclients ▸ hmem) List.not_mem_nil
    · exact hfinalizers ▸ List.not_mem_nil
  refine ⟨⟨by decide +kernel, by decide +kernel⟩, closedOnce_along 0 32 1 failedClients ?_ ?_⟩
  · refine (Machine.along_append Server.step).mpr ⟨⟨fun _ _ h => absurd h (by simp [Server.init]),
      trivial, trivial, trivial, trivial, trivial, trivial⟩, ⟨?_, trivial, trivial, trivial, trivial,
      trivial, trivial⟩⟩
    intro _ c hc
    obtain rfl := Option.some.inj (hholder.symm.trans hc)
    exact hclosed
  · exact (Machine.along_append Server.step).mpr ⟨⟨fun _ h => absurd h (by decide), trivial, trivial,
      trivial, trivial, fun _ _ _ _ => rfl, trivial⟩, ⟨fun _ _ => ⟨hunused, fun _ _ _ _ => rfl⟩,
      trivial, trivial, trivial, trivial, fun _ _ _ _ => rfl, trivial⟩⟩

end TraceServer
