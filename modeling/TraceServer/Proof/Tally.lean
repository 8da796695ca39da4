import TraceServer.Proof.Items

/-!
# What becomes of a connection

For one connection everything can be counted: whether it has been accepted, its items, its clients,
the bufferevents that were made for it and the items of it that were freed (`Tally`). An item is
made when a connection is accepted and goes once, so a connection gets one bufferevent at most and
has one item freed at most (`Balanced`).
-/

namespace TraceServer

variable {n : Nat}

/-! ## The callbacks -/

/-- `evserver_client_new` gets as far as a bufferevent. -/
def Server.ClientNewAnswers.makesBufferevent (a : Server.ClientNewAnswers) : Bool :=
  a.calloc && a.inputBuffer && a.outputBuffer && a.eventAssign && a.eventAdd &&
    a.buffereventSocketNew

namespace Server

variable {s : Server n} {c : Nat}

/-- The three ways `evserver_client_new` can end. -/
theorem evserverClientNew_cases (s : Server n) (conn fd : Nat) (a : ClientNewAnswers) :
    (a.makesBufferevent = false ∧ s.evserverClientNew conn fd a = (none, s))
      ∨ (a.makesBufferevent = true ∧ a.buffereventEnable = false ∧ s.evserverClientNew conn fd a
          = (none, (s.note (.buffered conn)).clientFree ⟨conn, fd, true⟩))
      ∨ (a.makesBufferevent = true ∧ a.buffereventEnable = true ∧ s.evserverClientNew conn fd a
          = (some ⟨conn, fd, true⟩, s.note (.buffered conn))) := by
  obtain ⟨calloc, input, output, assign, add, new, enable⟩ := a
  unfold evserverClientNew ClientNewAnswers.makesBufferevent clientFree
  cases calloc <;> cases input <;> cases output <;> cases assign <;> cases add <;> cases new <;>
    cases enable <;> simp

/-- The ways `_evserver_worker_add_event` can go with an item: it has no job, or the client fails
early, fails with its bufferevent, or is made. A job is marked as being processed only when the
client has its descriptor. -/
theorem addEvent_cases (s : Server n) (item : JobItem) (a : ClientNewAnswers) :
    (item.job = none ∧ s.evserverWorkerAddEvent (some item) a = s.itemFree item)
      ∨ ∃ job, item.job = some job ∧
        ((a.makesBufferevent = false ∧ s.evserverWorkerAddEvent (some item) a
            = { s with clientWaitCount := s.clientWaitCount - 1 }.itemFree
                ⟨item.conn, some { job with processing := false }⟩)
          ∨ (a.makesBufferevent = true ∧ a.buffereventEnable = false
            ∧ s.evserverWorkerAddEvent (some item) a
              = (({ s with clientWaitCount := s.clientWaitCount - 1 }.note
                  (.buffered item.conn)).clientFree ⟨item.conn, job.connectFd, true⟩).itemFree
                ⟨item.conn, some { job with processing := false }⟩)
          ∨ (a.makesBufferevent = true ∧ a.buffereventEnable = true
            ∧ s.evserverWorkerAddEvent (some item) a
              = ({ s with
                  clientWaitCount := s.clientWaitCount - 1
                  clients := ⟨item.conn, job.connectFd, true⟩ :: s.clients
                  clientHandlingCount := s.clientHandlingCount + 1 }.note
                  (.buffered item.conn)).itemFree
                ⟨item.conn, some { job with processing := true }⟩)) := by
  obtain ⟨conn, job⟩ := item
  unfold evserverWorkerAddEvent
  cases job with
  | none => exact .inl ⟨rfl, rfl⟩
  | some job =>
      refine .inr ⟨job, rfl, ?_⟩
      dsimp only
      rw [if_pos job.connectFd_pos]
      rcases evserverClientNew_cases { s with clientWaitCount := s.clientWaitCount - 1 } conn
        job.connectFd a with ⟨hmakes, hnew⟩ | ⟨hmakes, henable, hnew⟩ | ⟨hmakes, henable, hnew⟩
      · rw [hnew]
        exact .inl ⟨hmakes, rfl⟩
      · rw [hnew]
        exact .inr (.inl ⟨hmakes, henable, rfl⟩)
      · rw [hnew]
        exact .inr (.inr ⟨hmakes, henable, rfl⟩)

/-- The three ways `ev_accept_callback` can end: the connection goes no further, or a worker is
selected for it but there is no memory for the item, or that worker is given the item. -/
theorem evAcceptCallback_cases (s : Server n) (fd : Nat) (a : AcceptAnswers) :
    (¬ (s.clientConnectedCount ≤ clientAcceptMaxCount ∧ a.makeSocketNonblocking = true ∧ 0 < fd)
        ∧ s.evAcceptCallback fd a
          = (s.accepting fd).socketClose fd)
      ∨ ((s.clientConnectedCount ≤ clientAcceptMaxCount ∧ a.makeSocketNonblocking = true ∧ 0 < fd)
        ∧ a.itemAlloc = false
        ∧ s.evAcceptCallback fd a
          = { s.accepting fd with currentWorker := s.currentWorker + 1 }.socketClose fd)
      ∨ ((s.clientConnectedCount ≤ clientAcceptMaxCount ∧ a.makeSocketNonblocking = true ∧ 0 < fd)
        ∧ a.itemAlloc = true
        ∧ ∃ job, Option.isSome job = a.memdup
          ∧ (∀ j, job = some j → j.processing = false ∧ j.connectFd = fd)
          ∧ s.evAcceptCallback fd a
            = { s.accepting fd with currentWorker := s.currentWorker + 1 }.setWorker s.selected
              ((s.workers s.selected).startAddJob ⟨s.accepted, job⟩)) := by
  have hsame : (s.accepting fd).clientConnectedCount = s.clientConnectedCount := rfl
  unfold evAcceptCallback
  dsimp only
  rw [hsame]
  split
  · exact .inl ⟨fun h => absurd h.1 (by omega), rfl⟩
  · rename_i hcount
    split
    · rename_i hblock
      exact .inl ⟨fun h => hblock h.2.1, rfl⟩
    · rename_i hblock
      unfold evserverTpoolAddJob
      by_cases hfd : 0 < fd
      · have hcall : s.clientConnectedCount ≤ clientAcceptMaxCount
            ∧ a.makeSocketNonblocking = true ∧ 0 < fd :=
          ⟨by omega, by simpa using hblock, hfd⟩
        rw [dif_pos hfd]
        cases hitem : a.itemAlloc with
        | false => exact .inr (.inl ⟨hcall, rfl, rfl⟩)
        | true =>
            refine .inr (.inr ⟨hcall, rfl, _, ?_, ?_, rfl⟩)
            · cases a.memdup <;> rfl
            · cases a.memdup with
              | false => exact fun j h => absurd h (by simp)
              | true =>
                  intro j h
                  rw [← Option.some.inj h]
                  exact ⟨rfl, rfl⟩
      · rw [dif_neg hfd]
        exact .inl ⟨fun h => hfd h.2.2, rfl⟩

/-! ## What only accepting changes -/

/-- Nothing has been accepted, and no job handed out. -/
structure Quiet (s s' : Server n) : Prop where
  accepted : s'.accepted = s.accepted
  holder : s'.holder = s.holder
  currentWorker : s'.currentWorker = s.currentWorker

namespace Quiet

theorem refl (s : Server n) : Quiet s s := ⟨rfl, rfl, rfl⟩

theorem trans {s s' s'' : Server n} (h : Quiet s s') (h' : Quiet s' s'') : Quiet s s'' :=
  ⟨h'.accepted.trans h.accepted, h'.holder.trans h.holder, h'.currentWorker.trans h.currentWorker⟩

theorem close (s : Server n) (fd : Nat) : Quiet s (s.close fd) := by
  unfold Server.close
  split
  · exact ⟨rfl, rfl, rfl⟩
  · exact refl s

theorem socketClose (s : Server n) (fd : Nat) : Quiet s (s.socketClose fd) := by
  unfold Server.socketClose
  split
  · exact close s fd
  · exact refl s

theorem itemFree (s : Server n) (item : JobItem) : Quiet s (s.itemFree item) := by
  have hjob : Quiet s (s.jobFree item) := by
    unfold jobFree
    split
    · split
      · exact socketClose s _
      · exact refl s
    · exact refl s
  exact hjob.trans ⟨rfl, rfl, rfl⟩

theorem foldl_itemFree (items : List JobItem) :
    ∀ s : Server n, Quiet s (items.foldl Server.itemFree s) := by
  induction items with
  | nil => exact refl
  | cons item items ih => exact fun s => (itemFree s item).trans (ih _)

theorem clientFree (s : Server n) (client : ServerClient) : Quiet s (s.clientFree client) := by
  unfold Server.clientFree
  split
  · exact ⟨rfl, rfl, rfl⟩
  · exact refl s

theorem addEvent (s : Server n) (popped : Option JobItem) (a : ClientNewAnswers) :
    Quiet s (s.evserverWorkerAddEvent popped a) := by
  cases popped with
  | none => exact refl s
  | some item =>
    have hwait : Quiet s { s with clientWaitCount := s.clientWaitCount - 1 } := ⟨rfl, rfl, rfl⟩
    rcases addEvent_cases s item a with ⟨_, hadd⟩ | ⟨job, _, ⟨_, hadd⟩ | ⟨_, _, hadd⟩ | ⟨_, _, hadd⟩⟩
    · rw [hadd]
      exact itemFree s item
    · rw [hadd]
      exact hwait.trans (itemFree _ _)
    · rw [hadd]
      refine trans (trans ?_ (clientFree _ _)) (itemFree _ _)
      exact ⟨rfl, rfl, rfl⟩
    · rw [hadd]
      refine trans ?_ (itemFree _ _)
      exact ⟨rfl, rfl, rfl⟩

/-- **Only `ev_accept_callback` accepts.** -/
theorem step (s : Server n) {e : ServerEvent n}
    (he : ∀ fd a, e = .accept fd a → ¬ s.AcceptIdle) : Quiet s (s.step e) := by
  cases e with
  | accept fd a =>
      unfold Server.step
      dsimp only
      rw [if_neg (he fd a rfl)]
      exact refl s
  | addJobStep i w =>
      refine trans ?_ (foldl_itemFree _ _)
      exact ⟨rfl, rfl, rfl⟩
  | readCallback i =>
      unfold Server.step
      dsimp only
      split
      · exact ⟨rfl, rfl, rfl⟩
      · exact refl s
  | readCallbackStep i w a =>
      show Quiet s (s.readCallbackStep i w a)
      unfold readCallbackStep
      dsimp only
      cases ((s.workers i).readCallbackStep w).1 with
      | none => exact ⟨rfl, rfl, rfl⟩
      | some popped =>
          refine trans ?_ (addEvent _ popped a)
          exact ⟨rfl, rfl, rfl⟩
  | clientCallback client callback =>
      unfold Server.step clientCallback evserverClientRelease
      dsimp only
      split
      · split
        · have hrest : Quiet s { s with clients := s.clients.erase client } := ⟨rfl, rfl, rfl⟩
          have hend := (hrest.trans (clientFree _ client)).trans (socketClose _ client.fd)
          exact ⟨hend.accepted, hend.holder, hend.currentWorker⟩
        · exact refl s
      · exact refl s
  | finalize fd =>
      unfold Server.step finalize
      dsimp only
      split
      · refine trans ?_ (close _ fd)
        exact ⟨rfl, rfl, rfl⟩
      · exact refl s

end Quiet

/-- A callback that accepts numbers its connection, and moves the counter of the workers when it
gets as far as them. -/
theorem quiet_accept (s : Server n) (fd : Nat) (a : AcceptAnswers) :
    Quiet { s.accepting fd with
        currentWorker :=
          if s.clientConnectedCount ≤ clientAcceptMaxCount ∧ a.makeSocketNonblocking = true ∧ 0 < fd
          then s.currentWorker + 1 else s.currentWorker }
      (s.evAcceptCallback fd a) := by
  rcases evAcceptCallback_cases s fd a with
    ⟨hcall, haccept⟩ | ⟨hcall, _, haccept⟩ | ⟨hcall, _, job, _, _, haccept⟩
  · rw [haccept, if_neg hcall]
    refine Quiet.trans ?_ (.socketClose _ fd)
    exact ⟨rfl, rfl, rfl⟩
  · rw [haccept, if_pos hcall]
    exact .socketClose _ fd
  · rw [haccept, if_pos hcall]
    exact ⟨rfl, rfl, rfl⟩

/-! ## Counting -/

end Server

/-- What there is of a connection, and what there has been. -/
structure Tally where
  accepted : Nat
  items : Nat
  clients : Nat
  buffered : Nat
  freed : Nat

def JobItem.isOf (c : Nat) (item : JobItem) : Bool := item.conn = c

def Server.tally (s : Server n) (c : Nat) : Tally where
  accepted := if c < s.accepted then 1 else 0
  items := s.countItems (JobItem.isOf c)
  clients := s.clients.countP (·.conn = c)
  buffered := s.deeds.count (.buffered c)
  freed := s.deeds.count (.itemFreed c)

/-- What a step can do to a tally. -/
inductive TallyStep (t : Tally) : Tally → Prop where
  | stays : TallyStep t t
  /-- Accepted, and not handed on. -/
  | refused (h : t.accepted = 0) : TallyStep t { t with accepted := 1 }
  | queued (h : t.accepted = 0) : TallyStep t { t with accepted := 1, items := t.items + 1 }
  | freed {m k : Nat} (h : t.items = m + k) :
      TallyStep t { t with items := m, freed := t.freed + k }
  /-- A client is made. -/
  | created {m : Nat} (h : t.items = m + 1) :
      TallyStep t { t with
        items := m, clients := t.clients + 1, buffered := t.buffered + 1, freed := t.freed + 1 }
  /-- A client fails when it has its bufferevent. -/
  | failed {m : Nat} (h : t.items = m + 1) :
      TallyStep t { t with items := m, buffered := t.buffered + 1, freed := t.freed + 1 }
  | released {k : Nat} (h : t.clients = k + 1) : TallyStep t { t with clients := k }

/-- What there is of a connection comes from its one item. -/
structure Balanced (t : Tally) : Prop where
  once : t.accepted ≤ 1
  owned : t.items + t.buffered ≤ t.accepted
  gone : t.freed + t.items ≤ t.accepted

theorem balanced_step {t t' : Tally} (h : Balanced t) (hs : TallyStep t t') : Balanced t' := by
  obtain ⟨honce, howned, hgone⟩ := h
  cases hs with
  | stays => exact ⟨honce, howned, hgone⟩
  | refused h => constructor <;> dsimp only <;> omega
  | queued h => constructor <;> dsimp only <;> omega
  | freed h => constructor <;> dsimp only <;> omega
  | created h => constructor <;> dsimp only <;> omega
  | failed h => constructor <;> dsimp only <;> omega
  | released h => exact ⟨honce, howned, hgone⟩

/-! ## What each step does to a tally -/

namespace Server

variable {s : Server n} {c : Nat}

/-- What a deed adds to the tally of `c`. -/
def Tally.add (c : Nat) (t : Tally) : Deed → Tally
  | .closed _ => t
  | .buffered conn => { t with buffered := t.buffered + if conn = c then 1 else 0 }
  | .itemFreed conn => { t with freed := t.freed + if conn = c then 1 else 0 }

theorem tally_note (d : Deed) : (s.note d).tally c = Tally.add c (s.tally c) d := by
  cases d <;> simp [tally, note, countItems, Tally.add, List.count_cons] <;> rfl

theorem tally_close (s : Server n) (fd : Nat) : (s.close fd).tally c = s.tally c := by
  unfold close
  split
  · exact tally_note _
  · rfl

theorem tally_socketClose (s : Server n) (fd : Nat) : (s.socketClose fd).tally c = s.tally c := by
  unfold socketClose
  split
  · exact tally_close s fd
  · rfl

theorem tally_itemFree (s : Server n) (item : JobItem) :
    (s.itemFree item).tally c = { s.tally c with
    freed := (s.tally c).freed + if item.conn = c then 1 else 0 } := by
  have hjob : (s.jobFree item).tally c = s.tally c := by
    unfold jobFree
    split
    · split
      · exact tally_socketClose s _
      · rfl
    · rfl
  unfold itemFree
  rw [tally_note, hjob]
  rfl

/-- `item_free` of everything a flush has found. -/
theorem tally_foldl_itemFree (items : List JobItem) :
    ∀ s : Server n, (items.foldl itemFree s).tally c = { s.tally c with
      freed := (s.tally c).freed + items.countP (JobItem.isOf c) } := by
  induction items with
  | nil => exact fun _ => rfl
  | cons item items ih =>
      intro s
      rw [List.foldl_cons, ih, tally_itemFree, List.countP_cons]
      simp only [JobItem.isOf, decide_eq_true_eq, Tally.mk.injEq, true_and]
      omega

/-! ### A worker picks up a job -/

theorem tally_clientFree (s : Server n) (client : ServerClient) :
    (s.clientFree client).tally c = s.tally c := by
  unfold clientFree
  split <;> rfl

theorem tally_cons_client (s : Server n) (client : ServerClient) (count : Int) :
    tally { s with clients := client :: s.clients, clientHandlingCount := count } c
      = { s.tally c with
          clients := (s.tally c).clients + if client.conn = c then 1 else 0 } := by
  simp [tally, countItems, List.countP_cons]

/-- What `_evserver_worker_add_event` does with the item it is handed. -/
theorem tally_addEvent (s : Server n) (item : JobItem) (a : ClientNewAnswers) :
    (s.evserverWorkerAddEvent (some item) a).tally c = { s.tally c with
        freed := (s.tally c).freed + if item.conn = c then 1 else 0 }
      ∨ (s.evserverWorkerAddEvent (some item) a).tally c = { s.tally c with
          buffered := (s.tally c).buffered + if item.conn = c then 1 else 0
          freed := (s.tally c).freed + if item.conn = c then 1 else 0 }
      ∨ (s.evserverWorkerAddEvent (some item) a).tally c = { s.tally c with
          clients := (s.tally c).clients + if item.conn = c then 1 else 0
          buffered := (s.tally c).buffered + if item.conn = c then 1 else 0
          freed := (s.tally c).freed + if item.conn = c then 1 else 0 } := by
  rcases addEvent_cases s item a with ⟨_, hadd⟩ | ⟨job, _, ⟨_, hadd⟩ | ⟨_, _, hadd⟩ | ⟨_, _, hadd⟩⟩
  · refine .inl ?_
    rw [hadd, tally_itemFree]
  · refine .inl ?_
    rw [hadd, tally_itemFree]
    rfl
  · refine .inr (.inl ?_)
    rw [hadd, tally_itemFree, tally_clientFree, tally_note]
    rfl
  · have hclient := tally_cons_client (c := c) { s with clientWaitCount := s.clientWaitCount - 1 }
      ⟨item.conn, job.connectFd, true⟩ (s.clientHandlingCount + 1)
    refine .inr (.inr ?_)
    rw [hadd, tally_itemFree, tally_note]
    dsimp only at hclient ⊢
    rw [hclient]
    rfl

/-! ### Every step -/

/-- What comes out of a worker is missing from the count. -/
theorem countItems_out {i : Fin (n + 1)} {w : Worker JobItem} {out : List JobItem}
    (hout : (out ++ w.items).Perm (s.workers i).items) (p : JobItem → Bool) :
    s.countItems p = (s.setWorker i w).countItems p + out.countP p := by
  have hset := countItems_setWorker s i w p
  have hsum := hout.countP_eq p
  rw [List.countP_append] at hsum
  omega

/-- A worker out of which nothing comes leaves the tally as it is. -/
theorem tally_setWorker {i : Fin (n + 1)} {w : Worker JobItem}
    (hsame : w.items.Perm (s.workers i).items) : (s.setWorker i w).tally c = s.tally c := by
  have hcount : (s.setWorker i w).countItems (JobItem.isOf c) = s.countItems (JobItem.isOf c) :=
    (@countItems_out n s i w [] hsame _).symm
  show { s.tally c with items := (s.setWorker i w).countItems (JobItem.isOf c) } = s.tally c
  rw [hcount]
  rfl

theorem tallyStep_addJobStep (i : Fin (n + 1)) (w : WaitEnd) :
    TallyStep (s.tally c) ((s.addJobStep i w).tally c) := by
  have hout := addJobStep_items (s.workers i) w
  unfold addJobStep
  dsimp only
  rw [tally_foldl_itemFree]
  exact .freed (countItems_out hout _)

theorem tallyStep_readCallbackStep (i : Fin (n + 1)) (w : WaitEnd) (a : ClientNewAnswers) :
    TallyStep (s.tally c) ((s.readCallbackStep i w a).tally c) := by
  have hout := List.Perm.of_eq (readCallbackStep_items (s.workers i) w)
  unfold readCallbackStep
  dsimp only
  cases hpop : ((s.workers i).readCallbackStep w).1 with
  | none =>
      rw [hpop] at hout
      dsimp only
      rw [tally_setWorker hout]
      exact .stays
  | some popped =>
    rw [hpop] at hout
    cases popped with
    | none =>
        unfold evserverWorkerAddEvent
        dsimp only
        rw [tally_setWorker hout]
        exact .stays
    | some item =>
        -- the item is out, whatever becomes of it
        have hitems := countItems_out hout (JobItem.isOf c)
        simp only [Option.getD_some, Option.toList_some, List.countP_singleton, JobItem.isOf,
          decide_eq_true_eq] at hitems
        dsimp only
        generalize ((s.workers i).readCallbackStep w).2 = worker at *
        have hx : (s.setWorker i worker).tally c = { s.tally c with
            items := (s.setWorker i worker).countItems (JobItem.isOf c) } := rfl
        by_cases hconn : item.conn = c
        · rw [if_pos hconn] at hitems
          rcases tally_addEvent (c := c) (s.setWorker i worker) item a with
            htally | htally | htally
          · rw [htally, hx, if_pos hconn]
            exact .freed hitems
          · rw [htally, hx, if_pos hconn]
            exact .failed hitems
          · rw [htally, hx, if_pos hconn]
            exact .created hitems
        · -- somebody else's
          rw [if_neg hconn, Nat.add_zero] at hitems
          have hsame : (s.setWorker i worker).tally c = s.tally c := by
            rw [hx]
            show { s.tally c with
              items := (s.setWorker i worker).countItems (JobItem.isOf c) } = s.tally c
            rw [← hitems]
            rfl
          rcases tally_addEvent (c := c) (s.setWorker i worker) item a with
            htally | htally | htally <;> rw [htally, hsame, if_neg hconn] <;> exact .stays

theorem tallyStep_clientCallback {client : ServerClient} (hmem : client ∈ s.clients)
    (k : ClientCallback) : TallyStep (s.tally c) ((s.clientCallback client k).tally c) := by
  unfold clientCallback
  split
  · have hcount := (List.perm_cons_erase hmem).countP_eq (·.conn = c)
    rw [List.countP_cons] at hcount
    have hx : ({ s with clients := s.clients.erase client } : Server n).tally c
        = { s.tally c with clients := (s.clients.erase client).countP (·.conn = c) } := rfl
    show TallyStep _ ((s.evserverClientRelease client).tally c)
    unfold evserverClientRelease
    rw [tally_socketClose, tally_clientFree, hx]
    by_cases hconn : client.conn = c
    · simp only [hconn, decide_true, if_true] at hcount
      exact .released hcount
    · simp only [hconn, decide_false, Bool.false_eq_true, if_false, Nat.add_zero] at hcount
      rw [← hcount]
      exact .stays
  · exact .stays

/-- A connection is accepted once, by the callback that numbers it. -/
theorem tally_accepting (s : Server n) (c fd : Nat) :
    (s.accepted ≠ c ∧ (s.accepting fd).tally c = s.tally c)
      ∨ (s.accepted = c ∧ (s.tally c).accepted = 0
        ∧ (s.accepting fd).tally c = { s.tally c with accepted := 1 }) := by
  unfold tally accepting
  by_cases hc : s.accepted = c
  · subst hc
    exact .inr ⟨rfl, if_neg (Nat.lt_irrefl _), by simp [countItems]⟩
  · refine .inl ⟨hc, ?_⟩
    have hlt : c < s.accepted + 1 ↔ c < s.accepted := by omega
    simp only [countItems, hlt]

theorem tallyStep_accepting (s : Server n) (c fd : Nat) :
    TallyStep (s.tally c) ((s.accepting fd).tally c) := by
  rcases tally_accepting s c fd with ⟨_, hacc⟩ | ⟨_, hzero, hacc⟩
  · rw [hacc]
    exact .stays
  · rw [hacc]
    exact .refused hzero

theorem tallyStep_accept (fd : Nat) (a : AcceptAnswers) (hidle : s.AcceptIdle) :
    TallyStep (s.tally c) ((s.evAcceptCallback fd a).tally c) := by
  rcases evAcceptCallback_cases s fd a with
    ⟨_, haccept⟩ | ⟨_, _, haccept⟩ | ⟨_, _, job, _, _, haccept⟩
  · rw [haccept, tally_socketClose]
    exact tallyStep_accepting s c fd
  · rw [haccept, tally_socketClose]
    exact tallyStep_accepting s c fd
  · -- on the way into a queue
    have hitems := startAddJob_items (hidle s.selected) (⟨s.accepted, job⟩ : JobItem)
    have hset := countItems_setWorker s s.selected
      ((s.workers s.selected).startAddJob ⟨s.accepted, job⟩) (JobItem.isOf c)
    rw [hitems, List.countP_append, List.countP_singleton] at hset
    rw [haccept]
    show TallyStep _ { (s.accepting fd).tally c with
      items := (s.setWorker s.selected
        ((s.workers s.selected).startAddJob ⟨s.accepted, job⟩)).countItems (JobItem.isOf c) }
    rcases tally_accepting s c fd with ⟨hc, hacc⟩ | ⟨hc, hzero, hacc⟩
    · -- another connection
      have hsame : (s.setWorker s.selected ((s.workers s.selected).startAddJob
          ⟨s.accepted, job⟩)).countItems (JobItem.isOf c) = s.countItems (JobItem.isOf c) := by
        simp only [JobItem.isOf, hc, decide_false, Bool.false_eq_true, if_false] at hset ⊢
        omega
      rw [hacc, hsame]
      exact .stays
    · have hmore : (s.setWorker s.selected ((s.workers s.selected).startAddJob
          ⟨s.accepted, job⟩)).countItems (JobItem.isOf c) = (s.tally c).items + 1 := by
        have hcount : (s.tally c).items = s.countItems (JobItem.isOf c) := rfl
        rw [hcount]
        simp only [JobItem.isOf, hc, decide_true, if_true] at hset ⊢
        omega
      rw [hacc, hmore]
      exact .queued hzero

/-- **Every step does one of the things listed.** -/
theorem tallyStep (s : Server n) (c : Nat) (e : ServerEvent n) :
    TallyStep (s.tally c) ((s.step e).tally c) := by
  cases e with
  | accept fd a =>
      unfold step
      dsimp only
      split
      · rename_i hidle
        exact tallyStep_accept fd a hidle
      · exact .stays
  | addJobStep i w => exact tallyStep_addJobStep i w
  | readCallback i =>
      unfold step
      dsimp only
      split
      · rw [tally_setWorker (.of_eq (startReadCallback_items _))]
        exact .stays
      · exact .stays
  | readCallbackStep i w a => exact tallyStep_readCallbackStep i w a
  | clientCallback client k =>
      unfold step
      dsimp only
      split
      · rename_i hmem
        exact tallyStep_clientCallback hmem k
      · exact .stays
  | finalize fd =>
      unfold step
      dsimp only
      split
      · unfold finalize
        rw [tally_close]
        exact .stays
      · exact .stays

theorem balanced_init (queueSize : Int) (c : Nat) : Balanced ((init n queueSize).tally c) := by
  have hzero : (init n queueSize).tally c = ⟨0, 0, 0, 0, 0⟩ := by
    simp [tally, init, countItems, evserverWorkerInit, queueSetDepth, queueCreate, Worker.items]
  rw [hzero]
  exact ⟨by decide, by decide, by decide⟩

end Server

end TraceServer
