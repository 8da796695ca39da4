import TraceServer.EventLoop
import TraceServer.Lib.Custody
import TraceServer.Proof.Descriptor
import TraceServer.Proof.Pool

/-!
# `client_handling_count` counts the clients

A worker counts a client when it has made it, and each of the four callbacks that can end
it counts it off when it has released it. The clients on libevent's books are exactly those
(`Registered`), and a connection has at most one, because its item is taken once; so what
has been released cannot be called back, and nothing is released twice.
-/

namespace TraceServer

variable {n : Nat}

namespace Server

variable {s : Server n}

/-- **What a step other than a client's callback does to the clients.** -/
theorem step_clients (s : Server n) {e : ServerEvent n}
    (he : ∀ client c, e ≠ .clientCallback client c) :
    (s.step e).clients = (s.creates e).toList ++ s.clients
      ∧ (s.step e).clientHandlingCount = s.clientHandlingCount + (s.creates e).toList.length := by
  have hsame : ∀ {p : Pool n}, p.clients = s.clients → p.clientHandlingCount = s.clientHandlingCount →
      s.creates e = none → p.clients = (s.creates e).toList ++ s.clients
        ∧ p.clientHandlingCount = s.clientHandlingCount + (s.creates e).toList.length := by
    intro p hc hh hnone
    rw [hnone]
    exact ⟨hc, hh.trans (Int.add_zero _).symm⟩
  have hstep := poolStep s e
  show (s.step e).pool.clients = _ ∧ (s.step e).pool.clientHandlingCount = _
  generalize (s.step e).pool = p at hstep
  cases hstep with
  | stays hadd hread =>
      refine hsame rfl rfl ?_
      cases e with
      | readCallbackStep i w a => exact absurd rfl (hread i w a)
      | _ => rfl
  | given _ _ _ => exact hsame rfl rfl rfl
  | pushes i w => exact hsame rfl rfl rfl
  | called i hidle => exact hsame rfl rfl rfl
  | jobless i w a hpop =>
      refine hsame rfl rfl ?_
      unfold creates
      dsimp only
      cases hret : ((s.workers i).readCallbackStep w).1 with
      | none => rfl
      | some popped =>
        cases popped with
        | none => rfl
        | some item => simp only [hpop item hret]
  | fails hfails hpop hjob =>
      refine hsame rfl rfl ?_
      simp only [creates, hpop, hjob, evserverClientNew_fst, hfails, Bool.false_eq_true, if_false]
  | creates hmakes hpop hjob =>
      simp only [creates, hpop, hjob, evserverClientNew_fst, hmakes, if_true]
      exact ⟨rfl, rfl⟩
  | releases hmem c hexits => exact absurd rfl (he _ c)

/-- A client that ends leaves the list, and the count. -/
theorem clientCallback_clients (s : Server n) (client : ServerClient) {c : ClientCallback}
    (hexits : c.exits = true) : (s.clientCallback client c).clients = s.clients.erase client
      ∧ (s.clientCallback client c).clientHandlingCount = s.clientHandlingCount - 1 := by
  have hpool := pool_evserverClientRelease s client
  have hclients := congrArg Pool.clients hpool
  have hcount := congrArg Pool.clientHandlingCount hpool
  unfold clientCallback
  rw [if_pos hexits]
  exact ⟨hclients, congrArg (· - 1) hcount⟩

/-- A client is only made with a bufferevent. -/
theorem tallyStep_buffered {t t' : Tally} (h : TallyStep t t') :
    t'.clients + t.buffered ≤ t.clients + t'.buffered ∧ t.buffered ≤ t'.buffered := by
  cases h with
  | stays => exact ⟨Nat.le_refl _, Nat.le_refl _⟩
  | _ => dsimp only; omega

end Server

/-! ## libevent's books -/

/-- The number of the connection a client is for. -/
def ServerClient.isOf (c : Nat) (client : ServerClient) : Bool := client.conn = c

namespace EventLoop

/-- The clients on libevent's books are those of the workers, each a connection's own. -/
structure Registered (l : EventLoop n) : Prop where
  balanced : ∀ c, Balanced (l.server.tally c)
  timers : l.timers = l.server.clients
  bufferevents : l.bufferevents = l.server.clients
  custody : Custody l.created l.server.clients l.released
  /-- No client is made without a bufferevent, of which a connection gets one. -/
  buffered : ∀ c, l.created.countP (ServerClient.isOf c) ≤ (l.server.tally c).buffered
  counted : l.server.clientHandlingCount = l.server.clients.length

namespace Registered

variable {l : EventLoop n}

/-- No client is made twice. -/
theorem created_nodup (h : l.Registered) : l.created.Nodup := by
  refine List.nodup_iff_count_le_one.mpr ?_
  intro client
  have hbuf := h.buffered client.conn
  have howned := (h.balanced client.conn).owned
  have honce := (h.balanced client.conn).once
  have hle : l.created.count client ≤ l.created.countP (ServerClient.isOf client.conn) := by
    refine List.countP_mono_left ?_
    intro x _ hx
    rw [eq_of_beq hx]
    exact decide_eq_true rfl
  omega

theorem clients_nodup (h : l.Registered) : l.server.clients.Nodup :=
  (List.nodup_append.mp (h.custody.once h.created_nodup)).2.1

/-- What can call a client back is there as long as the client is. -/
theorem mayCall_iff (h : l.Registered) (client : ServerClient) (c : Server.ClientCallback) :
    l.mayCall client c = true ↔ client ∈ l.server.clients := by
  unfold mayCall
  cases c with
  | timer expired => rw [h.timers, decide_eq_true_iff]
  | _ => rw [h.bufferevents, decide_eq_true_iff]

end Registered

/-- What a step that is not a client's callback puts down. -/
theorem step_event (l : EventLoop n) {e : ServerEvent n}
    (he : ∀ client c, e ≠ .clientCallback client c) :
    l.step e = ⟨l.server.step e, (l.server.creates e).toList ++ l.timers,
      (l.server.creates e).toList ++ l.bufferevents, l.created ++ (l.server.creates e).toList,
      l.released⟩ := by
  cases e with
  | clientCallback client c => exact absurd rfl (he client c)
  | _ => rfl

/-- A step that makes a client, or does nothing to them. -/
theorem Registered.event {l : EventLoop n} (h : l.Registered) {e : ServerEvent n}
    (he : ∀ client c, e ≠ .clientCallback client c) : (l.step e).Registered := by
  obtain ⟨hclients, hcount⟩ := l.server.step_clients he
  have htally := fun c => l.server.tallyStep c e
  rw [step_event l he]
  generalize l.server.creates e = made at hclients hcount
  refine ⟨fun c => balanced_step (h.balanced c) (htally c), ?_, ?_, ?_, ?_, ?_⟩
  · show made.toList ++ l.timers = (l.server.step e).clients
    rw [hclients, h.timers]
  · show made.toList ++ l.bufferevents = (l.server.step e).clients
    rw [hclients, h.bufferevents]
  · refine h.custody.enter ?_
    show (l.server.step e).clients.Perm _
    rw [hclients]
    exact List.perm_append_comm
  · intro c
    show (l.created ++ made.toList).countP _ ≤ ((l.server.step e).tally c).buffered
    have hbuf := h.buffered c
    -- the clients of `c` are one more when it is `c`'s client that is made
    have hmore : ((l.server.step e).tally c).clients
        = made.toList.countP (ServerClient.isOf c) + (l.server.tally c).clients := by
      show (l.server.step e).clients.countP (ServerClient.isOf c) = _
      rw [hclients, List.countP_append]
      rfl
    have hgain := (Server.tallyStep_buffered (htally c)).1
    rw [List.countP_append]
    omega
  · show (l.server.step e).clientHandlingCount = ((l.server.step e).clients.length : Int)
    rw [hclients, hcount, h.counted, List.length_append]
    omega

/-- **A client's callback** that ends it takes it off the books, once. -/
theorem Registered.callback {l : EventLoop n} (h : l.Registered) (client : ServerClient)
    (c : Server.ClientCallback) : (l.step (.clientCallback client c)).Registered := by
  by_cases hcall : l.mayCall client c = true
  · have hmem : client ∈ l.server.clients := (h.mayCall_iff client c).mp hcall
    have hserver : l.server.step (.clientCallback client c) = l.server.clientCallback client c :=
      if_pos hmem
    have htally := fun k => l.server.tallyStep k (.clientCallback client c)
    rw [hserver] at htally
    have hbalanced := fun k => balanced_step (h.balanced k) (htally k)
    have hbuffered := fun k => (h.buffered k).trans (Server.tallyStep_buffered (htally k)).2
    by_cases hexits : c.exits = true
    · -- the dialogue is over, or the client timed out or failed: it goes from every book
      have hstep : l.step (.clientCallback client c)
          = ⟨l.server.clientCallback client c, l.timers.filter (· ≠ client),
            l.bufferevents.filter (· ≠ client), l.created, l.released ++ [client]⟩ := by
        simp only [step, hcall, hexits, if_true]
      obtain ⟨hclients, hcount⟩ := l.server.clientCallback_clients client hexits
      have herase : l.server.clients.erase client = l.server.clients.filter (· ≠ client) := by
        rw [h.clients_nodup.erase_eq_filter]
        exact List.filter_congr fun x _ => by rw [bne, decide_not]; rfl
      rw [hstep]
      refine ⟨hbalanced, ?_, ?_, ?_, hbuffered, ?_⟩
      · show l.timers.filter _ = (l.server.clientCallback client c).clients
        rw [hclients, herase, h.timers]
      · show l.bufferevents.filter _ = (l.server.clientCallback client c).clients
        rw [hclients, herase, h.bufferevents]
      · refine h.custody.leave ?_
        show ([client] ++ (l.server.clientCallback client c).clients).Perm l.server.clients
        rw [hclients]
        exact (List.perm_cons_erase hmem).symm
      · show (l.server.clientCallback client c).clientHandlingCount
          = ((l.server.clientCallback client c).clients.length : Int)
        have hpos := List.length_pos_of_mem hmem
        rw [hclients, hcount, h.counted, List.length_erase_of_mem hmem]
        omega
    · -- the dialogue goes on
      have hstep : l.step (.clientCallback client c) = l := by
        have hsame : l.server.clientCallback client c = l.server := if_neg hexits
        simp only [step, hcall, hexits, if_true, hsame, Bool.false_eq_true, if_false]
      rw [hstep]
      exact h
  · -- nothing is left that could call it back
    have hstep : l.step (.clientCallback client c) = l := if_neg hcall
    rw [hstep]
    exact h

theorem registered_init (n : Nat) (queueSize : Int) : (init n queueSize).Registered where
  balanced := Server.balanced_init queueSize
  timers := rfl
  bufferevents := rfl
  custody := .empty
  buffered _ := Nat.zero_le _
  counted := rfl

theorem registered_step {l : EventLoop n} (h : l.Registered) (e : ServerEvent n) :
    (l.step e).Registered := by
  cases e with
  | clientCallback client c => exact h.callback client c
  | _ => exact h.event (by simp)

/-- **Every client is released at most once, and `client_handling_count` is the number of
those made and not released.** -/
theorem handling_counts (n : Nat) (queueSize : Int) (es : List (ServerEvent n)) :
    ∀ l ∈ Machine.trail step (init n queueSize) es,
      l.created.Nodup ∧ l.released.Nodup ∧ (∀ client ∈ l.released, client ∈ l.created)
        ∧ l.server.clientHandlingCount = (l.created.filter (· ∉ l.released)).length := by
  intro l hmem
  have h := Machine.inv_trail step Registered (fun l e h _ => registered_step h e)
    (registered_init n queueSize) (Machine.along_true step _ es) l hmem
  have hnodup := h.custody.once h.created_nodup
  obtain ⟨hreleased, _, hapart⟩ := List.nodup_append.mp hnodup
  refine ⟨h.created_nodup, hreleased, fun client hin => h.custody.mem_iff.mp ?_, ?_⟩
  · exact List.mem_append_left _ hin
  · -- what is made and not released is what the workers still have
    have hleft : (l.created.filter (· ∉ l.released)).Perm l.server.clients := by
      refine (h.custody.symm.filter _).trans ?_
      rw [List.filter_append]
      have hnone : l.released.filter (· ∉ l.released) = [] :=
        List.filter_eq_nil_iff.mpr fun client hin => by simp [hin]
      have hall : l.server.clients.filter (· ∉ l.released) = l.server.clients :=
        List.filter_eq_self.mpr fun client hin =>
          decide_eq_true fun hout => hapart client hout client hin rfl
      rw [hnone, hall]
      exact .refl _
    rw [hleft.length_eq]
    exact h.counted

/-- A client that has finished its dialogue is released and counted off. -/
theorem servedClient_counted_off :
    let l := Machine.run step (init 0 32) servedClient
    l.released = [⟨0, 7, true⟩] ∧ l.released.Nodup
      ∧ l.server.clientHandlingCount = (l.created.filter (· ∉ l.released)).length := by
  obtain ⟨_, honce, _, hcount⟩ := handling_counts 0 32 servedClient _ (Machine.run_mem_trail step _ _)
  exact ⟨by decide +kernel, honce, hcount⟩

end EventLoop

end TraceServer
