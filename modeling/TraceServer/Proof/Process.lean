import TraceServer.Process
import TraceServer.Proof.Handling
import TraceServer.Proof.Answer

/-!
# What the server and its dialogues make together

A run of the process is a run of the server (`step_loop`) and a run of the dialogues
(`step_clients`), put together by the callbacks: what a dialogue comes to is what the server's
callback is told. So what is known of either holds of the process. What is new is that they agree
(`Agrees`): the clients of the server are those whose dialogue goes on.
-/

namespace TraceServer

variable {n : Nat}

namespace EventLoop.Registered

variable {l : EventLoop n}

/-- A connection has one client at most. -/
theorem created_unique (h : l.Registered) {client client' : ServerClient}
    (hmem : client ∈ l.created) (hmem' : client' ∈ l.created) (hconn : client.conn = client'.conn) :
    client = client' := by
  by_contra hne
  have hbuf := h.buffered client.conn
  have howned := (h.balanced client.conn).owned
  have honce := (h.balanced client.conn).once
  have htwo : 2 ≤ l.created.countP (ServerClient.isOf client.conn) := by
    have hsub : [client, client'].Subperm l.created := by
      refine List.Nodup.subperm (by simpa using hne) ?_
      intro x hx
      rcases List.mem_cons.mp hx with rfl | hx
      · exact hmem
      · rw [List.mem_singleton.mp hx]
        exact hmem'
    have hcount := hsub.countP_le (ServerClient.isOf client.conn)
    simp only [List.countP_cons, List.countP_nil, ServerClient.isOf, decide_true, if_true,
      hconn] at hcount ⊢
    omega
  omega

/-- The clients of the server have been made. -/
theorem created_of_mem (h : l.Registered) {client : ServerClient}
    (hmem : client ∈ l.server.clients) :
    client ∈ l.created :=
  (h.custody.mem_iff).mp (List.mem_append_right _ hmem)

theorem created_of_released (h : l.Registered) {client : ServerClient}
    (hmem : client ∈ l.released) :
    client ∈ l.created :=
  (h.custody.mem_iff).mp (List.mem_append_left _ hmem)

/-- A connection that gets a client has had none. -/
theorem creates_new (h : l.Registered) {e : ServerEvent n} {client client' : ServerClient}
    (he : ∀ client c, e ≠ .clientCallback client c) (hmade : l.server.creates e = some client')
    (hmem : client ∈ l.created) : client.conn ≠ client'.conn := by
  have hregistered := h.event he
  have hnodup := hregistered.created_nodup
  have hcreated : (l.step e).created = l.created ++ [client'] := by
    rw [l.step_event he, hmade]
    rfl
  intro hconn
  have hold : client ∈ (l.step e).created := by simp [hcreated, hmem]
  have hin : client' ∈ (l.step e).created := by simp [hcreated]
  have hsame := hregistered.created_unique hold hin hconn
  rw [hcreated] at hnodup
  exact (List.nodup_append.mp hnodup).2.2 client hmem client' (List.mem_singleton_self _) hsame

end EventLoop.Registered

/-! ## One callback -/

namespace EventLoop

/-- What has been released stays so. -/
theorem released_step (l : EventLoop n) (e : ServerEvent n) {client : ServerClient}
    (hmem : client ∈ l.released) : client ∈ (l.step e).released := by
  by_cases he : ∀ client c, e ≠ .clientCallback client c
  · rw [l.step_event he]
    exact hmem
  · cases e with
    | clientCallback client' c =>
        unfold step
        dsimp only
        split
        · split
          · exact List.mem_append_left _ hmem
          · exact hmem
        · exact hmem
    | _ => exact absurd (by simp) he

/-- A callback that ends its client lets go of it, and any other changes nothing. -/
structure CalledBack (l : EventLoop n) (client : ServerClient) (exits : Bool) (l' : EventLoop n) :
    Prop where
  registered : l'.Registered
  created : l'.created = l.created
  clients : ∀ client', client' ∈ l'.server.clients
    ↔ client' ∈ l.server.clients ∧ (exits = true → client' ≠ client)
  released : ∀ client', client' ∈ l'.released
    ↔ client' ∈ l.released ∨ (exits = true ∧ client' = client)

theorem Registered.calledBack {l : EventLoop n} (h : l.Registered) {client : ServerClient}
    (hmem : client ∈ l.server.clients) (c : Server.ClientCallback) :
    CalledBack l client c.exits (l.step (.clientCallback client c)) := by
  have hcall := (h.mayCall_iff client c).mpr hmem
  have hregistered := h.callback client c
  by_cases hexits : c.exits = true
  · obtain ⟨hclients, _⟩ := l.server.clientCallback_clients client hexits
    have hstep : l.step (.clientCallback client c)
        = ⟨l.server.clientCallback client c, l.timers.filter (· ≠ client),
          l.bufferevents.filter (· ≠ client), l.created, l.released ++ [client]⟩ := by
      simp only [step, hcall, hexits, if_true]
    refine ⟨hregistered, by rw [hstep], ?_, ?_⟩
    · intro client'
      rw [hstep]
      show client' ∈ (l.server.clientCallback client c).clients ↔ _
      rw [hclients, h.clients_nodup.mem_erase_iff, hexits]
      simp [and_comm]
    · intro client'
      rw [hstep, hexits]
      simp
  · have hstep : l.step (.clientCallback client c) = l := by
      have hsame : l.server.clientCallback client c = l.server := if_neg hexits
      simp only [step, hcall, hexits, if_true, hsame, Bool.false_eq_true, if_false]
    rw [hstep]
    exact ⟨h, rfl, by simp [hexits], by simp [hexits]⟩

end EventLoop

section

variable {ι : Type} [DecidableEq ι]

namespace Clients

theorem onClient_alone_self (s : Clients ι) (i : ι) (e : ClientEvent) :
    (s.onClient i e).alone i = (s.alone i).step e := by
  simp [onClient, alone]

theorem onClient_alone_ne (s : Clients ι) {i j : ι} (e : ClientEvent) (h : j ≠ i) :
    (s.onClient i e).alone j = { s.alone j with host := (s.onClient i e).host } := by
  simp [onClient, alone, Function.update_of_ne h]

/-- **To a client, a step is a callback of its own or work of others.** -/
theorem alone_step (s : Clients ι) (e : ClientsEvent ι) (i : ι) :
    (∃ e', e.on i = some e' ∧ (s.step e).alone i = (s.alone i).step e')
      ∨ (e.on i = none ∧ (s.step e).alone i = { s.alone i with host := (s.step e).host }) := by
  have hon : ∀ (j : ι) (e' : ClientEvent), s.step e = s.onClient j e' →
      e.on i = (if j = i then some e' else none) →
      (∃ e', e.on i = some e' ∧ (s.step e).alone i = (s.alone i).step e')
        ∨ (e.on i = none ∧ (s.step e).alone i = { s.alone i with host := (s.step e).host }) := by
    intro j e' hstep hon
    by_cases hj : j = i
    · subst hj
      rw [if_pos rfl] at hon
      exact .inl ⟨e', hon, by rw [hstep, onClient_alone_self]⟩
    · rw [if_neg hj] at hon
      exact .inr ⟨hon, by rw [hstep, onClient_alone_ne s e' (Ne.symm hj)]⟩
  cases e with
  | read j seg => exact hon j (.read seg) rfl rfl
  | write j => exact hon j .write rfl rfl
  | flush j n => exact hon j (.flush n) rfl rfl
  | others h => exact .inr ⟨rfl, rfl⟩

/-- The other dialogues are not touched. -/
theorem step_other (s : Clients ι) {e : ClientsEvent ι} {i : ι} (he : e.on i = none) :
    (s.step e).client i = s.client i ∧ (s.step e).released i = s.released i := by
  rcases alone_step s e i with ⟨e', he', _⟩ | ⟨_, hstep⟩
  · rw [he] at he'
    exact absurd he' (by simp)
  · exact ⟨congrArg ClientRun.client hstep, congrArg ClientRun.released hstep⟩

/-- Output that leaves ends no dialogue. -/
theorem flush_released (s : Clients ι) (i : ι) (n : Nat) :
    (s.step (.flush i n)).released = s.released := by
  funext j
  rcases alone_step s (.flush i n) j with ⟨e', he', hstep⟩ | ⟨_, hstep⟩
  · have hon : (ClientsEvent.flush i n).on j = if i = j then some (.flush n) else none := rfl
    rw [hon] at he'
    split at he'
    · obtain rfl := Option.some.inj he'
      refine (congrArg ClientRun.released hstep).trans ?_
      unfold ClientRun.step
      split <;> rfl
    · exact absurd he' (by simp)
  · exact congrArg ClientRun.released hstep

end Clients

/-- **The invariant rule for each of many clients.** -/
theorem DialogueInvariant.each {P : Client → ClientOption → Prop} (hP : DialogueInvariant P)
    {s : Clients ι} (hs : ∀ i, P (s.client i) (s.client i).option) (e : ClientsEvent ι) (i : ι) :
    P ((s.step e).client i) ((s.step e).client i).option := by
  rcases Clients.alone_step s e i with ⟨e', _, hstep⟩ | ⟨_, hstep⟩
  · rw [show (s.step e).client i = ((s.alone i).step e').client from
      congrArg ClientRun.client hstep]
    exact hP.next (s.alone i) e' (hs i)
  · rw [show (s.step e).client i = s.client i from congrArg ClientRun.client hstep]
    exact hs i

end

/-! ## Agreement -/

namespace Process

/-- The server and the dialogues agree. -/
structure Agrees (s : Process n) : Prop where
  registered : s.loop.Registered
  /-- The dialogue of a client goes on. -/
  talking : ∀ client ∈ s.loop.server.clients, s.clients.released client.conn = false
  /-- A dialogue that is over has had its client released. -/
  ended : ∀ c, s.clients.released c = true → ∃ client ∈ s.loop.released, client.conn = c
  /-- A dialogue begins with a client. -/
  fresh : ∀ c, (∀ client ∈ s.loop.created, client.conn ≠ c) → s.clients.client c = Client.fresh

/-- Any event of the server but a callback of a client. -/
theorem serverStep_eq (s : Process n) {e : ServerEvent n}
    (he : ∀ client c, e ≠ .clientCallback client c) : s.serverStep e
      = { s with
          loop := s.loop.step e
          timeCount := match s.loop.server.creates e with
            | some client => Function.update s.timeCount client.conn (getSystemSec s.clock)
            | none => s.timeCount } := by
  cases e with
  | clientCallback client c => exact absurd rfl (he client c)
  | _ => rfl

theorem Agrees.server {s : Process n} (h : Agrees s) (e : ServerEvent n) :
    Agrees (s.serverStep e) := by
  by_cases he : ∀ client c, e ≠ .clientCallback client c
  · have hevent := s.loop.step_event he
    obtain ⟨hclients, _⟩ := s.loop.server.step_clients he
    rw [serverStep_eq s he]
    refine ⟨h.registered.event he, ?_, ?_, ?_⟩
    · intro client hmem
      rw [show (s.loop.step e).server.clients = _ from
        (congrArg (·.server.clients) hevent).trans hclients] at hmem
      rcases List.mem_append.mp hmem with hmade | hmem
      · by_contra hover
        obtain ⟨client', hmem', hconn⟩ := h.ended client.conn (by simpa using hover)
        exact h.registered.creates_new he (Option.mem_toList.mp hmade)
          (h.registered.created_of_released hmem') hconn
      · exact h.talking client hmem
    · intro c hc
      obtain ⟨client, hmem, hconn⟩ := h.ended c hc
      exact ⟨client, (congrArg (·.released) hevent) ▸ hmem, hconn⟩
    · intro c hc
      refine h.fresh c fun client hmem => hc client ?_
      rw [show (s.loop.step e).created = _ from congrArg (·.created) hevent]
      exact List.mem_append_left _ hmem
  · cases e with
    | clientCallback client c => exact h
    | _ => exact absurd (by simp) he

/-- **A callback of a client**, which ends the client if its dialogue is over. -/
theorem Agrees.callback {s : Process n} (h : Agrees s) {client : ServerClient}
    (hmem : client ∈ s.loop.server.clients) {c : Server.ClientCallback} {clients : Clients Nat}
    (hother : ∀ k, k ≠ client.conn → clients.client k = s.clients.client k
      ∧ clients.released k = s.clients.released k)
    (hover : clients.released client.conn = true → c.exits = true) (timeCount : Nat → UInt32)
    (clock : Nat) : Agrees ⟨s.loop.step (.clientCallback client c), clients, timeCount, clock⟩ := by
  obtain ⟨hregistered, hcreated, hclients, hreleased⟩ := h.registered.calledBack hmem c
  have hmade := h.registered.created_of_mem hmem
  refine ⟨hregistered, ?_, ?_, ?_⟩
  · intro client' hmem'
    obtain ⟨hmem', hne⟩ := (hclients client').mp hmem'
    by_cases hconn : client'.conn = client.conn
    · -- it is the client itself, and has not been ended
      have hself := h.registered.created_unique (h.registered.created_of_mem hmem') hmade hconn
      show clients.released client'.conn = false
      rw [hconn]
      cases hrel : clients.released client.conn with
      | false => rfl
      | true => exact absurd hself (hne (hover hrel))
    · exact (hother client'.conn hconn).2.trans (h.talking client' hmem')
  · intro k hk
    by_cases hconn : k = client.conn
    · subst hconn
      exact ⟨client, (hreleased client).mpr (.inr ⟨hover hk, rfl⟩), rfl⟩
    · obtain ⟨client', hmem', hconn'⟩ := h.ended k ((hother k hconn).2.symm.trans hk)
      exact ⟨client', (hreleased client').mpr (.inl hmem'), hconn'⟩
  · intro k hk
    rw [show (s.loop.step (.clientCallback client c)).created = s.loop.created from hcreated] at hk
    exact (hother k (Ne.symm (hk client hmade))).1.trans (h.fresh k hk)

theorem Agrees.talk {s : Process n} (h : Agrees s) {client : ServerClient} {e : ClientsEvent Nat}
    (he : ∀ k, k ≠ client.conn → e.on k = none) {callback : Bool → Server.ClientCallback}
    (hexits : ∀ b, (callback b).exits = b) : Agrees (s.talk client e callback) := by
  unfold Process.talk
  split
  · rename_i hcall
    have hmem := (h.registered.mayCall_iff client _).mp hcall
    exact h.callback hmem (fun k hk => s.clients.step_other (he k hk))
      (fun hrel => (hexits _).trans hrel) _ _
  · exact h

/-- The callbacks that do not run the dialogue leave it alone. -/
theorem Agrees.drop {s : Process n} (h : Agrees s) {client : ServerClient}
    {c : Server.ClientCallback} (hcall : s.loop.mayCall client c = true) (timeCount : Nat → UInt32)
    (clock : Nat) :
    Agrees ⟨s.loop.step (.clientCallback client c), s.clients, timeCount, clock⟩ := by
  have hmem := (h.registered.mayCall_iff client c).mp hcall
  refine h.callback hmem (fun _ _ => ⟨rfl, rfl⟩) ?_ timeCount clock
  intro hrel
  exact absurd (hrel.symm.trans (h.talking client hmem)) (by simp)

theorem agrees_init (n : Nat) (queueSize : Int) (h : Host) : Agrees (init n queueSize h) where
  registered := EventLoop.registered_init n queueSize
  talking _ hmem := absurd hmem (List.not_mem_nil)
  ended _ hrel := absurd hrel (by simp [init, Clients.init])
  fresh _ _ := rfl

theorem agrees_step {s : Process n} (h : Agrees s) (e : ProcessEvent n) : Agrees (s.step e) := by
  cases e with
  | server e => exact h.server e
  | read client seg =>
      exact h.talk (e := .read client.conn seg) (fun k hk => if_neg (Ne.symm hk)) fun _ => rfl
  | write client =>
      exact h.talk (e := .write client.conn) (fun k hk => if_neg (Ne.symm hk)) fun _ => rfl
  | timer client sec =>
      show Agrees (s.timerStep client sec)
      unfold timerStep
      split
      · rename_i hcall
        exact h.drop (c := .timer (evTimerCallback (s.timeCount client.conn) (getSystemSec s.clock)
          (getSystemSec (s.clock + sec))).1) hcall _ _
      · exact h
  | error client =>
      by_cases hcall : s.loop.mayCall client .error = true
      · exact h.drop hcall _ _
      · have hstep : s.step (.error client) = s := by
          show { s with loop := s.loop.step (.clientCallback client .error) } = s
          rw [show s.loop.step (.clientCallback client .error) = s.loop from if_neg hcall]
        rw [hstep]
        exact h
  | flush client k =>
      show Agrees (if client ∈ s.loop.bufferevents then _ else s)
      split
      · rename_i hmem
        have hmade := h.registered.created_of_mem (h.registered.bufferevents ▸ hmem)
        have hreleased := s.clients.flush_released client.conn k
        refine ⟨h.registered, ?_, ?_, ?_⟩
        · intro client' hmem'
          exact (congrFun hreleased _).trans (h.talking client' hmem')
        · intro c hc
          exact h.ended c ((congrFun hreleased c).symm.trans hc)
        · intro c hc
          have hother : (ClientsEvent.flush client.conn k).on c = none := if_neg (hc client hmade)
          exact (s.clients.step_other hother).1.trans (h.fresh c hc)
      · exact h
  | others host => exact ⟨h.registered, h.talking, h.ended, h.fresh⟩
  | passes sec => exact ⟨h.registered, h.talking, h.ended, h.fresh⟩

/-- What an event is for the dialogues. -/
def dialogueEvent (s : Process n) : ProcessEvent n → Option (ClientsEvent Nat)
  | .read client seg =>
    if s.loop.mayCall client (.read false) then some (.read client.conn seg) else none
  | .write client => if s.loop.mayCall client (.write false) then some (.write client.conn) else none
  | .flush client k => if client ∈ s.loop.bufferevents then some (.flush client.conn k) else none
  | .others h => some (.others h)
  | _ => none

theorem dialogueEvent_cases {s : Process n} {e : ProcessEvent n} {e' : ClientsEvent Nat}
    (he : s.dialogueEvent e = some e') :
    (∃ client seg, e = .read client seg ∧ s.loop.mayCall client (.read false) = true
        ∧ e' = .read client.conn seg)
      ∨ (∃ client, e = .write client ∧ s.loop.mayCall client (.write false) = true
        ∧ e' = .write client.conn)
      ∨ (∃ client k, e = .flush client k ∧ e' = .flush client.conn k)
      ∨ ∃ h, e = .others h ∧ e' = .others h := by
  cases e with
  | read client seg =>
      obtain ⟨hcall, he'⟩ := Option.ite_none_right_eq_some.mp he
      exact .inl ⟨client, seg, rfl, hcall, (Option.some.inj he').symm⟩
  | write client =>
      obtain ⟨hcall, he'⟩ := Option.ite_none_right_eq_some.mp he
      exact .inr (.inl ⟨client, rfl, hcall, (Option.some.inj he').symm⟩)
  | flush client k =>
      obtain ⟨_, he'⟩ := Option.ite_none_right_eq_some.mp he
      exact .inr (.inr (.inl ⟨client, k, rfl, (Option.some.inj he').symm⟩))
  | others h => exact .inr (.inr (.inr ⟨h, rfl, (Option.some.inj he).symm⟩))
  | _ => exact absurd he (by simp [dialogueEvent])

/-- The dialogues take a step of their own, or none. -/
theorem step_clients (s : Process n) (e : ProcessEvent n) :
    (s.step e).clients = (s.dialogueEvent e).elim s.clients s.clients.step := by
  have htalk : ∀ (client : ServerClient) (e : ClientsEvent Nat) (callback : Bool → _),
      (s.talk client e callback).clients
        = (if s.loop.mayCall client (callback false) then some e else none).elim s.clients
          s.clients.step := by
    intro client e callback
    unfold talk
    split <;> rfl
  cases e with
  | server e => cases e <;> rfl
  | read client seg => exact htalk client _ _
  | write client => exact htalk client _ _
  | timer client sec =>
      show (s.timerStep client sec).clients = _
      unfold timerStep
      split <;> rfl
  | error client => rfl
  | flush client k =>
      unfold step dialogueEvent
      dsimp only
      split <;> rfl
  | others h => rfl
  | passes sec => rfl

/-- What is known of the server and the dialogues in every run. -/
structure Reached (s : Process n) : Prop extends Agrees s where
  spoken : ∀ c, Spoken (s.clients.client c) (s.clients.client c).option

theorem reached_step {s : Process n} (h : Reached s) (e : ProcessEvent n) : Reached (s.step e) := by
  refine ⟨agrees_step h.toAgrees e, ?_⟩
  rw [step_clients]
  cases s.dialogueEvent e with
  | none => exact h.spoken
  | some e' => exact spoken_invariant.each h.spoken e'

theorem reached (n : Nat) (queueSize : Int) (h : Host) (es : List (ProcessEvent n)) :
    ∀ s ∈ Machine.trail step (init n queueSize h) es, Reached s :=
  Machine.inv_trail step Reached (fun _ e hs _ => reached_step hs e)
    ⟨agrees_init n queueSize h, fun _ => spoken_invariant.fresh⟩ (Machine.along_true step _ es)

/-- **A dialogue goes on as long as the server has a client for it**, and ends with it; one answer
at most is handed to `evserver_send_client` for a connection, and only once it has a client. -/
theorem dialogues_held (n : Nat) (queueSize : Int) (h : Host) (es : List (ProcessEvent n)) :
    ∀ s ∈ Machine.trail step (init n queueSize h) es,
      (∀ client ∈ s.loop.server.clients, s.clients.released client.conn = false)
      ∧ (∀ c, s.clients.released c = true → ∃ client ∈ s.loop.released, client.conn = c)
      ∧ ∀ c, (s.clients.client c).responses.length ≤ 1
        ∧ ((s.clients.client c).responses ≠ [] → ∃ client ∈ s.loop.created, client.conn = c) := by
  intro s hmem
  have hs := reached n queueSize h es s hmem
  refine ⟨hs.talking, hs.ended, ?_⟩
  intro c
  constructor
  · by_cases hfin : (s.clients.client c).option.step = .finished
    · obtain ⟨r, hr, _⟩ := (hs.spoken c).answered hfin
      rw [hr]
      exact Nat.le_refl 1
    · rw [(hs.spoken c).silent hfin]
      exact Nat.zero_le 1
  · intro hanswered
    by_contra hnone
    refine hanswered ?_
    rw [hs.fresh c fun client hclient hconn => hnone ⟨client, hclient, hconn⟩]
    rfl

/-- A client that is picked up and sends the first word of a request. -/
theorem pickedUp_held :
    let s := Machine.run step (init 0 32 Host.fresh)
      ((pickedUp 7 ⟨true, true, true, true, true, true, true⟩).map .server
        ++ [.read ⟨0, 7, true⟩ (lit "POST ")])
    (∀ client ∈ s.loop.server.clients, s.clients.released client.conn = false)
    ∧ (∀ c, s.clients.released c = true → ∃ client ∈ s.loop.released, client.conn = c)
    ∧ ∀ c, (s.clients.client c).responses.length ≤ 1
      ∧ ((s.clients.client c).responses ≠ [] → ∃ client ∈ s.loop.created, client.conn = c) := by
  intro s
  exact dialogues_held 0 32 Host.fresh _ s (Machine.run_mem_trail step _ _)

/-! ## A client that is silent -/

/-- What the client, or its socket, has brought about. -/
def Heard (client : ServerClient) (e : ProcessEvent n) : Prop :=
  (∃ seg, e = .read client seg) ∨ e = .write client ∨ e = .error client

/-- A callback of another client keeps this one. -/
theorem Agrees.callback_other {s : Process n} (h : Agrees s) {client client' : ServerClient}
    (hmem : client ∈ s.loop.server.clients) (hmem' : client' ∈ s.loop.server.clients)
    (hne : client ≠ client') (c : Server.ClientCallback) :
    client ∈ (s.loop.step (.clientCallback client' c)).server.clients
      ∧ client.conn ≠ client'.conn := by
  have hcalled := h.registered.calledBack hmem' c
  refine ⟨(hcalled.clients client).mpr ⟨hmem, fun _ => hne⟩, fun hconn => hne ?_⟩
  exact h.registered.created_unique (h.registered.created_of_mem hmem)
    (h.registered.created_of_mem hmem') hconn

/-- **What happens to a client when nothing is heard of it** and its timer does not go off. -/
theorem step_unheard {s : Process n} (h : Agrees s) {client : ServerClient}
    (hmem : client ∈ s.loop.server.clients) {e : ProcessEvent n} (hquiet : ¬ Heard client e)
    (htimer : ∀ sec, e ≠ .timer client sec) : client ∈ (s.step e).loop.server.clients
      ∧ (s.step e).timeCount client.conn = s.timeCount client.conn := by
  have htalk : ∀ {client' : ServerClient} (e : ClientsEvent Nat) (callback : Bool → _),
      client ≠ client' → client ∈ (s.talk client' e callback).loop.server.clients
        ∧ (s.talk client' e callback).timeCount client.conn = s.timeCount client.conn := by
    intro client' e callback hne
    unfold talk
    split
    · rename_i hcall
      obtain ⟨hkept, hconn⟩ := h.callback_other hmem ((h.registered.mayCall_iff client' _).mp hcall)
        hne (callback ((s.clients.step e).released client'.conn))
      exact ⟨hkept, Function.update_of_ne hconn _ _⟩
    · exact ⟨hmem, rfl⟩
  cases e with
  | server e =>
      show client ∈ (s.serverStep e).loop.server.clients ∧ (s.serverStep e).timeCount _ = _
      by_cases he : ∀ client c, e ≠ .clientCallback client c
      · rw [serverStep_eq s he]
        constructor
        · rw [show (s.loop.step e).server.clients = _ from
            (congrArg (·.server.clients) (s.loop.step_event he)).trans
              (s.loop.server.step_clients he).1]
          exact List.mem_append_right _ hmem
        · cases hmade : s.loop.server.creates e with
          | none => rfl
          | some client' =>
              have hconn := h.registered.creates_new he hmade (h.registered.created_of_mem hmem)
              exact Function.update_of_ne hconn _ _
      · cases e with
        | clientCallback client c => exact ⟨hmem, rfl⟩
        | _ => exact absurd (by simp) he
  | read client' seg => exact htalk _ _ (fun hsame => hquiet (.inl ⟨seg, by rw [hsame]⟩))
  | write client' => exact htalk _ _ (fun hsame => hquiet (.inr (.inl (by rw [hsame]))))
  | timer client' sec =>
      have hne : client ≠ client' := fun hsame => htimer sec (by rw [hsame])
      show client ∈ (s.timerStep client' sec).loop.server.clients
        ∧ (s.timerStep client' sec).timeCount _ = _
      unfold timerStep
      split
      · rename_i hcall
        obtain ⟨hkept, hconn⟩ := h.callback_other hmem ((h.registered.mayCall_iff client' _).mp hcall)
          hne (.timer (evTimerCallback (s.timeCount client'.conn) (getSystemSec s.clock)
            (getSystemSec (s.clock + sec))).1)
        exact ⟨hkept, Function.update_of_ne hconn _ _⟩
      · exact ⟨hmem, rfl⟩
  | error client' =>
      have hne : client ≠ client' := fun hsame => hquiet (.inr (.inr (by rw [hsame])))
      refine ⟨?_, rfl⟩
      show client ∈ (s.loop.step (.clientCallback client' .error)).server.clients
      by_cases hcall : s.loop.mayCall client' .error = true
      · exact (h.callback_other hmem ((h.registered.mayCall_iff client' _).mp hcall) hne .error).1
      · rwa [show s.loop.step (.clientCallback client' .error) = s.loop from if_neg hcall]
  | flush client' k =>
      unfold step
      dsimp only
      split <;> exact ⟨hmem, rfl⟩
  | others host => exact ⟨hmem, rfl⟩
  | passes sec => exact ⟨hmem, rfl⟩

/-- The server takes a step of its own, or none. -/
theorem step_loop (s : Process n) (e : ProcessEvent n) :
    (s.step e).loop = s.loop ∨ ∃ e', (s.step e).loop = s.loop.step e' := by
  have htalk : ∀ {client : ServerClient} {e : ClientsEvent Nat} {callback : Bool → _},
      (s.talk client e callback).loop = s.loop
        ∨ ∃ e', (s.talk client e callback).loop = s.loop.step e' := by
    intro client e callback
    unfold talk
    split
    · exact .inr ⟨.clientCallback client (callback ((s.clients.step e).released client.conn)), rfl⟩
    · exact .inl rfl
  cases e with
  | server e =>
      by_cases he : ∀ client c, e ≠ .clientCallback client c
      · exact .inr ⟨e, congrArg Process.loop (serverStep_eq s he)⟩
      · cases e with
        | clientCallback client c => exact .inl rfl
        | _ => exact absurd (by simp) he
  | read client seg => exact htalk
  | write client => exact htalk
  | timer client sec =>
      show (s.timerStep client sec).loop = _ ∨ ∃ e', (s.timerStep client sec).loop = _
      unfold timerStep
      split
      · exact .inr ⟨.clientCallback client (.timer (evTimerCallback (s.timeCount client.conn)
          (getSystemSec s.clock) (getSystemSec (s.clock + sec))).1), rfl⟩
      · exact .inl rfl
  | error client => exact .inr ⟨.clientCallback client .error, rfl⟩
  | flush client k =>
      refine .inl ?_
      unfold step
      dsimp only
      split <;> rfl
  | others h => exact .inl rfl
  | passes sec => exact .inl rfl

/-- The server has no client that it has let go of, then or later. -/
theorem released_run {s : Process n} (h : Agrees s) {client : ServerClient}
    (hmem : client ∈ s.loop.released) (es : List (ProcessEvent n)) :
    client ∉ (Machine.run step s es).loop.server.clients := by
  induction es generalizing s with
  | nil =>
      intro hclient
      have hnodup := h.registered.custody.once h.registered.created_nodup
      exact (List.nodup_append.mp hnodup).2.2 client hmem client hclient rfl
  | cons e es ih =>
      refine ih (agrees_step h e) ?_
      rcases s.step_loop e with hstep | ⟨e', hstep⟩
      · rwa [hstep]
      · rw [hstep]
        exact s.loop.released_step e' hmem

theorem clock_le_step (s : Process n) (e : ProcessEvent n) : s.clock ≤ (s.step e).clock := by
  have htalk : ∀ {client : ServerClient} {e : ClientsEvent Nat} {callback : Bool → _},
      s.clock ≤ (s.talk client e callback).clock := by
    intro client e callback
    unfold talk
    split <;> exact Nat.le_refl _
  cases e with
  | server e => cases e <;> exact Nat.le_refl _
  | read client seg => exact htalk
  | write client => exact htalk
  | timer client sec =>
      show s.clock ≤ (s.timerStep client sec).clock
      unfold timerStep
      split
      · exact Nat.le_add_right _ _
      · exact Nat.le_refl _
  | error client => exact Nat.le_refl _
  | flush client k =>
      unfold step
      dsimp only
      split <;> exact Nat.le_refl _
  | others h => exact Nat.le_refl _
  | passes sec => exact Nat.le_add_right _ _

theorem clock_le_run (s : Process n) (es : List (ProcessEvent n)) :
    s.clock ≤ (Machine.run step s es).clock := by
  induction es generalizing s with
  | nil => exact Nat.le_refl _
  | cons e es ih => exact (s.clock_le_step e).trans (ih _)

/-- The seconds between two looks at the clock, unless they go once around. -/
theorem getSystemSec_sub {since now : Nat} (hle : since ≤ now) (hlt : now < since + 2 ^ 32) :
    (getSystemSec now - getSystemSec since).toNat = now - since := by
  unfold getSystemSec
  rw [UInt32.toNat_sub, UInt32.toNat_ofNat', UInt32.toNat_ofNat']
  omega

/-- **The timer of a client** that was heard of last at `since`. -/
theorem evTimerCallback_since {since clock sec : Nat} (hne : getSystemSec since ≠ 0)
    (hle : since ≤ clock) (hlt : clock + sec < since + 2 ^ 32) :
    evTimerCallback (getSystemSec since) (getSystemSec clock) (getSystemSec (clock + sec))
      = (decide (since + 10 < clock + sec), getSystemSec since) := by
  have hpos : ¬ getSystemSec since ≤ 0 := by
    intro hle
    exact hne (UInt32.le_antisymm hle (UInt32.zero_le))
  have hsub := getSystemSec_sub (show since ≤ clock + sec by omega) hlt
  unfold evTimerCallback
  dsimp only
  rw [if_neg hpos]
  refine Prod.ext (decide_eq_decide.mpr ?_) rfl
  rw [gt_iff_lt, UInt32.lt_iff_toNat_lt, hsub]
  show 10 < _ ↔ _
  omega

/-- What is heard of a client: it is made, or it has sent something, or taken something. -/
def Contact (s : Process n) (client : ServerClient) (e : ProcessEvent n) : Prop :=
  (∃ seg, e = .read client seg) ∨ e = .write client
    ∨ ∃ e', e = .server e' ∧ s.loop.server.creates e' = some client

theorem contact_timeCount {s : Process n} (h : Agrees s) {client : ServerClient}
    {e : ProcessEvent n} (hcontact : Contact s client e)
    (hmem : client ∈ (s.step e).loop.server.clients) :
    (s.step e).timeCount client.conn = getSystemSec s.clock ∧ (s.step e).clock = s.clock := by
  have htalk : ∀ {e : ClientsEvent Nat} {callback : Bool → Server.ClientCallback},
      client ∈ (s.talk client e callback).loop.server.clients →
      (s.talk client e callback).timeCount client.conn = getSystemSec s.clock
        ∧ (s.talk client e callback).clock = s.clock := by
    intro e callback hmem
    unfold talk at hmem ⊢
    split
    · exact ⟨Function.update_self _ _ _, rfl⟩
    · rename_i hcall
      rw [if_neg hcall] at hmem
      exact absurd ((h.registered.mayCall_iff client _).mpr hmem) hcall
  rcases hcontact with ⟨seg, rfl⟩ | rfl | ⟨e', rfl, hmade⟩
  · exact htalk hmem
  · exact htalk hmem
  · have he' : ∀ client c, e' ≠ .clientCallback client c := by
      rintro client' c rfl
      exact absurd hmade (by simp [Server.creates])
    show (s.serverStep e').timeCount _ = _ ∧ (s.serverStep e').clock = _
    rw [serverStep_eq s he', hmade]
    exact ⟨Function.update_self _ _ _, rfl⟩

/-- No look at the clock that ends the client: none is more than ten seconds after `since`. -/
def InTime (client : ServerClient) (since : Nat) (s : Process n) (e : ProcessEvent n) : Prop :=
  ∀ sec, e = .timer client sec → s.clock + sec ≤ since + 10

/-- **The timer's callback** of a client that has been heard of last at `since`. -/
theorem step_timer {s : Process n} (h : Agrees s) {client : ServerClient}
    (hmem : client ∈ s.loop.server.clients) {since sec : Nat} (hne : getSystemSec since ≠ 0)
    (hcount : s.timeCount client.conn = getSystemSec since) (hle : since ≤ s.clock)
    (hlt : s.clock + sec < since + 2 ^ 32) :
    (s.step (.timer client sec)).clock = s.clock + sec
      ∧ (s.step (.timer client sec)).timeCount client.conn = getSystemSec since
      ∧ (s.clock + sec ≤ since + 10 →
        client ∈ (s.step (.timer client sec)).loop.server.clients)
      ∧ (¬ s.clock + sec ≤ since + 10 → client ∈ (s.step (.timer client sec)).loop.released) := by
  have hcall := (h.registered.mayCall_iff client (.timer false)).mpr hmem
  have htimer := evTimerCallback_since hne hle hlt
  have hstep : s.step (.timer client sec)
      = { s with
          loop := s.loop.step (.clientCallback client (.timer (decide (since + 10 < s.clock + sec))))
          timeCount := Function.update s.timeCount client.conn (getSystemSec since)
          clock := s.clock + sec } := by
    show s.timerStep client sec = _
    unfold timerStep
    dsimp only
    rw [if_pos hcall, hcount, htimer]
  have hcalled := h.registered.calledBack hmem (.timer (decide (since + 10 < s.clock + sec)))
  rw [hstep]
  refine ⟨rfl, Function.update_self _ _ _, ?_, ?_⟩
  · intro hin
    refine (hcalled.clients client).mpr ⟨hmem, fun hexits => ?_⟩
    exact absurd (of_decide_eq_true hexits) (by omega)
  · intro hout
    exact (hcalled.released client).mpr (.inr ⟨decide_eq_true (by omega), rfl⟩)

/-- A client that is not heard of any more. -/
theorem unheard_kept_iff {client : ServerClient} {since : Nat} (hne : getSystemSec since ≠ 0) :
    ∀ (fs : List (ProcessEvent n)) {s : Process n}, Agrees s → client ∈ s.loop.server.clients →
      s.timeCount client.conn = getSystemSec since → since ≤ s.clock →
      (∀ f ∈ fs, ¬ Heard client f) → (Machine.run step s fs).clock < since + 2 ^ 32 →
      (client ∈ (Machine.run step s fs).loop.server.clients
        ↔ Machine.Along step (InTime client since) s fs)
  | [], s, _, hmem, _, _, _, _ => ⟨fun _ => trivial, fun _ => hmem⟩
  | f :: fs, s, h, hmem, hcount, hle, hquiet, hend => by
      have hquiet' : ∀ f ∈ fs, ¬ Heard client f := fun f hf => hquiet f (List.mem_cons_of_mem _ hf)
      have hle' := hle.trans (s.clock_le_step f)
      have hend' := (clock_le_run (s.step f) fs).trans_lt hend
      have hagrees := agrees_step h f
      rw [Machine.run_cons]
      by_cases htimer : ∃ sec, f = .timer client sec
      · obtain ⟨sec, rfl⟩ := htimer
        have hclock : (s.step (.timer client sec)).clock = s.clock + sec := by
          have hcall := (h.registered.mayCall_iff client (.timer false)).mpr hmem
          show (s.timerStep client sec).clock = _
          unfold timerStep
          rw [if_pos hcall]
        obtain ⟨_, hcount', hkept, hgone⟩ := step_timer h hmem hne hcount hle (hclock ▸ hend')
        by_cases hin : s.clock + sec ≤ since + 10
        · rw [unheard_kept_iff hne fs hagrees (hkept hin) hcount' hle' hquiet' hend]
          refine ⟨fun halong => ⟨?_, halong⟩, fun halong => halong.2⟩
          rintro _ ⟨⟩
          exact hin
        · -- it is ended, and does not come back
          have hnot := released_run hagrees (hgone hin) fs
          exact ⟨fun hmem => absurd hmem hnot, fun halong => absurd (halong.1 sec rfl) hin⟩
      · obtain ⟨hkept, hcount'⟩ := step_unheard h hmem (hquiet f (List.mem_cons_self ..))
          fun sec hsec => htimer ⟨sec, hsec⟩
        rw [unheard_kept_iff hne fs hagrees hkept (hcount'.trans hcount) hle' hquiet' hend]
        refine ⟨fun halong => ⟨?_, halong⟩, fun halong => halong.2⟩
        intro sec hsec
        exact absurd ⟨sec, hsec⟩ htimer

/-- **A client that falls silent is kept exactly until its timer finds that it has been so for more
than ten seconds.** -/
theorem silent_kept_iff (n : Nat) (queueSize : Int) (h : Host) (es : List (ProcessEvent n)) :
    ∀ s ∈ Machine.trail step (init n queueSize h) es, ∀ (client : ServerClient) (e : ProcessEvent n),
      Contact s client e → client ∈ (s.step e).loop.server.clients → getSystemSec s.clock ≠ 0 →
      ∀ fs : List (ProcessEvent n), (∀ f ∈ fs, ¬ Heard client f) →
        (Machine.run step (s.step e) fs).clock < s.clock + 2 ^ 32 →
        (client ∈ (Machine.run step (s.step e) fs).loop.server.clients
          ↔ Machine.Along step (InTime client s.clock) (s.step e) fs) := by
  intro s hs client e hcontact hmem hne fs hquiet hend
  have hagrees := (reached n queueSize h es s hs).toAgrees
  obtain ⟨hcount, hclock⟩ := contact_timeCount hagrees hcontact hmem
  exact unheard_kept_iff hne fs (agrees_step hagrees e) hmem hcount (s.clock_le_step e) hquiet hend

/-- A client that is picked up in the hundredth second, sends the first word of a request, and is
silent from then on while its timer goes off every five seconds. -/
theorem quietClient_kept :
    let client : ServerClient := ⟨0, 7, true⟩
    let s := Machine.run step (init 0 32 Host.fresh)
      (.passes 100 :: (pickedUp 7 ⟨true, true, true, true, true, true, true⟩).map .server)
    let fs : List (ProcessEvent 0) :=
      [.passes 5, .timer client 0, .passes 5, .timer client 0, .passes 5, .timer client 0]
    client ∈ (Machine.run step (s.step (.read client (lit "POST "))) fs).loop.server.clients
      ↔ Machine.Along step (InTime client s.clock) (s.step (.read client (lit "POST "))) fs := by
  intro client s fs
  refine silent_kept_iff 0 32 Host.fresh _ s (Machine.run_mem_trail step _ _) client _
    (.inl ⟨_, rfl⟩) (by decide +kernel) (by decide +kernel) fs ?_ (by decide +kernel)
  intro f hf hheard
  rcases hheard with ⟨seg, rfl⟩ | rfl | rfl <;> simp [fs] at hf

end Process

end TraceServer
