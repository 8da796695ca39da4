import TraceServer.Proof.Process
import TraceServer.Proof.Upload

/-!
# From the pickup to the save

A client that a worker has picked up is not let go of before it has been answered, unless its timer
finds it silent for too long or its socket fails. So what its callbacks bring in is read, and an
upload that comes in this way is handed to `skylog_save`, whatever else the server has to do. What
the call leaves in the files, which other workers write too, is not said here.

`Waits` is the invariant: the server has the client, and its dialogue waits for the rest of what it
sends (`Follows`).
-/

namespace TraceServer

variable {n : Nat}

/-- What has arrived for a client, if it is its read callback. -/
def ProcessEvent.segment (client : ServerClient) : ProcessEvent n → Bytes
  | .read client' seg => if client' = client then seg else []
  | _ => []

@[simp] theorem ProcessEvent.segment_read (client : ServerClient) (seg : Bytes) :
    (ProcessEvent.read client seg : ProcessEvent n).segment client = seg := if_pos rfl

namespace Process

/-- What a client sends. -/
def sent (client : ServerClient) (es : List (ProcessEvent n)) : Bytes :=
  es.flatMap (ProcessEvent.segment client)

/-- Neither its socket nor its timer ends the client. -/
structure Patient (client : ServerClient) (s : Process n) (e : ProcessEvent n) : Prop where
  error : e ≠ .error client
  timer : ∀ sec, e = .timer client sec →
    (evTimerCallback (s.timeCount client.conn) (getSystemSec s.clock)
      (getSystemSec (s.clock + sec))).1 = false

/-- There is memory for the client when its dialogue runs. -/
def MemoryFor (client : ServerClient) (s : Process n) (e : ProcessEvent n) : Prop :=
  (∃ seg, e = .read client seg) ∨ e = .write client → HasMemory s.clients.host

/-! ## One dialogue in the process -/

/-- A client that has been told something is told nothing else. -/
theorem run_told (es : List (ProcessEvent n)) {s : Process n} (h : Reached s) {c : Nat}
    {c₀ : Client}
    (htold : ToldAlike c₀ (s.clients.client c)) :
    ToldAlike c₀ ((Machine.run step s es).clients.client c) := by
  induction es generalizing s with
  | nil => exact htold
  | cons e es ih =>
      refine ih (reached_step h e) ?_
      rw [step_clients]
      cases s.dialogueEvent e with
      | none => exact htold
      | some e' =>
          show ToldAlike c₀ ((s.clients.step e').client c)
          rcases s.clients.alone_step e' c with ⟨e'', _, hstep⟩ | ⟨_, hstep⟩
          · obtain ⟨hresponses, hsaves⟩ := (s.clients.alone c).step_told e'' (h.spoken c)
              (by rw [show (s.clients.alone c).client.responses = _ from htold.responses]
                  exact htold.told)
            rw [show (s.clients.step e').client c = _ from congrArg ClientRun.client hstep]
            exact ⟨htold.told, hresponses.trans htold.responses,
              (congrArg (List.map SaveCall.asked) hsaves).trans htold.saves⟩
          · rw [show (s.clients.step e').client c = _ from congrArg ClientRun.client hstep]
            exact htold

/-- The server has the client, which waits and is answered when it has got `w`, as is `r`, which is
alone. -/
structure Waits (s : Process n) (client : ServerClient) (r : ClientRun) (w : Bytes) : Prop where
  reached : Reached s
  mem : client ∈ s.loop.server.clients
  follows : (s.clients.alone client.conn).Follows r w

/-- What the other clients do is not seen. -/
theorem Waits.follows_step {s : Process n} {client : ServerClient} {r : ClientRun} {w : Bytes}
    (h : Waits s client r w) {e : ProcessEvent n} (hread : ∀ seg, e ≠ .read client seg)
    (hwrite : e ≠ .write client) : ((s.step e).clients.alone client.conn).Follows r w := by
  have hagrees := h.reached.toAgrees
  have hmade := hagrees.registered.created_of_mem h.mem
  -- a callback on the connection is one of the client
  have hsame : ∀ {client' : ServerClient} {c : Server.ClientCallback},
      s.loop.mayCall client' c = true → client'.conn = client.conn → client' = client := by
    intro client' c hcall hconn
    have hmem' := (hagrees.registered.mayCall_iff client' c).mp hcall
    exact hagrees.registered.created_unique (hagrees.registered.created_of_mem hmem') hmade hconn
  have hother : ∀ e' : ClientsEvent Nat, s.dialogueEvent e = some e' →
      e'.on client.conn = none ∨ ∃ k, e'.on client.conn = some (.flush k) := by
    intro e' he'
    rcases dialogueEvent_cases he' with
      ⟨client', seg, rfl, hcall, rfl⟩ | ⟨client', rfl, hcall, rfl⟩ | ⟨client', k, rfl, rfl⟩
        | ⟨h, rfl, rfl⟩
    · exact .inl (if_neg fun hconn => hread seg (by rw [hsame hcall hconn]))
    · exact .inl (if_neg fun hconn => hwrite (by rw [hsame hcall hconn]))
    · by_cases hconn : client'.conn = client.conn
      · exact .inr ⟨k, if_pos hconn⟩
      · exact .inl (if_neg hconn)
    · exact .inl rfl
  rw [step_clients]
  cases he : s.dialogueEvent e with
  | none => exact h.follows
  | some e' =>
      show ((s.clients.step e').alone _).Follows _ _
      rcases s.clients.alone_step e' client.conn with ⟨e'', hon, hstep⟩ | ⟨_, hstep⟩
      · rcases hother e' he with hnone | ⟨k, hflush⟩
        · exact absurd (hnone.symm.trans hon) (by simp)
        · obtain rfl := Option.some.inj (hflush.symm.trans hon)
          rw [hstep, h.follows.flush k]
          exact h.follows
      · rw [hstep]
        exact h.follows.others _

/-- **A callback that runs the client's dialogue** is given what has arrived. It keeps the client
waiting, and with it the server its client, or answers it. -/
theorem Waits.talk {s : Process n} {client : ServerClient} {r : ClientRun} {w seg d rest : Bytes}
    (h : Waits s client r w) {e : ClientsEvent Nat} {callback : Bool → Server.ClientCallback}
    (hexits : ∀ b, (callback b).exits = b) {e₀ : ProcessEvent n}
    (hstep : s.step e₀ = s.talk client e callback)
    (halone : (s.clients.step e).alone client.conn = (s.clients.alone client.conn).step (.read seg))
    (hmem : HasMemory s.clients.host) (hseg : (seg.length : Int) ≤ intMax)
    (hd : seg ++ d = w ++ rest) :
    (∃ r' v, Waits (s.step e₀) client r' v ∧ d = v ++ rest ∧ r'.step (.read v) = r.step (.read w))
      ∨ ToldAlike (r.step (.read w)).client ((s.step e₀).clients.client client.conn) := by
  have hreached := reached_step h.reached e₀
  have hcall := (h.reached.registered.mayCall_iff client (callback false)).mpr h.mem
  have htalk : s.step e₀ = { s with
      loop := s.loop.step
        (.clientCallback client (callback ((s.clients.step e).released client.conn)))
      clients := s.clients.step e
      timeCount := Function.update s.timeCount client.conn (getSystemSec s.clock) } :=
    hstep.trans (if_pos hcall)
  have hclients : (s.step e₀).clients = s.clients.step e := congrArg Process.clients htalk
  have hread := h.follows.read hmem hseg hd
  rw [← halone] at hread
  rcases hread with ⟨r', v, hf, hd', hr'⟩ | ⟨_, htold⟩
  · -- it is not over, so the client stays
    have halive : (s.clients.step e).released client.conn = false := hf.ready.alive
    have hcalled := h.reached.registered.calledBack h.mem (callback false)
    have hkept : client ∈ (s.step e₀).loop.server.clients := by
      rw [htalk]
      show client ∈ (s.loop.step (.clientCallback client
        (callback ((s.clients.step e).released client.conn)))).server.clients
      rw [halive]
      refine (hcalled.clients client).mpr ⟨h.mem, fun hexit => ?_⟩
      exact absurd ((hexits false).symm.trans hexit) (by simp)
    exact .inl ⟨r', v, ⟨hreached, hkept, hclients ▸ hf⟩, hd', hr'⟩
  · exact .inr (hclients ▸ htold)

/-- **One event**: the client goes on waiting for the rest, or has been told what it would be told
alone. -/
theorem Waits.next {s : Process n} {client : ServerClient} {r : ClientRun} {w d rest : Bytes}
    (h : Waits s client r w) {e : ProcessEvent n} (hpatient : Patient client s e)
    (hmem : MemoryFor client s e) (hseg : ((e.segment client).length : Int) ≤ intMax)
    (hd : e.segment client ++ d = w ++ rest) :
    (∃ r' v, Waits (s.step e) client r' v ∧ d = v ++ rest ∧ r'.step (.read v) = r.step (.read w))
      ∨ ToldAlike (r.step (.read w)).client ((s.step e).clients.client client.conn) := by
  have hagrees := h.reached.toAgrees
  by_cases hread : ∃ seg, e = .read client seg
  · obtain ⟨seg, rfl⟩ := hread
    rw [ProcessEvent.segment_read] at hseg hd
    exact h.talk (fun _ => rfl) rfl (s.clients.onClient_alone_self client.conn (.read seg))
      (hmem (.inl ⟨seg, rfl⟩)) hseg hd
  · by_cases hwrite : e = .write client
    · subst hwrite
      -- a write callback is a read callback for nothing
      have hnothing : (s.clients.step (.write client.conn)).alone client.conn
          = (s.clients.alone client.conn).step (.read []) :=
        (s.clients.onClient_alone_self client.conn .write).trans (ClientRun.step_write _)
      exact h.talk (fun _ => rfl) rfl hnothing (hmem (.inr rfl)) (by decide) hd
    · have hnone : e.segment client = [] := by
        cases e with
        | read client' seg =>
            exact if_neg fun hsame => hread ⟨seg, by rw [hsame]⟩
        | _ => rfl
      rw [hnone, List.nil_append] at hd
      have hkept : client ∈ (s.step e).loop.server.clients := by
        by_cases htimer : ∃ sec, e = .timer client sec
        · obtain ⟨sec, rfl⟩ := htimer
          have hcall := (h.reached.registered.mayCall_iff client (.timer false)).mpr h.mem
          have hexpired := hpatient.timer sec rfl
          show client ∈ (s.timerStep client sec).loop.server.clients
          unfold timerStep
          rw [if_pos hcall]
          refine ((h.reached.registered.calledBack h.mem _).clients client).mpr ⟨h.mem, ?_⟩
          intro hexit
          exact absurd (hexpired.symm.trans hexit) (by simp)
        · refine (step_unheard hagrees h.mem ?_ fun sec hsec => htimer ⟨sec, hsec⟩).1
          rintro (hheard | hheard | hheard)
          · exact hread hheard
          · exact hwrite hheard
          · exact hpatient.error hheard
      have hfollows := h.follows_step (fun seg hsame => hread ⟨seg, hsame⟩) hwrite
      exact .inl ⟨r, w, ⟨reached_step h.reached e, hkept, hfollows⟩, hd, rfl⟩

/-- **A whole run**: a client that sends all that is missing is told what it would be told alone. -/
theorem Waits.told (es : List (ProcessEvent n)) {s : Process n} {client : ServerClient}
    {r : ClientRun} {w rest : Bytes} (h : Waits s client r w)
    (hpatient : Machine.Along step (Patient client) s es)
    (hmem : Machine.Along step (MemoryFor client) s es)
    (hsegs : ∀ e ∈ es, ((e.segment client).length : Int) ≤ intMax)
    (hsent : sent client es = w ++ rest) :
    ToldAlike (r.step (.read w)).client ((Machine.run step s es).clients.client client.conn) := by
  induction es generalizing s r w with
  | nil => exact absurd (List.append_eq_nil_iff.mp hsent.symm).1 h.follows.missing
  | cons e es ih =>
      rw [Machine.run_cons]
      rw [sent, List.flatMap_cons] at hsent
      have hlater := fun e' he' => hsegs e' (List.mem_cons_of_mem _ he')
      rcases h.next hpatient.1 hmem.1 (hsegs e List.mem_cons_self) hsent with
        ⟨r', v, h', hrest, hr'⟩ | htold
      · rw [← hr']
        exact ih h' hpatient.2 hmem.2 hlater hrest
      · exact run_told es (reached_step h.reached e) htold

/-! ## From the pickup -/

/-- What a worker has just picked up waits for the upload it is sent. -/
theorem waits_pickedUp {u : Upload} (hfits : u.Fits) (hlen : (u.bytes.length : Int) ≤ intMax)
    {s : Process n} (h : Reached s) {e : ServerEvent n} {client : ServerClient}
    (hmade : s.loop.server.creates e = some client) :
    ∃ sv, Waits (s.step (.server e)) client (ClientRun.init Host.fresh) u.bytes
      ∧ ((ClientRun.init Host.fresh).step (.read u.bytes)).client.responses = [.ok]
      ∧ ((ClientRun.init Host.fresh).step (.read u.bytes)).client.saves = [sv] ∧ u.SavedAs sv := by
  obtain ⟨sv, hfollows, hresponses, hsaves, hsaved⟩ :=
    Upload.follows_init hfits hlen s.clients.host
  have he : ∀ client c, e ≠ .clientCallback client c := by
    rintro client' c rfl
    exact absurd hmade (by simp [Server.creates])
  have hnew : ∀ client' ∈ s.loop.created, client'.conn ≠ client.conn :=
    fun client' hmem => h.registered.creates_new he hmade hmem
  have hfresh := h.fresh client.conn hnew
  have halive : s.clients.released client.conn = false := by
    by_contra hrel
    obtain ⟨client', hmem, hconn⟩ := h.ended client.conn (by simpa using hrel)
    exact hnew client' (h.registered.created_of_released hmem) hconn
  have hkept : client ∈ (s.step (.server e)).loop.server.clients := by
    show client ∈ (s.serverStep e).loop.server.clients
    rw [serverStep_eq s he]
    show client ∈ (s.loop.step e).server.clients
    rw [s.loop.step_event he]
    show client ∈ (s.loop.server.step e).clients
    rw [(s.loop.server.step_clients he).1, hmade]
    exact List.mem_append_left _ (List.mem_singleton_self _)
  refine ⟨sv, ⟨reached_step h _, hkept, ?_⟩, hresponses, hsaves, hsaved⟩
  rw [step_clients]
  show ClientRun.Follows
    ⟨s.clients.client client.conn, s.clients.host, s.clients.released client.conn⟩ _ _
  rw [hfresh, halive]
  exact hfollows

end Process

/-- **What is uploaded to the server is handed to `skylog_save`.** A worker picks up a connection,
and an upload comes in on it, whatever the server has done before and does meanwhile: the `200` is
sent once, and one call of `skylog_save` gets what has been put into the request. -/
theorem Upload.served {u : Upload} (hfits : u.Fits) (hlen : (u.bytes.length : Int) ≤ intMax)
    (queueSize : Int) (h : Host) {es fs : List (ProcessEvent n)} {e : ServerEvent n}
    {client : ServerClient}
    (hmade : (Machine.run Process.step (Process.init n queueSize h) es).loop.server.creates e
      = some client)
    (hpatient : Machine.Along Process.step (Process.Patient client)
      (Machine.run Process.step (Process.init n queueSize h) (es ++ [.server e])) fs)
    (hmem : Machine.Along Process.step (Process.MemoryFor client)
      (Machine.run Process.step (Process.init n queueSize h) (es ++ [.server e])) fs)
    (hsegs : ∀ f ∈ fs, ((f.segment client).length : Int) ≤ intMax) {rest : Bytes}
    (hsent : Process.sent client fs = u.bytes ++ rest) :
    u.Received ((Machine.run Process.step (Process.init n queueSize h)
      (es ++ .server e :: fs)).clients.client client.conn) := by
  have hreached := Process.reached n queueSize h es _ (Machine.run_mem_trail Process.step _ es)
  obtain ⟨sv, hwaits, hresponses, hsaves, hsaved⟩ := Process.waits_pickedUp hfits hlen hreached hmade
  have hrun : ∀ gs, Machine.run Process.step (Process.init n queueSize h) (es ++ .server e :: gs)
      = Machine.run Process.step
          ((Machine.run Process.step (Process.init n queueSize h) es).step (.server e)) gs := by
    intro gs
    exact List.foldl_append
  rw [hrun] at hpatient hmem
  have htold := hwaits.told fs hpatient hmem hsegs hsent
  rw [← hrun] at htold
  exact .of_told hresponses hsaves hsaved htold

/-- An upload in two segments, while time passes and the timer goes off. -/
def moonCakeSent (client : ServerClient) : List (ProcessEvent 0) :=
  [.passes 5, .read client (moonCake.bytes.take 5), .timer client 3, .write client,
    .read client (moonCake.bytes.drop 5)]

theorem moonCakeSent_served :
    let a : Server.ClientNewAnswers := ⟨true, true, true, true, true, true, true⟩
    let client : ServerClient := ⟨0, 7, true⟩
    moonCake.Received ((Machine.run Process.step (Process.init 0 32 Host.fresh)
      ((pickedUp 7 a).dropLast.map .server
        ++ .server (.readCallbackStep 0 .timedOut a) :: moonCakeSent client)).clients.client
          client.conn) := by
  intro a client
  have hlen : (moonCake.bytes.length : Int) ≤ intMax := by decide +kernel
  have hsent : Process.sent client (moonCakeSent client) = moonCake.bytes ++ [] := by
    simp only [Process.sent, moonCakeSent, List.flatMap_cons, List.flatMap_nil,
      ProcessEvent.segment_read, List.append_nil]
    exact List.take_append_drop 5 _
  have hsegs : ∀ f ∈ moonCakeSent client, ((f.segment client).length : Int) ≤ intMax := by
    decide +kernel
  have hpatient : Machine.Along Process.step (Process.Patient client)
      (Machine.run Process.step (Process.init 0 32 Host.fresh)
        ((pickedUp 7 a).dropLast.map .server ++ [.server (.readCallbackStep 0 .timedOut a)]))
      (moonCakeSent client) := by
    refine ⟨⟨by simp, by simp⟩, ⟨by simp, by simp⟩, ⟨by simp, ?_⟩, ⟨by simp, by simp⟩,
      ⟨by simp, by simp⟩, trivial⟩
    rintro _ ⟨⟩
    decide +kernel
  exact Upload.served ⟨by decide +kernel, by decide +kernel⟩ hlen 32 Host.fresh
    (by decide +kernel) hpatient
    ⟨fun h => absurd h (by simp), fun _ => ⟨rfl, rfl⟩, fun h => absurd h (by simp),
      fun _ => ⟨by decide +kernel, by decide +kernel⟩,
      fun _ => ⟨by decide +kernel, by decide +kernel⟩, trivial⟩
    hsegs hsent

end TraceServer
