import TraceServer.Listen

/-!
# What a failed attempt leaves behind

An attempt that fails before it has a descriptor is cleaned up by one function, and so is
one whose descriptor fails on the way to listening. After that two functions close the
descriptor, each on its own, or nobody does: `_evserver_create` closes it when its event
fails and leaves it in `_server` for `evserver_destroy` to close again, and a
`pthread_create` that fails is followed by neither.
-/

namespace TraceServer

/-- Everything an attempt has opened it has let go of, once, and `_server` is as at the start. -/
structure LeftClean (c : Creating) : Prop where
  closed : ∀ fd, .socket fd ∈ c.deeds → c.deeds.count (.close fd) = 1
  freed : ∀ evbase, .eventBaseNew evbase ∈ c.deeds → c.deeds.count (.eventBaseFree evbase) = 1
  initial : c.toEvServer = .initial

/-- An attempt of the monitor that fails leaves nothing behind. -/
def FailsClean (s : EvServer) : MonitorEvent → Prop
  | .create a => s.serverOk = false → (s.evserverCreate a).1 = false →
      LeftClean (s.evserverCreate a).2
  | _ => True

/-- `_evserver_socket_create` gets as far as a socket that listens. -/
def CreateAnswers.listens (a : CreateAnswers) : Bool :=
  a.socket.isSome && a.bind && a.listen && a.makeListenSocketReuseable && a.makeSocketNonblocking

/-- There is an event base or no descriptor from before; the descriptor is not 0; and when it
listens, nothing fails any more. -/
def ListensOrFailsEarly (s : EvServer) : MonitorEvent → Prop
  | .create a => s.serverOk = false →
      (a.eventBaseNew = none → s.listenFd = -1)
        ∧ (a.eventBaseNew.isSome → a.socket ≠ some 0
          ∧ (a.listens = true →
            a.eventAssign = true ∧ a.eventAdd = true ∧ a.pthreadCreate = true))
  | _ => True

namespace Creating

variable {c : Creating} {a : CreateAnswers}

theorem socketClose_pos {fd : Int} (hfd : 0 < fd) : c.socketClose fd = c.note (.close fd) :=
  if_pos hfd

/-- **What `_evserver_socket_create` comes to**: it cannot open a descriptor, it opens
descriptor 0 and forgets it, it closes what it has opened, or the descriptor listens. -/
theorem evserverSocketCreate_cases (c : Creating) (a : CreateAnswers) :
    (a.socket = none ∧ c.evserverSocketCreate a = (-1, c))
      ∨ (a.socket = some 0 ∧ c.evserverSocketCreate a = (-1, c.note (.socket 0)))
      ∨ (∃ fd : Nat, 0 < fd ∧ a.socket = some fd ∧ a.listens = false
        ∧ c.evserverSocketCreate a = (-1, (c.note (.socket fd)).note (.close fd)))
      ∨ (∃ fd : Nat, 0 < fd ∧ a.socket = some fd ∧ a.listens = true
        ∧ c.evserverSocketCreate a = ((fd : Int), c.note (.socket fd))) := by
  obtain ⟨base, socket, bind, listen, reuseable, nonblocking, assign, add, create⟩ := a
  unfold evserverSocketCreate socketListen CreateAnswers.listens
  cases socket with
  | none => exact .inl ⟨rfl, rfl⟩
  | some fd =>
      rcases Nat.eq_zero_or_pos fd with rfl | hfd
      · exact .inr (.inl ⟨rfl, rfl⟩)
      · have hpos : 0 < (fd : Int) := by omega
        refine .inr (.inr ?_)
        cases bind <;> cases listen <;> cases reuseable <;> cases nonblocking <;>
          simp [hfd, Nat.ne_of_gt hfd, socketClose_pos]

end Creating

/-! ## One attempt -/

/-- What `evserver_create` can come to: what it returns, what is then in `_server`, and what it
has done, the last first. -/
inductive CreateOutcome (s : EvServer) (a : CreateAnswers) : Bool × Creating → Prop where
  | noBase (hbase : a.eventBaseNew = none) :
      CreateOutcome s a (false, ⟨⟨s.listenFd, none, s.serverOk⟩, []⟩)
  | noSocket {evbase : Nat} (hbase : a.eventBaseNew = some evbase) (hsocket : a.socket = none) :
      CreateOutcome s a
        (false, ⟨.initial, [.shutdown (-1), .eventBaseFree evbase, .eventBaseNew evbase]⟩)
  /-- The descriptor is 0, and nobody closes it. -/
  | zero {evbase : Nat} (hbase : a.eventBaseNew = some evbase) (hsocket : a.socket = some 0) :
      CreateOutcome s a (false, ⟨.initial,
        [.shutdown (-1), .eventBaseFree evbase, .socket 0, .eventBaseNew evbase]⟩)
  | notListening {evbase fd : Nat} (hbase : a.eventBaseNew = some evbase) (hfd : 0 < fd)
      (hsocket : a.socket = some fd) (hlistens : a.listens = false) :
      CreateOutcome s a (false, ⟨.initial,
        [.shutdown (-1), .eventBaseFree evbase, .close fd, .socket fd, .eventBaseNew evbase]⟩)
  /-- The descriptor is closed by `_evserver_create`, and again by `evserver_destroy`. -/
  | noEvent {evbase fd : Nat} (hbase : a.eventBaseNew = some evbase) (hfd : 0 < fd)
      (hsocket : a.socket = some fd) (hlistens : a.listens = true)
      (hevent : (a.eventAssign && a.eventAdd) = false) :
      CreateOutcome s a (false, ⟨.initial, [.close fd, .shutdown fd, .eventBaseFree evbase,
        .close fd, .socket fd, .eventBaseNew evbase]⟩)
  /-- The server is open, and `pthread_create` decides what is returned. -/
  | opened {evbase fd : Nat} (hbase : a.eventBaseNew = some evbase) (hfd : 0 < fd)
      (hsocket : a.socket = some fd) (hlistens : a.listens = true)
      (hevent : (a.eventAssign && a.eventAdd) = true) :
      CreateOutcome s a (a.pthreadCreate, ⟨⟨fd, some evbase, s.serverOk⟩,
        [.socket fd, .eventBaseNew evbase]⟩)

namespace EvServer

variable {s : EvServer} {a : CreateAnswers}

theorem createOutcome (s : EvServer) (a : CreateAnswers) :
    CreateOutcome s a (s.evserverCreate a) := by
  unfold evserverCreate Creating.evserverCreateStatic
  cases hbase : a.eventBaseNew with
  | none => exact .noBase hbase
  | some evbase =>
      dsimp only
      rcases Creating.evserverSocketCreate_cases
          (Creating.note ⟨⟨s.listenFd, some evbase, s.serverOk⟩, []⟩ (.eventBaseNew evbase)) a with
        ⟨hsocket, hnew⟩ | ⟨hsocket, hnew⟩ | ⟨fd, hfd, hsocket, hlistens, hnew⟩
          | ⟨fd, hfd, hsocket, hlistens, hnew⟩
      · rw [hnew]
        exact .noSocket hbase hsocket
      · rw [hnew]
        exact .zero hbase hsocket
      · rw [hnew]
        exact .notListening hbase hfd hsocket hlistens
      · -- the descriptor listens
        have hpos : 0 < (fd : Int) := by omega
        rw [hnew]
        dsimp only
        rw [if_neg (show ¬ (fd : Int) < 0 by omega)]
        cases hevent : a.eventAssign && a.eventAdd with
        | false =>
            -- `_evserver_create` closes the descriptor, and `evserver_destroy` after it
            have hout := CreateOutcome.noEvent (s := s) hbase hfd hsocket hlistens hevent
            cases hassign : a.eventAssign with
            | false =>
                simpa [Creating.evserverDestroy, Creating.evserverDestroyStatic, Creating.note,
                  Creating.socketClose, hfd, initial] using hout
            | true =>
                have hadd : a.eventAdd = false := by simpa [hassign] using hevent
                simpa [Creating.evserverDestroy, Creating.evserverDestroyStatic, Creating.note,
                  Creating.socketClose, hfd, hadd, initial] using hout
        | true =>
            have hout := CreateOutcome.opened (s := s) hbase hfd hsocket hlistens hevent
            obtain ⟨hassign, hadd⟩ := Bool.and_eq_true_iff.mp hevent
            cases hthread : a.pthreadCreate <;>
              simpa [hassign, hadd, hthread, Creating.note] using hout

/-- **An attempt fails clean exactly when it fails early**, or not at all. -/
theorem failsClean_iff (s : EvServer) (e : MonitorEvent) :
    FailsClean s e ↔ ListensOrFailsEarly s e := by
  cases e with
  | create a =>
      unfold FailsClean ListensOrFailsEarly
      refine forall_congr' ?_
      intro hok
      have hout := s.createOutcome a
      generalize s.evserverCreate a = r at hout
      cases hout with
      | noBase hbase =>
          -- nothing has been done, so what is in `_server` is what was there
          simp only [hbase, Option.isSome_none, Bool.false_eq_true, false_implies, and_true,
            true_implies]
          refine ⟨fun h => congrArg EvServer.listenFd h.initial, fun hfd => ⟨?_, ?_, ?_⟩⟩
          · exact fun _ hmem => absurd hmem List.not_mem_nil
          · exact fun _ hmem => absurd hmem List.not_mem_nil
          · rw [hfd, hok]
            rfl
      | noSocket hbase hsocket =>
          have hlistens : a.listens = false := by simp [CreateAnswers.listens, hsocket]
          simp only [hbase, hsocket, hlistens]
          exact ⟨fun _ => by simp, fun _ _ => ⟨by simp, by simp, rfl⟩⟩
      | zero hbase hsocket =>
          -- descriptor 0 has been opened and not closed
          simp only [hbase, hsocket]
          refine ⟨?_, fun h => absurd rfl (h.2 rfl).1⟩
          intro h
          exact absurd ((h trivial).closed 0 (by simp)) (by simp)
      | notListening hbase hfd hsocket hlistens =>
          have hne := Nat.ne_of_gt hfd
          simp only [hbase, hsocket, hlistens]
          exact ⟨fun _ => by simp [hne], fun _ _ => ⟨by simp, by simp, rfl⟩⟩
      | noEvent hbase hfd hsocket hlistens hevent =>
          -- the descriptor has been closed twice
          rename_i evbase fd
          simp only [hbase, hsocket, hlistens]
          constructor
          · intro h
            exact absurd ((h trivial).closed fd (by simp)) (by simp)
          · intro h
            obtain ⟨hassign, hadd, _⟩ := (h.2 rfl).2 trivial
            simp [hassign, hadd] at hevent
      | opened hbase hfd hsocket hlistens hevent =>
          rename_i evbase fd
          have hne := Nat.ne_of_gt hfd
          obtain ⟨hassign, hadd⟩ := Bool.and_eq_true_iff.mp hevent
          -- only `pthread_create` can still fail, and nothing has been closed
          simp only [hbase, hsocket, hlistens]
          refine ⟨fun h => ⟨by simp, fun _ => ⟨by simp [hne], fun _ => ⟨hassign, hadd, ?_⟩⟩⟩, ?_⟩
          · by_contra hthread
            exact absurd ((h (by simpa using hthread)).closed fd (by simp)) (by simp)
          · intro h hfails
            obtain ⟨_, _, hthread⟩ := (h.2 rfl).2 trivial
            exact absurd (hthread.symm.trans hfails) (by simp)
  | _ => exact Iff.rfl

/-- **Every attempt that fails leaves nothing behind exactly when every attempt that has an
event base listens or fails before it does**, and no attempt that has none finds a descriptor
from before. -/
theorem failsClean_along_iff (es : List MonitorEvent) :
    Machine.Along step FailsClean initial es ↔ Machine.Along step ListensOrFailsEarly initial es :=
  Machine.along_congr step (fun _ => True) (fun _ _ _ => trivial) (fun s e _ => failsClean_iff s e)
    trivial es

/-- An `event_add` that fails has the descriptor closed twice. -/
theorem eventAdd_closes_twice : ¬ Machine.Along step FailsClean initial
    [.create ⟨some 1, some 7, true, true, true, true, true, false, true⟩] := by
  rintro ⟨h, _⟩
  exact absurd ((h rfl rfl).closed 7 (by decide)) (by decide)

end EvServer

end TraceServer
