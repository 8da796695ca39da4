import TraceServer.Lib.Cyclic
import TraceServer.Lib.Run
import TraceServer.Proof.Tally

/-!
# The workers take turns (`evserver_tpool_add_job`)

The worker of a connection is `current_worker % worker_size`, and the counter moves on before
anything can fail. The counter goes round at 2^32, and with a pool whose size divides that, the
remainder does not notice: as many calls in a row as there are workers select each of them once.
-/

namespace TraceServer

namespace Server

variable {n : Nat}

/-- The worker that the `evserver_tpool_add_job` call of an event selects. The call is made for a
connection below the limit that could be made non-blocking, and gets past its own test when the
descriptor is positive. -/
def picked (s : Server n) : ServerEvent n → Option (Fin (n + 1))
  | .accept fd ⟨nonblocking, _, _⟩ =>
    if s.AcceptIdle ∧ s.clientConnectedCount ≤ clientAcceptMaxCount ∧ nonblocking ∧ 0 < fd then
      some s.selected
    else none
  | _ => none

/-- The workers selected in a run, one for each call. -/
def picks : Server n → List (ServerEvent n) → List (Fin (n + 1))
  | _, [] => []
  | s, e :: es => (s.picked e).toList ++ picks (s.step e) es

/-! ## The counter -/

/-- **The counter counts the calls**, and nothing else moves it. -/
theorem step_currentWorker (s : Server n) (e : ServerEvent n) :
    (s.step e).currentWorker
      = if (s.picked e).isSome then s.currentWorker + 1 else s.currentWorker := by
  by_cases haccepts : ∃ fd a, e = .accept fd a ∧ s.AcceptIdle
  · obtain ⟨fd, a, rfl, hidle⟩ := haccepts
    have hstep : s.step (.accept fd a) = s.evAcceptCallback fd a := if_pos hidle
    rw [hstep, (quiet_accept s fd a).currentWorker]
    unfold picked
    simp only [hidle, true_and]
    split <;> rfl
  · have hnone : s.picked e = none := by
      cases e with
      | accept fd a => exact if_neg fun h => haccepts ⟨fd, a, rfl, h.1⟩
      | _ => rfl
    rw [hnone, (Quiet.step s fun fd a he hidle => haccepts ⟨fd, a, he, hidle⟩).currentWorker]
    rfl

/-! ## A round -/

theorem picked_eq {s : Server n} {e : ServerEvent n} {i : Fin (n + 1)} (h : s.picked e = some i) :
    i = s.selected := by
  cases e with
  | accept fd a =>
      unfold picked at h
      dsimp only at h
      split at h
      · exact (Option.some.inj h).symm
      · exact absurd h (by simp)
  | _ => exact absurd h (by simp [picked])

/-- The worker selected for a connection is the one that is given its job, when there is memory for
the item. -/
def GivesToPicked (s : Server n) : ServerEvent n → Prop
  | .accept fd a => ∀ i, s.picked (.accept fd a) = some i → a.itemAlloc = true →
      ∃ job, (s.step (.accept fd a)).workers
        = Function.update s.workers i ((s.workers i).startAddJob ⟨s.accepted, job⟩)
  | _ => True

theorem picked_starts (s : Server n) (e : ServerEvent n) : s.GivesToPicked e := by
  cases e with
  | accept fd a =>
      intro i h halloc
      obtain rfl := picked_eq h
      unfold picked at h
      dsimp only at h
      split at h
      · rename_i hcall
        have hstep : s.step (.accept fd a) = s.evAcceptCallback fd a := if_pos hcall.1
        rw [hstep]
        rcases evAcceptCallback_cases s fd a with ⟨hnot, _⟩ | ⟨_, hno, _⟩ | ⟨_, _, job, _, _, haccept⟩
        · exact absurd hcall.2 hnot
        · exact absurd halloc (by simp [hno])
        · exact ⟨job, by rw [haccept]; rfl⟩
      · exact absurd h (by simp)
  | _ => trivial

/-- **The workers selected in a run follow one another**, from a position that is the counter up to
rounds. -/
theorem picks_eq (hdvd : n + 1 ∣ 2 ^ 32) (es : List (ServerEvent n)) : ∀ (s : Server n) (c : Nat),
    s.currentWorker.toNat % (n + 1) = c % (n + 1) →
    s.picks es = (List.range' c (s.picks es).length).map (Fin.ofNat (n + 1)) := by
  induction es with
  | nil => exact fun _ _ _ => rfl
  | cons e es ih =>
      intro s c hc
      have hstep := step_currentWorker s e
      rw [picks]
      cases hp : s.picked e with
      | none =>
          rw [hp] at hstep
          exact ih (s.step e) c (by rw [hstep]; exact hc)
      | some i =>
          rw [hp] at hstep
          have hnext : (s.step e).currentWorker.toNat % (n + 1) = (c + 1) % (n + 1) := by
            rw [hstep]
            show (s.currentWorker + 1).toNat % (n + 1) = _
            -- the counter goes round at a multiple of the size
            rw [UInt32.toNat_add, Nat.mod_mod_of_dvd _ hdvd]
            exact Nat.ModEq.add_right 1 hc
          have hi : i = Fin.ofNat (n + 1) c := by
            rw [picked_eq hp]
            exact Fin.ext hc
          rw [Option.toList_some, List.singleton_append, List.length_cons, List.range'_succ,
            List.map_cons, ← ih (s.step e) (c + 1) hnext, hi]

/-- **Each worker once.** From any state, a run in which `evserver_tpool_add_job` is called with a
positive descriptor as often as there are workers selects every one of them exactly once, and hands
each connection to the worker selected for it. -/
theorem roundRobin (hdvd : n + 1 ∣ 2 ^ 32) (s : Server n) (es : List (ServerEvent n))
    (hwindow : (s.picks es).length = n + 1) (i : Fin (n + 1)) :
    (s.picks es).count i = 1 ∧ Machine.Along Server.step GivesToPicked s es := by
  constructor
  · rw [picks_eq hdvd es s s.currentWorker.toNat rfl, hwindow]
    exact Cyclic.count_round n _ i
  · exact (Machine.along_true Server.step s es).imp _ fun s e _ => picked_starts s e

/-- Two workers and a counter that is about to go round: the first call fails for want of memory,
the second works. -/
theorem roundRobin_wraps :
    picks { init 1 32 with currentWorker := 4294967295 }
        [.accept 7 ⟨true, false, true⟩, .accept 8 ⟨true, true, true⟩] = [1, 0]
      ∧ (picks { init 1 32 with currentWorker := 4294967295 }
        [.accept 7 ⟨true, false, true⟩, .accept 8 ⟨true, true, true⟩]).count 0 = 1 :=
  ⟨by decide, roundRobin (by decide) { init 1 32 with currentWorker := 4294967295 }
    [.accept 7 ⟨true, false, true⟩, .accept 8 ⟨true, true, true⟩] (by decide) 0 |>.1⟩

end Server

end TraceServer
