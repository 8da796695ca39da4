import TraceServer.Queue

/-!
# Making room in ring mode (`queue_pop_free`)

`queue_push` tests the depth without the queue's lock, and when the queue is full it calls
`queue_pop`, which waits where the list is empty. In between the consumer may have emptied the
list: then the producer waits for an item that nobody but itself would bring. `queue_flush`, which
the other mode calls at the same place, does not mind an empty list.
-/

namespace TraceServer

namespace SharedQueue

variable {α : Type}

/-- The `queue_pop` the producer is about to make room with finds an item, so it does not wait. -/
def PopFinds (s : SharedQueue α) : Prop :=
  ∀ item p, s.producer = some (.popFree item p) → p = .enter ∧ s.queue.head ≠ []

/-- The consumer does not take the only item while the producer stands between its test and its
`queue_pop`. -/
def LeavesOne (s : SharedQueue α) (e : SharedEvent α) : Prop :=
  ∀ w item p, e = .popStep w → s.producer = some (.popFree item p) → s.consumer ≠ none →
    s.queue.head.length ≠ 1

/-- A queue in ring mode that has counted its items. -/
structure Ring (q : Queue α) : Prop where
  mode : q.mode = .queueFullRing
  room : 1 ≤ q.maxDepth
  depth : q.depth = q.head.length

/-- What the two calls keep as long as the consumer leaves one. -/
structure RingInv (s : SharedQueue α) : Prop where
  ring : Ring s.queue
  noFlush : ∀ item, s.producer ≠ some (.flush item)
  finds : s.PopFinds

/-! ## Sections -/

theorem Ring.takeFirst {q : Queue α} (h : Ring q) : Ring (queueTakeFirst q).2 := by
  unfold queueTakeFirst
  cases hhead : q.head with
  | nil => exact h
  | cons item rest =>
      refine ⟨h.mode, h.room, ?_⟩
      have hdepth := h.depth
      rw [hhead, List.length_cons] at hdepth
      show q.depth - 1 = rest.length
      omega

theorem Ring.link {q : Queue α} (h : Ring q) (item : α) : Ring (queueLink q item) := by
  refine ⟨h.mode, h.room, ?_⟩
  have hdepth := h.depth
  show q.depth + 1 = ((q.head ++ [item]).length : Int)
  rw [List.length_append, List.length_singleton]
  omega

/-- **A full queue is not empty.** -/
theorem Ring.ne_nil {q : Queue α} (h : Ring q) (hfull : q.depth ≥ q.maxDepth) : q.head ≠ [] := by
  intro hnil
  have hdepth := h.depth
  have hroom := h.room
  rw [hnil, List.length_nil] at hdepth
  omega

/-- A `queue_pop` on a list that has items takes the first, wherever it stands. -/
theorem pop_cons {p : QueuePop} {w : WaitEnd} {q : Queue α} (hne : q.head ≠ []) :
    p.step w q = (.returns (queueTakeFirst q).1, (queueTakeFirst q).2) := by
  unfold QueuePop.step
  rw [if_neg fun h => hne h.1]

theorem Ring.pop {q : Queue α} (h : Ring q) (p : QueuePop) (w : WaitEnd) : Ring (p.step w q).2 := by
  unfold QueuePop.step
  split
  · exact h
  · exact h.takeFirst

theorem takeFirst_head (q : Queue α) : (queueTakeFirst q).2.head = q.head.tail := by
  unfold queueTakeFirst
  cases hhead : q.head with
  | nil => exact hhead
  | cons item rest => rfl

/-! ## Steps -/

/-- The producer finds what its test has seen. -/
theorem ringInv_pushStep {s : SharedQueue α} (h : RingInv s) (w : WaitEnd) :
    RingInv (s.pushStep w) := by
  obtain ⟨hring, hflush, hfinds⟩ := h
  obtain ⟨q, producer, consumer⟩ := s
  dsimp only [PopFinds] at hring hflush hfinds
  cases producer with
  | none => exact ⟨hring, hflush, hfinds⟩
  | some p =>
    cases p with
    | test item =>
        unfold pushStep QueuePush.step
        dsimp only
        by_cases hfull : q.depth ≥ q.maxDepth
        · -- full, hence not empty: from here on the queue must stay so, as `PopFinds` says
          rw [if_pos hfull, hring.mode]
          refine ⟨hring, by simp, ?_⟩
          intro item' p hp
          obtain ⟨rfl, rfl⟩ := QueuePush.popFree.inj (Option.some.inj hp)
          exact ⟨rfl, hring.ne_nil hfull⟩
        · rw [if_neg hfull]
          exact ⟨hring, by simp, fun _ _ hp => absurd hp (by simp)⟩
    | flush item => exact absurd rfl (hflush item)
    | popFree item p =>
        obtain ⟨rfl, hne⟩ := hfinds item p rfl
        unfold pushStep QueuePush.step
        dsimp only
        rw [pop_cons hne]
        exact ⟨hring.takeFirst, by simp, fun _ _ hp => absurd hp (by simp)⟩
    | link item => exact ⟨hring.link item, by simp [pushStep, QueuePush.step],
        fun _ _ hp => absurd hp (by simp [pushStep, QueuePush.step])⟩

/-- The consumer's section changes the list, and not where the producer stands. -/
theorem popStep_cases (s : SharedQueue α) (w : WaitEnd) :
    s.popStep w = s
      ∨ ∃ p c, s.consumer = some p
        ∧ s.popStep w = ⟨(p.step w s.queue).2, s.producer, c⟩ := by
  unfold popStep
  cases hc : s.consumer with
  | none => exact .inl rfl
  | some p =>
      refine .inr ⟨p, ?_⟩
      dsimp only
      generalize p.step w s.queue = x
      obtain ⟨out, q⟩ := x
      cases out with
      | waits => exact ⟨some .wait, rfl, rfl⟩
      | returns item => exact ⟨none, rfl, rfl⟩

/-- So does the consumer, if it leaves one. -/
theorem ringInv_popStep {s : SharedQueue α} (h : RingInv s) {w : WaitEnd}
    (hleaves : s.LeavesOne (.popStep w)) : RingInv (s.popStep w) := by
  rcases popStep_cases s w with hsame | ⟨p, c, hc, hstep⟩
  · rw [hsame]
    exact h
  · rw [hstep]
    refine ⟨h.ring.pop p w, h.noFlush, ?_⟩
    intro item p' hp
    obtain ⟨henter, hne⟩ := h.finds item p' hp
    have hlen := hleaves w item p' rfl hp (by rw [hc]; simp)
    refine ⟨henter, ?_⟩
    dsimp only
    rw [pop_cons hne, takeFirst_head]
    intro htail
    have := congrArg List.length htail
    rw [List.length_tail, List.length_nil] at this
    have := List.length_pos_iff.mpr hne
    omega

theorem ringInv_step (s : SharedQueue α) (e : SharedEvent α) (h : RingInv s) (_ : True)
    (hleaves : s.LeavesOne e) : RingInv (s.step e) := by
  cases e with
  | push item =>
      unfold step
      dsimp only
      split
      · exact ⟨h.ring, by simp, fun _ _ hp => absurd hp (by simp)⟩
      · exact h
  | pushStep w => exact ringInv_pushStep h w
  | pop =>
      unfold step
      dsimp only
      split <;> exact ⟨h.ring, h.noFlush, h.finds⟩
  | popStep w => exact ringInv_popStep h hleaves

/-- If it takes the only one, there is none left for the producer. -/
theorem not_popFinds_step (s : SharedQueue α) (e : SharedEvent α) (h : RingInv s) (_ : True)
    (hleaves : ¬ s.LeavesOne e) : ¬ (s.step e).PopFinds := by
  unfold LeavesOne at hleaves
  push Not at hleaves
  obtain ⟨w, item, p, rfl, hp, hc, hlen⟩ := hleaves
  intro hfinds
  rcases popStep_cases s w with hsame | ⟨p', c, hc', hstep⟩
  · obtain ⟨p', hc'⟩ := Option.ne_none_iff_exists'.mp hc
    have hconsumer := congrArg SharedQueue.consumer hsame
    unfold popStep at hconsumer
    rw [hc'] at hconsumer
    dsimp only at hconsumer
    rw [pop_cons (h.finds item p hp).2] at hconsumer
    exact absurd hconsumer (by simp)
  · have hempty := (hfinds item p (by rw [step, hstep]; exact hp)).2
    rw [step, hstep] at hempty
    dsimp only at hempty
    rw [pop_cons (h.finds item p hp).2, takeFirst_head] at hempty
    exact hempty (List.length_eq_zero_iff.mp (by rw [List.length_tail, hlen]))

/-! ## Runs -/

/-- **A push in ring mode finds room to make exactly when the consumer never takes the only item
between the producer's test and its `queue_pop`.** -/
theorem popFinds_iff (q : Queue α) (hmode : q.mode = .queueFullRing) (hroom : 1 ≤ q.maxDepth)
    (hdepth : q.depth = q.head.length) (es : List (SharedEvent α)) :
    (∀ t ∈ Machine.trail step ⟨q, none, none⟩ es, t.PopFinds)
      ↔ Machine.Along step LeavesOne ⟨q, none, none⟩ es :=
  Machine.trail_iff_along step RingInv PopFinds (fun _ h => h.finds) ringInv_step not_popFinds_step
    ⟨⟨hmode, hroom, hdepth⟩, by simp, fun _ _ hp => absurd hp (by simp)⟩
    (Machine.along_true step _ es)

/-- A producer that finds the list empty. -/
def Stuck (s : SharedQueue α) : Prop :=
  (∃ item p, s.producer = some (.popFree item p)) ∧ s.queue.head = []

/-- **It waits for good**: as long as no wait is ended from outside, nothing the two do brings an
item. -/
theorem stuck_run {s : SharedQueue α} (h : s.Stuck) (es : List (SharedEvent α))
    (hquiet : .pushStep .woken ∉ es ∧ .popStep .woken ∉ es) : (Machine.run step s es).Stuck := by
  induction es generalizing s with
  | nil => exact h
  | cons e es ih =>
      obtain ⟨hpush, hpop⟩ := hquiet
      rw [List.mem_cons, not_or] at hpush hpop
      refine ih ?_ ⟨hpush.2, hpop.2⟩
      obtain ⟨⟨item, p, hp⟩, hnil⟩ := h
      cases e with
      | push item' =>
          refine ⟨⟨item, p, ?_⟩, ?_⟩ <;> simp [step, hp, hnil]
      | pushStep w =>
          cases w with
          | woken => exact absurd rfl hpush.1
          | timedOut =>
              refine ⟨⟨item, .wait, ?_⟩, ?_⟩ <;>
                simp [step, pushStep, hp, QueuePush.step, QueuePop.step, hnil]
      | pop =>
          refine ⟨⟨item, p, ?_⟩, ?_⟩ <;> unfold step <;> dsimp only <;> split <;> assumption
      | popStep w =>
          cases w with
          | woken => exact absurd rfl hpop.1
          | timedOut =>
              rcases popStep_cases s .timedOut with hsame | ⟨p', c, _, hstep⟩
              · rw [step, hsame]
                exact ⟨⟨item, p, hp⟩, hnil⟩
              · rw [step, hstep]
                refine ⟨⟨item, p, hp⟩, ?_⟩
                simp [QueuePop.step, hnil]

/-- No wait is ended from outside. -/
def Quiet (_ : SharedQueue α) (e : SharedEvent α) : Prop :=
  e ≠ .pushStep .woken ∧ e ≠ .popStep .woken

/-- When the consumer takes the only item, the producer is stuck. -/
theorem stuck_of_not_leavesOne {s : SharedQueue α} {e : SharedEvent α} (h : RingInv s)
    (hleaves : ¬ s.LeavesOne e) : (s.step e).Stuck := by
  have hno := not_popFinds_step s e h trivial hleaves
  unfold LeavesOne at hleaves
  push Not at hleaves
  obtain ⟨w, item, p, rfl, hp, _, _⟩ := hleaves
  have hproducer : (s.step (.popStep w)).producer = some (.popFree item p) := by
    rcases popStep_cases s w with hsame | ⟨_, _, _, hstep⟩
    · rw [step, hsame, hp]
    · rw [step, hstep]
      exact hp
  refine ⟨⟨item, p, hproducer⟩, ?_⟩
  by_contra hne
  refine hno fun item' p' hp' => ?_
  rw [hproducer] at hp'
  obtain ⟨rfl, rfl⟩ := QueuePush.popFree.inj (Option.some.inj hp')
  exact ⟨(h.finds item p hp).1, hne⟩

/-- **A producer in ring mode comes to wait for good exactly when the consumer has once taken the
only item between its test and its `queue_pop`.** -/
theorem stuck_iff (q : Queue α) (hmode : q.mode = .queueFullRing) (hroom : 1 ≤ q.maxDepth)
    (hdepth : q.depth = q.head.length) (es : List (SharedEvent α))
    (hquiet : Machine.Along step Quiet ⟨q, none, none⟩ es) :
    (Machine.run step ⟨q, none, none⟩ es).Stuck
      ↔ ¬ Machine.Along step LeavesOne ⟨q, none, none⟩ es := by
  have hstart : RingInv (⟨q, none, none⟩ : SharedQueue α) :=
    ⟨⟨hmode, hroom, hdepth⟩, by simp, fun _ _ hp => absurd hp (by simp)⟩
  constructor
  · intro hstuck hleaves
    have hring := Machine.inv_trail step RingInv (fun s e h hl => ringInv_step s e h trivial hl)
      hstart hleaves _ (Machine.run_mem_trail step _ es)
    obtain ⟨⟨item, p, hp⟩, hnil⟩ := hstuck
    exact (hring.finds item p hp).2 hnil
  · intro hleaves
    have hstay : ∀ (s : SharedQueue α) (e : SharedEvent α), Quiet s e → s.Stuck →
        (s.step e).Stuck :=
      fun s e hq h => stuck_run h [e] (by simpa [Quiet, eq_comm] using hq)
    -- a producer that is stuck leaves nothing to be taken
    have hkeep : ∀ (s : SharedQueue α) (e : SharedEvent α), s.Stuck → s.LeavesOne e := by
      rintro s e ⟨_, hnil⟩ w item p _ _ _ hlen
      rw [hnil] at hlen
      exact absurd hlen (by simp)
    refine (Machine.along_or_spoilt step (fun s => RingInv s ∨ s.Stuck) Stuck ?_ ?_ ?_
      (.inl hstart) hquiet).resolve_left hleaves
    · intro s e hs hq
      rcases hs with hring | hstuck
      · by_cases hl : s.LeavesOne e
        · exact .inl (ringInv_step s e hring trivial hl)
        · exact .inr (stuck_of_not_leavesOne hring hl)
      · exact .inr (hstay s e hq hstuck)
    · exact fun s e _ hq hstuck => hstay s e hq hstuck
    · intro s e hs _ hl
      rcases hs with hring | hstuck
      · exact stuck_of_not_leavesOne hring hl
      · exact absurd (hkeep s e hstuck) hl

/-- The consumer takes the only item, and is called once more. -/
theorem stuck_iff_lastItem :
    (Machine.run step ⟨⟨[1], 1, 1, .queueFullRing⟩, none, none⟩
        [.push 2, .pushStep .timedOut, .pop, .popStep .timedOut, .pushStep .timedOut, .pop]).Stuck
      ↔ ¬ Machine.Along step LeavesOne ⟨⟨[1], 1, 1, .queueFullRing⟩, none, none⟩
        [.push 2, .pushStep .timedOut, .pop, .popStep .timedOut, .pushStep .timedOut, .pop] :=
  stuck_iff ⟨[1], 1, 1, .queueFullRing⟩ rfl (by decide) rfl _
    ⟨by simp [Quiet], by simp [Quiet], by simp [Quiet], by simp [Quiet], by simp [Quiet],
      by simp [Quiet], trivial⟩

/-- A full queue of one place, which nobody empties. -/
theorem popFinds_iff_alone :
    (∀ t ∈ Machine.trail step ⟨⟨[1], 1, 1, .queueFullRing⟩, none, none⟩
        [.push 2, .pushStep .timedOut, .pushStep .timedOut, .pushStep .timedOut], PopFinds t)
      ↔ Machine.Along step LeavesOne ⟨⟨[1], 1, 1, .queueFullRing⟩, none, none⟩
        [.push 2, .pushStep .timedOut, .pushStep .timedOut, .pushStep .timedOut] :=
  popFinds_iff ⟨[1], 1, 1, .queueFullRing⟩ rfl (by decide) rfl _

/-- The consumer comes between the test and the `queue_pop`. -/
theorem lastItem_taken :
    ¬ ∀ (q : Queue Nat), q.mode = .queueFullRing → 1 ≤ q.maxDepth → q.depth = q.head.length →
      ∀ es, ∀ t ∈ Machine.trail step ⟨q, none, none⟩ es, t.PopFinds := by
  intro h
  have hfinds := h ⟨[1], 1, 1, .queueFullRing⟩ rfl (by decide) rfl
    [.push 2, .pushStep .timedOut, .pop, .popStep .timedOut] _ (Machine.run_mem_trail step _ _)
  exact (hfinds 2 .enter rfl).2 rfl

end SharedQueue

end TraceServer
