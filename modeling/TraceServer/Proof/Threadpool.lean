import TraceServer.Lib.Update
import TraceServer.Threadpool

/-!
# Works are taken in the order they are linked

Every address that is in use is in the list or with one thread (`Passes`), so what a thread
takes is what was linked first of all that is left, it is still there when the thread calls
the routine, and nobody else has it. The count is taken up and down by the threads on
their own, and goes with where they stand.
-/

namespace TraceServer

variable {n : Nat} {α : Type}

namespace ThreadRoutine

/-- The work a thread has. -/
def work : ThreadRoutine → Option Nat
  | taken p => some p
  | runs p => some p
  | _ => none

/-- Between its increment of `working_counts` and its decrement. -/
def counted : ThreadRoutine → Bool
  | runs _ => true
  | returned => true
  | _ => false

/-- It has a work that is not done. -/
def occupied (t : ThreadRoutine) : Bool := t.work.isSome

end ThreadRoutine

/-- The works in a log that are thread `i`'s. -/
def worksOf (i : Fin n) (log : List (Fin n × α)) : List α := (log.filter (·.1 = i)).map Prod.snd

theorem worksOf_append (i : Fin n) (log log' : List (Fin n × α)) :
    worksOf i (log ++ log') = worksOf i log ++ worksOf i log' := by
  simp [worksOf]

theorem mem_worksOf {i : Fin n} {log : List (Fin n × α)} {w : α} :
    w ∈ worksOf i log ↔ (i, w) ∈ log := by
  simp [worksOf]

/-! ## Who has which work -/

/-- The works in use are in the list `cells` or with one thread. -/
structure Lent (works : Nat → Option (TpoolWork α)) (threads : Fin n → ThreadRoutine)
    (cells : List (Nat × TpoolWork α)) : Prop where
  nodup : (cells.map Prod.fst).Nodup
  held : ∀ i p, (threads i).work = some p → (works p).isSome ∧ p ∉ cells.map Prod.fst
  apart : ∀ i j p, (threads i).work = some p → (threads j).work = some p → i = j

namespace Lent

variable {works : Nat → Option (TpoolWork α)} {threads : Fin n → ThreadRoutine}
  {cells : List (Nat × TpoolWork α)} {i : Fin n} {t : ThreadRoutine}

/-- A thread keeps what it has, or lets go of it. -/
theorem keeps (h : Lent works threads cells)
    (ht : ∀ p, t.work = some p → (threads i).work = some p) :
    Lent works (Function.update threads i t) cells := by
  have hold : ∀ j p, (Function.update threads i t j).work = some p → (threads j).work = some p := by
    intro j p hwork
    by_cases hj : j = i
    · subst hj
      rw [Function.update_self] at hwork
      exact ht p hwork
    · rw [Function.update_of_ne hj] at hwork
      exact hwork
  exact ⟨h.nodup, fun j p hj => h.held j p (hold j p hj),
    fun j k p hj hk => h.apart j k p (hold j p hj) (hold k p hk)⟩

/-- A thread takes the first of the list. -/
theorem takes {p : Nat} {w : TpoolWork α} (h : Lent works threads ((p, w) :: cells))
    (hp : (works p).isSome) (ht : t.work = some p) :
    Lent works (Function.update threads i t) cells := by
  obtain ⟨hfirst, hnodup⟩ := List.nodup_cons.mp h.nodup
  -- a thread with a work is the one that has just taken it, or had it before
  have hnew : ∀ j q, (Function.update threads i t j).work = some q →
      (j = i ∧ q = p) ∨ (q ≠ p ∧ (threads j).work = some q) := by
    intro j q hwork
    by_cases hj : j = i
    · subst hj
      rw [Function.update_self, ht] at hwork
      exact .inl ⟨rfl, (Option.some.inj hwork).symm⟩
    · rw [Function.update_of_ne hj] at hwork
      refine .inr ⟨?_, hwork⟩
      rintro rfl
      exact absurd (h.held j q hwork).2 (by simp)
  refine ⟨hnodup, ?_, ?_⟩
  · intro j q hwork
    rcases hnew j q hwork with ⟨_, rfl⟩ | ⟨_, hwork⟩
    · exact ⟨hp, hfirst⟩
    · obtain ⟨hin, hout⟩ := h.held j q hwork
      exact ⟨hin, fun hmem => hout (List.mem_cons_of_mem _ hmem)⟩
  · intro j k q hj hk
    rcases hnew j q hj with ⟨rfl, rfl⟩ | ⟨hne, hj⟩
    · rcases hnew k q hk with ⟨rfl, _⟩ | ⟨hne, _⟩
      · rfl
      · exact absurd rfl hne
    · rcases hnew k q hk with ⟨_, rfl⟩ | ⟨_, hk⟩
      · exact absurd rfl hne
      · exact h.apart j k q hj hk

/-- A work that was free comes to the list, and the works of the threads stay as they are. -/
theorem links {works' : Nat → Option (TpoolWork α)} {cells' : List (Nat × TpoolWork α)} {p : Nat}
    (h : Lent works threads cells) (hfree : works p = none) (hout : p ∉ cells.map Prod.fst)
    (hcells : cells'.map Prod.fst = cells.map Prod.fst ++ [p])
    (hsame : ∀ q, q ∉ cells'.map Prod.fst → works' q = works q) : Lent works' threads cells' := by
  refine ⟨?_, ?_, h.apart⟩
  · rw [hcells]
    refine List.nodup_append.mpr ⟨h.nodup, List.nodup_singleton p, ?_⟩
    rintro x hx y hy rfl
    exact hout (List.mem_singleton.mp hy ▸ hx)
  · intro j q hwork
    obtain ⟨hin, hnot⟩ := h.held j q hwork
    have hq : q ∉ cells'.map Prod.fst := by
      rw [hcells]
      intro hmem
      rcases List.mem_append.mp hmem with hmem | hmem
      · exact hnot hmem
      · rw [List.mem_singleton.mp hmem, hfree] at hin
        exact absurd hin (by simp)
    exact ⟨by rw [hsame q hq]; exact hin, hq⟩

/-- A work that no thread has is freed. -/
theorem frees {works' : Nat → Option (TpoolWork α)} (h : Lent works threads cells)
    (hsame : ∀ j q, (threads j).work = some q → works' q = works q) :
    Lent works' threads cells :=
  ⟨h.nodup, fun j q hwork => ⟨by rw [hsame j q hwork]; exact (h.held j q hwork).1,
    (h.held j q hwork).2⟩, h.apart⟩

end Lent

/-- The routine a thread has taken and not yet called. -/
def pending (works : Nat → Option (TpoolWork α)) : ThreadRoutine → List α
  | .taken p => ((works p).map TpoolWork.routine).toList
  | _ => []

theorem pending_congr {works works' : Nat → Option (TpoolWork α)} {t : ThreadRoutine}
    (hsame : ∀ p, t.work = some p → works' p = works p) : pending works' t = pending works t := by
  cases t with
  | taken p => exact congrArg (fun w => (w.map TpoolWork.routine).toList) (hsame p rfl)
  | _ => rfl

namespace Tpool

/-- Every work that has been linked has been taken or is in `cells`, the list, and what a
thread has taken it has called, but for the last. -/
structure Passes (s : Tpool n α) (cells : List (Nat × TpoolWork α)) : Prop where
  running : s.shutdown = false
  max : s.maxThrNum = n
  chain : Chain TpoolWork.next s.works s.queueHead cells
  lent : Lent s.works s.threads cells
  order : s.linked = s.taken.map Prod.snd ++ cells.map (·.2.routine)
  handed : ∀ i, worksOf i s.ran ++ pending s.works (s.threads i) = worksOf i s.taken
  counted : s.workingCounts = countWhere ThreadRoutine.counted s.threads
  unfinished : s.finished + countWhere ThreadRoutine.occupied s.threads + cells.length
    = s.linked.length
  accepted : s.returns.count 0 = s.linked.length

section Threads

variable {s : Tpool n α} {cells : List (Nat × TpoolWork α)} {i : Fin n}

/-- What becomes of the logs when a thread moves from `t` to `t'`. -/
theorem handed_update {works works' : Nat → Option (TpoolWork α)} {threads : Fin n → ThreadRoutine}
    {ran taken : List (Fin n × α)} {t : ThreadRoutine} (ran' taken' : List α)
    (h : ∀ j, worksOf j ran ++ pending works (threads j) = worksOf j taken)
    (hi : worksOf i ran ++ ran' ++ pending works' t = worksOf i taken ++ taken')
    (hsame : ∀ j, j ≠ i → pending works' (threads j) = pending works (threads j)) (j : Fin n) :
    worksOf j (ran ++ ran'.map (i, ·)) ++ pending works' (Function.update threads i t j)
      = worksOf j (taken ++ taken'.map (i, ·)) := by
  have hself : ∀ xs : List α, worksOf i (xs.map (i, ·)) = xs := by
    intro xs
    simp [worksOf, List.filter_map, Function.comp_def]
  rw [worksOf_append, worksOf_append]
  by_cases hj : j = i
  · -- the thread that moves
    subst hj
    rw [Function.update_self, hself, hself]
    exact hi
  · have hother : ∀ xs : List α, worksOf j (xs.map (i, ·)) = [] := by
      intro xs
      simp [worksOf, List.filter_map, Function.comp_def, Ne.symm hj]
    rw [Function.update_of_ne hj, hother, hother, List.append_nil, List.append_nil, hsame j hj]
    exact h j

/-- A thread moves, and with it the count and what is unfinished. -/
theorem Passes.counts (h : s.Passes cells) {t : ThreadRoutine} (i : Fin n) :
    (countWhere ThreadRoutine.counted (Function.update s.threads i t) : Int)
        = s.workingCounts + t.counted.toNat - (s.threads i).counted.toNat
      ∧ (s.finished + countWhere ThreadRoutine.occupied (Function.update s.threads i t)
          + (s.threads i).occupied.toNat + cells.length = s.linked.length + t.occupied.toNat) := by
  have hcounted := countWhere_update ThreadRoutine.counted s.threads i t
  have hoccupied := countWhere_update ThreadRoutine.occupied s.threads i t
  have hcount := h.counted
  have hleft := h.unfinished
  constructor <;> omega

/-- A thread goes from one place without a work to another. -/
theorem Passes.idles (h : s.Passes cells) {t : ThreadRoutine} (hold : (s.threads i).work = none)
    (hnew : t.work = none) {workers working : Int}
    (hworking : working = s.workingCounts + t.counted.toNat - (s.threads i).counted.toNat) :
    Passes { s.setThread i t with workerCounts := workers, workingCounts := working } cells := by
  obtain ⟨hcounted, hleft⟩ := h.counts (t := t) i
  have hnone : ∀ t : ThreadRoutine, t.work = none → pending s.works t = [] ∧ t.occupied = false := by
    intro t ht
    cases t <;> first | exact ⟨rfl, rfl⟩ | exact absurd ht (by simp [ThreadRoutine.work])
  have hpending := h.handed i
  rw [(hnone _ hold).1] at hpending
  rw [(hnone _ hold).2, (hnone _ hnew).2] at hleft
  refine ⟨h.running, h.max, h.chain, h.lent.keeps (by simp [hnew]), h.order, ?_,
    hworking.trans hcounted.symm, ?_, h.accepted⟩
  · have hhanded := handed_update (t := t) [] [] h.handed
      (by rw [(hnone _ hnew).1]; simpa using hpending) fun _ _ => rfl
    simpa [setThread] using hhanded
  · simpa [setThread] using hleft

/-- A thread takes the first work. -/
theorem Passes.takes {p : Nat} {w : TpoolWork α} (h : s.Passes ((p, w) :: cells))
    (hold : s.threads i = .waits) :
    Passes { s.setThread i (.taken p) with
      queueHead := w.next, taken := s.taken ++ [(i, w.routine)] } cells := by
  obtain ⟨_, hcell, hrest⟩ := h.chain
  obtain ⟨hcounted, hleft⟩ := h.counts (t := .taken p) i
  have hpending := h.handed i
  rw [hold] at hcounted hleft hpending
  refine ⟨h.running, h.max, hrest, h.lent.takes (by rw [hcell]; rfl) rfl, ?_, ?_, ?_, ?_,
    h.accepted⟩
  · show s.linked = (s.taken ++ [(i, w.routine)]).map Prod.snd ++ cells.map (·.2.routine)
    rw [h.order]
    simp
  · have hhanded := handed_update (t := .taken p) [] [w.routine] h.handed
      (by
        rw [← hpending]
        simp [pending, hcell]) fun _ _ => rfl
    simpa [setThread] using hhanded
  · simpa [setThread, ThreadRoutine.counted] using hcounted.symm
  · simp only [ThreadRoutine.occupied, ThreadRoutine.work, List.length_cons, Option.isSome_none,
      Option.isSome_some, Bool.toNat_true, Bool.toNat_false] at hleft
    show s.finished + countWhere _ (Function.update s.threads i (.taken p)) + cells.length
      = s.linked.length
    omega

/-- It is counted, and calls the routine. -/
theorem Passes.calls {p : Nat} (h : s.Passes cells) (hold : s.threads i = .taken p) :
    Passes { s.setThread i (.runs p) with
      workingCounts := s.workingCounts + 1
      ran := s.ran ++ ((s.works p).map fun w => (i, w.routine)).toList } cells := by
  obtain ⟨hcounted, hleft⟩ := h.counts (t := .runs p) i
  have hpending := h.handed i
  rw [hold] at hcounted hleft hpending
  refine ⟨h.running, h.max, h.chain, h.lent.keeps ?_, h.order, ?_, ?_, ?_,
    h.accepted⟩
  · intro q hq
    rw [hold]
    exact hq
  · have hran : ((s.works p).map fun w => (i, w.routine)).toList
        = (pending s.works (.taken p)).map (i, ·) := by
      show _ = ((s.works p).map TpoolWork.routine).toList.map (i, ·)
      cases s.works p <;> rfl
    have hhanded := handed_update (t := .runs p) (pending s.works (.taken p)) []
      h.handed (by simpa [pending] using hpending) fun _ _ => rfl
    rw [hran]
    simpa [setThread] using hhanded
  · simpa [setThread, ThreadRoutine.counted] using hcounted.symm
  · simp only [ThreadRoutine.occupied, ThreadRoutine.work, Option.isSome_some] at hleft
    show s.finished + countWhere _ (Function.update s.threads i (.runs p)) + cells.length
      = s.linked.length
    omega

/-- The routine returns, and its work is freed. -/
theorem Passes.finishes {p : Nat} (h : s.Passes cells) (hold : s.threads i = .runs p) :
    Passes { s.setThread i .returned with
      works := Function.update s.works p none, finished := s.finished + 1 } cells := by
  obtain ⟨hcounted, hleft⟩ := h.counts (t := .returned) i
  have hpending := h.handed i
  rw [hold] at hcounted hleft hpending
  have hmine : (s.threads i).work = some p := by rw [hold]; rfl
  have hout : p ∉ cells.map Prod.fst := (h.lent.held i p hmine).2
  -- nobody else has it
  have hothers : ∀ j q, j ≠ i → (s.threads j).work = some q →
      Function.update s.works p none q = s.works q := by
    intro j q hne hwork
    refine Function.update_of_ne ?_ _ _
    rintro rfl
    exact hne (h.lent.apart j i q hwork hmine)
  refine ⟨h.running, h.max, ?_, ?_, h.order, ?_, ?_, ?_, h.accepted⟩
  · -- it is not in the list either
    refine h.chain.congr fun c hc => Function.update_of_ne ?_ _ _
    rintro rfl
    exact hout (List.mem_map_of_mem hc)
  · refine (h.lent.keeps (i := i) (t := .returned) (by simp [ThreadRoutine.work])).frees ?_
    intro j q hwork
    have hj : j ≠ i := by
      rintro rfl
      rw [Function.update_self] at hwork
      exact absurd hwork (by simp [ThreadRoutine.work])
    rw [Function.update_of_ne hj] at hwork
    exact hothers j q hj hwork
  · have hhanded := handed_update (t := .returned) [] [] h.handed
      (by simpa [pending] using hpending)
      fun j hj => pending_congr fun q hwork => hothers j q hj hwork
    simpa [setThread] using hhanded
  · simpa [setThread, ThreadRoutine.counted] using hcounted.symm
  · simp only [ThreadRoutine.occupied, ThreadRoutine.work, Option.isSome_none,
      Option.isSome_some, Bool.toNat_true, Bool.toNat_false] at hleft
    show s.finished + 1 + countWhere _ (Function.update s.threads i .returned) + cells.length
      = s.linked.length
    omega

/-- **A section of `thread_routine`.** -/
theorem Passes.thread (h : s.Passes cells) (i : Fin n) :
    ∃ cells', (s.threadRoutine i).Passes cells' := by
  unfold threadRoutine
  cases hold : s.threads i with
  | begins =>
      exact ⟨cells, h.idles (by rw [hold]; rfl) rfl
        (by rw [hold]; simp [setThread, ThreadRoutine.counted])⟩
  | waits =>
      dsimp only
      split
      · exact ⟨cells, h⟩
      · rw [if_neg (by simp [h.running])]
        cases cells with
        | nil => rw [h.chain]; exact ⟨[], h⟩
        | cons c cells =>
            -- the head of the list is the address of a work
            obtain ⟨hhead, hcell, _⟩ := h.chain
            rw [hhead]
            dsimp only
            rw [hcell]
            exact ⟨cells, h.takes hold⟩
  | taken p => exact ⟨cells, h.calls hold⟩
  | runs p => exact ⟨cells, h.finishes hold⟩
  | returned =>
      exact ⟨cells, h.idles (by rw [hold]; rfl) rfl (by rw [hold]; simp [ThreadRoutine.counted])⟩
  | exited => exact ⟨cells, h⟩

end Threads

section Calls

variable {s : Tpool n α} {cells : List (Nat × TpoolWork α)}

/-- What is left to be shown of a work that is linked: the memory and the list. -/
theorem Passes.linked (h : s.Passes cells) {works' : Nat → Option (TpoolWork α)}
    {head' : Option Nat}
    {cells' : List (Nat × TpoolWork α)} {work : Nat} {routine : α} (hfree : s.works work = none)
    (hchain : Chain TpoolWork.next works' head' cells')
    (hcells : cells'.map Prod.fst = cells.map Prod.fst ++ [work])
    (hroutines : cells'.map (·.2.routine) = cells.map (·.2.routine) ++ [routine])
    (hsame : ∀ q, q ∉ cells'.map Prod.fst → works' q = s.works q) :
    Passes { s with
      works := works', queueHead := head', linked := s.linked ++ [routine]
      returns := 0 :: s.returns } cells' := by
  have hout : work ∉ cells.map Prod.fst := by
    intro hmem
    obtain ⟨c, hc, rfl⟩ := List.mem_map.mp hmem
    exact absurd ((h.chain.mem_eq hc).symm.trans hfree) (by simp)
  have hlent := h.lent.links hfree hout hcells hsame
  have hlength := congrArg List.length hcells
  rw [List.length_append, List.length_map, List.length_map, List.length_singleton] at hlength
  have hleft := h.unfinished
  refine ⟨h.running, h.max, hchain, hlent, ?_, ?_, h.counted, ?_, ?_⟩
  · show s.linked ++ [routine] = _
    rw [hroutines, h.order, List.append_assoc]
  · intro i
    have hpending : pending works' (s.threads i) = pending s.works (s.threads i) :=
      pending_congr fun q hwork => hsame q (hlent.held i q hwork).2
    show worksOf i s.ran ++ pending works' (s.threads i) = worksOf i s.taken
    rw [hpending]
    exact h.handed i
  · show s.finished + countWhere _ s.threads + cells'.length = (s.linked ++ [routine]).length
    rw [List.length_append, List.length_singleton]
    omega
  · show (0 :: s.returns).count 0 = (s.linked ++ [routine]).length
    rw [List.count_cons_self, h.accepted, List.length_append, List.length_singleton]

/-- **A work is always linked**, behind all others: the walk to the end of the list gets
there. -/
theorem Passes.links (h : s.Passes cells) {work : Nat} (hfree : s.works work = none) (routine : α) :
    ∃ works' head' cells', s.linkWork work routine = { s with
        works := works', queueHead := head', linked := s.linked ++ [routine]
        returns := 0 :: s.returns }
      ∧ (s.linkWork work routine).Passes cells' := by
  -- what is in the list is in use, and `work` was free
  have hne : ∀ c ∈ cells, c.1 ≠ work := by
    rintro c hc rfl
    exact absurd ((h.chain.mem_eq hc).symm.trans hfree) (by simp)
  unfold linkWork
  dsimp only
  generalize hworks : Function.update s.works work (some (⟨routine, none⟩ : TpoolWork α)) = works
  have hself : works work = some ⟨routine, none⟩ := by rw [← hworks, Function.update_self]
  have hrest : ∀ q, q ≠ work → works q = s.works q := by
    intro q hq
    rw [← hworks, Function.update_of_ne hq]
  have hchain : Chain TpoolWork.next works s.queueHead cells :=
    h.chain.congr fun c hc => hrest c.1 (hne c hc)
  cases hhead : s.queueHead with
  | none =>
      obtain rfl : cells = [] := h.chain.head_eq_none_iff.mp hhead
      refine ⟨works, some work, [(work, ⟨routine, none⟩)], rfl,
        h.linked hfree ⟨rfl, hself, rfl⟩ rfl rfl ?_⟩
      exact fun q hq => hrest q (by simpa using hq)
  | some member =>
      -- no list is longer than all that has been linked
      have hfuel : cells.length ≤ s.linked.length := by
        have := h.unfinished
        omega
      obtain ⟨rest, q, cell, rfl, hlast⟩ := hchain.lastCell_eq hhead hfuel
      have hcell : works q = some cell := hchain.mem_eq (by simp)
      have hq : q ≠ work := hne (q, cell) (by simp)
      dsimp only
      rw [hlast]
      dsimp only
      rw [hcell]
      dsimp only
      refine ⟨_, s.queueHead, rest ++ [(q, { cell with next := some work }), (work, ⟨routine, none⟩)],
        by rw [hhead], ?_⟩
      rw [← hhead]
      refine h.linked hfree ?_ (by simp) (by simp) ?_
      · -- the last cell now points to the new one
        have hnodup := h.lent.nodup
        refine hchain.append (Function.update_self ..) rfl ?_ rfl ?_
        · rw [Function.update_of_ne hq.symm]
          exact hself
        · -- and no cell before it has changed
          intro c hc
          refine Function.update_of_ne ?_ _ _
          rintro rfl
          rw [List.map_append, List.nodup_append] at hnodup
          exact hnodup.2.2 c.1 (List.mem_map_of_mem hc) c.1 (by simp) rfl
      · intro p hp
        simp only [List.map_append, List.map_cons, List.map_nil, List.mem_append, List.mem_cons,
          List.not_mem_nil, or_false, not_or] at hp
        rw [Function.update_of_ne hp.2.1]
        exact hrest p hp.2.2

/-- What a section of `tpool_add_work` can do. -/
inductive CallStep (s : Tpool n α) (k : Nat) : Tpool n α → Prop where
  /-- There is no such call, or no such answer of `calloc`. -/
  | stays (htest : ∀ routine, s.calls[k]? ≠ some (.test routine)) : CallStep s k s
  | refused {routine : Option α} (hcall : s.calls[k]? = some (.test routine))
      (hfull : s.maxThrNum ≤ s.workingCounts) :
      CallStep s k { s with calls := s.calls.eraseIdx k, returns := -2 :: s.returns }
  /-- The routine is null. -/
  | null (hcall : s.calls[k]? = some (.test none)) (hlimit : s.workingCounts < s.maxThrNum) :
      CallStep s k { s with calls := s.calls.eraseIdx k, returns := -1 :: s.returns }
  | passes {routine : α} (hcall : s.calls[k]? = some (.test (some routine)))
      (hlimit : s.workingCounts < s.maxThrNum) :
      CallStep s k { s with calls := .link routine :: s.calls.eraseIdx k }
  /-- There is no memory. -/
  | fails {routine : α} (hcall : s.calls[k]? = some (.link routine)) :
      CallStep s k { s with calls := s.calls.eraseIdx k, returns := -1 :: s.returns }
  | links {routine : α} {work : Nat} (hcall : s.calls[k]? = some (.link routine))
      (hfree : s.works work = none) :
      CallStep s k ({ s with calls := s.calls.eraseIdx k }.linkWork work routine)

theorem callStep (s : Tpool n α) (k : Nat) (calloc : Option Nat) :
    CallStep s k (s.tpoolAddWork k calloc) := by
  unfold tpoolAddWork
  cases hcall : s.calls[k]? with
  | none => exact .stays (by simp [hcall])
  | some call =>
    cases call with
    | test routine =>
        by_cases hfull : s.maxThrNum ≤ s.workingCounts
        · simp only [ge_iff_le, hfull, if_true]
          exact .refused hcall hfull
        · simp only [ge_iff_le, hfull, if_false]
          cases routine with
          | none => exact .null hcall (by omega)
          | some routine => exact .passes hcall (by omega)
    | link routine =>
        cases calloc with
        | none => exact .fails hcall
        | some work =>
            dsimp only
            split
            · rename_i hfree
              exact .links hcall (Option.isNone_iff_eq_none.mp hfree)
            · exact .stays (by simp [hcall])

/-- **A step of any thread or call.** -/
theorem Passes.step (h : s.Passes cells) (e : TpoolEvent n α) :
    ∃ cells', (s.step e).Passes cells' := by
  -- the calls under way are nobody's concern
  have hcalls : ∀ calls : List (AddWork α), Passes { s with calls := calls } cells :=
    fun _ => ⟨h.running, h.max, h.chain, h.lent, h.order, h.handed, h.counted, h.unfinished,
      h.accepted⟩
  have hreturns : ∀ (calls : List (AddWork α)) (r : Int), r ≠ 0 →
      Passes { s with calls := calls, returns := r :: s.returns } cells :=
    fun _ _ hr => ⟨h.running, h.max, h.chain, h.lent, h.order, h.handed, h.counted, h.unfinished,
      (List.count_cons_of_ne hr).trans h.accepted⟩
  cases e with
  | addWork routine => exact ⟨cells, hcalls _⟩
  | thread i => exact h.thread i
  | addWorkStep k calloc =>
      show ∃ cells', (s.tpoolAddWork k calloc).Passes cells'
      have hstep := s.callStep k calloc
      generalize s.tpoolAddWork k calloc = s' at hstep
      cases hstep with
      | stays _ => exact ⟨cells, h⟩
      | refused _ _ => exact ⟨cells, hreturns _ (-2) (by decide)⟩
      | null _ _ => exact ⟨cells, hreturns _ (-1) (by decide)⟩
      | passes _ _ => exact ⟨cells, hcalls _⟩
      | fails _ => exact ⟨cells, hreturns _ (-1) (by decide)⟩
      | links hcall hfree =>
          obtain ⟨_, _, cells', _, hpasses⟩ := (hcalls (s.calls.eraseIdx k)).links hfree _
          exact ⟨cells', hpasses⟩

end Calls

theorem passes_create (n : Nat) (α : Type) : (create n α).Passes [] := by
  have hnobody : ∀ p : ThreadRoutine → Bool, p .begins = false →
      countWhere p (create n α).threads = 0 := by
    intro p hp
    unfold countWhere
    rw [Finset.card_eq_zero]
    exact Finset.filter_false_of_mem fun i _ => by simp [create, hp]
  refine ⟨rfl, rfl, rfl, ⟨List.nodup_nil, ?_, ?_⟩, rfl, fun _ => rfl, ?_, ?_, rfl⟩
  · exact fun i p hwork => absurd hwork (by simp [create, ThreadRoutine.work])
  · exact fun i j p hwork => absurd hwork (by simp [create, ThreadRoutine.work])
  · rw [hnobody _ rfl]
    rfl
  · rw [hnobody _ rfl]
    rfl

/-! ## Runs -/

theorem passes_trail {es : List (TpoolEvent n α)} {s : Tpool n α}
    (hs : s ∈ Machine.trail step (create n α) es) : ∃ cells, s.Passes cells :=
  Machine.inv_trail step (fun s => ∃ cells, s.Passes cells) (fun _ e h _ => h.elim fun _ h => h.step e)
    ⟨[], passes_create n α⟩ (Machine.along_true step _ es) s hs

/-- **Works are taken in the order they are linked, and `working_counts` is the number of
threads that count.** -/
theorem works_taken_in_order (n : Nat) (α : Type) (es : List (TpoolEvent n α)) :
    ∀ s ∈ Machine.trail step (create n α) es,
      s.returns.count 0 = s.linked.length
        ∧ s.taken.map Prod.snd <+: s.linked
        ∧ (∀ i, worksOf i s.ran ++ pending s.works (s.threads i) = worksOf i s.taken)
        ∧ s.workingCounts = countWhere ThreadRoutine.counted s.threads
        ∧ 0 ≤ s.workingCounts ∧ s.workingCounts ≤ s.maxThrNum := by
  intro s hs
  obtain ⟨cells, h⟩ := passes_trail hs
  have hle := countWhere_le ThreadRoutine.counted s.threads
  rw [Fintype.card_fin] at hle
  refine ⟨h.accepted, ⟨_, h.order.symm⟩, h.handed, h.counted, ?_, ?_⟩
  · rw [h.counted]
    omega
  · rw [h.counted, h.max]
    omega

/-- One of two threads takes the first of two works. -/
def firstTaken : List (TpoolEvent 2 Nat) :=
  [.thread (Fin.last 1), .addWork (some 10), .addWorkStep 0 none, .addWorkStep 0 (some 1),
    .addWork (some 20), .addWorkStep 0 none, .addWorkStep 0 (some 2), .thread (Fin.last 1)]

theorem firstTaken_in_order :
    let s := Machine.run step (create 2 Nat) firstTaken
    s.taken = [(Fin.last 1, 10)] ∧ s.taken.map Prod.snd <+: s.linked
      ∧ s.workingCounts = countWhere ThreadRoutine.counted s.threads := by
  obtain ⟨_, horder, _, hcount, _⟩ :=
    works_taken_in_order 2 Nat firstTaken _ (Machine.run_mem_trail step _ _)
  exact ⟨by decide +kernel, horder, hcount⟩

end Tpool

end TraceServer
