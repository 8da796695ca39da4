import TraceServer.Startup
import TraceServer.Proof.Threadpool

/-!
# Every worker gets a thread

`tpool_add_work` lets a call through when fewer works are counted than there are threads, and can
be passed more than it has threads for. At the start it is not: there are as many workers as
threads, they are passed once each, and a thread that has one keeps it. So no call is refused, and
once every thread has been scheduled twice, each of the workers that there was memory for is run by
a thread of its own. A pool that is filled in this way refuses everything after.
-/

namespace TraceServer

variable {n : Nat} {α : Type}

/-! ## One section of a thread -/

namespace Tpool

/-- What a section of `thread_routine` can do, in a pool that is not shut down. -/
inductive ThreadStep (s : Tpool n α) (i : Fin n) : Tpool n α → Prop where
  | begins (hold : s.threads i = .begins) :
      ThreadStep s i { s.setThread i .waits with workerCounts := s.workerCounts + 1 }
  /-- There is no work. -/
  | idles (hold : s.threads i = .waits) (hempty : s.queueHead = none) : ThreadStep s i s
  | takes {p : Nat} {w : TpoolWork α} (hold : s.threads i = .waits) (hhead : s.queueHead = some p)
      (hwork : s.works p = some w) :
      ThreadStep s i { s.setThread i (.taken p) with
        queueHead := w.next, taken := s.taken ++ [(i, w.routine)] }
  | calls {p : Nat} (hold : s.threads i = .taken p) :
      ThreadStep s i { s.setThread i (.runs p) with
        workingCounts := s.workingCounts + 1
        ran := s.ran ++ ((s.works p).map fun w => (i, w.routine)).toList }
  | finishes {p : Nat} (hold : s.threads i = .runs p) :
      ThreadStep s i { s.setThread i .returned with
        works := Function.update s.works p none, finished := s.finished + 1 }
  | returns (hold : s.threads i = .returned) :
      ThreadStep s i { s.setThread i .waits with workingCounts := s.workingCounts - 1 }
  | exited (hold : s.threads i = .exited) : ThreadStep s i s

variable {s : Tpool n α} {cells : List (Nat × TpoolWork α)}

theorem Passes.threadStep (h : s.Passes cells) (i : Fin n) :
    ThreadStep s i (s.threadRoutine i) := by
  unfold threadRoutine
  cases hold : s.threads i with
  | begins => exact .begins hold
  | waits =>
      dsimp only
      cases cells with
      | nil =>
          have hempty : s.queueHead = none := h.chain
          rw [if_pos ⟨by rw [hempty]; rfl, h.running⟩]
          exact .idles hold hempty
      | cons c cells =>
          obtain ⟨hhead, hcell, _⟩ := h.chain
          rw [if_neg (by simp [hhead]), if_neg (by simp [h.running]), hhead]
          dsimp only
          rw [hcell]
          exact .takes hold hhead hcell
  | taken p => exact .calls hold
  | runs p => exact .finishes hold
  | returned => exact .returns hold
  | exited => exact .exited hold

end Tpool

/-! ## The start -/

def ThreadRoutine.begun (t : ThreadRoutine) : Bool := decide (t ≠ .begins)

/-- The workers that `main` has passed to `tpool_add_work`. -/
def StartupMain.passed (n : Nat) : StartupMain → Nat
  | waits => 0
  | adds i => i
  | monitors => n

/-- The only call under way is the one for the worker that `main` has come to. -/
inductive Calling : StartupMain → List (AddWork (Fin n)) → Prop where
  | none {main : StartupMain} : Calling main []
  | test {i : Nat} (hi : i < n) : Calling (.adds i) [.test (some ⟨i, hi⟩)]
  | link {i : Nat} (hi : i < n) : Calling (.adds i) [.link ⟨i, hi⟩]

/-- What holds all through the start. -/
structure Starting (s : Startup n) : Prop where
  passes : ∃ cells, s.tpool.Passes cells
  workers : s.tpool.workerCounts = countWhere ThreadRoutine.begun s.tpool.threads
  /-- A thread has the one work it has taken, and keeps it. -/
  busy : ∀ i, i ∈ s.tpool.taken.map Prod.fst ↔ (s.tpool.threads i).occupied = true
  once : (s.tpool.taken.map Prod.fst).Nodup
  kept : ∀ i, s.tpool.threads i ≠ .returned ∧ s.tpool.threads i ≠ .exited
  ready : s.main ≠ .waits → ∀ i, s.tpool.threads i ≠ .begins
  passed : s.main.passed n ≤ n
  inOrder : s.tpool.linked.Sublist ((List.finRange n).take (s.main.passed n))
  results : s.tpool.linked.length + s.tpool.returns.count (-1) = s.main.passed n
  accepted : s.tpool.returns.count (-2) = 0
  calling : Calling s.main s.tpool.calls

namespace Starting

variable {s : Startup n}

/-- The threads with a work are as many as there are works taken. -/
theorem occupied_eq (h : Starting s) :
    countWhere ThreadRoutine.occupied s.tpool.threads = s.tpool.taken.length := by
  have hfinset : (Finset.univ.filter fun i => (s.tpool.threads i).occupied = true)
      = (s.tpool.taken.map Prod.fst).toFinset := by
    ext i
    rw [Finset.mem_filter, List.mem_toFinset, h.busy i]
    simp
  rw [countWhere, hfinset, List.toFinset_card_of_nodup h.once, List.length_map]

/-- A thread that is counted has a work. -/
theorem workingCounts_le (h : Starting s) : s.tpool.workingCounts ≤ s.tpool.taken.length := by
  obtain ⟨cells, hpasses⟩ := h.passes
  rw [hpasses.counted, ← h.occupied_eq, Int.ofNat_le]
  refine Finset.card_le_card ?_
  intro i hi
  rw [Finset.mem_filter] at hi ⊢
  refine ⟨hi.1, ?_⟩
  have hkept := (h.kept i).1
  have hcounted := hi.2
  cases hthread : s.tpool.threads i with
  | runs p => rfl
  | returned => exact absurd hthread hkept
  | _ => rw [hthread] at hcounted; exact absurd hcounted (by simp [ThreadRoutine.counted])

theorem taken_le (h : Starting s) : s.tpool.taken.length ≤ s.tpool.linked.length := by
  obtain ⟨cells, hpasses⟩ := h.passes
  rw [hpasses.order, List.length_append, List.length_map]
  omega

/-- While there are workers left to pass, no call is refused. -/
theorem workingCounts_lt (h : Starting s) {i : Nat} (hmain : s.main = .adds i) (hi : i < n) :
    s.tpool.workingCounts < s.tpool.maxThrNum := by
  obtain ⟨cells, hpasses⟩ := h.passes
  have hworking := h.workingCounts_le
  have htaken := h.taken_le
  have hresults := h.results
  rw [hmain, StartupMain.passed] at hresults
  rw [hpasses.max]
  omega

/-- Where the other threads stand is not changed. -/
theorem update_forall {threads : Fin n → ThreadRoutine} {P : ThreadRoutine → Prop} {i : Fin n}
    {t : ThreadRoutine} (h : ∀ j, P (threads j)) (ht : P t) :
    ∀ j, P (Function.update threads i t j) := by
  intro j
  by_cases hj : j = i
  · rw [hj, Function.update_self]
    exact ht
  · rw [Function.update_of_ne hj]
    exact h j

/-- **A section of a thread.** -/
theorem thread (h : Starting s) (i : Fin n) : Starting (s.threadStep i) := by
  obtain ⟨cells, hpasses⟩ := h.passes
  have hnext := hpasses.step (.thread i)
  have hstep := hpasses.threadStep i
  have hbegun := fun t => countWhere_update ThreadRoutine.begun s.tpool.threads i t
  -- a thread that has the work it had
  have hbusy : ∀ t : ThreadRoutine, t.occupied = (s.tpool.threads i).occupied → ∀ j,
      j ∈ s.tpool.taken.map Prod.fst ↔ (Function.update s.tpool.threads i t j).occupied = true := by
    intro t ht j
    rw [h.busy j]
    by_cases hj : j = i
    · rw [hj, Function.update_self, ht]
    · rw [Function.update_of_ne hj]
  have hstays : ∀ {s' : Startup n}, s' = s → Starting s' := fun heq => heq ▸ h
  unfold Startup.threadStep
  split
  · exact h
  · rename_i hruns
    show Starting { s with tpool := s.tpool.threadRoutine i }
    change ∃ cells', (s.tpool.threadRoutine i).Passes cells' at hnext
    generalize s.tpool.threadRoutine i = tpool at hstep hnext
    cases hstep with
    | begins hold =>
        have hcount := hbegun .waits
        rw [hold] at hcount
        refine ⟨hnext, ?_, hbusy .waits (by rw [hold]; rfl), h.once,
          update_forall (P := fun t => t ≠ .returned ∧ t ≠ .exited) h.kept (by simp),
          fun hmain => update_forall (P := (· ≠ .begins)) (h.ready hmain) (by simp),
          h.passed, h.inOrder, h.results, h.accepted, h.calling⟩
        have hworkers := h.workers
        simp only [ThreadRoutine.begun, ne_eq, not_true_eq_false, decide_false, reduceCtorEq,
          not_false_eq_true, decide_true, Bool.toNat_true, Bool.toNat_false] at hcount
        show s.tpool.workerCounts + 1
          = countWhere ThreadRoutine.begun (Function.update s.tpool.threads i .waits)
        omega
    | idles _ _ => exact h
    | takes hold hhead hwork =>
        rename_i p w
        have hcount := hbegun (.taken p)
        rw [hold] at hcount
        have hnew : i ∉ s.tpool.taken.map Prod.fst := by
          rw [h.busy i, hold]
          simp [ThreadRoutine.occupied, ThreadRoutine.work]
        refine ⟨hnext, ?_, ?_, ?_,
          update_forall (P := fun t => t ≠ .returned ∧ t ≠ .exited) h.kept (by simp),
          fun hmain => update_forall (P := (· ≠ .begins)) (h.ready hmain) (by simp),
          h.passed, h.inOrder, h.results, h.accepted, h.calling⟩
        · exact h.workers.trans (congrArg Nat.cast (Nat.add_right_cancel hcount.symm))
        · intro j
          show _ ↔ (Function.update s.tpool.threads i (.taken p) j).occupied = true
          rw [List.map_append, List.mem_append, h.busy j]
          by_cases hj : j = i
          · rw [hj, Function.update_self]
            exact ⟨fun _ => rfl, fun _ => .inr List.mem_cons_self⟩
          · rw [Function.update_of_ne hj]
            simp [hj]
        · rw [List.map_append]
          exact h.once.append (List.nodup_singleton i) (List.disjoint_singleton.mpr hnew)
    | calls hold =>
        rename_i p
        have hcount := hbegun (.runs p)
        rw [hold] at hcount
        refine ⟨hnext, ?_, hbusy (.runs p) (by rw [hold]; rfl), h.once,
          update_forall (P := fun t => t ≠ .returned ∧ t ≠ .exited) h.kept (by simp),
          fun hmain => update_forall (P := (· ≠ .begins)) (h.ready hmain) (by simp),
          h.passed, h.inOrder, h.results, h.accepted, h.calling⟩
        exact h.workers.trans (congrArg Nat.cast (Nat.add_right_cancel hcount.symm))
    | finishes hold => exact absurd hold (hruns _)
    | returns hold => exact absurd hold (h.kept i).1
    | exited hold => exact h

theorem ready_of_counted (h : Starting s) (hcount : s.tpool.workerCounts = n) :
    ∀ i, s.tpool.threads i ≠ .begins := by
  have hall : countWhere ThreadRoutine.begun s.tpool.threads = n := by
    have := h.workers
    omega
  have hcard : (Finset.univ.filter fun i => (s.tpool.threads i).begun = true).card
      = (Finset.univ : Finset (Fin n)).card := by
    rw [Finset.card_univ, Fintype.card_fin]
    exact hall
  intro i
  exact of_decide_eq_true (Finset.card_filter_eq_iff.mp hcard i (Finset.mem_univ i))

/-- **A call of `tpool_add_work` for worker `i`** takes its next section. -/
theorem call (h : Starting s) {i : Nat} (hmain : s.main = .adds i) (hi : i < n)
    (hcalls : s.tpool.calls ≠ []) (calloc : Option Nat) :
    Starting ⟨s.tpool.step (.addWorkStep 0 calloc),
      if (s.tpool.step (.addWorkStep 0 calloc)).calls.isEmpty then .adds (i + 1) else .adds i⟩ := by
  obtain ⟨cells, hpasses⟩ := h.passes
  have hnext := hpasses.step (.addWorkStep 0 calloc)
  have hlimit := h.workingCounts_lt hmain hi
  have hinOrder := h.inOrder
  have hresults := h.results
  have hcalling := h.calling
  have hready := h.ready (by rw [hmain]; simp)
  rw [hmain] at hinOrder hresults hcalling
  have hstep := s.tpool.callStep 0 calloc
  change ∃ cells', (s.tpool.tpoolAddWork 0 calloc).Passes cells' at hnext
  show Starting ⟨s.tpool.tpoolAddWork 0 calloc,
    if (s.tpool.tpoolAddWork 0 calloc).calls.isEmpty then .adds (i + 1) else .adds i⟩
  generalize s.tpool.tpoolAddWork 0 calloc = tpool at hstep hnext
  generalize hunder : s.tpool.calls = calls at hcalling hcalls hstep
  cases hcalling with
  | none => exact absurd rfl hcalls
  | test _ =>
      cases hstep with
      | stays htest => exact absurd (by rw [hunder]; rfl) (htest (some ⟨i, hi⟩))
      | refused _ hfull => omega
      | null hcall _ => rw [hunder] at hcall; exact absurd hcall (by simp)
      | passes hcall _ =>
          rw [hunder] at hcall
          cases hcall
          refine ⟨hnext, h.workers, h.busy, h.once, h.kept, fun _ => hready, Nat.le_of_lt hi, hinOrder,
            hresults, h.accepted, ?_⟩
          show Calling (.adds i) (.link ⟨i, hi⟩ :: s.tpool.calls.eraseIdx 0)
          rw [hunder]
          exact .link hi
      | fails hcall => rw [hunder] at hcall; exact absurd hcall (by simp)
      | links hcall _ => rw [hunder] at hcall; exact absurd hcall (by simp)
  | link _ =>
      cases hstep with
      | stays htest =>
          refine ⟨hnext, h.workers, h.busy, h.once, h.kept, fun _ => hready, ?_, ?_, ?_, h.accepted,
            ?_⟩
          all_goals rw [hunder]
          · exact Nat.le_of_lt hi
          · exact hinOrder
          · exact hresults
          · exact .link hi
      | refused _ hfull => omega
      | null hcall _ => rw [hunder] at hcall; exact absurd hcall (by simp)
      | passes hcall _ => rw [hunder] at hcall; exact absurd hcall (by simp)
      | fails hcall =>
          -- there is no memory, and `main` goes on to the next worker
          refine ⟨hnext, h.workers, h.busy, h.once, h.kept, fun _ => hready, ?_, ?_, ?_, ?_, ?_⟩
          all_goals rw [hunder]
          · exact hi
          · exact hinOrder.trans (List.take_sublist_take_left (Nat.le_succ i))
          · show s.tpool.linked.length + (-1 :: s.tpool.returns).count (-1) = i + 1
            rw [List.count_cons_self, ← Nat.add_assoc, hresults]
            rfl
          · exact (List.count_cons_of_ne (by decide)).trans h.accepted
          · exact .none
      | links hcall hfree =>
          rename_i routine work
          rw [hunder] at hcall
          cases hcall
          have hpasses' : Tpool.Passes { s.tpool with calls := s.tpool.calls.eraseIdx 0 } cells :=
            ⟨hpasses.running, hpasses.max, hpasses.chain, hpasses.lent, hpasses.order, hpasses.handed,
              hpasses.counted, hpasses.unfinished, hpasses.accepted⟩
          obtain ⟨_, _, _, hlinks, _⟩ := hpasses'.links hfree ⟨i, hi⟩
          rw [hlinks] at hnext ⊢
          have hempty : s.tpool.calls.eraseIdx 0 = [] := by rw [hunder]; rfl
          show Starting ⟨_, if (s.tpool.calls.eraseIdx 0).isEmpty then .adds (i + 1) else .adds i⟩
          rw [hempty] at hnext ⊢
          refine ⟨hnext, h.workers, h.busy, h.once, h.kept, fun _ => hready, ?_, ?_, ?_, ?_, ?_⟩
          · exact hi
          · show (s.tpool.linked ++ [(⟨i, hi⟩ : Fin n)]).Sublist ((List.finRange n).take (i + 1))
            have htake := List.take_append_getElem (l := List.finRange n) (i := i)
              (by rw [List.length_finRange]; exact hi)
            rw [List.getElem_finRange] at htake
            rw [← htake]
            exact hinOrder.append (List.Sublist.refl _)
          · show (s.tpool.linked ++ [(⟨i, hi⟩ : Fin n)]).length + (0 :: s.tpool.returns).count (-1)
              = i + 1
            have hresults : s.tpool.linked.length + s.tpool.returns.count (-1) = i := hresults
            rw [List.length_append, List.length_singleton, List.count_cons_of_ne (by decide)]
            omega
          · exact (List.count_cons_of_ne (by decide)).trans h.accepted
          · exact .none

/-- **What `main` does next.** -/
theorem main (h : Starting s) (calloc : Option Nat) : Starting (s.mainStep calloc) := by
  obtain ⟨cells, hpasses⟩ := h.passes
  unfold Startup.mainStep
  split
  · -- all threads have begun
    rename_i hmain
    split
    · exact h
    · rename_i hcount
      have hready := h.ready_of_counted (not_not.mp hcount)
      have hinOrder := h.inOrder
      have hresults := h.results
      rw [hmain] at hinOrder hresults
      have hcalls : s.tpool.calls = [] := by
        have hcalling := h.calling
        rw [hmain] at hcalling
        generalize s.tpool.calls = calls at hcalling
        cases hcalling
        rfl
      exact ⟨h.passes, h.workers, h.busy, h.once, h.kept, fun _ => hready, Nat.zero_le _, hinOrder,
        hresults, h.accepted, by rw [hcalls]; exact .none⟩
  · rename_i i hmain
    have hinOrder := h.inOrder
    have hresults := h.results
    have hcalling := h.calling
    rw [hmain] at hinOrder hresults hcalling
    split
    · rename_i hi
      have hlimit := h.workingCounts_lt hmain hi
      split
      · -- the call begins
        rename_i hcalls
        have hready := h.ready (by rw [hmain]; simp)
        have hnil : s.tpool.calls = [] := List.isEmpty_iff.mp hcalls
        refine ⟨hpasses.step (.addWork (some ⟨i, hi⟩)), h.workers, h.busy, h.once, h.kept,
          fun _ => hready, h.passed, h.inOrder, h.results, h.accepted, ?_⟩
        show Calling s.main (.test (some ⟨i, hi⟩) :: s.tpool.calls)
        rw [hmain, hnil]
        exact .test hi
      · rename_i hcalls
        exact h.call hmain hi (fun hnil => hcalls (List.isEmpty_iff.mpr hnil)) calloc
    · -- all workers have been passed
      rename_i hi
      have hle := h.passed
      rw [hmain] at hle
      obtain rfl : i = n := Nat.le_antisymm hle (Nat.not_lt.mp hi)
      have hcalls : s.tpool.calls = [] := by
        generalize s.tpool.calls = calls at hcalling
        cases hcalling with
        | none => rfl
        | test hi' => exact absurd hi' hi
        | link hi' => exact absurd hi' hi
      exact ⟨h.passes, h.workers, h.busy, h.once, h.kept, fun _ => h.ready (by rw [hmain]; simp),
        Nat.le_refl _, hinOrder, hresults, h.accepted, by rw [hcalls]; exact .none⟩
  · exact h

end Starting

/-- The one work in a log that is thread `i`'s. -/
theorem worksOf_of_nodup {log : List (Fin n × α)} {i : Fin n} {w : α}
    (hnodup : (log.map Prod.fst).Nodup) (hmem : (i, w) ∈ log) : worksOf i log = [w] := by
  induction log with
  | nil => exact absurd hmem (by simp)
  | cons x log ih =>
      obtain ⟨hfirst, hrest⟩ := List.nodup_cons.mp hnodup
      have hnone : x.1 = i → ∀ y ∈ log, y.1 ≠ i := by
        rintro rfl y hy heq
        exact hfirst (heq ▸ List.mem_map_of_mem hy)
      rcases List.mem_cons.mp hmem with rfl | hmem
      · have hempty : log.filter (·.1 = i) = [] :=
          List.filter_eq_nil_iff.mpr fun y hy => by simpa using hnone rfl y hy
        rw [worksOf, List.filter_cons_of_pos (by simp), hempty]
        rfl
      · have hne : x.1 ≠ i := fun heq => hnone heq _ hmem rfl
        rw [worksOf, List.filter_cons_of_neg (by simpa using hne)]
        exact ih hrest hmem

/-! ## Runs -/

namespace Startup

theorem starting_init (n : Nat) : Starting (init n) where
  passes := ⟨[], Tpool.passes_create n (Fin n)⟩
  workers := by
    have hnone : countWhere ThreadRoutine.begun (fun _ : Fin n => ThreadRoutine.begins) = 0 := by
      rw [countWhere, Finset.card_eq_zero, Finset.filter_eq_empty_iff]
      intro i _
      decide
    exact (congrArg Nat.cast hnone).symm
  busy i := by simp [init, Tpool.create, ThreadRoutine.occupied, ThreadRoutine.work]
  once := List.nodup_nil
  kept _ := ⟨by simp [init, Tpool.create], by simp [init, Tpool.create]⟩
  ready h := absurd rfl h
  passed := Nat.zero_le n
  inOrder := List.nil_sublist _
  results := rfl
  accepted := rfl
  calling := .none

theorem starting_step {s : Startup n} (h : Starting s) (e : StartupEvent n) :
    Starting (s.step e) := by
  cases e with
  | main calloc => exact h.main calloc
  | thread i => exact h.thread i

theorem starting_trail {es : List (StartupEvent n)} {s : Startup n}
    (hs : s ∈ Machine.trail step (init n) es) : Starting s :=
  Machine.inv_trail step Starting (fun _ e h _ => starting_step h e) (starting_init n)
    (Machine.along_true step _ es) s hs

/-- Nothing is refused, and nothing is left without a thread. -/
structure Lossless (s : Startup n) : Prop where
  refused : s.tpool.returns.count (-2) = 0
  /-- The workers passed are in the list or were, but for those there was no memory for. -/
  inOrder : s.tpool.linked.Sublist ((List.finRange n).take (s.main.passed n))
  results : s.tpool.linked.length + s.tpool.returns.count (-1) = s.main.passed n
  taken : s.tpool.taken.map Prod.snd <+: s.tpool.linked
  apart : (s.tpool.taken.map Prod.fst).Nodup
  /-- For every worker in the list there is a thread without one. -/
  enough : s.tpool.linked.length - s.tpool.taken.length
    ≤ countWhere (fun t => !t.occupied) s.tpool.threads

theorem lossless_of_starting {s : Startup n} (h : Starting s) : Lossless s := by
  obtain ⟨cells, hpasses⟩ := h.passes
  have hfree := Finset.card_filter_add_card_filter_not (s := (Finset.univ : Finset (Fin n)))
    fun i => (s.tpool.threads i).occupied = true
  have hoccupied := h.occupied_eq
  have hresults := h.results
  have hpassed := h.passed
  refine ⟨h.accepted, h.inOrder, h.results, ?_, h.once, ?_⟩
  · rw [hpasses.order]
    exact List.prefix_append _ _
  · have hcount : countWhere (fun t => !t.occupied) s.tpool.threads
        = (Finset.univ.filter fun i => ¬ (s.tpool.threads i).occupied = true).card := by
      unfold countWhere
      simp
    rw [Finset.card_univ, Fintype.card_fin] at hfree
    rw [hcount]
    unfold countWhere at hoccupied
    omega

/-- **No worker is refused or left out**, whatever the threads and `main` do in which order. -/
theorem start_lossless (n : Nat) (es : List (StartupEvent n)) :
    ∀ s ∈ Machine.trail step (init n) es, Lossless s :=
  fun _ hs => lossless_of_starting (starting_trail hs)

/-- Two workers are passed to two threads. -/
def twoWorkers : List (StartupEvent 2) :=
  [.thread 0, .thread 1, .main none, .main none, .main none, .main (some 1), .main none, .main none,
    .main (some 2), .main none]

theorem twoWorkers_lossless : Lossless (Machine.run step (init 2) twoWorkers) :=
  start_lossless 2 twoWorkers _ (Machine.run_mem_trail step _ _)

/-! ## The end of the start -/

/-- Thread `i` after `k` turns, when all workers have been passed. -/
def Turned (s : Startup n) (i : Fin n) (k : Nat) : Prop :=
  (∃ p, s.tpool.threads i = .runs p)
    ∨ (s.tpool.threads i = .waits ∧ (s.tpool.queueHead = none ∨ k = 0))
    ∨ ((∃ p, s.tpool.threads i = .taken p) ∧ k ≤ 1)

/-- An empty list that stays empty is all that matters of the rest. -/
theorem turned_congr {s s' : Startup n} {i : Fin n} {k : Nat}
    (hthread : s'.tpool.threads i = s.tpool.threads i)
    (hempty : s.tpool.queueHead = none → s'.tpool.queueHead = none) (h : Turned s i k) :
    Turned s' i k := by
  unfold Turned at h ⊢
  rw [hthread]
  rcases h with hruns | ⟨hwaits, hnone⟩ | htaken
  · exact .inl hruns
  · exact .inr (.inl ⟨hwaits, hnone.imp_left hempty⟩)
  · exact .inr (.inr htaken)

/-- `main` stays in its last loop. -/
theorem monitors_step {s : Startup n} (hmain : s.main = .monitors) (e : StartupEvent n) :
    (s.step e).main = .monitors := by
  cases e with
  | main calloc =>
      show (s.mainStep calloc).main = _
      unfold mainStep
      rw [hmain]
      exact hmain
  | thread j =>
      show (s.threadStep j).main = _
      unfold threadStep
      split
      · exact hmain
      · exact hmain

/-- **A turn brings a thread on, unless there is nothing for it to do.** -/
theorem turned_step {s : Startup n} (h : Starting s) (hmain : s.main = .monitors) {i : Fin n}
    {k : Nat}
    (hturned : Turned s i k) (e : StartupEvent n) :
    Turned (s.step e) i (if e = .thread i then k + 1 else k) := by
  cases e with
  | main calloc =>
      have hstays : s.mainStep calloc = s := by
        unfold mainStep
        rw [hmain]
      show Turned (s.mainStep calloc) i _
      rw [hstays]
      exact hturned
  | thread j =>
      obtain ⟨cells, hpasses⟩ := h.passes
      have hstep := hpasses.threadStep j
      show Turned (s.threadStep j) i _
      unfold threadStep
      split
      · rename_i p hruns
        by_cases hj : j = i
        · rw [← hj]
          exact .inl ⟨p, hruns⟩
        · rw [if_neg (by simp [hj])]
          exact hturned
      · rename_i hruns
        show Turned { s with tpool := s.tpool.threadRoutine j } i _
        generalize s.tpool.threadRoutine j = tpool at hstep
        by_cases hj : j = i
        · subst hj
          rw [if_pos rfl]
          cases hstep with
          | begins hold => exact absurd hold (h.ready (by rw [hmain]; simp) j)
          | idles hold hempty => exact .inr (.inl ⟨hold, .inl hempty⟩)
          | takes hold hhead _ =>
              refine .inr (.inr ⟨⟨_, Function.update_self ..⟩, ?_⟩)
              rcases hturned with ⟨p, hruns⟩ | ⟨_, hempty | hk⟩ | ⟨⟨p, htaken⟩, _⟩
              · exact absurd (hold.symm.trans hruns) (by simp)
              · exact absurd (hhead.symm.trans hempty) (by simp)
              · omega
              · exact absurd (hold.symm.trans htaken) (by simp)
          | calls hold => exact .inl ⟨_, Function.update_self ..⟩
          | finishes hold => exact absurd hold (hruns _)
          | returns hold => exact absurd hold (h.kept j).1
          | exited hold => exact absurd hold (h.kept j).2
        · -- the turn of another thread
          rw [if_neg (by simp [hj])]
          have hother : ∀ t, Function.update s.tpool.threads j t i = s.tpool.threads i :=
            fun t => Function.update_of_ne (Ne.symm hj) t s.tpool.threads
          cases hstep with
          | begins _ => exact turned_congr (hother _) (fun h => h) hturned
          | idles _ _ => exact hturned
          | takes _ hhead _ =>
              exact turned_congr (hother _) (fun h => absurd (hhead.symm.trans h) (by simp)) hturned
          | calls _ => exact turned_congr (hother _) (fun h => h) hturned
          | finishes _ => exact turned_congr (hother _) (fun h => h) hturned
          | returns _ => exact turned_congr (hother _) (fun h => h) hturned
          | exited _ => exact hturned

theorem turned_run : ∀ (fs : List (StartupEvent n)) {s : Startup n} {k : Fin n → Nat}, Starting s →
    s.main = .monitors → (∀ i, Turned s i (k i)) →
    (Machine.run step s fs).main = .monitors
      ∧ ∀ i, Turned (Machine.run step s fs) i (k i + fs.count (.thread i))
  | [], _, _, _, hmain, hturned => ⟨hmain, hturned⟩
  | e :: fs, s, k, h, hmain, hturned => by
      have hnext := fun i => turned_step h hmain (hturned i) e
      obtain ⟨hmain', hrun⟩ := turned_run fs (starting_step h e) (monitors_step hmain e) hnext
      refine ⟨hmain', ?_⟩
      intro i
      have hturned' := hrun i
      rw [Machine.run_cons]
      by_cases he : e = .thread i
      · subst he
        rw [if_pos rfl, Nat.add_assoc, Nat.add_comm 1] at hturned'
        rwa [List.count_cons_self]
      · rw [if_neg he] at hturned'
        rwa [List.count_cons_of_ne he]

/-- The start is over. -/
structure Started (s : Startup n) : Prop where
  /-- Every worker that there was memory for has a thread of its own, which runs it and nothing
    else, and no other thread has run it. -/
  own : ∀ w ∈ s.tpool.linked, ∃ i p, s.tpool.threads i = .runs p ∧ worksOf i s.tpool.ran = [w]
    ∧ ∀ j ≠ i, w ∉ worksOf j s.tpool.ran
  memory : s.tpool.linked.length + s.tpool.returns.count (-1) = n
  counted : s.tpool.workingCounts = s.tpool.linked.length
  /-- If that is all of them, the pool takes nothing any more. -/
  full : s.tpool.returns.count (-1) = 0 → s.tpool.linked = List.finRange n
    ∧ ∀ routine calloc, ((s.tpool.step (.addWork routine)).step (.addWorkStep 0 calloc)).returns
      = -2 :: s.tpool.returns

/-- A thread that is done with its turns runs a worker, or waits and finds no more. -/
def Settled (s : Startup n) : Prop :=
  ∀ i, (∃ p, s.tpool.threads i = .runs p)
    ∨ (s.tpool.threads i = .waits ∧ s.tpool.queueHead = none)

/-- Were a work left, all threads would have one. -/
theorem Settled.linked_eq {s : Startup n} (hsettled : Settled s) (h : Starting s) :
    s.tpool.linked = s.tpool.taken.map Prod.snd := by
  obtain ⟨cells, hpasses⟩ := h.passes
  have hoccupied := h.occupied_eq
  have hresults := h.results
  have hpassed := h.passed
  have hcells : cells = [] := by
    by_contra hne
    have hhead : s.tpool.queueHead ≠ none :=
      fun hnone => hne (hpasses.chain.head_eq_none_iff.mp hnone)
    have hall : countWhere ThreadRoutine.occupied s.tpool.threads = n := by
      rw [countWhere, Finset.filter_true_of_mem, Finset.card_univ, Fintype.card_fin]
      intro i _
      rcases hsettled i with ⟨p, hruns⟩ | ⟨_, hnone⟩
      · rw [hruns]
        rfl
      · exact absurd hnone hhead
    have hleft := congrArg List.length hpasses.order
    have hpos := List.length_pos_iff.mpr hne
    rw [List.length_append, List.length_map, List.length_map] at hleft
    omega
  rw [hpasses.order, hcells, List.map_nil, List.append_nil]

theorem Settled.workingCounts_eq {s : Startup n} (hsettled : Settled s) (h : Starting s) :
    s.tpool.workingCounts = s.tpool.linked.length := by
  obtain ⟨cells, hpasses⟩ := h.passes
  have hcounted : countWhere ThreadRoutine.counted s.tpool.threads
      = countWhere ThreadRoutine.occupied s.tpool.threads := by
    refine congrArg Finset.card (Finset.filter_congr fun i _ => ?_)
    rcases hsettled i with ⟨p, hruns⟩ | ⟨hwaits, _⟩
    · rw [hruns]
      exact ⟨fun _ => rfl, fun _ => rfl⟩
    · rw [hwaits]
      decide
  rw [hpasses.counted, hcounted, h.occupied_eq, hsettled.linked_eq h, List.length_map]

/-- A thread that has taken a work runs it, and nobody else has run it if it was passed once. -/
theorem Settled.runs {s : Startup n} (hsettled : Settled s) (h : Starting s)
    (honce : (s.tpool.taken.map Prod.snd).Nodup) {i w : Fin n} (hmem : (i, w) ∈ s.tpool.taken) :
    ∃ p, s.tpool.threads i = .runs p ∧ worksOf i s.tpool.ran = [w]
      ∧ ∀ j ≠ i, w ∉ worksOf j s.tpool.ran := by
  obtain ⟨cells, hpasses⟩ := h.passes
  have hbusy := (h.busy i).mp (List.mem_map_of_mem hmem)
  rcases hsettled i with ⟨p, hruns⟩ | ⟨hwaits, _⟩
  · have hhanded := hpasses.handed i
    have hcalled : pending s.tpool.works (.runs p) = [] := rfl
    rw [hruns, hcalled, List.append_nil] at hhanded
    refine ⟨p, hruns, by rw [hhanded, worksOf_of_nodup h.once hmem], ?_⟩
    intro j hj hran
    have htaken : (j, w) ∈ s.tpool.taken := by
      rw [← mem_worksOf, ← hpasses.handed j]
      exact List.mem_append_left _ hran
    exact hj (congrArg Prod.fst (List.inj_on_of_nodup_map honce htaken hmem rfl))
  · rw [hwaits] at hbusy
    exact absurd hbusy (by decide)

theorem started_of_starting {s : Startup n} (h : Starting s) (hmain : s.main = .monitors)
    (hsettled : Settled s) : Started s := by
  obtain ⟨cells, hpasses⟩ := h.passes
  have horder := hsettled.linked_eq h
  have hworking := hsettled.workingCounts_eq h
  have hresults := h.results
  have hinOrder := h.inOrder
  rw [hmain, StartupMain.passed] at hresults
  rw [hmain, StartupMain.passed, List.take_of_length_le (Nat.le_of_eq List.length_finRange)]
    at hinOrder
  refine ⟨?_, hresults, hworking, ?_⟩
  · intro w hw
    -- `main` has passed each worker once
    have honce : (s.tpool.taken.map Prod.snd).Nodup :=
      horder ▸ (List.nodup_finRange n).sublist hinOrder
    rw [horder] at hw
    obtain ⟨⟨i, w'⟩, hmem, rfl⟩ := List.mem_map.mp hw
    exact ⟨i, hsettled.runs h honce hmem⟩
  · intro hmemory
    have hlength : s.tpool.linked.length = (List.finRange n).length := by
      rw [List.length_finRange]
      omega
    refine ⟨hinOrder.eq_of_length hlength, ?_⟩
    intro routine calloc
    have hfull : s.tpool.workingCounts ≥ s.tpool.maxThrNum := by
      rw [hworking, hpasses.max, hlength, List.length_finRange]
    show (Tpool.tpoolAddWork { s.tpool with calls := .test routine :: s.tpool.calls } 0
      calloc).returns = _
    unfold Tpool.tpoolAddWork
    dsimp only [List.getElem?_cons_zero]
    rw [if_pos hfull]

/-- **After two turns of every thread the start is over.** -/
theorem start_over (n : Nat) (es fs : List (StartupEvent n))
    (hmain : (Machine.run step (init n) es).main = .monitors)
    (hturns : ∀ i, 2 ≤ fs.count (.thread i)) : Started (Machine.run step (init n) (es ++ fs)) := by
  have hes := starting_trail (Machine.run_mem_trail step (init n) es)
  have hstarting := starting_trail (Machine.run_mem_trail step (init n) (es ++ fs))
  have hturned : ∀ i, Turned (Machine.run step (init n) es) i 0 := by
    intro i
    obtain ⟨hreturned, hexited⟩ := hes.kept i
    cases hthread : (Machine.run step (init n) es).tpool.threads i with
    | begins => exact absurd hthread (hes.ready (by rw [hmain]; simp) i)
    | waits => exact .inr (.inl ⟨hthread, .inr rfl⟩)
    | taken p => exact .inr (.inr ⟨⟨p, hthread⟩, Nat.zero_le 1⟩)
    | runs p => exact .inl ⟨p, hthread⟩
    | returned => exact absurd hthread hreturned
    | exited => exact absurd hthread hexited
  obtain ⟨hmonitors, hrun⟩ := turned_run fs hes hmain hturned
  rw [show Machine.run step (init n) (es ++ fs) = Machine.run step (Machine.run step (init n) es) fs
    from List.foldl_append] at hstarting ⊢
  refine started_of_starting hstarting hmonitors ?_
  intro i
  have hcount := hturns i
  rcases hrun i with hruns | ⟨hwaits, hempty | hk⟩ | ⟨_, hk⟩
  · exact .inl hruns
  · exact .inr ⟨hwaits, hempty⟩
  · omega
  · omega

/-- The second thread is the first to look. -/
theorem twoWorkers_started :
    Started (Machine.run step (init 2) (twoWorkers ++ [.thread 1, .thread 0, .thread 0, .thread 1])) :=
  start_over 2 twoWorkers [.thread 1, .thread 0, .thread 0, .thread 1] (by decide +kernel) (by decide)

end Startup

end TraceServer
