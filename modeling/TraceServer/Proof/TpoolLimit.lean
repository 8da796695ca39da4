import TraceServer.Proof.Threadpool

/-!
# Does `tpool_add_work` refuse what no thread is free for?

It compares the number of threads with `working_counts`, which leaves out the works that are
in the list, those a thread has taken and not counted yet, and those of the calls that have
passed the test and not linked theirs. As long as the works left out would still have been
below the number of threads, whenever a call passes the test, no more works are ever
unfinished than there are threads.
-/

namespace TraceServer

variable {n : Nat} {α : Type}

/-- The call has passed the test. -/
def AddWork.admitted : AddWork α → Bool
  | link _ => true
  | test _ => false

namespace Tpool

/-- Works accepted that have not finished. -/
def unfinished (s : Tpool n α) : Int := s.linked.length - s.finished

/-- Calls past the test that have not linked their work. -/
def admitted (s : Tpool n α) : Nat := s.calls.countP AddWork.admitted

/-- A call that is made when as many works are unfinished as there are threads returns -2. -/
def RefusesWhenFull (s : Tpool n α) : TpoolEvent n α → Prop
  | .addWorkStep k calloc => ∀ routine, s.calls[k]? = some (.test routine) →
      s.maxThrNum ≤ s.unfinished → (s.step (.addWorkStep k calloc)).returns = -2 :: s.returns
  | _ => True

/-- When a call passes the test there are fewer works unfinished, or still to be linked, than
threads. -/
def PassesBelow (s : Tpool n α) : TpoolEvent n α → Prop
  | .addWorkStep k _ => ∀ routine, s.calls[k]? = some (.test routine) →
      s.workingCounts < s.maxThrNum → s.unfinished + s.admitted < s.maxThrNum
  | _ => True

/-- No more works are unfinished than there are threads, so while one is in the list there is a
thread for it. -/
structure Bounded (s : Tpool n α) : Prop where
  unfinished : s.unfinished ≤ s.maxThrNum
  free : s.queueHead ≠ none → ∃ i, (s.threads i).occupied = false

/-! ## Steps -/

section Steps

variable {s : Tpool n α}

/-- A thread links nothing and takes part in no call. -/
theorem threadRoutine_calls (s : Tpool n α) (i : Fin n) :
    (s.threadRoutine i).linked = s.linked ∧ (s.threadRoutine i).calls = s.calls
      ∧ (s.threadRoutine i).maxThrNum = s.maxThrNum ∧ s.finished ≤ (s.threadRoutine i).finished := by
  unfold threadRoutine setThread
  cases s.threads i with
  | waits =>
      dsimp only
      split
      · exact ⟨rfl, rfl, rfl, Nat.le_refl _⟩
      · split
        · exact ⟨rfl, rfl, rfl, Nat.le_refl _⟩
        · cases s.queueHead with
          | none => exact ⟨rfl, rfl, rfl, Nat.le_refl _⟩
          | some work =>
              dsimp only
              cases s.works work <;> exact ⟨rfl, rfl, rfl, Nat.le_refl _⟩
  | runs work => exact ⟨rfl, rfl, rfl, Nat.le_succ _⟩
  | _ => exact ⟨rfl, rfl, rfl, Nat.le_refl _⟩

/-- The calls under way, but for the one that takes a section. -/
theorem countP_eraseIdx {calls : List (AddWork α)} {k : Nat} {call : AddWork α}
    (hcall : calls[k]? = some call) : (calls.eraseIdx k).countP AddWork.admitted
      + call.admitted.toNat = calls.countP AddWork.admitted := by
  obtain ⟨hk, rfl⟩ := List.getElem?_eq_some_iff.mp hcall
  have hperm := (List.getElem_cons_eraseIdx_perm hk).countP_eq AddWork.admitted
  rw [List.countP_cons] at hperm
  cases h : calls[k].admitted <;> simpa [h] using hperm

/-- **What is unfinished and what is admitted stay within the limit.** -/
theorem unfinished_step {cells : List (Nat × TpoolWork α)} (h : s.Passes cells)
    {e : TpoolEvent n α} (he : PassesBelow s e) (hlimit : s.unfinished + s.admitted ≤ s.maxThrNum) :
    (s.step e).unfinished + (s.step e).admitted ≤ (s.step e).maxThrNum := by
  cases e with
  | addWork routine => exact hlimit
  | thread i =>
      obtain ⟨hlinked, hcalls, hmax, hfinished⟩ := s.threadRoutine_calls i
      unfold unfinished admitted at *
      show ((s.threadRoutine i).linked.length : Int) - (s.threadRoutine i).finished
        + (s.threadRoutine i).calls.countP _ ≤ (s.threadRoutine i).maxThrNum
      rw [hlinked, hcalls, hmax]
      omega
  | addWorkStep k calloc =>
      have hstep := s.callStep k calloc
      show (s.tpoolAddWork k calloc).unfinished + (s.tpoolAddWork k calloc).admitted
        ≤ (s.tpoolAddWork k calloc).maxThrNum
      generalize s.tpoolAddWork k calloc = s' at hstep
      unfold admitted at *
      -- a call that ends without a work takes nothing with it but itself
      have hends : ∀ {call : AddWork α}, s.calls[k]? = some call →
          s.unfinished + ((s.calls.eraseIdx k).countP AddWork.admitted : Nat) ≤ s.maxThrNum := by
        intro call hcall
        have := countP_eraseIdx hcall
        omega
      cases hstep with
      | stays _ => exact hlimit
      | refused hcall _ => exact hends hcall
      | null hcall _ => exact hends hcall
      | passes hcall hfree =>
          -- the test lets one more in, below the limit
          have hbelow : s.unfinished + s.calls.countP AddWork.admitted < s.maxThrNum :=
            he _ hcall hfree
          have := countP_eraseIdx hcall
          show s.unfinished + ((_ :: s.calls.eraseIdx k).countP AddWork.admitted : Nat) ≤ s.maxThrNum
          rw [List.countP_cons_of_pos rfl]
          simp only [AddWork.admitted, Bool.toNat_false] at this
          omega
      | fails hcall => exact hends hcall
      | links hcall hfree =>
          -- one more unfinished, one less admitted
          rename_i routine work
          have hpasses : Passes { s with calls := s.calls.eraseIdx k } cells :=
            ⟨h.running, h.max, h.chain, h.lent, h.order, h.handed, h.counted, h.unfinished, h.accepted⟩
          obtain ⟨_, _, _, hlinks, _⟩ := hpasses.links hfree routine
          have := countP_eraseIdx hcall
          rw [hlinks]
          show ((s.linked ++ [routine]).length : Int) - s.finished
            + ((s.calls.eraseIdx k).countP AddWork.admitted : Nat) ≤ s.maxThrNum
          unfold unfinished at hlimit
          rw [List.length_append, List.length_singleton]
          simp only [AddWork.admitted, Bool.toNat_true] at this
          omega

/-- A call that passes below the limit is refused at it. -/
theorem refusesWhenFull_of_passesBelow {e : TpoolEvent n α} (he : PassesBelow s e) :
    RefusesWhenFull s e := by
  cases e with
  | addWorkStep k calloc =>
      intro routine hcall hfull
      -- were there a thread to be had, the call would have passed below the limit
      have hworking : s.maxThrNum ≤ s.workingCounts := by
        by_contra hlt
        have := he routine hcall (by omega)
        omega
      show (s.tpoolAddWork k calloc).returns = -2 :: s.returns
      unfold tpoolAddWork
      simp [hcall, hworking]
  | _ => trivial

/-- Within the limit there is a thread for every work in the list. -/
theorem Passes.bounded {cells : List (Nat × TpoolWork α)} (h : s.Passes cells)
    (hlimit : s.unfinished + s.admitted ≤ s.maxThrNum) : s.Bounded := by
  have hle : s.unfinished ≤ s.maxThrNum := by omega
  refine ⟨hle, fun hhead => exists_not_of_countWhere_lt ?_⟩
  -- a work in the list is unfinished and with no thread
  have hcells : 0 < cells.length := by
    refine List.length_pos_iff.mpr fun hnil => hhead ?_
    exact h.chain.head_eq_none_iff.mpr hnil
  have hleft := h.unfinished
  have hmax := h.max
  unfold Tpool.unfinished at hle
  rw [Fintype.card_fin]
  omega

end Steps

/-! ## Runs -/

/-- **No more works are accepted and unfinished than there are threads**, and calls are refused
when there are as many, in every run in which no call passes the test with as many before
it. -/
theorem unfinished_bounded (n : Nat) (α : Type) (es : List (TpoolEvent n α))
    (hbelow : Machine.Along step PassesBelow (create n α) es) :
    (∀ s ∈ Machine.trail step (create n α) es, s.Bounded)
      ∧ Machine.Along step RefusesWhenFull (create n α) es := by
  constructor
  · intro s hs
    obtain ⟨⟨cells, hpasses⟩, hlimit⟩ := Machine.inv_trail step
      (fun s => (∃ cells, s.Passes cells) ∧ s.unfinished + s.admitted ≤ s.maxThrNum)
      (fun s e h he => ⟨h.1.elim fun _ hp => hp.step e,
        h.1.elim fun _ hp => unfinished_step hp he h.2⟩)
      ⟨⟨[], passes_create n α⟩, by simp [unfinished, admitted, create]⟩ hbelow s hs
    exact hpasses.bounded hlimit
  · exact hbelow.imp step fun _ _ he => refusesWhenFull_of_passesBelow he

/-- Two works are added to a pool of one thread before that has taken the first. -/
def twoWorks : List (TpoolEvent 1 Nat) :=
  [.addWork (some 10), .addWorkStep 0 none, .addWorkStep 0 (some 1),
    .addWork (some 20), .addWorkStep 0 none, .addWorkStep 0 (some 2)]

/-- Both are accepted. -/
theorem twoWorks_accepted :
    ¬ ((∀ s ∈ Machine.trail step (create 1 Nat) twoWorks, s.Bounded)
      ∧ Machine.Along step RefusesWhenFull (create 1 Nat) twoWorks) := by
  rintro ⟨hall, _⟩
  have hle := (hall _ (Machine.run_mem_trail step _ _)).unfinished
  exact absurd hle (by decide +kernel)

/-- The second is added when the first is done. -/
def oneByOne : List (TpoolEvent 1 Nat) :=
  [.addWork (some 10), .addWorkStep 0 none, .addWorkStep 0 (some 1),
    .thread (Fin.last 0), .thread (Fin.last 0), .thread (Fin.last 0), .thread (Fin.last 0),
    .thread (Fin.last 0),
    .addWork (some 20), .addWorkStep 0 none, .addWorkStep 0 (some 2)]

theorem oneByOne_bounded : (Machine.run step (create 1 Nat) oneByOne).Bounded
    ∧ Machine.Along step RefusesWhenFull (create 1 Nat) oneByOne := by
  have hlink : ∀ {x : Nat} {r : Option Nat}, some (AddWork.link x) ≠ some (AddWork.test r) := by simp
  obtain ⟨hbounded, hrefuses⟩ := unfinished_bounded 1 Nat oneByOne
    ⟨trivial, fun _ _ _ => by decide +kernel, fun _ h => absurd h hlink, trivial, trivial,
      trivial, trivial, trivial, trivial, fun _ _ _ => by decide +kernel,
      fun _ h => absurd h hlink, trivial⟩
  exact ⟨hbounded _ (Machine.run_mem_trail step _ _), hrefuses⟩

end Tpool

end TraceServer
