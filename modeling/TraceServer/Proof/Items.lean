import TraceServer.Lib.Update
import TraceServer.Server

/-!
# Where the items are

An item that has been given to a worker is with the caller who is pushing it, in the
queue, or on its way out, and no section of `queue_push` or `queue_pop` loses one or
makes one. So whatever is counted of the items, over all workers, only changes by what
is put in and what comes out.
-/

namespace TraceServer

variable {α : Type}

/-! ## One worker -/

/-- What a section of `queue_pop` brings out. -/
def PopOut.items : PopOut α → List α
  | .waits => []
  | .returns item => item.toList

/-- `queue_pop` takes what it returns from the list. -/
theorem queuePop_items (p : QueuePop) (w : WaitEnd) (q : Queue α) :
    (p.step w q).1.items ++ (p.step w q).2.head = q.head := by
  unfold QueuePop.step
  split
  · rfl
  · unfold queueTakeFirst
    cases hhead : q.head with
    | nil => exact hhead
    | cons item rest => rfl

/-- `queue_push` keeps its item and the list, but for what it frees. -/
theorem queuePush_items (p : QueuePush α) (w : WaitEnd) (q : Queue α) :
    ((p.step w q).freed ++ ((p.step w q).queue.head ++
      ((p.step w q).next.map QueuePush.item).toList)).Perm (q.head ++ [p.item]) := by
  cases p with
  | test item =>
      unfold QueuePush.step
      dsimp only
      split
      · split <;> exact .refl _
      · exact .refl _
  | flush item => exact .refl _
  | popFree item p =>
      have hpop := queuePop_items p w q
      unfold QueuePush.step
      dsimp only
      generalize p.step w q = x at hpop
      obtain ⟨out, q'⟩ := x
      cases out with
      | waits =>
          rw [← hpop]
          exact .refl _
      | returns popped =>
          rw [← hpop]
          exact .of_eq (List.append_assoc _ _ _).symm
  | link item => exact .of_eq (List.append_nil _)

/-- **A section of `evserver_worker_add_job` loses no item.** -/
theorem addJobStep_items (s : Worker α) (w : WaitEnd) :
    ((s.addJobStep w).1 ++ (s.addJobStep w).2.items).Perm s.items := by
  unfold Worker.addJobStep
  cases hadd : s.addJob with
  | none => exact .refl _
  | some a =>
    cases a with
    | notify =>
        unfold Worker.items
        rw [hadd]
        exact .refl _
    | push p =>
        have hpush := queuePush_items p w s.queue
        have hitems : s.items = s.queue.head ++ [p.item] := by
          unfold Worker.items
          rw [hadd]
          rfl
        rw [hitems]
        refine List.Perm.trans (.of_eq ?_) hpush
        unfold Worker.items
        dsimp only
        cases (p.step w s.queue).next with
        | none => rfl
        | some p' => rfl

/-- **A section of the read callback loses no item.** -/
theorem readCallbackStep_items (s : Worker α) (w : WaitEnd) :
    ((s.readCallbackStep w).1.getD none).toList ++ (s.readCallbackStep w).2.items = s.items := by
  unfold Worker.readCallbackStep
  cases s.readCallback with
  | none => rfl
  | some p =>
      have hpop := queuePop_items p w s.queue
      dsimp only
      generalize p.step w s.queue = x at hpop
      obtain ⟨out, q⟩ := x
      unfold Worker.items
      cases out with
      | waits =>
          rw [← hpop]
          rfl
      | returns item =>
          rw [← hpop]
          exact (List.append_assoc _ _ _).symm

theorem startReadCallback_items (s : Worker α) : s.startReadCallback.items = s.items := by
  unfold Worker.startReadCallback
  split <;> rfl

theorem startAddJob_items {s : Worker α} (hidle : s.addJob.isNone) (item : α) :
    (s.startAddJob item).items = s.items ++ [item] := by
  unfold Worker.items
  rw [Option.isNone_iff_eq_none.mp hidle]
  simp [Worker.startAddJob, AddJob.items, QueuePush.item]

/-! ## All workers -/

namespace Server

variable {n : Nat}

/-- The items of all workers of which `p` is true. -/
def countItems (s : Server n) (p : JobItem → Bool) : Nat :=
  ∑ i, (s.workers i).items.countP p

/-- What a change of one worker does to the count. -/
theorem countItems_setWorker (s : Server n) (i : Fin (n + 1)) (w : Worker JobItem)
    (p : JobItem → Bool) :
    (s.setWorker i w).countItems p + (s.workers i).items.countP p
      = s.countItems p + w.items.countP p :=
  sum_update (fun x : Worker JobItem => x.items.countP p) s.workers i w

end Server

end TraceServer
