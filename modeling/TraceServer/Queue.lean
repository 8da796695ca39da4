import TraceServer.Lib.Run

/-!
# The job queue (`queue.c`)

`queue_push` and `queue_pop` are not atomic. Each runs from one section under the
queue's lock to the next, and `queue_push` tests the depth outside all of them; so
each is a call that stands somewhere, and a step takes it to its next section. In
between anything may happen to the queue.

What `queue_flush` and `queue_pop_free` hand to `item_free` is returned, for whoever
owns the items to say what that does.
-/

namespace TraceServer

/-- `queue_mode_t`. -/
inductive QueueMode where
  | queueFullFlush
  | queueFullRing
deriving DecidableEq, Repr

/-- `queue_t`; `head` is the linked list, oldest first. -/
structure Queue (α : Type) where
  head : List α
  depth : Int
  maxDepth : Int
  mode : QueueMode

variable {α : Type}

def queueMaxDepth : Int := 200

/-- `queue_create`. -/
def queueCreate : Queue α := ⟨[], 0, queueMaxDepth, .queueFullFlush⟩

/-- `queue_set_depth`. -/
def queueSetDepth (q : Queue α) (depth : Int) : Queue α := { q with maxDepth := depth }

/-- `queue_flush`: what it frees, and the queue it leaves. -/
def queueFlush (q : Queue α) : List α × Queue α := (q.head, { q with head := [], depth := 0 })

/-- The end of `queue_pop`, from `list_first_entry_or_null` on. -/
def queueTakeFirst (q : Queue α) : Option α × Queue α :=
  match q.head with
  | [] => (none, q)
  | item :: rest => (some item, { q with head := rest, depth := q.depth - 1 })

/-- The end of `queue_push`: `list_add_tail` and `++ depth`. -/
def queueLink (q : Queue α) (item : α) : Queue α :=
  { q with head := q.head ++ [item], depth := q.depth + 1 }

/-- How a `pthread_cond_timedwait` ends. It may return 0 without having been signalled. -/
inductive WaitEnd where
  | woken
  | timedOut
deriving DecidableEq, Repr

/-- Where a call of `queue_pop` stands. -/
inductive QueuePop where
  | enter
  | wait
deriving DecidableEq, Repr

/-- What a section of `queue_pop` comes to. -/
inductive PopOut (α : Type) where
  | waits
  | returns (item : Option α)

/-- One section of `queue_pop`. A wait that returns 0 is not followed by another look at
the list, any other wait is. -/
def QueuePop.step (p : QueuePop) (w : WaitEnd) (q : Queue α) : PopOut α × Queue α :=
  if q.head = [] ∧ ¬ (p = .wait ∧ w = .woken) then (.waits, q)
  else
    let t := queueTakeFirst q
    (.returns t.1, t.2)

/-- Where a call of `queue_push` stands; all but the last of its sections are entered
only when the queue was full. -/
inductive QueuePush (α : Type) where
  /-- The depth is about to be tested. -/
  | test (item : α)
  | flush (item : α)
  /-- In the `queue_pop` of `queue_pop_free`. -/
  | popFree (item : α) (p : QueuePop)
  | link (item : α)

/-- What a section of `queue_push` comes to: what it frees, where the call then stands
(`none` when it has returned), and the queue. -/
structure PushOut (α : Type) where
  freed : List α
  next : Option (QueuePush α)
  queue : Queue α

/-- One section of `queue_push`. -/
def QueuePush.step (p : QueuePush α) (w : WaitEnd) (q : Queue α) : PushOut α :=
  match p with
  | .test item =>
    if q.depth ≥ q.maxDepth then
      match q.mode with
      | .queueFullFlush => ⟨[], some (.flush item), q⟩
      | .queueFullRing => ⟨[], some (.popFree item .enter), q⟩
    else ⟨[], some (.link item), q⟩
  | .flush item =>
    let f := queueFlush q
    ⟨f.1, some (.link item), f.2⟩
  | .popFree item p =>
    match p.step w q with
    | (.waits, q) => ⟨[], some (.popFree item .wait), q⟩
    | (.returns popped, q) => ⟨popped.toList, some (.link item), q⟩
  | .link item => ⟨[], none, queueLink q item⟩

/-- What is left of a call of `queue_push` when nobody else comes in between: what it frees,
and the queue it leaves. -/
def QueuePush.finish : Nat → QueuePush α → Queue α → List α × Queue α
  | 0, _, q => ([], q)
  | fuel + 1, p, q =>
    let r := p.step .timedOut q
    match r.next with
    | none => (r.freed, r.queue)
    | some p =>
      let rest := QueuePush.finish fuel p r.queue
      (r.freed ++ rest.1, rest.2)

/-- A whole `queue_push`, of at most three sections. -/
def queuePush (q : Queue α) (item : α) : List α × Queue α := QueuePush.finish 3 (.test item) q

/-- The item a call of `queue_push` was made with. -/
def QueuePush.item : QueuePush α → α
  | .test item => item
  | .flush item => item
  | .popFree item _ => item
  | .link item => item

/-! ## One producer and one consumer -/

/-- A queue, the `queue_push` of the one who fills it and the `queue_pop` of the one who empties
it, each while it is under way. -/
structure SharedQueue (α : Type) where
  queue : Queue α
  producer : Option (QueuePush α)
  consumer : Option QueuePop

inductive SharedEvent (α : Type) where
  /-- The producer calls `queue_push`. -/
  | push (item : α)
  | pushStep (w : WaitEnd)
  /-- The consumer calls `queue_pop`. -/
  | pop
  | popStep (w : WaitEnd)
deriving DecidableEq, Repr

/-- The next section of the producer's call. -/
def SharedQueue.pushStep (s : SharedQueue α) (w : WaitEnd) : SharedQueue α :=
  match s.producer with
  | none => s
  | some p =>
    let r := p.step w s.queue
    { s with queue := r.queue, producer := r.next }

/-- The next section of the consumer's call. -/
def SharedQueue.popStep (s : SharedQueue α) (w : WaitEnd) : SharedQueue α :=
  match s.consumer with
  | none => s
  | some p =>
    match p.step w s.queue with
    | (.waits, q) => { s with queue := q, consumer := some .wait }
    | (.returns _, q) => { s with queue := q, consumer := none }

/-- Either of the two takes its next section, or makes its next call when the last one is over. -/
def SharedQueue.step (s : SharedQueue α) (e : SharedEvent α) : SharedQueue α :=
  match e with
  | .push item => if s.producer.isNone then { s with producer := some (.test item) } else s
  | .pushStep w => s.pushStep w
  | .pop => if s.consumer.isNone then { s with consumer := some .enter } else s
  | .popStep w => s.popStep w

end TraceServer
