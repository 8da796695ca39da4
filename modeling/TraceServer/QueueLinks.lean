import Mathlib.Logic.Function.Basic
import TraceServer.Queue

/-!
# The queue as it lies in memory (`kernel_list.h`, `queue.c`)

A `queue_t` is a counter and a circular list that goes through the items themselves:
`list_add_tail` and `list_del` only write links. Here an item is its address, and the
operations are whole calls, made one after the other.

Writing through a null pointer is left out of the model: it changes nothing here, and the
links of the proof never have one where the source follows it. `queue_flush` goes on until
it is back at the head; it carries fuel.
-/

namespace TraceServer

/-- The `struct list_head` at every address. -/
structure Links (A : Type) where
  next : A → Option A
  prev : A → Option A

variable {A : Type} [DecidableEq A]

namespace Links

/-- `p->next = a`. -/
def setNext (m : Links A) (p a : Option A) : Links A :=
  match p with
  | some p => { m with next := Function.update m.next p a }
  | none => m

/-- `p->prev = a`. -/
def setPrev (m : Links A) (p a : Option A) : Links A :=
  match p with
  | some p => { m with prev := Function.update m.prev p a }
  | none => m

/-- `INIT_LIST_HEAD`. -/
def initListHead (m : Links A) (list : A) : Links A :=
  (m.setNext (some list) (some list)).setPrev (some list) (some list)

/-- `__list_add`. -/
def listAdd (m : Links A) (new : A) (prev next : Option A) : Links A :=
  let m := m.setPrev next (some new)
  let m := m.setNext (some new) next
  let m := m.setPrev (some new) prev
  m.setNext prev (some new)

/-- `list_add_tail`. -/
def listAddTail (m : Links A) (new head : A) : Links A := m.listAdd new (m.prev head) (some head)

/-- `__list_del`. -/
def listDelBetween (m : Links A) (prev next : Option A) : Links A :=
  (m.setPrev next prev).setNext prev next

/-- `list_del`. -/
def listDel (m : Links A) (entry : A) : Links A :=
  let m := m.listDelBetween (m.prev entry) (m.next entry)
  (m.setNext (some entry) none).setPrev (some entry) none

/-- `list_empty`. -/
def listEmpty (m : Links A) (head : A) : Bool := m.next head = some head

/-- `list_first_entry_or_null`. -/
def listFirstEntryOrNull (m : Links A) (head : A) : Option A :=
  if m.listEmpty head then none else m.next head

end Links

/-- `queue_t`, without the lock and the hooks; `head` is the address of `q->head`. -/
structure QueueLinks (A : Type) where
  links : Links A
  head : A
  depth : Int
  maxDepth : Int
  mode : QueueMode

namespace QueueLinks

/-- `queue_create` and `queue_set_depth`, in memory that `calloc` has cleared. -/
def create (head : A) (maxDepth : Int) : QueueLinks A :=
  ⟨Links.initListHead ⟨fun _ => none, fun _ => none⟩ head, head, 0, maxDepth, .queueFullFlush⟩

/-- `queue_set_mode`. -/
def setMode (q : QueueLinks A) (mode : QueueMode) : QueueLinks A := { q with mode }

/-- `list_for_each_entry_safe` in `queue_flush`: `item` is the entry it stands at, `freed`
what has been handed to `item_free`. -/
def flushLoop (head : A) : Nat → Option A → Links A → List A → List A × Links A
  | 0, _, m, freed => (freed, m)
  | fuel + 1, item, m, freed =>
    match item with
    | none => (freed, m)
    | some item =>
      if item = head then (freed, m)
      else
        let next := m.next item
        flushLoop head fuel next (m.listDel item) (freed ++ [item])

/-- `queue_flush`: what it frees, and the queue it leaves. -/
def flush (q : QueueLinks A) (fuel : Nat) : List A × QueueLinks A :=
  let r := flushLoop q.head fuel (q.links.next q.head) q.links []
  (r.1, { q with links := r.2, depth := 0 })

/-- `queue_pop` of a queue in which it need not wait. -/
def pop (q : QueueLinks A) : Option A × QueueLinks A :=
  match q.links.listFirstEntryOrNull q.head with
  | some item => (some item, { q with links := q.links.listDel item, depth := q.depth - 1 })
  | none => (none, q)

/-- `queue_pop_free`. -/
def popFree (q : QueueLinks A) : List A × QueueLinks A :=
  let r := q.pop
  (r.1.toList, r.2)

/-- `queue_push`: what it frees, and the queue it leaves. -/
def push (q : QueueLinks A) (item : A) (fuel : Nat) : List A × QueueLinks A :=
  let r :=
    if q.depth ≥ q.maxDepth then
      match q.mode with
      | .queueFullFlush => q.flush fuel
      | .queueFullRing => q.popFree
    else ([], q)
  (r.1, { r.2 with links := r.2.links.listAddTail item r.2.head, depth := r.2.depth + 1 })

end QueueLinks

/-- A queue and what has been done with it: the items pushed, those `queue_pop` has
returned and those `item_free` has got, in order. -/
structure QueueRun (A : Type) where
  queue : QueueLinks A
  pushed : List A
  returned : List A
  freed : List A

inductive QueueOp (A : Type) where
  | push (item : A)
  | pop
  | flush
  | setMode (mode : QueueMode)

namespace QueueRun

def init (head : A) (maxDepth : Int) : QueueRun A := ⟨.create head maxDepth, [], [], []⟩

/-- An item that is linked is not pushed again, and a `queue_pop` that would wait is not
made: such an operation changes nothing. A flush goes through no more entries than there
have been pushes. -/
def step (s : QueueRun A) (op : QueueOp A) : QueueRun A :=
  match op with
  | .push item =>
    if (s.queue.links.next item).isNone then
      let r := s.queue.push item (s.pushed.length + 1)
      { s with queue := r.2, pushed := s.pushed ++ [item], freed := s.freed ++ r.1 }
    else s
  | .pop =>
    let r := s.queue.pop
    { s with queue := r.2, returned := s.returned ++ r.1.toList }
  | .flush =>
    let r := s.queue.flush (s.pushed.length + 1)
    { s with queue := r.2, freed := s.freed ++ r.1 }
  | .setMode mode => { s with queue := s.queue.setMode mode }

end QueueRun

end TraceServer
