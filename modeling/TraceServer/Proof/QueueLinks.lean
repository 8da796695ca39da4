import TraceServer.Lib.Custody
import TraceServer.Lib.Ring
import TraceServer.QueueLinks

/-!
# The linked queue is a queue

The links in memory always form a ring through the items in the order they were pushed
(`Represents`), so each call does what the same call does on a list. On a list the rest is
counting: the depth is the length, an item enters at the end, and whoever leaves does so
from the front.
-/

namespace TraceServer

open Ring

variable {A : Type} [DecidableEq A]

/-! ## The links -/

namespace Links

variable {m : Links A} {head a : A} {xs : List A}

theorem listAddTail_ring (h : IsRing m.next m.prev head xs) (ha : a ∉ head :: xs) :
    IsRing (m.listAddTail a head).next (m.listAddTail a head).prev head (xs ++ [a]) := by
  obtain ⟨l, hl, hring⟩ := h.insert_last ha
  unfold listAddTail listAdd
  rw [hl]
  exact hring

/-- `list_del` of the first entry: the head is then linked to the entry's successor. -/
theorem listDel_ring (h : IsRing m.next m.prev head (a :: xs)) :
    IsRing (m.listDel a).next (m.listDel a).prev head xs
      ∧ (m.listDel a).next head = m.next a := by
  have hah : head ≠ a := fun h' => (List.nodup_cons.mp h.nodup).1 (h' ▸ List.mem_cons_self)
  obtain ⟨hprev, n, hn, hring⟩ := h.remove_first
  unfold listDel listDelBetween
  rw [hprev, hn]
  refine ⟨hring, ?_⟩
  show Function.update (Function.update m.next head (some n)) a none head = some n
  rw [Function.update_of_ne hah, Function.update_self]

theorem listFirstEntryOrNull_ring (h : IsRing m.next m.prev head xs) :
    m.listFirstEntryOrNull head = xs.head? := by
  have hnext := h.next_head
  unfold listFirstEntryOrNull listEmpty
  cases xs with
  | nil => exact if_pos (by simpa using hnext)
  | cons x xs =>
      have hne : x ≠ head := fun h' => (List.nodup_cons.mp h.nodup).1 (h' ▸ List.mem_cons_self)
      rw [if_neg (by simpa [hnext] using hne), hnext]
      rfl

end Links

/-- The loop of `queue_flush` frees every entry once, in order, and leaves the head alone. -/
theorem flushLoop_ring {head : A} : ∀ (fuel : Nat) {xs : List A} {m : Links A} (freed : List A),
    IsRing m.next m.prev head xs → xs.length < fuel →
      ∃ m', QueueLinks.flushLoop head fuel (m.next head) m freed = (freed ++ xs, m')
        ∧ IsRing m'.next m'.prev head []
  | 0, _, _, _, _, hfuel => absurd hfuel (Nat.not_lt_zero _)
  | fuel + 1, [], m, freed, h, _ => by
      refine ⟨m, ?_, h⟩
      rw [h.next_head, List.append_nil]
      exact if_pos rfl
  | fuel + 1, x :: xs, m, freed, h, hfuel => by
      have hne : x ≠ head := fun h' => (List.nodup_cons.mp h.nodup).1 (h' ▸ List.mem_cons_self)
      obtain ⟨hring, hnext⟩ := Links.listDel_ring h
      obtain ⟨m', hloop, hempty⟩ :=
        flushLoop_ring fuel (freed ++ [x]) hring (Nat.lt_of_succ_lt_succ hfuel)
      refine ⟨m', ?_, hempty⟩
      rw [h.next_head]
      show (if x = head then (freed, m)
        else QueueLinks.flushLoop head fuel (m.next x) (m.listDel x) (freed ++ [x])) = _
      rw [if_neg hne, ← hnext, hloop, List.append_assoc]
      rfl

/-! ## What `queue_push` comes to -/

section QueuePush

variable {α : Type} {q : Queue α}

theorem queuePush_room (hroom : q.depth < q.maxDepth) (item : α) :
    queuePush q item = ([], queueLink q item) := by
  unfold queuePush
  simp only [QueuePush.finish, QueuePush.step, if_neg (Int.not_le.mpr hroom), List.nil_append]

theorem queuePush_flush (hfull : q.depth ≥ q.maxDepth) (hmode : q.mode = .queueFullFlush)
    (item : α) :
    queuePush q item = ((queueFlush q).1, queueLink (queueFlush q).2 item) := by
  unfold queuePush
  simp only [QueuePush.finish, QueuePush.step, if_pos hfull, hmode, List.nil_append, List.append_nil]

/-- There is something to drop, so the `queue_pop` does not wait. -/
theorem queuePush_popFree (hfull : q.depth ≥ q.maxDepth) (hmode : q.mode = .queueFullRing)
    (hne : q.head ≠ []) (item : α) : queuePush q item
      = ((queueTakeFirst q).1.toList, queueLink (queueTakeFirst q).2 item) := by
  have hpop : QueuePop.step .enter .timedOut q
      = (.returns (queueTakeFirst q).1, (queueTakeFirst q).2) := by
    unfold QueuePop.step
    rw [if_neg fun h => hne h.1]
  unfold queuePush
  simp only [QueuePush.finish, QueuePush.step, if_pos hfull, hmode, hpop, List.nil_append,
    List.append_nil]

end QueuePush

/-! ## The calls -/

/-- The memory of `q` holds the queue `l`. -/
structure Represents (q : QueueLinks A) (l : Queue A) : Prop where
  ring : IsRing q.links.next q.links.prev q.head l.head
  depth : q.depth = l.depth
  maxDepth : q.maxDepth = l.maxDepth
  mode : q.mode = l.mode

namespace Represents

variable {q : QueueLinks A} {l : Queue A} {fuel : Nat}

theorem flush (h : Represents q l) (hfuel : l.head.length < fuel) :
    (q.flush fuel).1 = (queueFlush l).1 ∧ Represents (q.flush fuel).2 (queueFlush l).2 := by
  obtain ⟨m', hloop, hring⟩ := flushLoop_ring fuel [] h.ring hfuel
  unfold QueueLinks.flush
  rw [hloop]
  exact ⟨rfl, hring, rfl, h.maxDepth, h.mode⟩

theorem pop (h : Represents q l) :
    q.pop.1 = (queueTakeFirst l).1 ∧ Represents q.pop.2 (queueTakeFirst l).2 := by
  have hfirst := Links.listFirstEntryOrNull_ring h.ring
  unfold QueueLinks.pop queueTakeFirst
  rw [hfirst]
  have hring := h.ring
  cases hhead : l.head with
  | nil => exact ⟨rfl, h⟩
  | cons item rest =>
      rw [hhead] at hring
      exact ⟨rfl, (Links.listDel_ring hring).1, by simp [h.depth], h.maxDepth, h.mode⟩

omit [DecidableEq A] in
theorem setMode (h : Represents q l) (mode : QueueMode) :
    Represents (q.setMode mode) { l with mode } := ⟨h.ring, h.depth, h.maxDepth, rfl⟩

/-- A full queue has something to drop, or `queue_push` would wait for it. -/
theorem push (h : Represents q l) {item : A} (hitem : item ∉ q.head :: l.head)
    (hfull : l.depth ≥ l.maxDepth → l.head ≠ []) (hfuel : l.head.length < fuel) :
    (q.push item fuel).1 = (queuePush l item).1
      ∧ Represents (q.push item fuel).2 (queuePush l item).2 := by
  have hlink : ∀ {q' : QueueLinks A} {l' : Queue A}, Represents q' l' → item ∉ q'.head :: l'.head →
      Represents { q' with links := q'.links.listAddTail item q'.head, depth := q'.depth + 1 }
        (queueLink l' item) := fun h' hnot =>
    ⟨Links.listAddTail_ring h'.ring hnot, by simp [queueLink, h'.depth], h'.maxDepth, h'.mode⟩
  unfold QueueLinks.push
  rw [h.depth, h.maxDepth, h.mode]
  by_cases hge : l.depth ≥ l.maxDepth
  · rw [if_pos hge]
    cases hmode : l.mode with
    | queueFullFlush =>
        obtain ⟨hfreed, hrep⟩ := h.flush hfuel
        have hnot : item ∉ (q.flush fuel).2.head :: (queueFlush l).2.head :=
          fun hmem => hitem (List.mem_cons.mpr
            (.inl (by simpa [queueFlush, QueueLinks.flush] using hmem)))
        rw [queuePush_flush hge hmode]
        exact ⟨hfreed, hlink hrep hnot⟩
    | queueFullRing =>
        obtain ⟨hret, hrep⟩ := h.pop
        obtain ⟨first, rest, hhead⟩ := List.exists_cons_of_ne_nil (hfull hge)
        have hsame : q.pop.2.head = q.head := by
          unfold QueueLinks.pop
          split <;> rfl
        -- what is left after the drop is part of what was there
        have hnot : item ∉ q.pop.2.head :: (queueTakeFirst l).2.head := by
          rw [hsame]
          unfold queueTakeFirst
          rw [hhead]
          intro hmem
          rcases List.mem_cons.mp hmem with rfl | hmem
          · exact hitem List.mem_cons_self
          · exact hitem (by simp [hhead, show item ∈ rest from hmem])
        rw [queuePush_popFree hge hmode (hfull hge)]
        exact ⟨congrArg Option.toList hret, hlink hrep hnot⟩
  · rw [if_neg hge, queuePush_room (Int.not_le.mp hge)]
    exact ⟨rfl, hlink h hitem⟩

end Represents

/-! ## Counting -/

/-- The depth counts the list, and stays within its bound. -/
structure Sized {α : Type} (q : Queue α) : Prop where
  depth : q.depth = q.head.length
  le : q.depth ≤ q.maxDepth
  pos : 1 ≤ q.maxDepth

namespace Sized

variable {α : Type} {q : Queue α}

theorem flush (h : Sized q) : Sized (queueFlush q).2 :=
  ⟨rfl, Int.le_trans (Int.le_of_lt Int.zero_lt_one) h.pos, h.pos⟩

theorem pop (h : Sized q) : Sized (queueTakeFirst q).2
    ∧ (queueTakeFirst q).1.toList ++ (queueTakeFirst q).2.head = q.head := by
  obtain ⟨hdepth, hle, hpos⟩ := h
  unfold queueTakeFirst
  cases hhead : q.head with
  | nil => exact ⟨⟨hdepth, hle, hpos⟩, hhead⟩
  | cons item rest =>
      rw [hhead, List.length_cons] at hdepth
      refine ⟨⟨?_, ?_, hpos⟩, rfl⟩ <;> dsimp only <;> omega

/-- A full queue is not empty. -/
theorem full (h : Sized q) (hge : q.depth ≥ q.maxDepth) : q.head ≠ [] := by
  intro hnil
  have hdepth := h.depth
  have hpos := h.pos
  rw [hnil, List.length_nil] at hdepth
  omega

/-- **`queue_push` drops from the front and enters at the end.** -/
theorem push (h : Sized q) (item : α) : Sized (queuePush q item).2
    ∧ (queuePush q item).1 ++ (queuePush q item).2.head = q.head ++ [item] := by
  have hlink : ∀ {q' : Queue α}, Sized q' → q'.depth < q'.maxDepth → Sized (queueLink q' item) := by
    rintro q' ⟨hdepth, hle, hpos⟩ hlt
    refine ⟨?_, ?_, hpos⟩
    · simp [queueLink, hdepth]
    · simp only [queueLink]
      omega
  have hpos := h.pos
  by_cases hge : q.depth ≥ q.maxDepth
  · cases hmode : q.mode with
    | queueFullFlush =>
        rw [queuePush_flush hge hmode]
        refine ⟨hlink h.flush ?_, rfl⟩
        show (0 : Int) < q.maxDepth
        omega
    | queueFullRing =>
        have hne := h.full hge
        obtain ⟨hsized, hitems⟩ := h.pop
        rw [queuePush_popFree hge hmode hne]
        -- one goes, so there is room for one
        obtain ⟨first, rest, hhead⟩ := List.exists_cons_of_ne_nil hne
        have hless : (queueTakeFirst q).2.depth = q.depth - 1 := by simp [queueTakeFirst, hhead]
        have hmax : (queueTakeFirst q).2.maxDepth = q.maxDepth := by simp [queueTakeFirst, hhead]
        have hle := h.le
        refine ⟨hlink hsized (by omega), ?_⟩
        rw [queueLink, ← List.append_assoc, hitems]
  · rw [queuePush_room (Int.not_le.mp hge)]
    exact ⟨hlink h (by omega), rfl⟩

end Sized

/-! ## Runs -/

/-- What is linked, in order, and where everything else has gone. -/
structure Conserved (s : QueueRun A) (linked : List A) : Prop where
  ring : IsRing s.queue.links.next s.queue.links.prev s.queue.head linked
  depth : s.queue.depth = linked.length
  bound : s.queue.depth ≤ s.queue.maxDepth
  /-- The linked items are the ones pushed last. -/
  recent : linked <:+ s.pushed
  /-- `queue_pop` returns the oldest of them. -/
  oldest : s.queue.pop.1 = linked.head?
  /-- Every item pushed is linked, returned or freed, and only one of these, once. -/
  places : Custody s.pushed linked (s.returned ++ s.freed)

/-- The run has the list queue `l` in its memory, bounded by `d`. -/
structure Running (d : Int) (s : QueueRun A) (l : Queue A) : Prop where
  represents : Represents s.queue l
  sized : Sized l
  maxDepth : l.maxDepth = d
  recent : l.head <:+ s.pushed
  places : Custody s.pushed l.head (s.returned ++ s.freed)

theorem Running.conserved {d : Int} {s : QueueRun A} {l : Queue A} (h : Running d s l) :
    s.queue.maxDepth = d ∧ Conserved s l.head := by
  refine ⟨h.represents.maxDepth.trans h.maxDepth, h.represents.ring,
    h.represents.depth.trans h.sized.depth, ?_, h.recent, ?_, h.places⟩
  · rw [h.represents.depth, h.represents.maxDepth]
    exact h.sized.le
  · rw [h.represents.pop.1]
    unfold queueTakeFirst
    cases l.head <;> rfl

end TraceServer
