import TraceServer.FifoShared
import TraceServer.Proof.Fifo

/-!
# One thread puts and another reads

The thread that puts writes only where there is nothing to read, and the one that reads moves `out`
only when it has copied, so however their steps come, the ring buffer holds what has been put and
not read, and nobody is given more than was asked for (`holds_unread`).
-/

namespace TraceServer

/-! ## Places -/

theorem fifoPlace_eq {size x len : UInt32} {k i : Nat} (hk : k ≤ 30) (hsize : size.toNat = 2 ^ k)
    (hlen : len.toNat ≤ 2 ^ k) (hi : i < len.toNat) :
    fifoPlace size x len i = (x.toNat + i) % 2 ^ k := by
  obtain ⟨l, hl⟩ : ∃ l, l = fifoMin len (size - (x &&& (size - 1))) := ⟨_, rfl⟩
  obtain ⟨hlval, _⟩ := firstCopy hk hsize hl
  have hmod := Nat.mod_lt x.toNat (Nat.two_pow_pos k)
  unfold fifoPlace
  dsimp only
  rw [← hl, mask_mod hsize]
  split
  · rw [Cyclic.add_mod_of_lt (by omega)]
  · -- round the end
    have hsum : x.toNat + i = 2 ^ k * (x.toNat / 2 ^ k) + (2 ^ k + (i - l.toNat)) := by
      have := Nat.div_add_mod x.toNat (2 ^ k)
      omega
    rw [hsum, Nat.mul_add_mod, Nat.add_mod_left, Nat.mod_eq_of_lt (by omega)]

namespace Holds

variable {k : Nat} {f : Fifo} {q : BoundedQueue UInt8}

/-- The same queue, in a buffer that has been written to elsewhere. -/
theorem of_lies (h : Holds k f q) {buffer : Bytes} (hlen : buffer.length = f.buffer.length)
    (hlies : buffer.Lies f.out.toNat q.stored) : Holds k { f with buffer } q :=
  ⟨h.small, h.size, hlen.trans h.buffer, h.capacity, h.enabled, h.stored, hlies⟩

/-- What has been copied behind the queue belongs to it once `in` has moved. -/
theorem grow (h : Holds k f q) {xs : Bytes} {n : UInt32} (hn : xs.length = n.toNat)
    (hfit : q.stored.length + xs.length ≤ 2 ^ k)
    (hlies : f.buffer.Lies f.out.toNat (q.stored ++ xs)) :
    Holds k { f with inn := f.inn + n }
      ⟨q.capacity, q.stored ++ xs, by rw [List.length_append, h.capacity]; exact hfit,
        q.enabled⟩ := by
  refine ⟨h.small, h.size, h.buffer, h.capacity, h.enabled, ?_, hlies⟩
  have hstored := h.stored
  have hsmall := two_pow_le_of_small h.small
  have := f.inn.toNat_lt
  have := f.out.toNat_lt
  dsimp only
  rw [UInt32.toNat_sub] at hstored ⊢
  rw [UInt32.toNat_add, List.length_append, hn]
  omega

theorem setEnabled (h : Holds k f q) (disable : Bool) :
    Holds k { f with disable } (q.setEnabled (!disable)) :=
  ⟨h.small, h.size, h.buffer, h.capacity, rfl, h.stored, h.lies⟩

/-- One byte behind `n` others. -/
theorem store (h : Holds k f q) {xs : Bytes} {b : UInt8}
    (hlies : f.buffer.Lies f.out.toNat (q.stored ++ xs))
    (hfit : q.stored.length + xs.length < 2 ^ k) :
    (f.buffer.blit ((f.inn.toNat + xs.length) % 2 ^ k) [b]).length = f.buffer.length
      ∧ (f.buffer.blit ((f.inn.toNat + xs.length) % 2 ^ k) [b]).Lies f.out.toNat
        (q.stored ++ (xs ++ [b])) := by
  have hpos := Nat.two_pow_pos k
  have hplace : (f.inn.toNat + xs.length) % 2 ^ k
      = (f.out.toNat + (q.stored ++ xs).length) % f.buffer.length := by
    rw [h.buffer, Nat.add_mod, h.inn_mod, ← Nat.add_mod, List.length_append, Nat.add_assoc]
  have hroom : (f.out.toNat + (q.stored ++ xs).length) % f.buffer.length + [b].length
      ≤ f.buffer.length := by
    rw [List.length_singleton]
    exact Nat.mod_lt _ (by rw [h.buffer]; exact hpos)
  rw [hplace, ← List.append_assoc]
  refine ⟨List.length_blit hroom, List.lies_append.mpr ⟨?_, List.lies_blit_self hroom⟩⟩
  refine hlies.blit (Nat.le_refl _) ?_ hroom
  rw [List.length_append, List.length_singleton, h.buffer]
  omega

/-- The byte at the place of byte `i` of the queue. -/
theorem load (h : Holds k f q) {i : Nat} (hi : i < q.stored.length) :
    (f.buffer.drop ((f.out.toNat + i) % 2 ^ k)).take 1 = (q.stored.drop i).take 1 := by
  have hbyte := h.lies i hi
  rw [h.buffer] at hbyte
  rw [List.take_one, List.take_one, List.head?_drop, List.head?_drop, hbyte]

end Holds

/-! ## The invariant -/

namespace SharedFifo

variable {k : Nat} {q₀ q : BoundedQueue UInt8} {s : SharedFifo}

/-- What has been read, in one piece. -/
def taken (reads : List (UInt32 × Bytes)) : Bytes := (reads.map Prod.snd).flatten

theorem taken_append (reads : List (UInt32 × Bytes)) (x : UInt32 × Bytes) :
    taken (reads ++ [x]) = taken reads ++ x.2 := by
  simp [taken]

/-- The ring buffer holds `q`, and what the calls have copied so far is right. -/
structure Shares (k : Nat) (q₀ : BoundedQueue UInt8) (s : SharedFifo) (q : BoundedQueue UInt8) :
    Prop where
  holds : Holds k s.fifo q
  order : q₀.stored ++ s.puts.flatten = taken s.reads ++ q.stored
  writer : ∀ src done, s.writer = some (.copy src done) →
    q.stored.length + src.len.toNat ≤ 2 ^ k ∧ done ≤ src.len.toNat
      ∧ s.fifo.buffer.Lies s.fifo.out.toNat (q.stored ++ src.data.take done)
  reader : ∀ asked len got, s.reader = some (.copy asked len got) →
    len.toNat ≤ asked.toNat ∧ len.toNat ≤ q.stored.length ∧ got.length ≤ len.toNat
      ∧ got = q.stored.take got.length
  within : ∀ x ∈ s.reads, x.2.length ≤ x.1.toNat

/-- What is left to be seen of an accepted `fifo_put`. -/
theorem Shares.begin (h : Shares k q₀ s q) {src : FifoSource}
    (hroom : q.stored.length + src.len.toNat ≤ 2 ^ k) :
    Shares k q₀ { s with writer := some (.copy src 0), puts := s.puts ++ [] } q := by
  refine ⟨h.holds, by simpa using h.order, ?_, h.reader, h.within⟩
  intro src' done hw
  obtain ⟨rfl, rfl⟩ := FifoPut.copy.inj (Option.some.inj hw)
  exact ⟨hroom, Nat.zero_le _, by simpa using h.holds.lies⟩

theorem Shares.wait (h : Shares k q₀ s q) {w : Option FifoPut}
    (hw : ∀ src done, w ≠ some (.copy src done)) :
    Shares k q₀ { s with writer := w, puts := s.puts ++ [] } q :=
  ⟨h.holds, by simpa using h.order, fun src done h' => absurd h' (hw src done), h.reader, h.within⟩

/-- **A step of `fifo_put`.** -/
theorem Shares.putStep (h : Shares k q₀ s q) : ∃ q', Shares k q₀ s.putStep q' := by
  unfold SharedFifo.putStep
  cases hwriter : s.writer with
  | none => exact ⟨q, h⟩
  | some p =>
    cases p with
    | enter src =>
        dsimp only [FifoPut.step]
        split
        · exact ⟨q, h.wait (by simp)⟩
        · exact ⟨q, h.wait (by simp)⟩
    | room src =>
        dsimp only [FifoPut.step]
        split
        · exact ⟨q, h.wait (by simp)⟩
        · rename_i heq
          have hval := congrArg UInt32.toNat (not_not.mp heq)
          rw [fifoMin_toNat, h.holds.free] at hval
          have := h.holds.le_size
          exact ⟨q, h.begin (by omega)⟩
    | copy src done =>
        obtain ⟨hroom, hdone, hlies⟩ := h.writer src done hwriter
        have hread := src.readable
        have hlen : (src.data.take done).length = done := List.length_take_of_le (hdone.trans hread)
        dsimp only [FifoPut.step]
        split
        · rename_i hlt
          -- one byte more
          obtain ⟨b, hb⟩ : ∃ b, (src.data.drop done).take 1 = [b] :=
            ⟨src.data[done], by rw [List.drop_eq_getElem_cons (by omega)]; rfl⟩
          have hnext : src.data.take (done + 1) = src.data.take done ++ [b] := by
            rw [List.take_add, hb]
          have hstore := h.holds.store (b := b) hlies (by rw [hlen]; omega)
          rw [hlen, ← fifoPlace_eq h.holds.small h.holds.size (by omega) hlt, ← hb] at hstore
          refine ⟨q, ?_⟩
          refine ⟨h.holds.of_lies hstore.1 ?_, by simpa using h.order, ?_, h.reader, h.within⟩
          · exact (List.lies_append.mp hstore.2).1
          · intro src' done' hw
            obtain ⟨rfl, rfl⟩ := FifoPut.copy.inj (Option.some.inj hw)
            refine ⟨hroom, hlt, ?_⟩
            rw [hnext, ← hb]
            exact hstore.2
        · -- the put is over
          obtain rfl : done = src.len.toNat := by omega
          have hgrow := h.holds.grow (n := src.len) hlen (by rw [hlen]; exact hroom) hlies
          refine ⟨_, hgrow, ?_, by simp, ?_, h.within⟩
          · show q₀.stored ++ (s.puts ++ [src.bytes]).flatten
              = taken s.reads ++ (q.stored ++ src.bytes)
            rw [List.flatten_append, ← List.append_assoc, h.order]
            simp
          · intro asked len got hr
            obtain ⟨hasked, hle, hgot, heq⟩ := h.reader asked len got hr
            refine ⟨hasked, ?_, hgot, ?_⟩
            · rw [List.length_append]
              omega
            · rw [List.take_append_of_le_length (hgot.trans hle)]
              exact heq

theorem Shares.readOn (h : Shares k q₀ s q) {r : FifoRead}
    (hr : ∀ asked len got, r = .copy asked len got →
      len.toNat ≤ asked.toNat ∧ len.toNat ≤ q.stored.length ∧ got.length ≤ len.toNat
        ∧ got = q.stored.take got.length) :
    Shares k q₀ { s with reader := some r, reads := s.reads ++ [] } q := by
  refine ⟨h.holds, ?_, h.writer, fun asked len got hr' => hr asked len got (Option.some.inj hr'),
    by simpa using h.within⟩
  show q₀.stored ++ s.puts.flatten = taken (s.reads ++ []) ++ q.stored
  rw [List.append_nil]
  exact h.order

/-- **A step of `fifo_read`.** -/
theorem Shares.readStep (h : Shares k q₀ s q) : ∃ q', Shares k q₀ s.readStep q' := by
  unfold SharedFifo.readStep
  cases hreader : s.reader with
  | none => exact ⟨q, h⟩
  | some p =>
    cases p with
    | look asked =>
        refine ⟨q, h.readOn ?_⟩
        intro asked' len got hr
        obtain ⟨rfl, rfl, rfl⟩ := FifoRead.copy.inj hr
        rw [fifoMin_toNat, h.holds.stored]
        exact ⟨Nat.min_le_left _ _, Nat.min_le_right _ _, Nat.zero_le _, rfl⟩
    | copy asked len got =>
        obtain ⟨hasked, hle, hgot, heq⟩ := h.reader asked len got hreader
        dsimp only [FifoRead.step]
        split
        · rename_i hlt
          -- one byte more
          have hload := h.holds.load (i := got.length) (by omega)
          rw [← fifoPlace_eq h.holds.small h.holds.size (hle.trans h.holds.le_size) hlt] at hload
          rw [hload]
          refine ⟨q, h.readOn ?_⟩
          intro asked' len' got' hr
          obtain ⟨rfl, rfl, rfl⟩ := FifoRead.copy.inj hr
          have hone : ((q.stored.drop got.length).take 1).length = 1 :=
            List.length_take_of_le (by rw [List.length_drop]; omega)
          refine ⟨hasked, hle, by rw [List.length_append, hone]; omega, ?_⟩
          rw [List.length_append, hone, List.take_add, ← heq]
        · -- the read is over
          have hall : got.length = len.toNat := by omega
          have hstored : (q.drop len.toNat).stored = q.stored.drop len.toNat := rfl
          refine ⟨q.drop len.toNat, h.holds.drop hle, ?_, ?_, by simp, ?_⟩
          · show q₀.stored ++ s.puts.flatten
              = taken (s.reads ++ [(asked, got)]) ++ q.stored.drop len.toNat
            rw [h.order, taken_append, List.append_assoc, heq, hall, List.take_append_drop]
          · intro src done hw
            obtain ⟨hroom, hdone, hlies⟩ := h.writer src done hw
            refine ⟨?_, hdone, ?_⟩
            · rw [hstored, List.length_drop]
              omega
            · have hdrop := hlies.drop (k := len.toNat) (by rw [List.length_append]; omega)
              rw [List.drop_append_of_le_length hle] at hdrop
              refine hdrop.congr ?_
              show (s.fifo.out.toNat + len.toNat) % s.fifo.buffer.length
                = (s.fifo.out + len).toNat % s.fifo.buffer.length
              rw [h.holds.buffer, UInt32.toNat_add]
              exact (wrap_mod (h.holds.small.trans (by decide)) _).symm
          · intro x hx
            rcases List.mem_append.mp hx with hx | hx
            · exact h.within x hx
            · rw [List.mem_singleton.mp hx]
              exact hgot.trans hasked

/-- **What one step keeps.** -/
theorem Shares.step (h : Shares k q₀ s q) (e : SharedFifoEvent) :
    ∃ q', Shares k q₀ (s.step e) q' := by
  cases e with
  | put src =>
      unfold SharedFifo.step
      dsimp only
      split
      · exact ⟨q, h.holds, h.order, by simp, h.reader, h.within⟩
      · exact ⟨q, h⟩
  | putStep => exact h.putStep
  | read len =>
      unfold SharedFifo.step
      dsimp only
      split
      · exact ⟨q, h.holds, h.order, h.writer, by simp, h.within⟩
      · exact ⟨q, h⟩
  | readStep => exact h.readStep
  | enable => exact ⟨_, h.holds.setEnabled false, h.order, h.writer, h.reader, h.within⟩
  | disable => exact ⟨_, h.holds.setEnabled true, h.order, h.writer, h.reader, h.within⟩

theorem shares_init {f : Fifo} (h : Holds k f q) : Shares k q (init f) q :=
  ⟨h, by simp [init, taken], by simp [init], by simp [init], by simp [init]⟩

/-- **The ring buffer needs no lock between two threads**: in whatever order the one that puts and
the one that reads take their steps, it holds what has been put and not read, what has been read is
what has been put, in its order, and no read has brought more than it was asked for. -/
theorem holds_unread {f : Fifo} (h : Holds k f q₀) (es : List SharedFifoEvent) :
    ∀ s ∈ Machine.trail step (init f) es, ∃ q, Holds k s.fifo q
      ∧ q₀.stored ++ s.puts.flatten = taken s.reads ++ q.stored
      ∧ ∀ x ∈ s.reads, x.2.length ≤ x.1.toNat := by
  intro s hmem
  obtain ⟨q, hq⟩ := Machine.inv_trail step (fun s => ∃ q, Shares k q₀ s q)
    (fun s e hs _ => hs.elim fun q hq => hq.step e) ⟨q₀, shares_init h⟩
    (Machine.along_true step (init f) es) s hmem
  exact ⟨q, hq.holds, hq.order, hq.within⟩

/-! ## A buffer of four bytes -/

/-- Enabled and empty. -/
def fourPlaces : Fifo := ⟨[0, 0, 0, 0], 4, 0, 0, false⟩

theorem fourPlaces_holds :
    Holds 2 fourPlaces ((BoundedQueue.empty 4).setEnabled true) :=
  ⟨by decide, by decide, by decide, rfl, rfl, by decide, List.lies_nil _ _⟩

/-- Two bytes are put between a read of one byte and its look. It gets the first of them. -/
def readMeanwhile : List SharedFifoEvent :=
  [.read 1, .put ⟨[7, 8], 2, by decide⟩, .putStep, .putStep, .putStep, .putStep, .putStep,
    .readStep, .readStep, .readStep]

theorem readMeanwhile_holds :
    ∃ q, Holds 2 (Machine.run step (init fourPlaces) readMeanwhile).fifo q
      ∧ [] ++ (Machine.run step (init fourPlaces) readMeanwhile).puts.flatten
        = taken (Machine.run step (init fourPlaces) readMeanwhile).reads ++ q.stored
      ∧ ∀ x ∈ (Machine.run step (init fourPlaces) readMeanwhile).reads, x.2.length ≤ x.1.toNat :=
  holds_unread fourPlaces_holds readMeanwhile _ (Machine.run_mem_trail step _ _)

end SharedFifo

end TraceServer
