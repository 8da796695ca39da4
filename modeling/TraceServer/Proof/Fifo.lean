import TraceServer.Fifo
import TraceServer.Lib.BoundedQueue
import TraceServer.Lib.Refine

/-!
# The ring buffer is a bounded queue

The counters never come apart by more than `size`, so their difference modulo 2^32 is the
number of bytes stored, and since `size` divides 2^32 their wrapping does not move the
places the mask gives. That, and where the bytes lie (`Holds`), is all that a transfer
needs: its two copies are the two sides of the end of the buffer.
-/

namespace TraceServer

/-- What a call is for. -/
def queueCall (q : BoundedQueue UInt8) : FifoCall → FifoAnswer × BoundedQueue UInt8
  | .put data len _ => let r := q.put (data.take len.toNat); (.count r.1, r.2)
  | .read len => let r := q.read len.toNat; (.bytes r.1.length r.1, r.2)
  | .setOffset offset => let r := q.setOffset offset.toNat; (.count r.1, r.2)
  | .clean => (.done, q.clean)
  | .enable => (.done, q.setEnabled true)
  | .disable => (.done, q.setEnabled false)

/-- The ring buffer `f` of 2^k bytes holds the queue `q`. -/
structure Holds (k : Nat) (f : Fifo) (q : BoundedQueue UInt8) : Prop where
  small : k ≤ 30
  size : f.size.toNat = 2 ^ k
  buffer : f.buffer.length = 2 ^ k
  capacity : q.capacity = 2 ^ k
  enabled : q.enabled = !f.disable
  stored : (f.inn - f.out).toNat = q.stored.length
  lies : f.buffer.Lies f.out.toNat q.stored

/-! ## The counters -/

theorem fifoMin_toNat (x y : UInt32) : (fifoMin x y).toNat = min x.toNat y.toNat := by
  unfold fifoMin
  split
  · rename_i h
    rw [UInt32.lt_iff_toNat_lt] at h
    omega
  · rename_i h
    rw [UInt32.lt_iff_toNat_lt] at h
    omega

theorem fifoMin_eq_left {x y : UInt32} (h : x.toNat ≤ y.toNat) : fifoMin x y = x := by
  rw [← UInt32.toNat_inj, fifoMin_toNat]
  omega

theorem two_pow_le_of_small {k : Nat} (h : k ≤ 30) : 2 ^ k ≤ 1073741824 :=
  Nat.pow_le_pow_right (by decide) h

theorem toNat_pred {size : UInt32} (hpos : 0 < size.toNat) : (size - 1).toNat = size.toNat - 1 := by
  have hlt := size.toNat_lt
  rw [UInt32.toNat_sub, UInt32.toNat_one]
  omega

theorem mask_toNat {size : UInt32} (hpos : 0 < size.toNat) (x : UInt32) :
    (x &&& (size - 1)).toNat = x.toNat &&& (size.toNat - 1) := by
  rw [UInt32.toNat_and, toNat_pred hpos]

theorem mask_mod {size : UInt32} {k : Nat} (hsize : size.toNat = 2 ^ k) (x : UInt32) :
    (x &&& (size - 1)).toNat = x.toNat % 2 ^ k := by
  rw [mask_toNat (hsize ▸ Nat.two_pow_pos k), hsize, Nat.and_two_pow_sub_one_eq_mod]

/-- A counter that has wrapped stands for the same place. -/
theorem wrap_mod {k : Nat} (hk : k ≤ 32) (n : Nat) : n % 4294967296 % 2 ^ k = n % 2 ^ k :=
  Nat.mod_mod_of_dvd n (show 2 ^ k ∣ 2 ^ 32 from Nat.pow_dvd_pow 2 hk)

/-- The first of the two copies of a transfer of `m` bytes at `x`: it goes to the end of the
buffer, and the rest is for the second. -/
theorem firstCopy {size : UInt32} {k : Nat} (hk : k ≤ 30) (hsize : size.toNat = 2 ^ k)
    {x m l : UInt32}
    (hl : l = fifoMin m (size - (x &&& (size - 1)))) :
    l.toNat = min m.toNat (2 ^ k - x.toNat % 2 ^ k) ∧ (m - l).toNat = m.toNat - l.toNat := by
  have hsmall := two_pow_le_of_small hk
  have hlt := Nat.mod_lt x.toNat (Nat.two_pow_pos k)
  have hspace : (size - (x &&& (size - 1))).toNat = 2 ^ k - x.toNat % 2 ^ k := by
    rw [UInt32.toNat_sub, mask_mod hsize, hsize]
    omega
  have hval : l.toNat = min m.toNat (2 ^ k - x.toNat % 2 ^ k) := by
    rw [hl, fifoMin_toNat, hspace]
  refine ⟨hval, ?_⟩
  have := m.toNat_lt
  rw [UInt32.toNat_sub]
  omega

namespace Holds

variable {k : Nat} {f : Fifo} {q : BoundedQueue UInt8}

theorem le_size (h : Holds k f q) : q.stored.length ≤ 2 ^ k := h.capacity ▸ q.fits

/-- The space `fifo_put` computes. -/
theorem free (h : Holds k f q) : (f.size - f.inn + f.out).toNat = 2 ^ k - q.stored.length := by
  have hstored := h.stored
  have hle := h.le_size
  have hsmall := two_pow_le_of_small h.small
  have hinn := f.inn.toNat_lt
  have hout := f.out.toNat_lt
  rw [UInt32.toNat_sub] at hstored
  rw [UInt32.toNat_add, UInt32.toNat_sub, h.size]
  omega

/-- `in` is `out` and the bytes stored, modulo 2^32. -/
theorem inn_mod (h : Holds k f q) :
    f.inn.toNat % 2 ^ k = (f.out.toNat + q.stored.length) % 2 ^ k := by
  have hstored := h.stored
  have hinn := f.inn.toNat_lt
  have hout := f.out.toNat_lt
  rw [UInt32.toNat_sub] at hstored
  have hkey : f.inn.toNat = (f.out.toNat + q.stored.length) % 4294967296 := by omega
  rw [hkey, wrap_mod (h.small.trans (by decide))]

/-! ## The calls -/

/-- `fifo_put` into an enabled buffer with the room. -/
theorem put (h : Holds k f q) {data : Bytes} {len : UInt32} (hlen : len.toNat ≤ data.length)
    (hin : f.disable = false) (hfit : q.stored.length + len.toNat ≤ 2 ^ k) :
    (fifoPut f data len).1.toNat = (q.put (data.take len.toNat)).1
      ∧ Holds k (fifoPut f data len).2 (q.put (data.take len.toNat)).2 := by
  have hpos := Nat.two_pow_pos k
  have hsmall := two_pow_le_of_small h.small
  have hxs : (data.take len.toNat).length = len.toNat := List.length_take_of_le hlen
  have hmin : fifoMin len (f.size - f.inn + f.out) = len := by
    refine fifoMin_eq_left ?_
    rw [h.free]
    omega
  have hoff := mask_mod h.size f.inn
  obtain ⟨l, hl⟩ : ∃ l, l = fifoMin len (f.size - (f.inn &&& (f.size - 1))) := ⟨_, rfl⟩
  obtain ⟨hlval, hrest⟩ := firstCopy h.small h.size hl
  have hroom : q.stored.length + (data.take len.toNat).length ≤ f.buffer.length := by
    rw [h.buffer, hxs]
    exact hfit
  have htwo := h.lies.append_two (l := l.toNat) (by rw [h.buffer]; exact hpos) rfl hroom
    (by rw [h.buffer, hxs, ← h.inn_mod]; exact hlval)
  rw [h.buffer, ← h.inn_mod, List.take_take, Nat.min_eq_left (by omega), ← hoff,
    List.drop_take, ← hrest] at htwo
  obtain ⟨hret, hstored', hcap, hen⟩ := BoundedQueue.put_of_fits (q := q) (data.take len.toNat)
    (by rw [h.enabled, hin]; rfl) (by rw [hxs, h.capacity]; exact hfit)
  unfold fifoPut
  rw [if_neg (by simp [hin])]
  dsimp only
  rw [hmin, if_neg (by simp), ← hl]
  refine ⟨(hret.trans hxs).symm, h.small, h.size, htwo.1, hcap.trans h.capacity, hen.trans h.enabled,
    ?_, by rw [hstored']; exact htwo.2⟩
  -- the counters are as far apart as there are bytes, wherever they wrap
  have hstored := h.stored
  have := f.inn.toNat_lt
  have := f.out.toNat_lt
  dsimp only
  rw [UInt32.toNat_sub] at hstored ⊢
  rw [UInt32.toNat_add, hstored', List.length_append, hxs]
  omega

/-- A `fifo_put` that is not let in, or has not the room, changes nothing. -/
theorem put_refused (h : Holds k f q) {data : Bytes} {len : UInt32} (hlen : len.toNat ≤ data.length)
    (hnot : ¬ (f.disable = false ∧ q.stored.length + len.toNat ≤ 2 ^ k)) :
    fifoPut f data len = (0, f) ∧ q.put (data.take len.toNat) = (0, q) := by
  have hxs : (data.take len.toNat).length = len.toNat := List.length_take_of_le hlen
  constructor
  · unfold fifoPut
    cases hdis : f.disable with
    | true => rfl
    | false =>
        rw [if_neg (by simp)]
        dsimp only
        refine if_pos fun hmin => hnot ⟨hdis, ?_⟩
        have hval := congrArg UInt32.toNat hmin
        rw [fifoMin_toNat, h.free] at hval
        have := h.le_size
        omega
  · refine BoundedQueue.put_of_not_fits fun hin => hnot ⟨?_, ?_⟩
    · have hen := hin.1
      rw [h.enabled] at hen
      simpa using hen
    · rw [← hxs, ← h.capacity]
      exact hin.2

/-- Moving `out` drops the oldest bytes. -/
theorem drop (h : Holds k f q) {n : UInt32} (hn : n.toNat ≤ q.stored.length) :
    Holds k { f with out := f.out + n } (q.drop n.toNat) := by
  refine ⟨h.small, h.size, h.buffer, h.capacity, h.enabled, ?_, ?_⟩
  · have hstored := h.stored
    have hle := h.le_size
    have hsmall := two_pow_le_of_small h.small
    have := f.inn.toNat_lt
    have := f.out.toNat_lt
    have := n.toNat_lt
    unfold BoundedQueue.drop
    dsimp only
    rw [UInt32.toNat_sub] at hstored ⊢
    rw [UInt32.toNat_add, List.length_drop]
    omega
  · refine (h.lies.drop hn).congr ?_
    show (f.out.toNat + n.toNat) % f.buffer.length = (f.out + n).toNat % f.buffer.length
    rw [h.buffer, UInt32.toNat_add]
    exact (wrap_mod (h.small.trans (by decide)) _).symm

/-- `fifo_read` hands over the oldest bytes. -/
theorem read (h : Holds k f q) (len : UInt32) :
    (fifoRead f len).1.1.toNat = (q.stored.take len.toNat).length
      ∧ (fifoRead f len).1.2 = q.stored.take len.toNat
      ∧ Holds k (fifoRead f len).2 (q.drop len.toNat) := by
  have hpos := Nat.two_pow_pos k
  have hsmall := two_pow_le_of_small h.small
  obtain ⟨m, hm⟩ : ∃ m, m = fifoMin len (f.inn - f.out) := ⟨_, rfl⟩
  have hmval : m.toNat = (q.stored.take len.toNat).length := by
    rw [hm, fifoMin_toNat, h.stored, List.length_take]
  have hmle : m.toNat ≤ q.stored.length := by
    rw [hmval, List.length_take]
    omega
  have hoff := mask_mod h.size f.out
  obtain ⟨l, hl⟩ : ∃ l, l = fifoMin m (f.size - (f.out &&& (f.size - 1))) := ⟨_, rfl⟩
  obtain ⟨hlval, hrest⟩ := firstCopy h.small h.size hl
  have htwo := (h.lies.take len.toNat).read_two (l := l.toNat) (by rw [h.buffer]; exact hpos)
    (by rw [h.buffer, ← hmval]; exact hmle.trans h.le_size) (by rw [h.buffer, ← hmval]; exact hlval)
  rw [h.buffer, ← hmval, ← hoff, ← hrest] at htwo
  -- more than there is cannot be dropped
  have hdrop : q.drop len.toNat = q.drop m.toNat := by
    unfold BoundedQueue.drop
    congr 1
    rw [hmval, List.length_take]
    rcases Nat.le_total len.toNat q.stored.length with hle | hle
    · rw [Nat.min_eq_left hle]
    · rw [Nat.min_eq_right hle, List.drop_eq_nil_of_le hle, List.drop_length]
  unfold fifoRead
  dsimp only
  rw [← hm, ← hl, hdrop]
  exact ⟨hmval, htwo, h.drop hmle⟩

/-- **Every call does to the ring buffer what it is for.** -/
theorem call (h : Holds k f q) (c : FifoCall) :
    (f.call c).1 = (queueCall q c).1 ∧ Holds k (f.call c).2 (queueCall q c).2 := by
  cases c with
  | put data len hlen =>
      show FifoAnswer.count _ = FifoAnswer.count _ ∧ Holds k (fifoPut f data len).2 (q.put _).2
      by_cases hin : f.disable = false ∧ q.stored.length + len.toNat ≤ 2 ^ k
      · obtain ⟨hret, hholds⟩ := h.put hlen hin.1 hin.2
        exact ⟨congrArg FifoAnswer.count hret, hholds⟩
      · obtain ⟨hfifo, hqueue⟩ := h.put_refused hlen hin
        rw [hfifo, hqueue]
        exact ⟨rfl, h⟩
  | read len =>
      obtain ⟨hcount, hbytes, hholds⟩ := h.read len
      refine ⟨?_, hholds⟩
      show FifoAnswer.bytes _ _ = FifoAnswer.bytes _ _
      rw [hcount, hbytes]
      rfl
  | setOffset offset =>
      show FifoAnswer.count _ = FifoAnswer.count _
        ∧ Holds k (fifoSetOffset f offset).2 (q.setOffset offset.toNat).2
      unfold fifoSetOffset BoundedQueue.setOffset
      by_cases hle : offset.toNat ≤ q.stored.length
      · have hcmp : ¬ offset > f.inn - f.out := by
          rw [gt_iff_lt, UInt32.lt_iff_toNat_lt, h.stored]
          omega
        rw [if_neg hcmp, if_pos hle]
        exact ⟨rfl, h.drop hle⟩
      · have hcmp : offset > f.inn - f.out := by
          rw [gt_iff_lt, UInt32.lt_iff_toNat_lt, h.stored]
          omega
        rw [if_pos hcmp, if_neg hle]
        exact ⟨rfl, h⟩
  | clean =>
      refine ⟨rfl, h.small, h.size, h.buffer, h.capacity, h.enabled, ?_, List.lies_nil _ _⟩
      show ((0 : UInt32) - 0).toNat = 0
      rfl
  | enable => exact ⟨rfl, h.small, h.size, h.buffer, h.capacity, rfl, h.stored, h.lies⟩
  | disable => exact ⟨rfl, h.small, h.size, h.buffer, h.capacity, rfl, h.stored, h.lies⟩

end Holds

/-- **The ring buffer refines a bounded queue of its size**: no sequence of calls tells them
apart. -/
theorem fifo_refines (k : Nat) (hk : k ≤ 30) (size : UInt32) (hsize : size.toNat = 2 ^ k)
    (buffer : Bytes) (hbuf : buffer.length = size.toNat) (calls : List FifoCall) :
    ∃ f, fifoCreateByArray buffer size = some f
      ∧ Machine.answers Fifo.call f calls
        = Machine.answers queueCall (BoundedQueue.empty size.toNat) calls := by
  have hpos : 0 < size := by
    rw [UInt32.lt_iff_toNat_lt, hsize]
    exact Nat.two_pow_pos k
  refine ⟨⟨buffer, size, 0, 0, true⟩, if_pos hpos, ?_⟩
  have hrefines : Machine.Refines Fifo.call queueCall (Holds k) := fun _ _ c h => h.call c
  have hzero : ((0 : UInt32) - 0).toNat = 0 := by decide
  have hempty : Holds k ⟨buffer, size, 0, 0, true⟩ (BoundedQueue.empty size.toNat) :=
    ⟨hk, hsize, hbuf.trans hsize, hsize, rfl, hzero, List.lies_nil _ _⟩
  exact hrefines.answers_eq hempty calls

/-- A buffer of four bytes, round its end. -/
theorem fifo_refines_four : ∃ f, fifoCreateByArray [0, 0, 0, 0] 4 = some f
    ∧ Machine.answers Fifo.call f
        [.enable, .put [1, 2, 3] 3 (by decide), .read 2, .put [4, 5, 6] 3 (by decide), .read 9]
      = Machine.answers queueCall (BoundedQueue.empty (4 : UInt32).toNat)
        [.enable, .put [1, 2, 3] 3 (by decide), .read 2, .put [4, 5, 6] 3 (by decide), .read 9] :=
  fifo_refines 2 (by decide) 4 (by decide) [0, 0, 0, 0] (by decide) _

end TraceServer
