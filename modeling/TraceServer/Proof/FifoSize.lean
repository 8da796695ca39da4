import TraceServer.Lib.Mask
import TraceServer.Proof.Fifo

/-!
# The size of the ring buffer (`fifo_cal_buffer_size`, `fifo_create_by_array`)

`fifo_cal_buffer_size` finds the least power of two for a size by counting the bits of the
size less one. It counts them on an `int`: behind 2^31 that is negative, the sign comes in
from the left with every shift, and nothing is left to count down to.

`fifo_create_by_array` does not call it, and takes a size as it is, though only a power of
two can be used as a mask.
-/

namespace TraceServer

/-! ## The scan -/

theorem half_natCast (n : Nat) : (n : Int) >>> (1 : Nat) = ((n / 2 : Nat) : Int) := by
  rw [Int.shiftRight_eq_div_pow]
  omega

/-- **The loop counts the bits** of what is not negative. -/
theorem flsLoop_natCast : ∀ (fuel n : Nat) (position : Int), n.size < fuel →
    position + n.size ≤ intMax → flsLoop fuel n position = .returns (position + n.size)
  | 0, _, _, hfuel, _ => absurd hfuel (Nat.not_lt_zero _)
  | fuel + 1, n, position, hfuel, hmax => by
      rw [flsLoop]
      by_cases hn : n = 0
      · rw [if_neg (by omega), hn, Nat.size_zero, Nat.cast_zero, Int.add_zero]
      · have hsize := Nat.size_half hn
        rw [if_pos (by omega), if_pos (by omega), half_natCast,
          flsLoop_natCast fuel (n / 2) (position + 1) (by omega) (by omega), hsize]
        congr 1
        omega

/-- A negative `int` stays negative, and the counter runs out. -/
theorem flsLoop_negative : ∀ (fuel : Nat) (i position : Int), i < 0 → position ≤ intMax →
    intMax < position + fuel → flsLoop fuel i position = .overflow
  | 0, _, _, _, hmax, hfuel => by omega
  | fuel + 1, i, position, hi, hmax, hfuel => by
      rw [flsLoop, if_pos (by omega)]
      by_cases hlt : position < intMax
      · rw [if_pos hlt]
        refine flsLoop_negative fuel (i >>> (1 : Nat)) (position + 1) ?_ (by omega) (by omega)
        rw [Int.shiftRight_eq_div_pow]
        omega
      · rw [if_neg hlt]

theorem fls_natCast {n : Nat} (hn : n.size ≤ 31) : fls n = .returns n.size := by
  unfold fls
  by_cases hzero : n = 0
  · rw [if_neg (by omega), hzero, Nat.size_zero]
    rfl
  · have hsize := Nat.size_half hzero
    have hloop := flsLoop_natCast (intMax.toNat + 2) (n / 2) 0
      (by unfold intMax; omega) (by unfold intMax; omega)
    rw [if_pos (by omega), half_natCast, hloop, hsize, Int.zero_add]
    rfl

theorem fls_negative {x : Int} (hx : x < 0) : fls x = .overflow := by
  have hloop : flsLoop (intMax.toNat + 2) (x >>> (1 : Nat)) 0 = .overflow := by
    refine flsLoop_negative _ _ _ ?_ (by decide) (by decide)
    rw [Int.shiftRight_eq_div_pow]
    omega
  unfold fls
  rw [if_pos (by omega), hloop]
  rfl

/-! ## `fifo_cal_buffer_size` -/

/-- The test in front of the rounding. -/
theorem and_pred_eq_zero_iff {size : UInt32} (hpos : 0 < size.toNat) :
    size &&& (size - 1) = 0 ↔ size.toNat.isPowerOfTwo := by
  rw [← UInt32.toNat_inj, mask_toNat hpos]
  exact Nat.and_sub_one_eq_zero_iff_isPowerOfTwo (Nat.ne_of_gt hpos)

/-- Neither the shift nor the conversion of its result loses the bit. -/
theorem shift_toNat {n : Nat} (hn : n ≤ 31) :
    ((1 : UInt64) <<< UInt64.ofNat n).toUInt32.toNat = 2 ^ n := by
  have hpow : 2 ^ n ≤ 2147483648 := Nat.pow_le_pow_right (by decide) hn
  rw [UInt64.toNat_toUInt32, UInt64.toNat_shiftLeft, UInt64.toNat_ofNat', UInt64.toNat_one,
    Nat.one_shiftLeft, Nat.mod_eq_of_lt (show n < 2 ^ 64 by omega),
    Nat.mod_eq_of_lt (show n < 64 by omega), Nat.mod_eq_of_lt (show 2 ^ n < 2 ^ 64 by omega),
    Nat.mod_eq_of_lt (by omega)]

theorem roundupPowOfTwo_returns {x : UInt32} (hpos : 0 < x.toNat) (hx : x.toNat ≤ 2 ^ 31) :
    ∃ n, roundupPowOfTwo x = .returns n ∧ n.toNat = 2 ^ (x.toNat - 1).size := by
  have hbits : (x.toNat - 1).size ≤ 31 := by
    rw [Nat.size_le]
    omega
  have hint : toInt (x - 1).toNat = (x.toNat - 1 : Nat) := by
    rw [toNat_pred hpos]
    exact toInt_eq_self (by omega) (by unfold intMax; omega)
  refine ⟨_, by rw [roundupPowOfTwo, hint, fls_natCast hbits]; rfl, ?_⟩
  exact shift_toNat hbits

theorem roundupPowOfTwo_overflow {x : UInt32} (hx : 2 ^ 31 < x.toNat) :
    roundupPowOfTwo x = .overflow := by
  have hlt := x.toNat_lt
  have hneg : toInt (x - 1).toNat < 0 := by
    rw [toNat_pred (by omega), toInt_eq_bmod, Int.bmod_def]
    omega
  rw [roundupPowOfTwo, fls_negative hneg]
  rfl

/-- **The least power of two**, as long as there is one. -/
theorem fifoCalBufferSize_least {size : UInt32} (hpos : 0 < size.toNat)
    (hsize : size.toNat ≤ 2 ^ 31) :
    ∃ n, fifoCalBufferSize size = .returns n
      ∧ IsLeast {p : Nat | p.isPowerOfTwo ∧ size.toNat ≤ p} n.toNat := by
  unfold fifoCalBufferSize
  by_cases hpow : size.toNat.isPowerOfTwo
  · refine ⟨size, if_neg (not_not_intro ((and_pred_eq_zero_iff hpos).mpr hpow)), ?_⟩
    exact ⟨⟨hpow, Nat.le_refl _⟩, fun _ hp => hp.2⟩
  · obtain ⟨n, hround, hn⟩ := roundupPowOfTwo_returns hpos hsize
    refine ⟨n, by rw [if_pos fun h => hpow ((and_pred_eq_zero_iff hpos).mp h), hround], ?_⟩
    rw [hn]
    exact Nat.isLeast_two_pow_size hpos

theorem exponent_lt {p : UInt32} {k : Nat} (hk : p.toNat = 2 ^ k) : k < 32 := by
  have hlt : 2 ^ k < 2 ^ 32 := hk ▸ p.toNat_lt
  exact (Nat.pow_lt_pow_iff_right (by decide)).mp hlt

/-- A power of two of 32 bits is at most 2^31. -/
theorem le_of_isPowerOfTwo {p : UInt32} (hp : p.toNat.isPowerOfTwo) : p.toNat ≤ 2 ^ 31 := by
  obtain ⟨k, hk⟩ := hp
  have hk' := exponent_lt hk
  rw [hk]
  exact Nat.pow_le_pow_right (by decide) (by omega)

theorem fifoCalBufferSize_overflow {size : UInt32} (hsize : 2 ^ 31 < size.toNat) :
    fifoCalBufferSize size = .overflow := by
  have hpow : ¬ size.toNat.isPowerOfTwo := fun h => absurd (le_of_isPowerOfTwo h) (by omega)
  rw [fifoCalBufferSize, if_pos fun h => hpow ((and_pred_eq_zero_iff (by omega)).mp h),
    roundupPowOfTwo_overflow hsize]

/-- What `fifo_cal_buffer_size` is for. -/
structure RoundsUp (size : UInt32) : Prop where
  ends : ∃ n, fifoCalBufferSize size = .returns n
  least : (∃ p : UInt32, p.toNat.isPowerOfTwo ∧ size ≤ p) → ∃ n, fifoCalBufferSize size = .returns n
    ∧ IsLeast {p : Nat | p.isPowerOfTwo ∧ size.toNat ≤ p} n.toNat

/-- **`fifo_cal_buffer_size` does what it is for exactly up to 2^31.** -/
theorem roundsUp_iff (size : UInt32) (hpos : 1 ≤ size) : RoundsUp size ↔ size.toNat ≤ 2 ^ 31 := by
  constructor
  · intro h
    obtain ⟨n, hn⟩ := h.ends
    by_contra hlt
    rw [fifoCalBufferSize_overflow (by omega)] at hn
    exact absurd hn (by simp)
  · intro hsize
    have hleast := fifoCalBufferSize_least (UInt32.le_iff_toNat_le.mp hpos) hsize
    exact ⟨hleast.imp fun _ h => h.1, fun _ => hleast⟩

theorem roundsUp_iff_five : RoundsUp 5 := (roundsUp_iff 5 (by decide)).mpr (by decide)

/-- From 2^31 + 1 on it does not come back. -/
theorem largeSize_overflows : ¬ ∀ size : UInt32, 1 ≤ size → RoundsUp size := by
  intro hall
  obtain ⟨n, hn⟩ := (hall 2147483649 (by decide)).ends
  rw [fifoCalBufferSize_overflow (by decide)] at hn
  exact absurd hn (by simp)

/-! ## `fifo_create_by_array` -/

/-- The mask is the remainder, with a power of two only. -/
theorem mask_eq_mod_iff {size : UInt32} (hpos : 0 < size.toNat) :
    (∀ x, x &&& (size - 1) = x % size) ↔ size.toNat.isPowerOfTwo := by
  constructor
  · intro h
    have hself := congrArg UInt32.toNat (h size)
    rw [mask_toNat hpos, UInt32.toNat_mod] at hself
    exact Nat.isPowerOfTwo_of_and_pred hpos hself
  · intro hpow x
    rw [← UInt32.toNat_inj, mask_toNat hpos, UInt32.toNat_mod]
    exact Nat.and_pred_eq_mod hpow _

/-- It tells `size` counter values in a row apart, with a power of two only. -/
theorem mask_apart_iff {size : UInt32} (hpos : 0 < size.toNat) :
    (∀ x a b : UInt32, a < size → b < size →
        (x + a) &&& (size - 1) = (x + b) &&& (size - 1) → a = b)
      ↔ size.toNat.isPowerOfTwo := by
  constructor
  · intro h
    by_contra hnot
    obtain ⟨j, hj, hzero⟩ := Nat.exists_and_pred_eq_zero hpos hnot
    have hval : (UInt32.ofNat (2 ^ j)).toNat = 2 ^ j :=
      UInt32.toNat_ofNat_of_lt' (hj.trans size.toNat_lt)
    have hstart : 0 < size := by
      rw [UInt32.lt_iff_toNat_lt]
      exact hpos
    have hin : UInt32.ofNat (2 ^ j) < size := by
      rw [UInt32.lt_iff_toNat_lt, hval]
      exact hj
    -- the counter 2^j has the place of the counter 0
    have hsame : (0 + UInt32.ofNat (2 ^ j)) &&& (size - 1) = (0 + 0) &&& (size - 1) := by
      rw [UInt32.zero_add, UInt32.zero_add, ← UInt32.toNat_inj, mask_toNat hpos, mask_toNat hpos,
        hval, hzero, UInt32.toNat_zero, Nat.zero_and]
    have heq := congrArg UInt32.toNat (h 0 _ 0 hin hstart hsame)
    have hpow := Nat.two_pow_pos j
    rw [hval, UInt32.toNat_zero] at heq
    omega
  · rintro ⟨k, hk⟩ x a b ha hb hsame
    have hk32 := Nat.le_of_lt (exponent_lt hk)
    rw [UInt32.lt_iff_toNat_lt, hk] at ha hb
    have hmod := congrArg UInt32.toNat hsame
    rw [mask_mod hk, mask_mod hk, UInt32.toNat_add, UInt32.toNat_add] at hmod
    have hmod' : (x.toNat + a.toNat) % 2 ^ k = (x.toNat + b.toNat) % 2 ^ k := by
      rw [← wrap_mod hk32, ← wrap_mod hk32 (x.toNat + b.toNat)]
      exact hmod
    rw [← UInt32.toNat_inj]
    rcases Nat.lt_trichotomy a.toNat b.toNat with hlt | heq | hgt
    · exact absurd hmod' (Cyclic.mod_ne_of_lt (by omega) (by omega))
    · exact heq
    · exact absurd hmod'.symm (Cyclic.mod_ne_of_lt (by omega) (by omega))

/-- What `fifo_put` and `fifo_read` rely on in a buffer of `size` bytes. -/
structure MasksRight (size : UInt32) (f : Fifo) : Prop where
  pow : f.size.toNat.isPowerOfTwo
  fits : f.size ≤ size
  place : ∀ x, x &&& (f.size - 1) = x % f.size
  apart : ∀ x a b : UInt32, a < f.size → b < f.size →
    (x + a) &&& (f.size - 1) = (x + b) &&& (f.size - 1) → a = b

theorem masksRight_of_isPowerOfTwo {size : UInt32} (hpow : size.toNat.isPowerOfTwo)
    (buffer : Bytes) : MasksRight size ⟨buffer, size, 0, 0, true⟩ :=
  have hpos := Nat.pos_of_isPowerOfTwo hpow
  ⟨hpow, UInt32.le_refl _, (mask_eq_mod_iff hpos).mpr hpow, (mask_apart_iff hpos).mpr hpow⟩

/-- **A ring buffer has the size its masks need exactly when the caller's is a power of two.** -/
theorem masksRight_iff (buffer : Bytes) (size : UInt32) (f : Fifo)
    (h : fifoCreateByArray buffer size = some f) :
    MasksRight size f ↔ size.toNat.isPowerOfTwo := by
  unfold fifoCreateByArray at h
  split at h
  · obtain rfl := Option.some.inj h
    exact ⟨fun hmasks => hmasks.pow, fun hpow => masksRight_of_isPowerOfTwo hpow buffer⟩
  · exact absurd h (by simp)

theorem masksRight_iff_four : MasksRight 4 ⟨[0, 0, 0, 0], 4, 0, 0, true⟩ :=
  (masksRight_iff [0, 0, 0, 0] 4 ⟨[0, 0, 0, 0], 4, 0, 0, true⟩ rfl).mpr ⟨2, rfl⟩

/-- Three bytes are taken as they are. -/
theorem threeBytes_collide :
    ¬ ∀ (buffer : Bytes) (size : UInt32) (f : Fifo), 0 < size →
      fifoCreateByArray buffer size = some f → MasksRight size f := by
  intro hall
  have hmasks := hall [0, 0, 0] 3 ⟨[0, 0, 0], 3, 0, 0, true⟩ (by decide) rfl
  exact absurd (hmasks.apart 0 0 1 (by decide) (by decide) (by decide)) (by decide)

/-- The size that `fifo_cal_buffer_size` gives for the caller's would do. -/
theorem masksRight_calBufferSize {size n : UInt32} (hpos : 0 < size.toNat)
    (hn : fifoCalBufferSize size = .returns n) (buffer : Bytes) :
    ∃ f, fifoCreateByArray buffer n = some f ∧ MasksRight n f := by
  have hsize : size.toNat ≤ 2 ^ 31 := by
    by_contra hlt
    rw [fifoCalBufferSize_overflow (by omega)] at hn
    exact absurd hn (by simp)
  obtain ⟨n', hn', hleast⟩ := fifoCalBufferSize_least hpos hsize
  rw [hn] at hn'
  obtain rfl := ScanEnd.returns.inj hn'
  have hpow := hleast.1.1
  refine ⟨_, if_pos ?_, masksRight_of_isPowerOfTwo hpow buffer⟩
  rw [UInt32.lt_iff_toNat_lt]
  exact Nat.pos_of_isPowerOfTwo hpow

/-! ## Bytes that overwrite one another -/

/-- A `fifo_put` at a counter that has the place of the start: the bytes there are overwritten. -/
theorem fifoPut_start (buffer data : Bytes) {size inn len : UInt32}
    (hplace : inn &&& (size - 1) = 0) (hroom : inn.toNat + len.toNat ≤ size.toNat) :
    fifoPut ⟨buffer, size, inn, 0, false⟩ data len
      = (len, ⟨buffer.blit 0 (data.take len.toNat), size, inn + len, 0, false⟩) := by
  have hlt := size.toNat_lt
  have hfree : len.toNat ≤ (size - inn + 0).toNat := by
    rw [UInt32.add_zero, UInt32.toNat_sub]
    omega
  have hend : len.toNat ≤ (size - 0).toNat := by
    rw [UInt32.sub_zero]
    omega
  unfold fifoPut
  rw [if_neg (by simp)]
  dsimp only
  rw [hplace, fifoMin_eq_left hfree, if_neg (by simp), fifoMin_eq_left hend, UInt32.sub_self,
    UInt32.toNat_zero, List.take_zero, List.blit_zero _ []]
  rfl

/-- A `fifo_read` of one byte from the start. -/
theorem fifoRead_start (buffer : Bytes) {size inn : UInt32} (hpos : 0 < size.toNat)
    (hinn : 0 < inn.toNat) :
    (fifoRead ⟨buffer, size, inn, 0, false⟩ 1).1 = (1, buffer.take 1) := by
  have hstored : (1 : UInt32).toNat ≤ (inn - 0).toNat := by
    rw [UInt32.sub_zero]
    exact hinn
  have hend : (1 : UInt32).toNat ≤ (size - 0).toNat := by
    rw [UInt32.sub_zero]
    exact hpos
  unfold fifoRead
  dsimp only
  rw [UInt32.zero_and, fifoMin_eq_left hstored, fifoMin_eq_left hend, UInt32.sub_self,
    UInt32.toNat_zero, List.take_zero, List.append_nil, List.drop_zero]
  rfl

/-- `len` zeros, a one, and the first byte back. -/
def overwriteCalls (len : UInt32) : List FifoCall :=
  [.enable, .put (List.replicate len.toNat 0) len (by simp), .put [1] 1 (by decide), .read 1]

/-- A queue gives a zero back. -/
theorem overwriteCalls_queue {size : Nat} {len : UInt32} (hlen : 0 < len.toNat)
    (hfit : len.toNat < size) :
    (Machine.answers queueCall (BoundedQueue.empty size) (overwriteCalls len))[3]?
      = some (.bytes 1 [0]) := by
  obtain ⟨m, hm⟩ : ∃ m, len.toNat = m + 1 := ⟨len.toNat - 1, by omega⟩
  have hzeros : (List.replicate len.toNat (0 : UInt8)).take len.toNat
      = 0 :: List.replicate m 0 := by
    rw [List.take_of_length_le (by simp), hm, List.replicate_succ]
  let q := (BoundedQueue.empty size : BoundedQueue UInt8).setEnabled true
  obtain ⟨_, hstored, hcap, hin⟩ := BoundedQueue.put_of_fits (q := q) (0 :: List.replicate m 0) rfl
    (by
      show 0 + (List.replicate m (0 : UInt8)).length + 1 ≤ size
      rw [List.length_replicate]
      omega)
  obtain ⟨_, hstored', _, _⟩ := BoundedQueue.put_of_fits [1] hin (by
    rw [hstored, hcap]
    show (List.replicate m (0 : UInt8)).length + 1 + 1 ≤ size
    rw [List.length_replicate]
    omega)
  show some (FifoAnswer.bytes ((((q.put _).2.put [1]).2.stored.take 1).length)
    (((q.put _).2.put [1]).2.stored.take 1)) = _
  rw [hzeros, hstored', hstored]
  rfl

/-- The ring buffer gives the one back, when `len` has the place of the start. -/
theorem overwriteCalls_fifo {size len : UInt32} (hfit : len.toNat < size.toNat)
    (hplace : len &&& (size - 1) = 0) (buffer : Bytes) :
    (Machine.answers Fifo.call ⟨buffer, size, 0, 0, true⟩ (overwriteCalls len))[3]?
      = some (.bytes 1 [1]) := by
  have hlt := size.toNat_lt
  have hstart : (0 : UInt32) &&& (size - 1) = 0 := UInt32.zero_and
  have hzero : (0 : UInt32).toNat + len.toNat ≤ size.toNat := by
    rw [UInt32.toNat_zero]
    omega
  have hnext : len.toNat + (1 : UInt32).toNat ≤ size.toNat := hfit
  have hstored : 0 < (len + 1).toNat := by
    rw [UInt32.toNat_add, UInt32.toNat_one]
    omega
  show some (FifoAnswer.bytes
    (fifoRead (fifoPut (fifoPut ⟨buffer, size, 0, 0, false⟩ _ _).2 _ _).2 1).1.1.toNat
    (fifoRead (fifoPut (fifoPut ⟨buffer, size, 0, 0, false⟩ _ _).2 _ _).2 1).1.2) = _
  rw [fifoPut_start buffer _ hstart hzero, UInt32.zero_add, fifoPut_start _ _ hplace hnext,
    fifoRead_start _ (by omega) hstored, List.blit_zero]
  rfl

/-- **With any other size stored bytes are lost**: some calls tell the ring buffer from a queue. -/
theorem fifo_overwrites {size : UInt32} (hpos : 0 < size.toNat)
    (hnot : ¬ size.toNat.isPowerOfTwo) (buffer : Bytes) :
    ∃ f calls, fifoCreateByArray buffer size = some f
      ∧ Machine.answers Fifo.call f calls
        ≠ Machine.answers queueCall (BoundedQueue.empty size.toNat) calls := by
  obtain ⟨j, hj, hzero⟩ := Nat.exists_and_pred_eq_zero hpos hnot
  obtain ⟨len, hlen⟩ : ∃ len : UInt32, len.toNat = 2 ^ j :=
    ⟨UInt32.ofNat (2 ^ j), UInt32.toNat_ofNat_of_lt' (hj.trans size.toNat_lt)⟩
  have hplace : len &&& (size - 1) = 0 := by
    rw [← UInt32.toNat_inj, mask_toNat hpos, hlen, hzero]
    rfl
  have hpos' : 0 < size := by
    rw [UInt32.lt_iff_toNat_lt]
    exact hpos
  have hlen' : 0 < len.toNat := by
    rw [hlen]
    exact Nat.two_pow_pos j
  rw [← hlen] at hj
  refine ⟨⟨buffer, size, 0, 0, true⟩, overwriteCalls len, if_pos hpos', ?_⟩
  intro heq
  have hlast := congrArg (fun answers => answers[3]?) heq
  rw [overwriteCalls_fifo hj hplace, overwriteCalls_queue hlen' hj] at hlast
  exact absurd hlast (by decide)

/-! ## A queue or not -/

/-- With a power of two it is a queue. -/
theorem answers_eq_queue {size : UInt32} (hpow : size.toNat.isPowerOfTwo)
    (hmax : size.toNat ≤ 2 ^ 30) {buffer : Bytes} (hbuf : buffer.length = size.toNat)
    (calls : List FifoCall) : Machine.answers Fifo.call ⟨buffer, size, 0, 0, true⟩ calls
      = Machine.answers queueCall (BoundedQueue.empty size.toNat) calls := by
  obtain ⟨k, hsize⟩ := hpow
  have hk : k ≤ 30 := by
    rw [hsize] at hmax
    exact (Nat.pow_le_pow_iff_right (by decide)).mp hmax
  have hzero : ((0 : UInt32) - 0).toNat = 0 := by decide
  have hempty : Holds k ⟨buffer, size, 0, 0, true⟩ (BoundedQueue.empty size.toNat) :=
    ⟨hk, hsize, hbuf.trans hsize, hsize, rfl, hzero, List.lies_nil _ _⟩
  have hrefines : Machine.Refines Fifo.call queueCall (Holds k) := fun _ _ c h => h.call c
  exact hrefines.answers_eq hempty calls

/-- **A ring buffer is a queue of its size exactly when that is a power of two.** -/
theorem fifo_isQueue_iff {size : UInt32} (hpos : 0 < size.toNat) (hmax : size.toNat ≤ 2 ^ 30)
    {buffer : Bytes} (hbuf : buffer.length = size.toNat) :
    (∃ f, fifoCreateByArray buffer size = some f
        ∧ ∀ calls, Machine.answers Fifo.call f calls
          = Machine.answers queueCall (BoundedQueue.empty size.toNat) calls)
      ↔ size.toNat.isPowerOfTwo := by
  constructor
  · rintro ⟨f, hf, hqueue⟩
    by_contra hnot
    obtain ⟨f', calls, hf', hne⟩ := fifo_overwrites hpos hnot buffer
    obtain rfl := Option.some.inj (hf.symm.trans hf')
    exact hne (hqueue calls)
  · intro hpow
    have hpos' : 0 < size := by
      rw [UInt32.lt_iff_toNat_lt]
      exact hpos
    exact ⟨_, if_pos hpos', answers_eq_queue hpow hmax hbuf⟩

/-- Three bytes are no queue. -/
theorem threeBytes_isQueue_iff : (∃ f, fifoCreateByArray [0, 0, 0] 3 = some f
    ∧ ∀ calls, Machine.answers Fifo.call f calls
      = Machine.answers queueCall (BoundedQueue.empty (3 : UInt32).toNat) calls)
    ↔ (3 : UInt32).toNat.isPowerOfTwo :=
  fifo_isQueue_iff (by decide) (by decide) (by decide)

/-- **A buffer of the size that `fifo_cal_buffer_size` gives is a queue** with room for what was
asked for. -/
theorem calBufferSize_isQueue {size : UInt32} (hpos : 0 < size.toNat) (hmax : size.toNat ≤ 2 ^ 30) :
    ∃ n, fifoCalBufferSize size = .returns n ∧ size ≤ n
      ∧ ∀ buffer : Bytes, buffer.length = n.toNat → ∃ f, fifoCreateByArray buffer n = some f
        ∧ ∀ calls, Machine.answers Fifo.call f calls
          = Machine.answers queueCall (BoundedQueue.empty n.toNat) calls := by
  obtain ⟨n, hn, hleast⟩ := fifoCalBufferSize_least hpos (by omega)
  have hpow := hleast.1.1
  have hle : n.toNat ≤ 2 ^ 30 := hleast.2 ⟨⟨30, rfl⟩, hmax⟩
  refine ⟨n, hn, hleast.1.2, ?_⟩
  intro buffer hbuf
  have hpos' : 0 < n := by
    rw [UInt32.lt_iff_toNat_lt]
    exact Nat.pos_of_isPowerOfTwo hpow
  exact ⟨_, if_pos hpos', answers_eq_queue hpow hle hbuf⟩

theorem calBufferSize_isQueue_five : ∃ n, fifoCalBufferSize 5 = .returns n ∧ 5 ≤ n
    ∧ ∀ buffer : Bytes, buffer.length = n.toNat → ∃ f, fifoCreateByArray buffer n = some f
      ∧ ∀ calls, Machine.answers Fifo.call f calls
        = Machine.answers queueCall (BoundedQueue.empty n.toNat) calls :=
  calBufferSize_isQueue (by decide) (by decide)

end TraceServer
