import TraceServer.CString
import TraceServer.Lib.Cyclic

/-!
# The ring buffer (`fifo.c`)

`in` and `out` count the bytes put and read since the last `fifo_clean`, in 32 bits, and
are never reduced: the mask `size - 1` turns them into places in the buffer, and the
number of bytes stored is their difference. Every transfer is made in two copies, up to
the end of the buffer and from its start.

`copy_fn` is a plain byte copy. Its length is an `int`, which a length of at most `size`
fits in.
-/

namespace TraceServer

/-- `fifo_t`; `inn` is the source's `in`. -/
structure Fifo where
  buffer : Bytes
  size : UInt32
  inn : UInt32
  out : UInt32
  disable : Bool

/-- `_fifo_min`. -/
def fifoMin (x y : UInt32) : UInt32 := if x < y then x else y

/-! ## The size -/

/-- How a function that counts in an `int` comes out. -/
inductive ScanEnd (α : Type) where
  | returns (a : α)
  /-- The counter has overflowed, which leaves the rest undefined. -/
  | overflow
  | outOfFuel
deriving DecidableEq, Repr

def ScanEnd.map {α β : Type} (f : α → β) : ScanEnd α → ScanEnd β
  | returns a => .returns (f a)
  | overflow => .overflow
  | outOfFuel => .outOfFuel

/-- The loop of `_fls`. `>>` of a negative `int` keeps the sign. -/
def flsLoop : Nat → Int → Int → ScanEnd Int
  | 0, _, _ => .outOfFuel
  | fuel + 1, i, position =>
    if i ≠ 0 then
      if position < intMax then flsLoop fuel (i >>> (1 : Nat)) (position + 1) else .overflow
    else .returns position

/-- `_fls`. There are more rounds than the counter has values. -/
def fls (x : Int) : ScanEnd Int :=
  if x ≠ 0 then (flsLoop (intMax.toNat + 2) (x >>> (1 : Nat)) 0).map (· + 1) else .returns (-1 + 1)

/-- `_roundup_pow_of_two`: the argument of `_fls` is converted to `int`, and the shift is one of
`unsigned long`. -/
def roundupPowOfTwo (x : UInt32) : ScanEnd UInt32 :=
  (fls (toInt (x - 1).toNat)).map fun n => ((1 : UInt64) <<< UInt64.ofNat n.toNat).toUInt32

/-- `fifo_cal_buffer_size`. -/
def fifoCalBufferSize (size : UInt32) : ScanEnd UInt32 :=
  if size &&& (size - 1) ≠ 0 then roundupPowOfTwo size else .returns size

/-! ## The calls -/

/-- `fifo_create_by_array`. -/
def fifoCreateByArray (buffer : Bytes) (size : UInt32) : Option Fifo :=
  if 0 < size then some ⟨buffer, size, 0, 0, true⟩ else none

/-- `fifo_put` of the first `len` bytes of `data`. -/
def fifoPut (f : Fifo) (data : Bytes) (len : UInt32) : UInt32 × Fifo :=
  if f.disable then (0, f)
  else
    let dataLen := len
    let len := fifoMin len (f.size - f.inn + f.out)
    if len ≠ dataLen then (0, f)
    else
      let l := fifoMin len (f.size - (f.inn &&& (f.size - 1)))
      let buffer := f.buffer.blit (f.inn &&& (f.size - 1)).toNat (data.take l.toNat)
      let buffer := buffer.blit 0 ((data.drop l.toNat).take (len - l).toNat)
      (len, { f with buffer, inn := f.inn + len })

/-- `fifo_read`: the length, and what is copied to the caller's buffer. -/
def fifoRead (f : Fifo) (len : UInt32) : (UInt32 × Bytes) × Fifo :=
  let len := fifoMin len (f.inn - f.out)
  let l := fifoMin len (f.size - (f.out &&& (f.size - 1)))
  let first := (f.buffer.drop (f.out &&& (f.size - 1)).toNat).take l.toNat
  let rest := f.buffer.take (len - l).toNat
  ((len, first ++ rest), { f with out := f.out + len })

/-- `fifo_set_offset`. -/
def fifoSetOffset (f : Fifo) (offset : UInt32) : UInt32 × Fifo :=
  if offset > f.inn - f.out then (0, f) else (offset, { f with out := f.out + offset })

/-- `fifo_clean`. -/
def fifoClean (f : Fifo) : Fifo := { f with inn := 0, out := 0 }

/-- `fifo_enable`. -/
def fifoEnable (f : Fifo) : Fifo := { f with disable := false }

/-- `fifo_disable`. -/
def fifoDisable (f : Fifo) : Fifo := { f with disable := true }

/-- A call, with what the caller hands over: a `fifo_put` may take `len` bytes from `data`. -/
inductive FifoCall where
  | put (data : Bytes) (len : UInt32) (readable : len.toNat ≤ data.length)
  | read (len : UInt32)
  | setOffset (offset : UInt32)
  | clean
  | enable
  | disable

/-- What a caller gets back. -/
inductive FifoAnswer where
  | count (n : Nat)
  | bytes (n : Nat) (data : Bytes)
  | done
deriving DecidableEq, Repr

def Fifo.call (f : Fifo) : FifoCall → FifoAnswer × Fifo
  | .put data len _ => let r := fifoPut f data len; (.count r.1.toNat, r.2)
  | .read len => let r := fifoRead f len; (.bytes r.1.1.toNat r.1.2, r.2)
  | .setOffset offset => let r := fifoSetOffset f offset; (.count r.1.toNat, r.2)
  | .clean => (.done, fifoClean f)
  | .enable => (.done, fifoEnable f)
  | .disable => (.done, fifoDisable f)

end TraceServer
