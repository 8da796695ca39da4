import TraceServer.Fifo
import TraceServer.Lib.Run

/-!
# The ring buffer between two threads (`fifo.c`)

`fifo.h` allows one thread that puts and one that reads, without the lock. Each call looks at the
counter of the other, copies byte by byte, and moves its own counter, and in between the other
thread runs. `_fifo_min` is a macro that names its second argument twice, but the compiler makes one
minimum of it, without optimisation too, so the other's counter is loaded once in a call.

What one thread stores the other sees at once, and in that order. A thread's own counter does not
change under it.
-/

namespace TraceServer

/-- What a caller of `fifo_put` hands over. -/
structure FifoSource where
  data : Bytes
  len : UInt32
  readable : len.toNat ≤ data.length

namespace FifoSource

/-- What is to be put. -/
def bytes (src : FifoSource) : Bytes := src.data.take src.len.toNat

end FifoSource

/-- The place of byte `i` in a transfer of `len` bytes at `x`: the first copy goes up to the end of
the buffer, and the second begins at its start. -/
def fifoPlace (size x len : UInt32) (i : Nat) : Nat :=
  let l := fifoMin len (size - (x &&& (size - 1)))
  if i < l.toNat then (x &&& (size - 1)).toNat + i else i - l.toNat

/-! ## The calls -/

/-- Where a call of `fifo_put` stands. -/
inductive FifoPut where
  /-- `disable` is about to be tested. -/
  | enter (src : FifoSource)
  /-- The smaller of `len` and the room there is is about to be computed. -/
  | room (src : FifoSource)
  | copy (src : FifoSource) (done : Nat)

/-- What a step of `fifo_put` comes to: where the call then stands (`none` when it has returned),
and what it has put if it has put something. -/
structure FifoPutOut where
  next : Option FifoPut
  fifo : Fifo
  put : Option Bytes

def FifoPut.step (p : FifoPut) (f : Fifo) : FifoPutOut :=
  match p with
  | .enter src => if f.disable then ⟨none, f, none⟩ else ⟨some (.room src), f, none⟩
  | .room src =>
    if fifoMin src.len (f.size - f.inn + f.out) ≠ src.len then ⟨none, f, none⟩
    else ⟨some (.copy src 0), f, none⟩
  | .copy src done =>
    if done < src.len.toNat then
      let byte := (src.data.drop done).take 1
      let buffer := f.buffer.blit (fifoPlace f.size f.inn src.len done) byte
      ⟨some (.copy src (done + 1)), { f with buffer }, none⟩
    else ⟨none, { f with inn := f.inn + src.len }, some src.bytes⟩

/-- Where a call of `fifo_read` stands. -/
inductive FifoRead where
  /-- The smaller of `len` and what there is is about to be computed. -/
  | look (asked : UInt32)
  /-- `len` bytes are being copied. -/
  | copy (asked len : UInt32) (got : Bytes)

/-- What a step of `fifo_read` comes to; what it has read goes with what it was asked for. -/
structure FifoReadOut where
  next : Option FifoRead
  fifo : Fifo
  read : Option (UInt32 × Bytes)

def FifoRead.step (p : FifoRead) (f : Fifo) : FifoReadOut :=
  match p with
  | .look asked => ⟨some (.copy asked (fifoMin asked (f.inn - f.out)) []), f, none⟩
  | .copy asked len got =>
    if got.length < len.toNat then
      let byte := (f.buffer.drop (fifoPlace f.size f.out len got.length)).take 1
      ⟨some (.copy asked len (got ++ byte)), f, none⟩
    else ⟨none, { f with out := f.out + len }, some (asked, got)⟩

/-! ## The two threads -/

/-- A ring buffer, and the calls that are under way. `puts` and `reads` are ghosts: what the calls
that are over have put and read. -/
structure SharedFifo where
  fifo : Fifo
  writer : Option FifoPut
  reader : Option FifoRead
  puts : List Bytes
  reads : List (UInt32 × Bytes)

inductive SharedFifoEvent where
  /-- The one thread calls `fifo_put`. -/
  | put (src : FifoSource)
  | putStep
  /-- The other one calls `fifo_read`. -/
  | read (len : UInt32)
  | readStep
  /-- Any thread calls `fifo_enable` or `fifo_disable`. -/
  | enable
  | disable

namespace SharedFifo

def init (f : Fifo) : SharedFifo := ⟨f, none, none, [], []⟩

def putStep (s : SharedFifo) : SharedFifo :=
  match s.writer with
  | none => s
  | some p =>
    let r := p.step s.fifo
    { s with fifo := r.fifo, writer := r.next, puts := s.puts ++ r.put.toList }

def readStep (s : SharedFifo) : SharedFifo :=
  match s.reader with
  | none => s
  | some p =>
    let r := p.step s.fifo
    { s with fifo := r.fifo, reader := r.next, reads := s.reads ++ r.read.toList }

def step (s : SharedFifo) (e : SharedFifoEvent) : SharedFifo :=
  match e with
  | .put src => if s.writer.isNone then { s with writer := some (.enter src) } else s
  | .putStep => s.putStep
  | .read len => if s.reader.isNone then { s with reader := some (.look len) } else s
  | .readStep => s.readStep
  | .enable => { s with fifo := fifoEnable s.fifo }
  | .disable => { s with fifo := fifoDisable s.fifo }

end SharedFifo

end TraceServer
