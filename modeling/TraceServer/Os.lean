import Mathlib.Logic.Function.Basic
import TraceServer.CString

/-!
# The operating system under the program

A file tree, a descriptor table, a clock, and a record of what the kernel answers:
call number `n` of the process meets `outcome n`. Leaving that function arbitrary
is what "every pattern of success, failure or short result" means, so nothing else
in the model is random. A call that fails changes nothing.

Paths are compared as strings: where the kernel takes two spellings (`//`, `/./`, `/../`)
for one file, these are two files here. `calloc` refuses what glibc refuses, a request above
`PTRDIFF_MAX`, whatever `outcome` says.
-/

namespace TraceServer

/-- What the kernel or the allocator answers to one call. -/
inductive Outcome where
  | ok
  /-- A `write` that takes at most `n` bytes; any other call succeeds. -/
  | short (n : Nat)
  | fail
deriving DecidableEq, Repr

def Outcome.succeeds : Outcome → Bool
  | .fail => false
  | _ => true

/-- The result of a `write` of `n` bytes. -/
def Outcome.wrote : Outcome → Nat → Int
  | .ok, n => n
  | .short k, n => min k n
  | .fail, _ => -1

/-- The fields `GetSystemUTCTime` takes from `gmtime_r`, in its documented ranges;
`year` is `tm_year - 100`. -/
structure UtcTime where
  year : Int
  mon : Nat
  data : Nat
  hour : Nat
  min : Nat
  sec : Nat
  year_range : -2147483648 ≤ year ∧ year < 2147483648
  mon_range : 1 ≤ mon ∧ mon ≤ 12
  data_range : 1 ≤ data ∧ data ≤ 31
  hour_lt : hour < 24
  min_lt : min < 60
  sec_le : sec ≤ 60

/-- A file or a directory. -/
inductive Node where
  | dir
  | file (content : Bytes)
deriving DecidableEq, Repr

/-- An entry of the descriptor table. -/
structure OpenFile where
  path : Bytes
  offset : Nat
deriving DecidableEq, Repr

structure Os where
  /-- Calls made so far. -/
  tick : Nat
  /-- What call number `n` meets. -/
  outcome : Nat → Outcome
  /-- The clock when call number `n` reads it. -/
  utc : Nat → UtcTime
  timestripUs : Nat → UInt64
  node : Bytes → Option Node
  fds : Nat → Option OpenFile
  /-- The next descriptor `open` returns; standard input keeps 0 busy. -/
  nextFd : Nat
  nextFd_pos : 0 < nextFd

namespace Os

def answer (os : Os) : Outcome := os.outcome os.tick

def next (os : Os) : Os := { os with tick := os.tick + 1 }

/-- A library call of which only success or failure matters. -/
def call (os : Os) : Bool × Os := (os.answer.succeeds, os.next)

/-- `calloc(1, size)`, or `malloc`. -/
def calloc (os : Os) (size : Nat) : Bool × Os :=
  (os.answer.succeeds && decide (size < 2 ^ 63), os.next)

/-- `access(path, F_OK) == 0`. -/
def isExistFile (os : Os) (path : Bytes) : Bool × Os :=
  (os.answer.succeeds && (os.node path).isSome, os.next)

/-- `mkdir(path, 0777) == 0`. -/
def mkdir (os : Os) (path : Bytes) : Bool × Os :=
  if os.answer.succeeds && (os.node path).isNone then
    (true, { os.next with node := Function.update os.node path (some .dir) })
  else (false, os.next)

/-- The descriptor an `open` that works hands out. -/
def opened (os : Os) (path content : Bytes) : Os :=
  { os with
    node := Function.update os.node path (some (.file content))
    fds := Function.update os.fds os.nextFd (some ⟨path, 0⟩)
    nextFd := os.nextFd + 1
    nextFd_pos := Nat.succ_pos _ }

/-- `open(path, …, 0777)` with or without `O_CREAT` and `O_TRUNC`. -/
def openFd (os : Os) (path : Bytes) (creat trunc : Bool) : Option Nat × Os :=
  if os.answer.succeeds then
    match os.node path with
    | some .dir => (none, os.next)
    | some (.file content) =>
      (some os.nextFd, os.next.opened path (if trunc then [] else content))
    | none => if creat then (some os.nextFd, os.next.opened path []) else (none, os.next)
  else (none, os.next)

def close (os : Os) (fd : Nat) : Os :=
  { os.next with fds := Function.update os.fds fd none }

/-- `content` with `d` written over it at `offset`; the gap in front of a byte that is written
behind the end reads as zeros. -/
def overwrite (content : Bytes) (offset : Nat) (d : Bytes) : Bytes :=
  if d = [] then content
  else
    content.take offset ++ List.replicate (offset - content.length) 0 ++ d ++
      content.drop (offset + d.length)

/-- `write(fd, d, len d)`. -/
def write (os : Os) (fd : Nat) (d : Bytes) : Int × Os :=
  match os.fds fd with
  | none => (-1, os.next)
  | some o =>
    match os.node o.path with
    | some (.file content) =>
      let n := os.answer.wrote d.length
      (n, { os.next with
        node := Function.update os.node o.path
          (some (.file (overwrite content o.offset (d.take n.toNat))))
        fds := Function.update os.fds fd (some { o with offset := o.offset + n.toNat }) })
    | _ => (-1, os.next)

/-- `lseek(fd, 0, SEEK_END)`. -/
def lseekEnd (os : Os) (fd : Nat) : Os :=
  match os.fds fd with
  | none => os.next
  | some o =>
    match os.node o.path with
    | some (.file content) =>
      if os.answer.succeeds then
        { os.next with fds := Function.update os.fds fd (some { o with offset := content.length }) }
      else os.next
    | _ => os.next

/-- `GetSystemUTCTime`. -/
def getSystemUTCTime (os : Os) : UtcTime × Os := (os.utc os.tick, os.next)

/-- `GetTimestrip_us`. -/
def getTimestripUs (os : Os) : UInt64 × Os := (os.timestripUs os.tick, os.next)

/-- A process that has just started, on a machine where every call works and call number
`n` reads a clock `n` microseconds past the second. -/
def fresh : Os where
  tick := 0
  outcome _ := .ok
  utc _ :=
    { year := 19, mon := 11, data := 18, hour := 22, min := 55, sec := 0
      year_range := by decide, mon_range := by decide, data_range := by decide
      hour_lt := by decide, min_lt := by decide, sec_le := by decide }
  timestripUs n := 1574117700000000 + UInt64.ofNat n
  node _ := none
  fds _ := none
  nextFd := 3
  nextFd_pos := by decide

end Os

end TraceServer
