import TraceServer.File

/-!
# Reading files back (`file.c`)

`read_file` asks for chunks of at most 1024 bytes, as `write_file` does, but it takes what it gets:
a `read` that comes back early is followed by another, and one that comes back with nothing is the
end of the file. Nothing in the server reads its logs back.
-/

namespace TraceServer

/-- What a `read` gets of `n` bytes that are there: one at least, unless it fails. -/
def Outcome.got : Outcome → Nat → Nat
  | .ok, n => n
  | .short k, n => min (max 1 k) n
  | .fail, _ => 0

namespace Os

/-- `lseek(fd, offset, SEEK_SET)`. -/
def lseekSet (os : Os) (fd : Nat) (offset : Int) : Int × Os :=
  match os.fds fd with
  | none => (-1, os.next)
  | some o =>
    match os.node o.path with
    | some (.file _) =>
      if os.answer.succeeds ∧ 0 ≤ offset then
        (offset, { os.next with
          fds := Function.update os.fds fd (some { o with offset := offset.toNat }) })
      else (-1, os.next)
    | _ => (-1, os.next)

/-- `read(fd, buf, n)`: what it returns, and the bytes it has put into `buf`. -/
def read (os : Os) (fd n : Nat) : Int × Bytes × Os :=
  match os.fds fd with
  | none => (-1, [], os.next)
  | some o =>
    match os.node o.path with
    | some (.file content) =>
      if os.answer.succeeds then
        let there := (content.drop o.offset).take n
        let k := os.answer.got there.length
        (k, there.take k, { os.next with
          fds := Function.update os.fds fd (some { o with offset := o.offset + k }) })
      else (-1, [], os.next)
    | _ => (-1, [], os.next)

end Os

/-- `lseek_from_head`. -/
def lseekFromHead (f : Option File) (offset : Int) (os : Os) : Int × Os :=
  match f with
  | some f => if 0 < f.fd then os.lseekSet f.fd offset else (-1, os)
  | none => (-1, os)

/-- What `read_file` returns and leaves behind. `buf` is as much of the buffer as it has filled. -/
structure ReadOut where
  ret : Int
  buf : Bytes
  f : File
  os : Os

/-- `read_min_len`: what the next `read` call is asked for. -/
def readMinLen (readLen offset : Int) : Int :=
  if readLen - offset > 1024 then 1024 else readLen - offset

/-- The loop of `read_file`. A round that does not end it moves `offset` on, so `read_len` rounds
are enough. -/
def readFileLoop (readLen : Int) : Nat → Int → Bytes → File → Os → ReadOut
  | 0, offset, buf, f, os => ⟨offset, buf, f, os⟩
  | fuel + 1, offset, buf, f, os =>
    let r := os.read f.fd (readMinLen readLen offset).toNat
    if r.1 < 0 then ⟨offset, buf, { f with status := .readError }, r.2.2⟩
    else if r.1 = 0 then ⟨offset, buf, { f with status := .normal }, r.2.2⟩
    else if offset + r.1 ≥ readLen then
      ⟨offset + r.1, buf ++ r.2.1, { f with status := .normal }, r.2.2⟩
    else readFileLoop readLen fuel (offset + r.1) (buf ++ r.2.1) f r.2.2

/-- `read_file`. -/
def readFile (f : File) (readLen : Int) (os : Os) : ReadOut :=
  if 0 < f.fd ∧ 0 < readLen then readFileLoop readLen readLen.toNat 0 [] f os
  else ⟨0, [], f, os⟩

end TraceServer
