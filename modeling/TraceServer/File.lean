import TraceServer.Os

/-!
# Files (`file.c`)

`write_file` hands the data over in chunks of at most 1024 bytes and gives up at
the first call that does not take its whole chunk. The state of the operating
system is passed through every function in the order the source makes its calls,
so that `outcome` decides each of them separately.
-/

namespace TraceServer

/-- `file_io_status_t`. -/
inductive FileIoStatus where
  | readError
  | writeError
  | normal
deriving DecidableEq, Repr

/-- `file_t`. -/
structure File where
  fd : Nat
  file : Bytes
  status : FileIoStatus
deriving DecidableEq, Repr

/-- `file_fd_close`. -/
def fileFdClose (fd : Nat) (os : Os) : Os := if 0 < fd then os.close fd else os

/-- `file_close`. -/
def fileClose (f : Option File) (os : Os) : Os :=
  match f with
  | some f => fileFdClose f.fd os
  | none => os

/-- The loop of `create_dir` over the characters of `str`: `done` has been passed. -/
def createDirLoop : Bytes → Bytes → Os → Bool × Os
  | _, [], os => (true, os)
  | done, c :: str, os =>
    if c = 47 ∧ done ≠ [] then
      let e := os.isExistFile done
      if e.1 then createDirLoop (done ++ [c]) str e.2
      else
        let m := e.2.mkdir done
        if m.1 then createDirLoop (done ++ [c]) str m.2 else (false, m.2)
    else createDirLoop (done ++ [c]) str os

/-- `create_dir`. -/
def createDir (dir : Bytes) (os : Os) : Bool × Os :=
  let str := dir.take 511
  let l := createDirLoop [] str os
  if l.1 then
    if 0 < str.length then
      let e := l.2.isExistFile str
      if e.1 then e.2.isExistFile dir
      else
        let m := e.2.mkdir str
        if m.1 then m.2.isExistFile dir else (false, m.2)
    else l.2.isExistFile dir
  else (false, l.2)

/-- `create_file`. -/
def createFile (file : Bytes) (os : Os) : Bool × Os :=
  let e := os.isExistFile file
  if e.1 then e.2.isExistFile file
  else
    let o := e.2.openFd file true false
    match o.1 with
    | none => (false, o.2)
    | some fd => (fileFdClose fd o.2).isExistFile file

/-- `clear_file`. -/
def clearFile (file : Bytes) (os : Os) : Bool × Os :=
  let e := os.isExistFile file
  if e.1 then
    let o := e.2.openFd file true true
    match o.1 with
    | none => (false, o.2)
    | some fd => (true, fileFdClose fd o.2)
  else (false, e.2)

/-- `_file_node_create`: two `calloc`s; the descriptor stays open when memory runs out. -/
def fileNodeCreate (fd : Nat) (file : Bytes) (os : Os) : Option File × Os :=
  let a := os.call
  if a.1 then
    let b := a.2.call
    if b.1 then (some ⟨fd, file, .normal⟩, b.2) else (none, b.2)
  else (none, a.2)

/-- `open_file`. -/
def openFile (file : Bytes) (os : Os) : Option File × Os :=
  let e := os.isExistFile file
  if e.1 then
    let o := e.2.openFd file false false
    match o.1 with
    | none => (none, o.2)
    | some fd => fileNodeCreate fd file o.2
  else (none, e.2)

/-- `LSEEK_TO_END`. -/
def lseekToEnd (f : Option File) (os : Os) : Os :=
  match f with
  | some f => if 0 < f.fd then os.lseekEnd f.fd else os
  | none => os

/-- What `write_file` returns and leaves behind. -/
structure WriteOut where
  ret : Int
  f : File
  os : Os

/-- `write_min_len`: what the next `write` call is asked to take. -/
def writeMinLen (writeLen offset : Int) : Int :=
  if writeLen - offset > 1024 then 1024 else writeLen - offset

/-- The loop of `write_file`. Every round moves `offset` on, so `write_len` rounds
are enough. -/
def writeFileLoop (buf : Bytes) (writeLen : Int) : Nat → Int → File → Os → WriteOut
  | 0, offset, f, os => ⟨offset, f, os⟩
  | fuel + 1, offset, f, os =>
    let minLen := writeMinLen writeLen offset
    let w := os.write f.fd ((buf.drop offset.toNat).take minLen.toNat)
    if w.1 ≠ minLen then ⟨-1, { f with status := .writeError }, w.2⟩
    else if offset + w.1 ≥ writeLen then
      ⟨offset + w.1, { f with status := .writeError }, w.2⟩
    else writeFileLoop buf writeLen fuel (offset + w.1) f w.2

/-- `write_file`. -/
def writeFile (f : File) (buf : Bytes) (writeLen : Int) (os : Os) : WriteOut :=
  if 0 < f.fd ∧ 0 < writeLen then writeFileLoop buf writeLen writeLen.toNat 0 f os
  else ⟨0, f, os⟩

end TraceServer
