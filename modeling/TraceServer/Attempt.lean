import TraceServer.Skylog
import TraceServer.Lib.Run

/-!
# What is answered to a save

`skylog_save` asks the kernel for directories, for a file and for room in it, and gives an attempt
up where it is refused. This is the other side of that conversation. `Answered` is a call together
with what is answered to it, `Os.Answers` says that a list of them is what the system does answer,
and the definitions behind it say which answers lead to what. They know the calls and the names of
the files, and none of the functions that make the calls.
-/

namespace TraceServer

/-- A call and its answer. -/
inductive Answered where
  | access (path : Bytes) (found : Bool)
  | mkdir (path : Bytes) (made : Bool)
  | openFd (path : Bytes) (creat trunc : Bool) (fd : Option Nat)
  | close (fd : Nat)
  | calloc (given : Bool)
  | lseekEnd (fd : Nat) (moved : Bool)
  | write (fd : Nat) (d : Bytes) (ret : Int)
  | utcTime (t : UtcTime)
  | timestripUs (us : UInt64)

namespace Answered

/-- The answer is that of `os`. -/
def Agrees (os : Os) : Answered → Prop
  | .access path found => (os.isExistFile path).1 = found
  | .mkdir path made => (os.mkdir path).1 = made
  | .openFd path creat trunc fd => (os.openFd path creat trunc).1 = fd
  | .close _ => True
  | .calloc given => os.call.1 = given
  | .lseekEnd _ moved => os.answer.succeeds = moved
  | .write fd d ret => (os.write fd d).1 = ret
  | .utcTime t => os.getSystemUTCTime.1 = t
  | .timestripUs us => os.getTimestripUs.1 = us

/-- What the call leaves behind. -/
def step (os : Os) : Answered → Os
  | .access path _ => (os.isExistFile path).2
  | .mkdir path _ => (os.mkdir path).2
  | .openFd path creat trunc _ => (os.openFd path creat trunc).2
  | .close fd => os.close fd
  | .calloc _ => os.call.2
  | .lseekEnd fd _ => os.lseekEnd fd
  | .write fd d _ => (os.write fd d).2
  | .utcTime _ => os.getSystemUTCTime.2
  | .timestripUs _ => os.getTimestripUs.2

end Answered

namespace Os

/-- The calls in `l`, made in this order, are answered like this. -/
def Answers (os : Os) (l : List Answered) : Prop := Machine.Along Answered.step Answered.Agrees os l

/-- What the calls in `l` leave behind. -/
def after (os : Os) (l : List Answered) : Os := Machine.run Answered.step os l

end Os

/-! ## The directory -/

/-- The directories above the one that `str` names: its parts in front of a slash. `done` has been
passed. -/
def dirsAbove : Bytes → Bytes → List Bytes
  | _, [] => []
  | done, c :: str =>
    if c = 47 ∧ done ≠ [] then done :: dirsAbove (done ++ [c]) str else dirsAbove (done ++ [c]) str

/-- The directories that have to be there, from the first one on. -/
def dirsOf (dir : Bytes) : List Bytes :=
  dirsAbove [] (dir.take 511) ++ if dir.take 511 = [] then [] else [dir.take 511]

/-- Each of the directories is found or made, up to one that is refused. -/
inductive DirsMade : List Bytes → Bool → List Answered → Prop
  | nil : DirsMade [] true []
  | found {p : Bytes} {ps : List Bytes} {made : Bool} {l : List Answered} (h : DirsMade ps made l) :
      DirsMade (p :: ps) made (.access p true :: l)
  | made {p : Bytes} {ps : List Bytes} {made : Bool} {l : List Answered} (h : DirsMade ps made l) :
      DirsMade (p :: ps) made (.access p false :: .mkdir p true :: l)
  | refused {p : Bytes} {ps : List Bytes} :
      DirsMade (p :: ps) false [.access p false, .mkdir p false]

/-- The directory `dir` and those above it are made, and it is there. -/
inductive DirMade (dir : Bytes) : Bool → List Answered → Prop
  | made {l : List Answered} (h : DirsMade (dirsOf dir) true l) (found : Bool) :
      DirMade dir found (l ++ [.access dir found])
  | refused {l : List Answered} (h : DirsMade (dirsOf dir) false l) : DirMade dir false l

/-! ## The file -/

/-- The file is found, or made and found then. -/
inductive FileMade (path : Bytes) : Bool → List Answered → Prop
  | there (found : Bool) : FileMade path found [.access path true, .access path found]
  | made (fd : Nat) (found : Bool) : FileMade path found
      [.access path false, .openFd path true false (some fd), .close fd, .access path found]
  | refused : FileMade path false [.access path false, .openFd path true false none]

/-- The file is opened once to empty it. -/
inductive Emptied (path : Bytes) : Bool → List Answered → Prop
  | emptied (fd : Nat) :
      Emptied path true [.access path true, .openFd path true true (some fd), .close fd]
  | refused : Emptied path false [.access path true, .openFd path true true none]
  | missing : Emptied path false [.access path false]

/-- The file is opened to be written, and there is memory for the handle and its name. -/
inductive Opened (path : Bytes) : Option Nat → List Answered → Prop
  | opened (fd : Nat) : Opened path (some fd)
      [.access path true, .openFd path false false (some fd), .calloc true, .calloc true]
  | missing : Opened path none [.access path false]
  | refused : Opened path none [.access path true, .openFd path false false none]
  | noHandle (fd : Nat) : Opened path none
      [.access path true, .openFd path false false (some fd), .calloc false]
  | noName (fd : Nat) : Opened path none
      [.access path true, .openFd path false false (some fd), .calloc true, .calloc false]

/-- `d` is written in chunks of 1024 bytes, up to one that is not taken whole. -/
inductive Written (fd : Nat) : Bytes → Bool → List Answered → Prop
  | last {d : Bytes} (hne : d ≠ []) (hlen : d.length ≤ 1024) :
      Written fd d true [.write fd d d.length]
  | short {d : Bytes} (hne : d ≠ []) {ret : Int} (hret : ret ≠ (d.take 1024).length) :
      Written fd d false [.write fd (d.take 1024) ret]
  | more {d : Bytes} (hlen : 1024 < d.length) {all : Bool} {l : List Answered}
      (h : Written fd (d.drop 1024) all l) :
      Written fd d all (.write fd (d.take 1024) 1024 :: l)

/-! ## An attempt -/

namespace Skylog

/-- The log with a date, of today if it has none. -/
def dated (s : Skylog) (t : UtcTime) : Skylog :=
  { s with createData := skylogCreateData s.createData t }

/-- The log under a new name. -/
def named (s : Skylog) (t : UtcTime) (us : UInt64) : Skylog :=
  { s.dated t with
    filePath := skylogFilePath (s.dated t) (snprintf 64 63 (fmtTimeStr t us)).str }

end Skylog

/-- The file of the log comes to be there under a new name, or not. -/
inductive NewFile (s : Skylog) : Skylog → Bool → List Answered → Prop
  | noDir {l : List Answered} (t : UtcTime) (us : UInt64)
      (h : DirMade (skylogDirPath (s.dated t)).str false l) :
      NewFile s (s.dated t) false (.utcTime t :: .timestripUs us :: l)
  | dir {l l' : List Answered} {made : Bool} (t : UtcTime) (us : UInt64)
      (h : DirMade (skylogDirPath (s.dated t)).str true l)
      (h' : FileMade (s.named t us).filePath.str made l') :
      NewFile s (s.named t us) made (.utcTime t :: .timestripUs us :: (l ++ l'))

/-- The same, where the name of an earlier attempt is tried first. -/
inductive LogFile (s : Skylog) : Skylog → Bool → List Answered → Prop
  | kept {l : List Answered} (hpath : s.filePath.str ≠ []) (h : FileMade s.filePath.str true l) :
      LogFile s s true l
  | again {s' : Skylog} {made : Bool} {l l' : List Answered} (hpath : s.filePath.str ≠ [])
      (h : FileMade s.filePath.str false l) (h' : NewFile s s' made l') :
      LogFile s s' made (l ++ l')
  | first {s' : Skylog} {made : Bool} {l : List Answered} (hpath : s.filePath.str = [])
      (h : NewFile s s' made l) : LogFile s s' made l

/-- The file of the log is opened, with what came of emptying it, and of moving to its end. -/
inductive LogOpened (s : Skylog) : Skylog → Bool → Option (Nat × Bool) → List Answered → Prop
  | noFile {s' : Skylog} {l : List Answered} (h : LogFile s s' false l) :
      LogOpened s s' false none l
  | refused {s' : Skylog} {emptied : Bool} {l l₁ l₂ : List Answered} (h : LogFile s s' true l)
      (h₁ : Emptied s'.filePath.str emptied l₁) (h₂ : Opened s'.filePath.str none l₂) :
      LogOpened s s' emptied none (l ++ (l₁ ++ l₂))
  | opened {s' : Skylog} {emptied : Bool} {fd : Nat} {l l₁ l₂ : List Answered}
      (h : LogFile s s' true l) (h₁ : Emptied s'.filePath.str emptied l₁)
      (h₂ : Opened s'.filePath.str (some fd) l₂) (moved : Bool) :
      LogOpened s s' emptied (some (fd, moved)) (l ++ (l₁ ++ (l₂ ++ [.lseekEnd fd moved])))

/-- What leads to a save: where the log goes, whether the file was emptied and `lseek` worked in the
attempt that goes through, the calls up to its first `write`, and its `write`s. -/
structure SaveAnswers where
  skylog : Skylog
  emptied : Bool
  moved : Bool
  before : List Answered
  writes : List Answered

namespace SaveAnswers

/-- All calls. -/
def calls (x : SaveAnswers) : List Answered := x.before ++ x.writes

/-- The calls of an attempt that is given up come first. -/
def behind (l : List Answered) (x : SaveAnswers) : SaveAnswers := { x with before := l ++ x.before }

end SaveAnswers

/-- **The answers by which one of `n` attempts has its file and has every `write` of `block`
taken**, where the attempts before it are given up for want of a file, or of room in it. -/
inductive Saves (block : Bytes) : Nat → Skylog → SaveAnswers → Prop
  | now {n : Nat} {s s' : Skylog} {emptied moved : Bool} {fd : Nat} {l w : List Answered}
      (h : LogOpened s s' emptied (some (fd, moved)) l) (hw : Written fd block true w) :
      Saves block (n + 1) s ⟨s', emptied, moved, l, w⟩
  | notOpened {n : Nat} {s s' : Skylog} {emptied : Bool} {l : List Answered} {x : SaveAnswers}
      (h : LogOpened s s' emptied none l) (hx : Saves block n s' x) :
      Saves block (n + 1) s (x.behind l)
  | notWritten {n : Nat} {s s' : Skylog} {emptied moved : Bool} {fd : Nat} {l w : List Answered}
      {x : SaveAnswers} (h : LogOpened s s' emptied (some (fd, moved)) l)
      (hw : Written fd block false w) (hx : Saves block n s' x) :
      Saves block (n + 1) s (x.behind (l ++ (w ++ [.close fd])))

end TraceServer
