import TraceServer.Lib.Run
import TraceServer.SkylogRecord
import TraceServer.Proof.Collide
import TraceServer.Proof.Files

/-!
# Which record a save is written to

`skylog_record` keeps the file of the day open from one call to the next. The handle, the
name that is remembered and the end of the file go together (`HandleOk`), because every way
out of a call that does not leave all three in step closes the file and forgets the name.

A file is that of a date by its name, and the name of a date is printed whole, so the files
of two dates are different files.
-/

namespace TraceServer

/-! ## The file of a date -/

/-- The record file of a date. -/
def recordPath (t : UtcTime) : Bytes := skylogRecordPath (skylogRecordFilename t).str

/-- The same year, month and day. -/
structure SameDate (t t' : UtcTime) : Prop where
  year : t.year = t'.year
  mon : t.mon = t'.mon
  data : t.data = t'.data

theorem fmtDate_length_le (t : UtcTime) : (fmtDate t).length ≤ 19 := by
  have hyear := fmtD_length_le t.year_range
  have hmon := fmt02d_length_le (n := t.mon) (by have := t.mon_range; omega)
  have hdata := fmt02d_length_le (n := t.data) (by have := t.data_range; omega)
  have hcentury : (lit "20").length = 2 := by decide
  have hdash : (lit "-").length = 1 := by decide
  simp only [fmtDate, List.length_append, hcentury, hdash]
  omega

theorem skylogRecordFilename_str (t : UtcTime) :
    (skylogRecordFilename t).str = lit "skylog_record_" ++ fmtDate t ++ lit ".txt" := by
  have hlit : lit "skylog_record_20" = lit "skylog_record_" ++ lit "20" := by decide
  have hname : lit "skylog_record_20" ++ fmtD t.year ++ lit "-" ++ fmt02d t.mon ++ lit "-" ++
      fmt02d t.data ++ lit ".txt" = lit "skylog_record_" ++ fmtDate t ++ lit ".txt" := by
    simp [hlit, fmtDate]
  have hlen := fmtDate_length_le t
  have hfront : (lit "skylog_record_").length = 14 := by decide
  have hext : (lit ".txt").length = 4 := by decide
  unfold skylogRecordFilename
  rw [hname]
  refine snprintf_str_of_fits ?_ ?_
  · simp only [List.mem_append, not_or]
    exact ⟨⟨by decide, (isTime_fmtDate t).noNul⟩, by decide⟩
  · simp only [List.length_append, hfront, hext]
    omega

theorem recordPath_eq (t : UtcTime) :
    recordPath t = lit "./record/skylog_record_" ++ fmtDate t ++ lit ".txt" := by
  have hfront : skylogRecordDir ++ (if skylogRecordDir.getLast? = some 47 then [] else lit "/")
      ++ lit "skylog_record_" = lit "./record/skylog_record_" := by decide
  have hlen := fmtDate_length_le t
  have hext : (lit ".txt").length = 4 := by decide
  have hdir : (lit "./record/skylog_record_").length = 23 := by decide
  have hpath : skylogRecordDir ++ (if skylogRecordDir.getLast? = some 47 then [] else lit "/")
      ++ (lit "skylog_record_" ++ fmtDate t ++ lit ".txt")
        = lit "./record/skylog_record_" ++ fmtDate t ++ lit ".txt" := by
    rw [← hfront]
    simp only [List.append_assoc]
  unfold recordPath skylogRecordPath
  dsimp only
  rw [skylogRecordFilename_str, hpath]
  refine List.take_of_length_le ?_
  simp only [List.length_append, hext, hdir]
  omega

/-- No record file is on the way to the directory. -/
theorem recordPath_not_isPrefix (t : UtcTime) : ¬ recordPath t <+: skylogRecordDir := by
  intro h
  have hle := h.length_le
  have hdir : (lit "./record/skylog_record_").length = 23 := by decide
  have hroot : skylogRecordDir.length = 8 := by decide
  rw [recordPath_eq, List.length_append, List.length_append, hdir, hroot] at hle
  omega

theorem fmt02d_length {n : Nat} (h : n < 100) : (fmt02d n).length = 2 := by
  have hall : ∀ n < 100, (fmt02d n).length = 2 := by decide +kernel
  exact hall n h

theorem fmt02d_injective {m n : Nat} (hm : m < 100) (hn : n < 100) (h : fmt02d m = fmt02d n) :
    m = n := by
  have hall : ∀ n < 100, digitsVal (fmt02d n) 0 = n := by decide +kernel
  rw [← hall m hm, ← hall n hn, h]

theorem fmtD_injective {i j : Int} (h : fmtD i = fmtD j) : i = j := by
  have hsign : ∀ n s, fmtLu n ≠ 45 :: s := by
    intro n s hn
    have hdigit : isDigit 45 = true :=
      isDigit_of_mem_fmtLu (n := n) (by rw [hn]; exact List.mem_cons_self)
    exact absurd hdigit (by decide)
  unfold fmtD at h
  split at h <;> split at h
  · have := fmtLu_injective (List.cons.inj h).2
    omega
  · exact absurd h.symm (hsign _ _)
  · exact absurd h (hsign _ _)
  · have := fmtLu_injective h
    omega

/-- **The files of two dates are different files.** -/
theorem recordPath_injective {t t' : UtcTime} (h : recordPath t = recordPath t') :
    SameDate t t' := by
  rw [recordPath_eq, recordPath_eq] at h
  have hdate : fmtDate t = fmtDate t' :=
    List.append_cancel_left (List.append_cancel_right h)
  have hm := t.mon_range
  have hm' := t'.mon_range
  have hd := t.data_range
  have hd' := t'.data_range
  -- from the right, where the lengths are known
  unfold fmtDate at hdate
  obtain ⟨hfront, hdata⟩ := List.append_inj' hdate
    (by rw [fmt02d_length (by omega), fmt02d_length (by omega)])
  obtain ⟨hfront, hmon⟩ := List.append_inj' (List.append_cancel_right hfront)
    (by rw [fmt02d_length (by omega), fmt02d_length (by omega)])
  have hyear := List.append_cancel_left (List.append_cancel_right hfront)
  exact ⟨fmtD_injective hyear, fmt02d_injective (by omega) (by omega) hmon,
    fmt02d_injective (by omega) (by omega) hdata⟩

/-! ## One call -/

variable {r : SkylogRecord} {os : Os}

/-- `_skylog_record_exit` and `create_dir`, at the beginning of a call. -/
def recordDirCreate (r : SkylogRecord) (os : Os) : Bool × Os :=
  createDir skylogRecordDir (if r.f.isNone then skylogRecordExit r os else (r, os)).2

/-- The date a call reads. -/
def recordDate (r : SkylogRecord) (os : Os) : UtcTime := (recordDirCreate r os).2.getSystemUTCTime.1

/-- The handle and the name after the first `_skylog_record_exit` of a call. -/
def recordFirst (r : SkylogRecord) (os : Os) : SkylogRecord :=
  (if r.f.isNone then skylogRecordExit r os else (r, os)).1

/-- What a call has opened when it has not found the file of the date open. -/
def recordOpened (r : SkylogRecord) (os : Os) : Option File × Os :=
  openFile (recordPath (recordDate r os)) (createFile (recordPath (recordDate r os))
    (skylogRecordExit (recordFirst r os) (recordDirCreate r os).2.getSystemUTCTime.2).2).2

/-- `lseek` works, on a file that has just been opened. -/
def LseekWorks (r : SkylogRecord) (os : Os) : Prop :=
  (recordOpened r os).1.isSome → (recordOpened r os).2.answer.succeeds = true

/-- An open handle is at the end of the record file of the name that is remembered, and no name
is remembered without one. -/
structure HandleOk (r : SkylogRecord) (os : Os) : Prop where
  opened : ∀ f, r.f = some f → (∃ t, r.filename = skylogRecordFilename t) ∧ 0 < f.fd
    ∧ f.file = skylogRecordPath r.filename.str
    ∧ ∃ content, os.AtEnd f.fd (skylogRecordPath r.filename.str) content
  closed : r.f = none → r.filename.str = []

/-- What may change in a call: the directory, and the file of the date. -/
def RecordPaths (t : UtcTime) (p : Bytes) : Prop := p <+: skylogRecordDir ∨ p = recordPath t

/-- The file of the date is open, at its end, and its content is `content`. -/
structure RecordOpen (t : UtcTime) (content : Bytes) (x : RecordOut) : Prop where
  filename : x.record.filename = skylogRecordFilename t
  handle : ∃ f, x.record.f = some f ∧ 0 < f.fd ∧ f.file = recordPath t
    ∧ x.os.AtEnd f.fd (recordPath t) content

theorem skylogRecordExit_node (r : SkylogRecord) (os : Os) :
    (skylogRecordExit r os).2.node = os.node := by
  unfold skylogRecordExit fileClose fileFdClose
  cases r.f with
  | none => rfl
  | some f =>
      dsimp only
      split <;> rfl

/-- The directory is made, and the handle is left alone. -/
theorem recordDirCreate_keeps (r : SkylogRecord) (os : Os) :
    Os.KeepsNodes (· <+: skylogRecordDir) os (recordDirCreate r os).2
      ∧ (recordDirCreate r os).2.fds = os.fds := by
  obtain ⟨hnodes, hfds⟩ := createDir_keeps skylogRecordDir
    (if r.f.isNone then skylogRecordExit r os else (r, os)).2
  unfold recordDirCreate
  cases hf : r.f with
  | none =>
      rw [hf] at hnodes hfds
      have hexit : (skylogRecordExit r os).2 = os := by
        unfold skylogRecordExit
        rw [hf]
        rfl
      simp only [Option.isNone_none, if_true, hexit] at hnodes hfds ⊢
      exact ⟨hnodes, hfds⟩
  | some f =>
      rw [hf] at hnodes hfds
      exact ⟨hnodes, hfds⟩

theorem recordFirst_eq (h : r.f.isSome) : recordFirst r os = r := by
  obtain ⟨f, hf⟩ := Option.isSome_iff_exists.mp h
  unfold recordFirst
  rw [hf]
  rfl

theorem recordFirst_f : (recordFirst r os).f = r.f := by
  unfold recordFirst
  cases hf : r.f with
  | none => rfl
  | some f => exact hf

/-- The ways `_skylog_record_create_and_open_file` can end. -/
inductive RecordOpening (r : SkylogRecord) (os : Os) : RecordOut → Prop where
  | noDir : RecordOpening r os
      ⟨false, ⟨CArr.zero 128, none⟩, (skylogRecordExit (recordFirst r os) (recordDirCreate r os).2).2⟩
  | cached (hname : (skylogRecordFilename (recordDate r os)).str = (recordFirst r os).filename.str)
      (hopen : (recordFirst r os).f.isSome) :
      RecordOpening r os ⟨true, recordFirst r os, (recordDirCreate r os).2.next⟩
  | noFile : RecordOpening r os ⟨false, ⟨CArr.zero 128, none⟩, (createFile
      (recordPath (recordDate r os)) (skylogRecordExit (recordFirst r os)
        (recordDirCreate r os).2.getSystemUTCTime.2).2).2⟩
  | notOpened : RecordOpening r os ⟨false, ⟨CArr.zero 128, none⟩, (recordOpened r os).2⟩
  | opened {f : File} (hopened : (recordOpened r os).1 = some f) :
      RecordOpening r os ⟨true, ⟨skylogRecordFilename (recordDate r os), some f⟩,
        lseekToEnd (some f) (recordOpened r os).2⟩

theorem recordOpening (r : SkylogRecord) (os : Os) :
    RecordOpening r os (skylogRecordCreateAndOpenFile r os) := by
  unfold skylogRecordCreateAndOpenFile
  -- the handle after the first `_skylog_record_exit`, kept whole while the calls are split
  generalize hfirst : (if r.f.isNone then skylogRecordExit r os else (r, os)) = x
  dsimp only
  split
  · split
    · rename_i hcached
      subst hfirst
      exact .cached hcached.1 hcached.2
    · split
      · split
        · subst hfirst
          exact .notOpened
        · rename_i hopened
          subst hfirst
          exact .opened hopened
      · subst hfirst
        exact .noFile
  · subst hfirst
    exact .noDir

/-- However it ends, only the directory and the file of the date have changed. -/
theorem recordOpening_keeps {x : RecordOut} (hx : RecordOpening r os x) :
    Os.KeepsNodes (RecordPaths (recordDate r os)) os x.os := by
  have hpaths : Os.KeepsNodes (RecordPaths (recordDate r os)) os (recordDirCreate r os).2 :=
    (recordDirCreate_keeps r os).1.mono fun _ => .inl
  -- the file is created with the handle closed
  have hexit := skylogRecordExit_node (recordFirst r os) (recordDirCreate r os).2.getSystemUTCTime.2
  have hcreate := (createFile_keeps (recordPath (recordDate r os))
    (skylogRecordExit (recordFirst r os) (recordDirCreate r os).2.getSystemUTCTime.2).2).1
  have hcreated := (hpaths.trans fun p _ => congrFun hexit p).trans (hcreate.mono fun _ => .inr)
  have hopens := hcreated.trans ((openFile_keeps (recordPath (recordDate r os)) _).mono fun _ => .inr)
  cases hx with
  | noDir =>
      intro p hp
      exact (congrFun (skylogRecordExit_node _ _) p).trans (hpaths p hp)
  | cached => exact hpaths
  | noFile => exact hcreated
  | notOpened => exact hopens
  | opened hopened =>
      intro p hp
      exact (congrFun (lseekToEnd_node _ _) p).trans (hopens p hp)

/-- **`_skylog_record_create_and_open_file`** has the file of the date open, at its end, or
nothing. -/
theorem createAndOpen_record (hok : HandleOk r os) (hlseek : LseekWorks r os) {x : RecordOut}
    (hx : RecordOpening r os x) :
    Os.KeepsNodes (RecordPaths (recordDate r os)) os x.os
      ∧ (x.ret = true → RecordOpen (recordDate r os) (os.contentAt (recordPath (recordDate r os))) x)
      ∧ (x.ret = false → x.record = ⟨CArr.zero 128, none⟩) := by
  obtain ⟨hdir, hfds⟩ := recordDirCreate_keeps r os
  refine ⟨recordOpening_keeps hx, ?_⟩
  cases hx with
  | noDir => exact ⟨fun h => absurd h (by simp), fun _ => rfl⟩
  | cached hname hopen =>
      -- the name has not changed, so the handle is that of the date, and is still at its end
      refine ⟨?_, fun h => absurd h (by simp)⟩
      intro _
      rw [recordFirst_f] at hopen
      obtain ⟨f, hf⟩ := Option.isSome_iff_exists.mp hopen
      obtain ⟨⟨t, ht⟩, hfd, hfile, content, hend⟩ := hok.opened f hf
      rw [recordFirst_eq hopen] at hname ⊢
      have hpath : skylogRecordPath r.filename.str = recordPath (recordDate r os) := by
        unfold recordPath
        rw [hname]
      rw [hpath] at hfile hend
      refine ⟨?_, f, hf, hfd, hfile, ?_⟩
      · show r.filename = _
        cases hr : r.filename
        cases hn : skylogRecordFilename (recordDate r os)
        rw [hr, hn] at hname
        simpa using hname.symm
      · have hnode : (recordDirCreate r os).2.node (recordPath (recordDate r os)) = _ :=
          hdir _ (recordPath_not_isPrefix _)
        rw [Os.contentAt_of_node hend.node]
        exact ⟨(congrFun hfds f.fd).trans hend.fds, hnode.trans hend.node⟩
  | noFile => exact ⟨fun h => absurd h (by simp), fun _ => rfl⟩
  | notOpened => exact ⟨fun h => absurd h (by simp), fun _ => rfl⟩
  | opened hopened =>
      -- `open_file` starts at 0, and `lseek` goes to the end
      rename_i f
      obtain ⟨hfile, hat, hnode⟩ := openFile_some hopened
      obtain ⟨hfd, _⟩ := openFile_isOpen hopened
      have hend := Os.lseekEnd_atEnd hat hnode (hlseek (by rw [hopened]; rfl))
      have hlseekEq : lseekToEnd (some f) (recordOpened r os).2
          = (recordOpened r os).2.lseekEnd f.fd :=
        if_pos hfd
      rw [hlseekEq]
      refine ⟨?_, fun h => absurd h (by simp)⟩
      intro _
      refine ⟨rfl, f, rfl, hfd, hfile, ?_⟩
      -- nothing has touched the content on the way
      have hsame : os.contentAt (recordPath (recordDate r os)) = (createFile
          (recordPath (recordDate r os)) (skylogRecordExit (recordFirst r os)
            (recordDirCreate r os).2.getSystemUTCTime.2).2).2.contentAt
              (recordPath (recordDate r os)) := by
        rw [(createFile_keeps _ _).2]
        refine (Os.contentAt_congr ?_).symm
        exact (congrFun (skylogRecordExit_node _ _) _).trans (hdir _ (recordPath_not_isPrefix _))
      rw [hsame]
      exact hend

/-- What a call of `skylog_record` does with `data`. -/
structure RecordCall (r : SkylogRecord) (os : Os) (data : Bytes) (x : RecordOut) : Prop where
  keeps : Os.KeepsNodes (RecordPaths (recordDate r os)) os x.os
  appends : x.ret = true → RecordOpen (recordDate r os)
    (os.contentAt (recordPath (recordDate r os)) ++ data) x
  closes : x.ret = false → x.record = ⟨CArr.zero 128, none⟩

/-- **A call appends to the file of its date, or closes it.** -/
theorem skylogRecord_call (hok : HandleOk r os) (hlseek : LseekWorks r os) {data : Bytes}
    (hne : data ≠ []) : RecordCall r os data (skylogRecord data data.length r os) := by
  obtain ⟨hkeeps, hopens, hcloses⟩ := createAndOpen_record hok hlseek (recordOpening r os)
  have hpos : 0 < (data.length : Int) := by
    have := List.length_pos_iff.mpr hne
    omega
  unfold skylogRecord
  rw [if_pos hpos]
  dsimp only
  generalize skylogRecordCreateAndOpenFile r os = c at hkeeps hopens hcloses
  by_cases hret : c.ret = true
  · rw [if_pos hret]
    obtain ⟨hname, f, hf, hfd, hfile, hend⟩ := hopens hret
    obtain ⟨piece, hend', hall, hfd', hfile', hnodes⟩ := writeFile_appends hne hfd hend
    have hwrite : skylogRecordWrite data data.length c.record c.os
        = ⟨(writeFile f data data.length c.os).ret = data.length,
          { c.record with f := some (writeFile f data data.length c.os).f },
          (writeFile f data data.length c.os).os⟩ := by
      unfold skylogRecordWrite
      rw [hf]
    rw [hwrite]
    dsimp only
    generalize writeFile f data data.length c.os = w at *
    have hwritten : Os.KeepsNodes (RecordPaths (recordDate r os)) os w.os :=
      hkeeps.trans (hnodes.mono fun _ => .inr)
    by_cases hw : w.ret = data.length
    · rw [if_pos (decide_eq_true hw)]
      refine ⟨hwritten, fun _ => ⟨hname, w.f, rfl, ?_, ?_, ?_⟩, fun h => absurd h (by simp [hw])⟩
      · rw [hfd']
        exact hfd
      · exact hfile'.trans hfile
      · rw [hfd']
        rw [hall hw] at hend'
        exact hend'
    · -- a piece may have been written; the handle is closed
      rw [if_neg (by simp [hw])]
      refine ⟨?_, fun h => absurd h (by simp), fun _ => rfl⟩
      intro p hp
      exact (congrFun (skylogRecordExit_node _ _) p).trans (hwritten p hp)
  · rw [if_neg hret]
    refine ⟨?_, fun h => absurd h (by simp), fun _ => rfl⟩
    intro p hp
    exact (congrFun (skylogRecordExit_node _ _) p).trans (hkeeps p hp)

/-- A call leaves the handle in order. -/
theorem RecordCall.handleOk {data : Bytes} {x : RecordOut} (h : RecordCall r os data x) :
    HandleOk x.record x.os := by
  cases hret : x.ret with
  | true =>
      obtain ⟨hname, f, hf, hfd, hfile, hend⟩ := h.appends hret
      refine ⟨?_, fun hnone => absurd (hnone.symm.trans hf) (by simp)⟩
      intro f' hf'
      obtain rfl : f = f' := Option.some.inj (hf.symm.trans hf')
      rw [hname]
      exact ⟨⟨_, rfl⟩, hfd, hfile, _, hend⟩
  | false =>
      rw [h.closes hret]
      exact ⟨fun f hf => absurd hf (by simp), fun _ => rfl⟩

/-! ## Runs -/

structure RecordRun where
  record : SkylogRecord
  os : Os

inductive RecordEvent where
  /-- `skylog_record(data, len)`, with `len` the length of `data`. -/
  | record (data : Bytes)
  /-- Everything else that goes on on the machine. -/
  | others (os : Os)

namespace RecordRun

/-- As the program starts, on any machine. -/
def init (os : Os) : RecordRun := ⟨⟨CArr.zero 128, none⟩, os⟩

def step (s : RecordRun) (e : RecordEvent) : RecordRun :=
  match e with
  | .record data =>
    let x := skylogRecord data data.length s.record s.os
    ⟨x.record, x.os⟩
  | .others os => { s with os }

/-- What is assumed: a call has data, and `lseek` works; and nobody else changes a record file or
the open descriptor. -/
def Undisturbed (s : RecordRun) : RecordEvent → Prop
  | .record data => data ≠ [] ∧ LseekWorks s.record s.os
  | .others os => (∀ t, os.node (recordPath t) = s.os.node (recordPath t))
      ∧ ∀ f, s.record.f = some f → os.fds f.fd = s.os.fds f.fd

/-- A handle that is open is the record file of the name that is remembered. -/
structure HandleNamed (s : RecordRun) : Prop where
  name : s.record.f.isSome → s.record.filename.str ≠ []
  file : ∀ f, s.record.f = some f → f.file = skylogRecordPath s.record.filename.str
    ∧ ∃ offset, s.os.fds f.fd = some ⟨skylogRecordPath s.record.filename.str, offset⟩

/-- A call that succeeds has appended its data to the file of its date; no file of another date
has changed; one that fails has closed the handle and forgotten the name. -/
def RecordsRight (s : RecordRun) : RecordEvent → Prop
  | .record data =>
    let x := skylogRecord data data.length s.record s.os
    let date := recordDate s.record s.os
    (x.ret = true →
        x.os.node (recordPath date) = some (.file (s.os.contentAt (recordPath date) ++ data)))
      ∧ (∀ t, ¬ SameDate t date → x.os.node (recordPath t) = s.os.node (recordPath t))
      ∧ (x.ret = false → x.record.f = none ∧ x.record.filename.str = [])
  | .others _ => True

theorem handleOk_step {s : RecordRun} {e : RecordEvent} (h : HandleOk s.record s.os)
    (he : s.Undisturbed e) : HandleOk (s.step e).record (s.step e).os := by
  cases e with
  | record data => exact (skylogRecord_call h he.2 he.1).handleOk
  | others os =>
      obtain ⟨hnodes, hfds⟩ := he
      refine ⟨?_, h.closed⟩
      intro f hf
      obtain ⟨⟨t, ht⟩, hfd, hfile, content, hend⟩ := h.opened f hf
      refine ⟨⟨t, ht⟩, hfd, hfile, content, (hfds f hf).trans hend.fds, ?_⟩
      -- the file it is on is the record file of a date
      have hnode := hend.node
      rw [ht] at hnode
      show os.node (skylogRecordPath s.record.filename.str) = _
      rw [ht]
      exact (hnodes t).trans hnode

theorem handleNamed_of_handleOk {s : RecordRun} (h : HandleOk s.record s.os) : s.HandleNamed := by
  constructor
  · intro hopen
    obtain ⟨f, hf⟩ := Option.isSome_iff_exists.mp hopen
    obtain ⟨⟨t, ht⟩, _⟩ := h.opened f hf
    rw [ht, skylogRecordFilename_str]
    simp [lit]
  · intro f hf
    obtain ⟨_, _, hfile, content, hend⟩ := h.opened f hf
    exact ⟨hfile, _, hend.fds⟩

theorem recordsRight_of_handleOk {s : RecordRun} {e : RecordEvent} (h : HandleOk s.record s.os)
    (he : s.Undisturbed e) : s.RecordsRight e := by
  cases e with
  | others os => trivial
  | record data =>
      have hcall := skylogRecord_call h he.2 he.1
      refine ⟨?_, ?_, ?_⟩
      · intro hret
        obtain ⟨_, f, _, _, _, hend⟩ := hcall.appends hret
        exact hend.node
      · intro t hother
        refine hcall.keeps _ ?_
        rintro (hdir | heq)
        · exact recordPath_not_isPrefix t hdir
        · exact hother (recordPath_injective heq)
      · intro hret
        rw [hcall.closes hret]
        exact ⟨rfl, rfl⟩

/-- **Every record goes to the end of the file of its date, and to no other.** -/
theorem records_right (os : Os) (es : List RecordEvent)
    (halone : Machine.Along step Undisturbed (init os) es) :
    (∀ s ∈ Machine.trail step (init os) es, s.HandleNamed)
      ∧ Machine.Along step RecordsRight (init os) es := by
  have hinit : HandleOk (init os).record (init os).os :=
    ⟨fun f hf => absurd hf (by simp [init]), fun _ => rfl⟩
  constructor
  · intro s hs
    exact handleNamed_of_handleOk (Machine.inv_trail step (fun s => HandleOk s.record s.os)
      (fun _ _ h he => handleOk_step h he) hinit halone s hs)
  · exact Machine.along_of_inv step (fun s => HandleOk s.record s.os)
      (fun _ _ h he => handleOk_step h he) (fun _ _ h he => recordsRight_of_handleOk h he) hinit halone

/-- Two records of one day. -/
def twoRecords : List RecordEvent := [.record (lit "a"), .record (lit "b")]

theorem twoRecords_right : (∀ s ∈ Machine.trail step (init Os.fresh) twoRecords, s.HandleNamed)
    ∧ Machine.Along step RecordsRight (init Os.fresh) twoRecords := by
  refine records_right Os.fresh twoRecords ⟨⟨by decide, ?_⟩, ⟨by decide, ?_⟩, trivial⟩
  · intro _
    decide +kernel
  · intro _
    decide +kernel

end RecordRun

end TraceServer
