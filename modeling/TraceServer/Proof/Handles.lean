import TraceServer.Proof.Dialogue
import TraceServer.Proof.Record

/-!
# What a save and the record leave to each other

`skylog_save` writes to a file below `/log` and has `skylog_record` list it. Neither touches what
the other has open: `open` hands out new descriptors only, so the calls of one spare those that
were handed out before (`Os.Spares`), and the record writes to its own files and no others
(`skylogRecord_keeps`).
-/

namespace TraceServer

namespace Os

/-- Descriptors below `n` that have been handed out are left alone, and none is handed out twice. -/
structure Spares (n : Nat) (os os' : Os) : Prop where
  nextFd : os.nextFd ≤ os'.nextFd
  fds : n ≤ os.nextFd → ∀ fd < n, os'.fds fd = os.fds fd

namespace Spares

variable {n : Nat} {os os' os'' : Os}

theorem of_eq (hfds : os'.fds = os.fds) (hnext : os'.nextFd = os.nextFd) : Spares n os os' where
  nextFd := Nat.le_of_eq hnext.symm
  fds := fun _ fd _ => congrFun hfds fd

theorem trans (h : Spares n os os') (h' : Spares n os' os'') : Spares n os os'' where
  nextFd := Nat.le_trans h.nextFd h'.nextFd
  fds := by
    intro hn fd hfd
    exact (h'.fds (Nat.le_trans hn h.nextFd) fd hfd).trans (h.fds hn fd hfd)

/-- A call that changes one descriptor spares those below it. -/
theorem update {fd : Nat} {o : Option OpenFile} (hfd : n ≤ os.nextFd → n ≤ fd)
    (hfds : os'.fds = Function.update os.fds fd o) (hnext : os.nextFd ≤ os'.nextFd) :
    Spares n os os' where
  nextFd := hnext
  fds := by
    intro hn fd' hfd'
    have hle := hfd hn
    rw [hfds, Function.update_of_ne (by omega)]

end Spares

variable {n : Nat}

theorem openFd_spares (os : Os) (path : Bytes) (creat trunc : Bool) :
    Spares n os (os.openFd path creat trunc).2 := by
  cases hfd : (os.openFd path creat trunc).1 with
  | some fd =>
      obtain ⟨rfl, content, hos, _⟩ := openFd_opened hfd
      rw [hos]
      exact .update id rfl (Nat.le_succ _)
  | none =>
      rw [openFd_none hfd]
      exact .of_eq rfl rfl

theorem close_spares (os : Os) {fd : Nat} (hfd : n ≤ fd) : Spares n os (os.close fd) :=
  .update (fun _ => hfd) rfl (Nat.le_refl _)

theorem write_spares (os : Os) {fd : Nat} (hfd : n ≤ fd) (d : Bytes) :
    Spares n os (os.write fd d).2 := by
  unfold write
  split
  · exact .of_eq rfl rfl
  · split
    · exact .update (fun _ => hfd) rfl (Nat.le_refl _)
    · exact .of_eq rfl rfl

theorem lseekEnd_spares (os : Os) {fd : Nat} (hfd : n ≤ fd) : Spares n os (os.lseekEnd fd) := by
  unfold lseekEnd
  split
  · exact .of_eq rfl rfl
  · split
    · split
      · exact .update (fun _ => hfd) rfl (Nat.le_refl _)
      · exact .of_eq rfl rfl
    · exact .of_eq rfl rfl

theorem mkdir_spares (os : Os) (path : Bytes) : Spares n os (os.mkdir path).2 := by
  unfold mkdir
  split
  · exact .of_eq rfl rfl
  · exact .of_eq rfl rfl

/-- `fd`, when it is open, is open on `path`. -/
def OnlyOn (os : Os) (fd : Nat) (path : Bytes) : Prop := ∀ o, os.fds fd = some o → o.path = path

/-- A `write` changes the file it is for. -/
theorem write_keeps {os : Os} {fd : Nat} {path : Bytes} (h : os.OnlyOn fd path) (d : Bytes) :
    KeepsNodes (· = path) os (os.write fd d).2 ∧ (os.write fd d).2.OnlyOn fd path := by
  unfold write
  split
  · exact ⟨.refl _ _, h⟩
  · rename_i o ho
    obtain rfl := h o ho
    split
    · refine ⟨fun p hp => Function.update_of_ne hp _ _, ?_⟩
      intro o' ho'
      dsimp only at ho'
      rw [Function.update_self, Option.some.injEq] at ho'
      rw [← ho']
    · exact ⟨.refl _ _, h⟩

end Os

open Os

/-! ## `file.c` -/

section

variable {n : Nat}

theorem fileFdClose_spares (os : Os) {fd : Nat} (hfd : n ≤ fd) :
    Spares n os (fileFdClose fd os) := by
  unfold fileFdClose
  split
  · exact close_spares os hfd
  · exact .of_eq rfl rfl

theorem isExistFile_spares (os : Os) (path : Bytes) : Spares n os (os.isExistFile path).2 :=
  .of_eq rfl rfl

theorem createDirLoop_spares (str : Bytes) : ∀ (done : Bytes) (os : Os),
    Spares n os (createDirLoop done str os).2 := by
  induction str with
  | nil => exact fun _ _ => .of_eq rfl rfl
  | cons c str ih =>
      intro done os
      have hexist := isExistFile_spares (n := n) os done
      unfold createDirLoop
      split
      · dsimp only
        split
        · exact hexist.trans (ih _ _)
        · have hmkdir := hexist.trans (mkdir_spares (os.isExistFile done).2 done)
          split
          · exact hmkdir.trans (ih _ _)
          · exact hmkdir
      · exact ih _ _

theorem createDir_spares (dir : Bytes) (os : Os) : Spares n os (createDir dir os).2 := by
  have hloop := createDirLoop_spares (n := n) (dir.take 511) [] os
  unfold createDir
  dsimp only
  generalize createDirLoop [] (dir.take 511) os = l at hloop
  have hexist := hloop.trans (isExistFile_spares l.2 (dir.take 511))
  split
  · split
    · split
      · exact hexist.trans (isExistFile_spares _ dir)
      · have hmkdir := hexist.trans (mkdir_spares (l.2.isExistFile (dir.take 511)).2 (dir.take 511))
        split
        · exact hmkdir.trans (isExistFile_spares _ dir)
        · exact hmkdir
    · exact hloop.trans (isExistFile_spares _ dir)
  · exact hloop

/-- What `open` hands out is new, so it can be closed again. -/
theorem openFd_close_spares {os : Os} {path : Bytes} {creat trunc : Bool} {fd : Nat}
    (h : (os.openFd path creat trunc).1 = some fd) :
    Spares n os (fileFdClose fd (os.openFd path creat trunc).2) := by
  have hopen := openFd_spares (n := n) os path creat trunc
  have hclose := fileFdClose_spares (n := 0) (os.openFd path creat trunc).2 (Nat.zero_le fd)
  obtain ⟨rfl, _⟩ := openFd_opened h
  refine ⟨Nat.le_trans hopen.nextFd hclose.nextFd, ?_⟩
  intro hn
  exact (hopen.trans (fileFdClose_spares _ hn)).fds hn

theorem createFile_spares (file : Bytes) (os : Os) : Spares n os (createFile file os).2 := by
  have hexist := isExistFile_spares (n := n) os file
  unfold createFile
  dsimp only
  split
  · exact hexist.trans (isExistFile_spares _ file)
  · split
    · exact hexist.trans (openFd_spares _ file true false)
    · rename_i fd hfd
      exact (hexist.trans (openFd_close_spares hfd)).trans (isExistFile_spares _ file)

theorem clearFile_spares (file : Bytes) (os : Os) : Spares n os (clearFile file os).2 := by
  have hexist := isExistFile_spares (n := n) os file
  unfold clearFile
  dsimp only
  split
  · split
    · exact hexist.trans (openFd_spares _ file true true)
    · rename_i fd hfd
      exact hexist.trans (openFd_close_spares hfd)
  · exact hexist

theorem openFile_spares (file : Bytes) (os : Os) : Spares n os (openFile file os).2 := by
  have hexist := isExistFile_spares (n := n) os file
  have hopen := hexist.trans (openFd_spares (os.isExistFile file).2 file false false)
  unfold openFile
  dsimp only
  split
  · split
    · exact hopen
    · rename_i fd _
      have hnode : Spares n ((os.isExistFile file).2.openFd file false false).2
          (fileNodeCreate fd file ((os.isExistFile file).2.openFd file false false).2).2 := by
        unfold fileNodeCreate
        dsimp only
        split
        · split
          · exact .of_eq rfl rfl
          · exact .of_eq rfl rfl
        · exact .of_eq rfl rfl
      exact hopen.trans hnode
  · exact hexist

/-- A file that has been opened has the next descriptor. -/
theorem openFile_fd {file : Bytes} {os : Os} {f : File} (h : (openFile file os).1 = some f) :
    f.fd = os.nextFd ∧ f.fd < (openFile file os).2.nextFd := by
  obtain ⟨_, hfd, _, _, hnext⟩ := openFile_opened h
  obtain ⟨heq, content, hos, _⟩ := openFd_opened hfd
  rw [hnext, hos, heq]
  exact ⟨rfl, Nat.lt_succ_self _⟩

theorem lseekToEnd_onlyOn {f : File} {os : Os} {path : Bytes} (h : os.OnlyOn f.fd path) :
    (lseekToEnd (some f) os).OnlyOn f.fd path := by
  unfold lseekToEnd lseekEnd
  dsimp only
  split
  · split
    · exact h
    · rename_i o ho
      split
      · split
        · intro o' ho'
          dsimp only at ho'
          rw [Function.update_self, Option.some.injEq] at ho'
          rw [← ho']
          exact h o ho
        · exact h
      · exact h
  · exact h

theorem lseekToEnd_spares {f : Option File} (os : Os) (hf : ∀ g, f = some g → n ≤ g.fd) :
    Spares n os (lseekToEnd f os) := by
  unfold lseekToEnd
  split
  · rename_i g
    split
    · exact lseekEnd_spares os (hf g rfl)
    · exact .of_eq rfl rfl
  · exact .of_eq rfl rfl

theorem fileClose_spares {f : Option File} (os : Os) (hf : ∀ g, f = some g → n ≤ g.fd) :
    Spares n os (fileClose f os) := by
  unfold fileClose
  split
  · rename_i g
    exact fileFdClose_spares os (hf g rfl)
  · exact .of_eq rfl rfl

/-- **The loop of `write_file`** writes to the file its descriptor is open on. -/
theorem writeFileLoop_keeps {path : Bytes} (buf : Bytes) (writeLen : Int) : ∀ (fuel : Nat)
    (offset : Int) {f : File} {os : Os}, os.OnlyOn f.fd path → n ≤ f.fd →
    KeepsNodes (· = path) os (writeFileLoop buf writeLen fuel offset f os).os
      ∧ (writeFileLoop buf writeLen fuel offset f os).os.OnlyOn f.fd path
      ∧ Spares n os (writeFileLoop buf writeLen fuel offset f os).os
      ∧ (writeFileLoop buf writeLen fuel offset f os).f.fd = f.fd
  | 0, offset, f, os, hon, _ => ⟨.refl _ _, hon, .of_eq rfl rfl, rfl⟩
  | fuel + 1, offset, f, os, hon, hfd => by
      obtain ⟨hnodes, hon'⟩ := write_keeps hon
        ((buf.drop offset.toNat).take (writeMinLen writeLen offset).toNat)
      have hspares := write_spares os hfd
        ((buf.drop offset.toNat).take (writeMinLen writeLen offset).toNat)
      rw [writeFileLoop]
      generalize
        os.write f.fd ((buf.drop offset.toNat).take (writeMinLen writeLen offset).toNat) = w at *
      split
      · exact ⟨hnodes, hon', hspares, rfl⟩
      · split
        · exact ⟨hnodes, hon', hspares, rfl⟩
        · obtain ⟨hnodes', hon'', hspares', hfd'⟩ :=
            writeFileLoop_keeps buf writeLen fuel (offset + w.1) hon' hfd
          exact ⟨hnodes.trans hnodes', hon'', hspares.trans hspares', hfd'⟩

theorem writeFile_keeps {path : Bytes} (buf : Bytes) (writeLen : Int) {f : File} {os : Os}
    (hon : os.OnlyOn f.fd path) (hfd : n ≤ f.fd) :
    KeepsNodes (· = path) os (writeFile f buf writeLen os).os
      ∧ (writeFile f buf writeLen os).os.OnlyOn f.fd path
      ∧ Spares n os (writeFile f buf writeLen os).os
      ∧ (writeFile f buf writeLen os).f.fd = f.fd := by
  unfold writeFile
  split
  · exact writeFileLoop_keeps buf writeLen _ 0 hon hfd
  · exact ⟨.refl _ _, hon, .of_eq rfl rfl, rfl⟩

end

/-! ## `skylog_record.c` -/

/-- The files of the record, and the directories on the way to them. -/
def IsRecordPath (p : Bytes) : Prop := p <+: skylogRecordDir ∨ ∃ t, p = recordPath t

/-- The file that the record keeps open, if it does, is one of its own. -/
def OwnHandle (r : SkylogRecord) (os : Os) : Prop :=
  ∀ f, r.f = some f → f.fd < os.nextFd ∧ ∃ t, os.OnlyOn f.fd (recordPath t)

section

variable {r : SkylogRecord} {os : Os}

theorem recordDirCreate_spares {n : Nat} (hr : ∀ f, r.f = some f → n ≤ f.fd) :
    Spares n os (recordDirCreate r os).2 := by
  unfold recordDirCreate
  split
  · exact (fileClose_spares os hr).trans (createDir_spares _ _)
  · exact createDir_spares _ _

/-- What a call has open when it comes to write is one of its own files. -/
theorem RecordOpening.ownHandle {x : RecordOut} (hx : RecordOpening r os x)
    (hown : OwnHandle r os) :
    OwnHandle x.record x.os := by
  obtain ⟨_, hfds⟩ := recordDirCreate_keeps r os
  intro f hf
  cases hx with
  | noDir => exact absurd hf (by simp)
  | cached _ hopen =>
      -- nothing has been opened or closed
      rw [recordFirst_f] at hopen
      dsimp only at hf
      rw [recordFirst_eq hopen] at hf
      obtain ⟨hlt, t, hon⟩ := hown f hf
      have hspares : Spares 0 os (recordDirCreate r os).2 :=
        recordDirCreate_spares fun _ _ => Nat.zero_le _
      refine ⟨Nat.lt_of_lt_of_le hlt hspares.nextFd, t, ?_⟩
      intro o ho
      exact hon o ((congrFun hfds f.fd).symm.trans ho)
  | noFile => exact absurd hf (by simp)
  | notOpened => exact absurd hf (by simp)
  | @opened g hopened =>
      obtain rfl : g = f := Option.some.inj hf
      obtain ⟨_, hat, _⟩ := openFile_some hopened
      obtain ⟨_, hlt⟩ := openFile_fd hopened
      have hspares := lseekToEnd_spares (n := 0) (f := some g) (recordOpened r os).2
        fun _ _ => Nat.zero_le _
      refine ⟨Nat.lt_of_lt_of_le hlt hspares.nextFd, recordDate r os, lseekToEnd_onlyOn ?_⟩
      intro o ho
      obtain rfl := Option.some.inj (hat.symm.trans ho)
      rfl

theorem skylogRecordExit_ownHandle (r : SkylogRecord) (os : Os) :
    OwnHandle (skylogRecordExit r os).1 (skylogRecordExit r os).2 :=
  fun _ hf => absurd hf (by simp [skylogRecordExit])

/-- **A call changes no files but those of the record**, and leaves none but one of them open. -/
theorem skylogRecord_keeps (data : Bytes) (dataLen : Int) (hown : OwnHandle r os) :
    KeepsNodes IsRecordPath os (skylogRecord data dataLen r os).os
      ∧ OwnHandle (skylogRecord data dataLen r os).record (skylogRecord data dataLen r os).os := by
  have hopening := recordOpening r os
  have hown' := hopening.ownHandle hown
  have hkeeps : KeepsNodes IsRecordPath os (skylogRecordCreateAndOpenFile r os).os :=
    (recordOpening_keeps hopening).mono fun p hp => hp.imp id fun h => ⟨_, h⟩
  unfold skylogRecord
  generalize skylogRecordCreateAndOpenFile r os = c at hown' hkeeps
  dsimp only
  split
  · split
    · unfold skylogRecordWrite
      cases hf : c.record.f with
      | none =>
          dsimp only
          rw [if_neg (by simp)]
          exact ⟨fun p hp => (congrFun (skylogRecordExit_node _ _) p).trans (hkeeps p hp),
            skylogRecordExit_ownHandle _ _⟩
      | some f =>
          obtain ⟨hlt, t, hon⟩ := hown' f hf
          obtain ⟨hnodes, hon', hspares, hfd⟩ := writeFile_keeps data dataLen hon (Nat.zero_le f.fd)
          have hwritten := hkeeps.trans (hnodes.mono fun p hp => Or.inr ⟨t, hp⟩)
          dsimp only
          split
          · refine ⟨hwritten, ?_⟩
            intro g hg
            obtain rfl := Option.some.inj hg
            rw [hfd]
            exact ⟨Nat.lt_of_lt_of_le hlt hspares.nextFd, t, hon'⟩
          · exact ⟨fun p hp => (congrFun (skylogRecordExit_node _ _) p).trans (hwritten p hp),
              skylogRecordExit_ownHandle _ _⟩
    · exact ⟨fun p hp => (congrFun (skylogRecordExit_node _ _) p).trans (hkeeps p hp),
        skylogRecordExit_ownHandle _ _⟩
  · exact ⟨.refl _ _, hown⟩

end

/-! ## `sky_log.c` -/

/-- What a log has open was opened after `n` descriptors had been handed out. -/
def OpenedSince (n : Nat) (s : Skylog) : Prop := ∀ f, s.f = some f → n ≤ f.fd

section

variable {n : Nat} {os : Os}

theorem clearAndOpen_spares (s : Skylog) (path : Bytes) (hn : n ≤ os.nextFd) :
    Spares n os (clearAndOpen s path os).os ∧ OpenedSince n (clearAndOpen s path os).skylog := by
  have hclear := clearFile_spares (n := n) path os
  have hopen := hclear.trans (openFile_spares path (clearFile path os).2)
  have hfd : ∀ f, (openFile path (clearFile path os).2).1 = some f → n ≤ f.fd := by
    intro f hf
    rw [(openFile_fd hf).1]
    exact Nat.le_trans hn hclear.nextFd
  exact ⟨hopen.trans (lseekToEnd_spares _ hfd), hfd⟩

theorem createNewSkylogFile_spares {s : Skylog} (hf : s.f = none) (hn : n ≤ os.nextFd) :
    Spares n os (createNewSkylogFile s os).os ∧ OpenedSince n (createNewSkylogFile s os).skylog := by
  have hnone : OpenedSince n s := fun f h => absurd (hf.symm.trans h) (by simp)
  unfold createNewSkylogFile
  dsimp only
  have hdir := createDir_spares (n := n) (skylogDirPath (datedSkylog s os)).str
    os.getSystemUTCTime.2.getTimestripUs.2
  have hclock : Spares n os os.getSystemUTCTime.2.getTimestripUs.2 := .of_eq rfl rfl
  have hmade := hclock.trans hdir
  unfold datedSkylog at hmade
  split
  · have hfile := hmade.trans
      (createFile_spares (skylogFilePath (datedSkylog s os) (timeStr os)).str _)
    split
    · obtain ⟨hspares, hsince⟩ := clearAndOpen_spares
        { datedSkylog s os with filePath := skylogFilePath (datedSkylog s os) (timeStr os) }
        (skylogFilePath (datedSkylog s os) (timeStr os)).str (Nat.le_trans hn hfile.nextFd)
      exact ⟨hfile.trans hspares, hsince⟩
    · exact ⟨hfile, hnone⟩
  · exact ⟨hmade, hnone⟩

theorem createAndOpenSkylogFile_spares {s : Skylog} (hf : s.f = none) (hn : n ≤ os.nextFd) :
    Spares n os (createAndOpenSkylogFile s os).os
      ∧ OpenedSince n (createAndOpenSkylogFile s os).skylog := by
  unfold createAndOpenSkylogFile
  split
  · have hfile := createFile_spares (n := n) s.filePath.str os
    have hn' := Nat.le_trans hn hfile.nextFd
    dsimp only
    split
    · obtain ⟨hspares, hsince⟩ := clearAndOpen_spares s s.filePath.str hn'
      exact ⟨hfile.trans hspares, hsince⟩
    · obtain ⟨hspares, hsince⟩ := createNewSkylogFile_spares hf hn'
      exact ⟨hfile.trans hspares, hsince⟩
  · exact createNewSkylogFile_spares hf hn

/-- **An attempt** opens new descriptors only. -/
theorem skylogWriteToFile_spares {s : Skylog} (data : Bytes) {dataLen : Int} (hf : s.f = none)
    (hpos : 0 < dataLen) (hn : n ≤ os.nextFd) :
    Spares n os (skylogWriteToFile s data dataLen os).os
      ∧ OpenedSince n (skylogWriteToFile s data dataLen os).skylog := by
  obtain ⟨hspares, hsince⟩ := createAndOpenSkylogFile_spares hf hn
  have hopened := @createAndOpenSkylogFile_opened s os
  unfold skylogWriteToFile
  rw [if_pos hpos, skylogFileCreate_of_none os hf]
  dsimp only
  generalize createAndOpenSkylogFile s os = c at hspares hsince hopened
  split
  · rename_i hret
    obtain ⟨f, hfh, _, o, _, ho, _⟩ := hopened hret
    have hon : c.os.OnlyOn f.fd o.path := by
      intro o' ho'
      rw [Option.some.inj (ho.symm.trans ho')]
    obtain ⟨_, _, hwrite, hfd⟩ := writeFile_keeps data dataLen hon (hsince f hfh)
    rw [hfh]
    dsimp only
    refine ⟨hspares.trans hwrite, ?_⟩
    intro g hg
    obtain rfl := Option.some.inj hg
    rw [hfd]
    exact hsince f hfh
  · exact ⟨hspares, hsince⟩

end

/-- What is spared stays open where it was. -/
theorem OwnHandle.of_spares {r : SkylogRecord} {os os' : Os} (h : OwnHandle r os)
    (hspares : Spares os.nextFd os os') : OwnHandle r os' := by
  intro f hf
  obtain ⟨hlt, t, hon⟩ := h f hf
  refine ⟨Nat.lt_of_lt_of_le hlt hspares.nextFd, t, ?_⟩
  intro o ho
  rw [hspares.fds (Nat.le_refl _) f.fd hlt] at ho
  exact hon o ho

/-! ## `client_talk.c`

The handle of the record stays its own from one call of `client_talk` to the next. -/

section

variable {h : Host}

/-- The record of a process that has just started has no file open. -/
theorem ownHandle_fresh : OwnHandle Host.fresh.record Host.fresh.os :=
  fun _ hf => absurd hf (by simp [Host.fresh])

/-- Closing a file opens none. -/
theorem OwnHandle.fileClose {r : SkylogRecord} {os : Os} (h : OwnHandle r os) (f : Option File) :
    OwnHandle r (fileClose f os) := by
  cases f with
  | none => exact h
  | some f =>
      show OwnHandle r (fileFdClose f.fd os)
      unfold fileFdClose
      split
      · intro g hg
        obtain ⟨hlt, t, hon⟩ := h g hg
        refine ⟨hlt, t, ?_⟩
        intro o ho
        by_cases heq : g.fd = f.fd
        · rw [heq] at ho
          exact absurd (ho.symm.trans (Function.update_self ..)) (by simp)
        · exact hon o ((Function.update_of_ne heq ..).symm.trans ho)
      · exact h

theorem skylogSaveLoop_ownHandle {data : Bytes} {dataLen : Int} (hpos : 0 < dataLen) : ∀ (n : Nat)
    {s : Skylog} {h : Host}, s.f = none → OwnHandle h.record h.os →
    OwnHandle (skylogSaveLoop data dataLen n s h).host.record
      (skylogSaveLoop data dataLen n s h).host.os
  | 0, s, h, _, hown => hown
  | n + 1, s, h, hf, hown => by
      obtain ⟨hspares, _⟩ := skylogWriteToFile_spares data hf hpos (Nat.le_refl h.os.nextFd)
      have hown' := hown.of_spares hspares
      rw [skylogSaveLoop]
      dsimp only
      split
      · exact (skylogRecord_keeps _ _ hown').2
      · exact skylogSaveLoop_ownHandle hpos n rfl (hown'.fileClose _)

theorem skylogSave_ownHandle {s : Skylog} (data : Bytes) (dataLen : Int) (hf : s.f = none)
    (hown : OwnHandle h.record h.os) :
    OwnHandle (skylogSave s data dataLen h).host.record (skylogSave s data dataLen h).host.os := by
  unfold skylogSave
  split
  · rename_i hpos
    exact skylogSaveLoop_ownHandle hpos 3 hf hown
  · exact hown

/-- Calls that open and close nothing. -/
theorem OwnHandle.of_eq {r : SkylogRecord} {os os' : Os} (h : OwnHandle r os)
    (hfds : os'.fds = os.fds)
    (hnext : os'.nextFd = os.nextFd) : OwnHandle r os' :=
  h.of_spares (.of_eq hfds hnext)

theorem httpRequestRecvContext_os (io : ClientIo) (r : HttpRequest) (os : Os) :
    (httpRequestRecvContext io r os).2.fds = os.fds
      ∧ (httpRequestRecvContext io r os).2.nextFd = os.nextFd := by
  have hinit : (httpRequestContextBufInit r os).2.2.fds = os.fds
      ∧ (httpRequestContextBufInit r os).2.2.nextFd = os.nextFd := by
    unfold httpRequestContextBufInit
    dsimp only
    split
    · split
      · split
        · exact ⟨rfl, rfl⟩
        · exact ⟨rfl, rfl⟩
      · exact ⟨rfl, rfl⟩
    · exact ⟨rfl, rfl⟩
  unfold httpRequestRecvContext
  dsimp only
  split
  · exact hinit
  · split
    · exact hinit
    · exact hinit

theorem evserverSendClient_os (io : ClientIo) (data : Bytes) (os : Os) :
    (evserverSendClient io data os).os.fds = os.fds
      ∧ (evserverSendClient io data os).os.nextFd = os.nextFd := by
  unfold evserverSendClient
  dsimp only
  split
  · split
    · split
      · exact ⟨rfl, rfl⟩
      · exact ⟨rfl, rfl⟩
    · exact ⟨rfl, rfl⟩
  · exact ⟨rfl, rfl⟩

theorem DialogueStep.ownHandle {c : Client} {o : ClientOption} {x : StepOut}
    (hx : DialogueStep c o h x) (hown : OwnHandle h.record h.os) :
    OwnHandle x.host.record x.host.os := by
  cases hx with
  | header | urlPath | finished => exact hown
  | context _ hrecv _ =>
      obtain ⟨hfds, hnext⟩ := httpRequestRecvContext_os c.toClientIo o.httpRequest h.os
      rw [hrecv] at hfds hnext
      exact hown.of_eq hfds hnext
  | save _ hsave =>
      subst hsave
      unfold clientTalkSkylogSave
      dsimp only
      split
      · exact hown
      · split
        · exact hown
        · split
          · exact (skylogSave_ownHandle _ _ rfl hown).fileClose _
          · exact hown
  | respond _ =>
      obtain ⟨hfds, hnext⟩ := evserverSendClient_os c.toClientIo (Response.bytes _) h.os
      exact hown.of_eq hfds hnext

/-- **`client_talk` leaves the record with its own file open.** -/
theorem clientTalk_ownHandle (c : Client) (hown : OwnHandle h.record h.os) :
    OwnHandle (clientTalk c h).host.record (clientTalk c h).host.os := by
  have htalks : ∀ {c : Client} {o : ClientOption} {h : Host} {t : TalkOut}, Talks c o h t →
      OwnHandle h.record h.os → OwnHandle t.host.record t.host.os := by
    intro c o h t ht
    induction ht with
    | again _ _ ih => exact fun hown => ih (clientOptionStep_step.ownHandle hown)
    | once _ => exact fun hown => clientOptionStep_step.ownHandle hown
    | finished _ => exact fun hown => clientOptionStep_step.ownHandle hown
  cases harg : c.arg with
  | some o => exact htalks (clientTalk_talks harg) hown
  | none =>
      have hcall : OwnHandle h.record h.os.call.2 := hown.of_eq rfl rfl
      rcases clientTalk_fresh (h := h) harg with ⟨heq, _⟩ | ⟨ht, _⟩
      · rw [heq]
        exact hcall
      · exact htalks ht hcall

end

end TraceServer
