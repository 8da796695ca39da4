import TraceServer.Proof.Write

/-!
# What the functions of `file.c` leave alone

`create_dir` makes directories on the way to its argument, `create_file` and `open_file`
touch the file they are given and no other, and what `write_file` puts over the content of a
file is a piece of the data, the whole of it when it says so.
-/

namespace TraceServer

namespace Os

/-- Nothing but what `P` says has changed in the file tree. -/
def KeepsNodes (P : Bytes → Prop) (os os' : Os) : Prop := ∀ p, ¬ P p → os'.node p = os.node p

namespace KeepsNodes

variable {P Q : Bytes → Prop} {os os' os'' : Os}

theorem refl (P : Bytes → Prop) (os : Os) : KeepsNodes P os os := fun _ _ => rfl

theorem trans (h : KeepsNodes P os os') (h' : KeepsNodes P os' os'') : KeepsNodes P os os'' :=
  fun p hp => (h' p hp).trans (h p hp)

theorem mono (h : KeepsNodes P os os') (hPQ : ∀ p, P p → Q p) : KeepsNodes Q os os' :=
  fun p hp => h p fun hP => hp (hPQ p hP)

end KeepsNodes

/-- The content of a file, which is nothing when there is none. -/
def contentAt (os : Os) (path : Bytes) : Bytes :=
  match os.node path with
  | some (.file content) => content
  | _ => []

theorem contentAt_of_node {os : Os} {path content : Bytes}
    (h : os.node path = some (.file content)) :
    os.contentAt path = content := by
  unfold contentAt
  rw [h]

theorem contentAt_congr {os os' : Os} {path : Bytes} (h : os'.node path = os.node path) :
    os'.contentAt path = os.contentAt path := by
  unfold contentAt
  rw [h]

theorem mkdir_keeps (os : Os) (path : Bytes) : KeepsNodes (· = path) os (os.mkdir path).2
    ∧ (os.mkdir path).2.fds = os.fds := by
  unfold mkdir
  split
  · exact ⟨fun p hp => Function.update_of_ne hp _ _, rfl⟩
  · exact ⟨.refl _ _, rfl⟩

/-- `open` without `O_TRUNC` leaves the content of the file, too. -/
theorem openFd_keeps (os : Os) (path : Bytes) (creat : Bool) :
    KeepsNodes (· = path) os (os.openFd path creat false).2
      ∧ (os.openFd path creat false).2.contentAt path = os.contentAt path := by
  unfold openFd
  split
  · cases hnode : os.node path with
    | none =>
        dsimp only
        split
        · -- a file that is created is empty, as one that is not there is taken to be
          refine ⟨fun p hp => Function.update_of_ne hp _ _, ?_⟩
          have hnil : os.contentAt path = [] := by
            unfold contentAt
            rw [hnode]
          rw [hnil]
          exact contentAt_of_node (Function.update_self ..)
        · exact ⟨.refl _ _, rfl⟩
    | some node =>
        cases node with
        | dir => exact ⟨.refl _ _, rfl⟩
        | file content =>
            refine ⟨fun p hp => Function.update_of_ne hp _ _, ?_⟩
            rw [contentAt_of_node hnode]
            exact contentAt_of_node (Function.update_self ..)
  · exact ⟨.refl _ _, rfl⟩

/-- A descriptor that `open` has handed out is at the start of its file. -/
theorem openFd_some {os : Os} {path : Bytes} {creat : Bool} {fd : Nat}
    (h : (os.openFd path creat false).1 = some fd) :
    (os.openFd path creat false).2.fds fd = some ⟨path, 0⟩
      ∧ (os.openFd path creat false).2.node path = some (.file (os.contentAt path)) := by
  obtain ⟨rfl, content, hos, hcontent⟩ := openFd_opened h
  have hsame : content = os.contentAt path := by
    rcases hcontent with ⟨hnone, hnil⟩ | ⟨old, hold, hkept⟩
    · unfold contentAt
      rw [hnone]
      exact hnil
    · rw [contentAt_of_node hold]
      exact hkept
  rw [hos, ← hsame]
  exact ⟨Function.update_self .., Function.update_self ..⟩

/-- `fd` is open on `path`, at the end of its `content`. -/
structure AtEnd (os : Os) (fd : Nat) (path content : Bytes) : Prop where
  fds : os.fds fd = some ⟨path, content.length⟩
  node : os.node path = some (.file content)

@[simp] theorem overwrite_nil (content : Bytes) (pos : Nat) : overwrite content pos [] = content :=
  if_pos rfl

theorem overwrite_end (content d : Bytes) : overwrite content content.length d = content ++ d := by
  unfold overwrite
  split
  · rename_i hd
    rw [hd, List.append_nil]
  · rw [List.take_length, Nat.sub_self, List.drop_of_length_le (Nat.le_add_right _ _)]
    simp

/-- Two pieces written one after the other are one piece. -/
theorem overwrite_append (content : Bytes) (pos : Nat) (a b : Bytes) :
    overwrite (overwrite content pos a) (pos + a.length) b = overwrite content pos (a ++ b) := by
  by_cases ha : a = []
  · rw [ha, overwrite_nil]
    rfl
  by_cases hb : b = []
  · rw [hb, overwrite_nil, List.append_nil]
  have hab : a ++ b ≠ [] := fun h => ha (List.append_eq_nil_iff.mp h).1
  have hfront : (content.take pos ++ List.replicate (pos - content.length) 0 ++ a).length
      = pos + a.length := by
    simp only [List.length_append, List.length_take, List.length_replicate]
    omega
  have hshort : pos + a.length - (content.take pos ++ List.replicate (pos - content.length) 0 ++ a ++
      content.drop (pos + a.length)).length = 0 := by
    rw [List.length_append, hfront]
    omega
  unfold overwrite
  rw [if_neg ha, if_neg hb, if_neg hab]
  rw [hshort, ← hfront, List.take_left, List.drop_append, hfront,
    List.drop_of_length_le (by rw [hfront]; exact Nat.le_add_right _ _), Nat.add_sub_cancel_left,
    List.drop_drop, List.length_append, Nat.add_assoc]
  simp

/-- A `write` puts what it takes over what is there. -/
theorem write_at {os : Os} {fd pos : Nat} {path content : Bytes}
    (hfds : os.fds fd = some ⟨path, pos⟩) (hnode : os.node path = some (.file content)) (d : Bytes) :
    (os.write fd d).1 = os.answer.wrote d.length
      ∧ (os.write fd d).2.fds fd
          = some ⟨path, pos + (d.take (os.answer.wrote d.length).toNat).length⟩
      ∧ (os.write fd d).2.node path
          = some (.file (overwrite content pos (d.take (os.answer.wrote d.length).toNat)))
      ∧ KeepsNodes (· = path) os (os.write fd d).2 := by
  have hle : (os.answer.wrote d.length).toNat ≤ d.length := by
    cases os.answer <;> simp only [Outcome.wrote] <;> omega
  unfold write
  rw [hfds]
  dsimp only
  rw [hnode]
  dsimp only
  refine ⟨rfl, ?_, Function.update_self .., fun p hp => Function.update_of_ne hp _ _⟩
  rw [Function.update_self, List.length_take, min_eq_left hle]

theorem lseekEnd_node (os : Os) (fd : Nat) : (os.lseekEnd fd).node = os.node := by
  unfold lseekEnd
  split
  · rfl
  · split
    · split
      · rfl
      · rfl
    · rfl

/-- `lseek(fd, 0, SEEK_END)`, when it works. -/
theorem lseekEnd_atEnd {os : Os} {fd offset : Nat} {path content : Bytes}
    (hfds : os.fds fd = some ⟨path, offset⟩) (hnode : os.node path = some (.file content))
    (hanswer : os.answer.succeeds = true) : (os.lseekEnd fd).AtEnd fd path content := by
  unfold lseekEnd
  rw [hfds]
  dsimp only
  rw [hnode]
  dsimp only
  rw [if_pos hanswer]
  exact ⟨Function.update_self .., hnode⟩

end Os

open Os

/-! ## Directories -/

/-- The directories `create_dir` makes are on the way. -/
theorem createDirLoop_keeps (str : Bytes) : ∀ (done : Bytes) (os : Os),
    KeepsNodes (· <+: done ++ str) os (createDirLoop done str os).2
      ∧ (createDirLoop done str os).2.fds = os.fds := by
  induction str with
  | nil => exact fun _ _ => ⟨.refl _ _, rfl⟩
  | cons c str ih =>
      intro done os
      have hassoc : done ++ c :: str = done ++ [c] ++ str := by simp
      -- the directory made at a slash is what has been read so far
      have hdone : ∀ p, p = done → p <+: done ++ [c] ++ str := by
        rintro p rfl
        rw [List.append_assoc]
        exact List.prefix_append _ _
      rw [hassoc]
      unfold createDirLoop
      split
      · dsimp only
        split
        · exact ih (done ++ [c]) (os.isExistFile done).2
        · obtain ⟨hnodes, hfds⟩ := mkdir_keeps (os.isExistFile done).2 done
          have hfirst := hnodes.mono hdone
          split
          · obtain ⟨hnodes', hfds'⟩ := ih (done ++ [c]) ((os.isExistFile done).2.mkdir done).2
            exact ⟨hfirst.trans hnodes', hfds'.trans hfds⟩
          · exact ⟨hfirst, hfds⟩
      · exact ih (done ++ [c]) os

theorem createDir_keeps (dir : Bytes) (os : Os) : KeepsNodes (· <+: dir) os (createDir dir os).2
    ∧ (createDir dir os).2.fds = os.fds := by
  have hstr : dir.take 511 <+: dir := List.take_prefix _ _
  obtain ⟨hnodes, hfds⟩ := createDirLoop_keeps (dir.take 511) [] os
  have hloop : KeepsNodes (· <+: dir) os (createDirLoop [] (dir.take 511) os).2 :=
    hnodes.mono fun p hp => hp.trans hstr
  unfold createDir
  dsimp only
  generalize createDirLoop [] (dir.take 511) os = l at hloop hfds
  split
  · split
    · split
      · exact ⟨hloop, hfds⟩
      · obtain ⟨hmkdir, hmkfds⟩ := mkdir_keeps (l.2.isExistFile (dir.take 511)).2 (dir.take 511)
        have hall : KeepsNodes (· <+: dir) os
            ((l.2.isExistFile (dir.take 511)).2.mkdir (dir.take 511)).2 :=
          hloop.trans (hmkdir.mono fun p hp => hp ▸ hstr)
        split
        · exact ⟨hall, hmkfds.trans hfds⟩
        · exact ⟨hall, hmkfds.trans hfds⟩
    · exact ⟨hloop, hfds⟩
  · exact ⟨hloop, hfds⟩

/-! ## Files -/

theorem lseekToEnd_node (f : Option File) (os : Os) : (lseekToEnd f os).node = os.node := by
  unfold lseekToEnd
  split
  · split
    · exact lseekEnd_node os _
    · rfl
  · rfl

theorem createFile_keeps (file : Bytes) (os : Os) :
    KeepsNodes (· = file) os (createFile file os).2
      ∧ (createFile file os).2.contentAt file = os.contentAt file := by
  unfold createFile
  dsimp only
  split
  · exact ⟨.refl _ _, rfl⟩
  · obtain ⟨hnodes, hcontent⟩ := openFd_keeps (os.isExistFile file).2 file true
    cases hopen : ((os.isExistFile file).2.openFd file true false).1 with
    | none => exact ⟨hnodes, hcontent⟩
    | some fd =>
        dsimp only [fileFdClose]
        split <;> exact ⟨hnodes, hcontent⟩

theorem openFile_keeps (file : Bytes) (os : Os) :
    KeepsNodes (· = file) os (openFile file os).2 := by
  unfold openFile
  dsimp only
  split
  · have hnodes := (openFd_keeps (os.isExistFile file).2 file false).1
    cases hopen : ((os.isExistFile file).2.openFd file false false).1 with
    | none => exact hnodes
    | some fd =>
        dsimp only [fileNodeCreate]
        split
        · split <;> exact hnodes
        · exact hnodes
  · exact .refl _ _

/-- What `open_file` has opened. -/
theorem openFile_some {file : Bytes} {os : Os} {f : File} (h : (openFile file os).1 = some f) :
    f.file = file ∧ (openFile file os).2.fds f.fd = some ⟨file, 0⟩
      ∧ (openFile file os).2.node file = some (.file (os.contentAt file)) := by
  obtain ⟨hfile, hopen, hfds, hnode, _⟩ := openFile_opened h
  obtain ⟨hat, hcontent⟩ := openFd_some hopen
  exact ⟨hfile, (congrFun hfds f.fd).trans hat, (congrFun hnode file).trans hcontent⟩

/-- What the kernel takes of `n` bytes is a number up to `n`, or none of them. -/
theorem Outcome.wrote_le (a : Outcome) (n : Nat) : (a.wrote n).toNat ≤ n := by
  cases a <;> simp only [Outcome.wrote] <;> omega

/-- **The loop of `write_file`**: the beginning of what is left of the data has been written over
what was there, and it is all of it exactly when the loop comes to `write_len`. -/
theorem writeFileLoop_writes {buf path : Bytes} {writeLen : Nat} (hlen : writeLen ≤ buf.length) :
    ∀ (fuel offset : Nat) {f : File} {os : Os} {content : Bytes} {pos : Nat}, offset < writeLen →
      writeLen ≤ offset + fuel → os.fds f.fd = some ⟨path, pos⟩ →
      os.node path = some (.file content) →
      ∃ piece, (writeFileLoop buf writeLen fuel offset f os).os.fds f.fd
          = some ⟨path, pos + piece.length⟩
        ∧ (writeFileLoop buf writeLen fuel offset f os).os.node path
          = some (.file (overwrite content pos piece))
        ∧ piece <+: (buf.drop offset).take (writeLen - offset)
        ∧ ((writeFileLoop buf writeLen fuel offset f os).ret = writeLen
          ↔ piece = (buf.drop offset).take (writeLen - offset))
        ∧ (writeFileLoop buf writeLen fuel offset f os).f.fd = f.fd
        ∧ (writeFileLoop buf writeLen fuel offset f os).f.file = f.file
        ∧ KeepsNodes (· = path) os (writeFileLoop buf writeLen fuel offset f os).os
  | 0, offset, f, os, content, pos, hlt, hfuel, _, _ => by omega
  | fuel + 1, offset, f, os, content, pos, hlt, hfuel, hfds, hnode => by
      have hchunk := length_writeChunk hlen offset
      have hfront : writeChunk buf writeLen offset <+: (buf.drop offset).take (writeLen - offset) :=
        List.take_prefix_take_left (Nat.min_le_right _ _)
      obtain ⟨hwrote, hfds', hnode', hnodes⟩ :=
        write_at hfds hnode (writeChunk buf writeLen offset)
      have htaken := os.answer.wrote_le (min 1024 (writeLen - offset))
      rw [hchunk] at hwrote
      rw [hchunk, ← hwrote] at hfds' hnode'
      rw [← hwrote] at htaken
      have hround := writeFileLoop_round buf hlt fuel f os
      generalize os.write f.fd (writeChunk buf writeLen offset) = w at *
      rcases hround with ⟨hne, hloop⟩ | ⟨heq, hdone, hloop⟩ | ⟨heq, hmore, hloop⟩
      · -- a short write, or none: the loop gives up and returns -1
        rw [hloop]
        refine ⟨_, hfds', hnode', (List.take_prefix _ _).trans hfront, ?_, rfl, rfl, hnodes⟩
        constructor
        · intro h
          exact absurd (show (-1 : Int) = writeLen from h) (by omega)
        · intro h
          have hlens := congrArg List.length h
          rw [List.length_take, hchunk, List.length_take, List.length_drop] at hlens
          omega
      · -- the last chunk is all that was left
        rw [heq, Int.toNat_natCast, List.take_of_length_le hchunk.le] at hfds' hnode'
        rw [hloop]
        refine ⟨_, hfds', hnode', hfront, ⟨fun _ => ?_, fun _ => rfl⟩, rfl, rfl, hnodes⟩
        rw [writeChunk, show min 1024 (writeLen - offset) = writeLen - offset by omega]
      · -- the chunk was not the last, so it was a full one
        rw [heq, Int.toNat_natCast, List.take_of_length_le hchunk.le] at hfds' hnode'
        obtain ⟨piece, hfds'', hnode'', hpiece, hall, hfd, hfile, hnodes'⟩ :=
          writeFileLoop_writes hlen fuel (offset + 1024) (by omega) (by omega) hfds' hnode'
        have hblock : (buf.drop offset).take (writeLen - offset) = writeChunk buf writeLen offset
            ++ (buf.drop (offset + 1024)).take (writeLen - (offset + 1024)) := by
          rw [writeChunk, show min 1024 (writeLen - offset) = 1024 by omega, ← List.drop_drop,
            show writeLen - offset = 1024 + (writeLen - (offset + 1024)) by omega, List.take_add]
        rw [overwrite_append] at hnode''
        rw [Nat.add_assoc, ← List.length_append] at hfds''
        rw [hloop, hblock]
        exact ⟨_, hfds'', hnode'', List.prefix_append_right_inj _ |>.mpr hpiece,
          hall.trans (List.append_right_inj _).symm, hfd, hfile, hnodes.trans hnodes'⟩

/-- **`write_file`.** -/
theorem writeFile_writes {buf path content : Bytes} {f : File} {os : Os} {pos writeLen : Nat}
    (hpos : 0 < writeLen) (hlen : writeLen ≤ buf.length) (hfd : 0 < f.fd)
    (hfds : os.fds f.fd = some ⟨path, pos⟩) (hnode : os.node path = some (.file content)) :
    ∃ piece, (writeFile f buf writeLen os).os.fds f.fd = some ⟨path, pos + piece.length⟩
      ∧ (writeFile f buf writeLen os).os.node path = some (.file (overwrite content pos piece))
      ∧ piece <+: buf.take writeLen
      ∧ ((writeFile f buf writeLen os).ret = writeLen ↔ piece = buf.take writeLen)
      ∧ (writeFile f buf writeLen os).f.fd = f.fd
      ∧ (writeFile f buf writeLen os).f.file = f.file
      ∧ KeepsNodes (· = path) os (writeFile f buf writeLen os).os := by
  unfold writeFile
  rw [if_pos ⟨hfd, by omega⟩]
  exact writeFileLoop_writes hlen writeLen 0 hpos (by omega) hfds hnode

/-- At the end of a file, the piece is appended. -/
theorem writeFile_appends {buf path content : Bytes} {f : File} {os : Os} (hne : buf ≠ [])
    (hfd : 0 < f.fd) (hend : os.AtEnd f.fd path content) :
    ∃ piece, (writeFile f buf buf.length os).os.AtEnd f.fd path (content ++ piece)
      ∧ ((writeFile f buf buf.length os).ret = buf.length → piece = buf)
      ∧ (writeFile f buf buf.length os).f.fd = f.fd
      ∧ (writeFile f buf buf.length os).f.file = f.file
      ∧ KeepsNodes (· = path) os (writeFile f buf buf.length os).os := by
  obtain ⟨piece, hfds, hnode, _, hall, hrest⟩ :=
    writeFile_writes (List.length_pos_iff.mpr hne) (Nat.le_refl _) hfd hend.fds hend.node
  rw [overwrite_end] at hnode
  rw [← List.length_append] at hfds
  rw [List.take_length] at hall
  exact ⟨piece, ⟨hfds, hnode⟩, hall.mp, hrest⟩

end TraceServer
