import TraceServer.Skylog

/-!
# What `open_file` and `write_file` come to

`write_file` says that it has written its data when every `write` has taken its whole chunk.
`TakesAll` says that of the operating system alone, and `writeFile_ret_iff` carries it up from one
`write` to the loop.
-/

namespace TraceServer

namespace Os

/-- `fd` is open, and on a file. -/
def IsOpen (os : Os) (fd : Nat) : Prop :=
  ∃ o content, os.fds fd = some o ∧ os.node o.path = some (.file content)

/-- The next calls, made as `write`s of `n` bytes in chunks of 1024, all take their chunk. -/
def TakesAll (os : Os) (n : Nat) : Prop :=
  ∀ k, 1024 * k < n →
    (os.outcome (os.tick + k)).wrote (min 1024 (n - 1024 * k)) = (min 1024 (n - 1024 * k) : Nat)

theorem takesAll_zero (os : Os) : os.TakesAll 0 := fun _ hk => absurd hk (Nat.not_lt_zero _)

/-- The first chunk and the rest. -/
theorem takesAll_iff {os os' : Os} {n : Nat} (hn : 0 < n) (htick : os'.tick = os.tick + 1)
    (hout : os'.outcome = os.outcome) :
    os.TakesAll n ↔ os.answer.wrote (min 1024 n) = (min 1024 n : Nat) ∧ os'.TakesAll (n - 1024) := by
  constructor
  · intro h
    refine ⟨h 0 hn, ?_⟩
    intro k hk
    have hk' := h (k + 1) (by omega)
    rw [hout, htick, show os.tick + 1 + k = os.tick + (k + 1) by omega,
      show n - 1024 - 1024 * k = n - 1024 * (k + 1) by omega]
    exact hk'
  · rintro ⟨h0, hrest⟩ k hk
    cases k with
    | zero => exact h0
    | succ k =>
        have hk' := hrest k (by omega)
        rw [hout, htick, show os.tick + 1 + k = os.tick + (k + 1) by omega,
          show n - 1024 - 1024 * k = n - 1024 * (k + 1) by omega] at hk'
        exact hk'

theorem write_open {os : Os} {fd : Nat} (h : os.IsOpen fd) (d : Bytes) :
    (os.write fd d).1 = os.answer.wrote d.length ∧ (os.write fd d).2.IsOpen fd
      ∧ (os.write fd d).2.tick = os.tick + 1 ∧ (os.write fd d).2.outcome = os.outcome := by
  obtain ⟨o, content, hfd, hnode⟩ := h
  unfold write
  rw [hfd]
  dsimp only
  rw [hnode]
  refine ⟨rfl, ⟨_, _, Function.update_self .., Function.update_self ..⟩, rfl, rfl⟩

/-- Only the two tables matter. -/
theorem IsOpen.congr {os os' : Os} {fd : Nat} (h : os.IsOpen fd) (hfds : os'.fds = os.fds)
    (hnode : os'.node = os.node) : os'.IsOpen fd := by
  obtain ⟨o, content, hfd, hn⟩ := h
  exact ⟨o, content, by rw [hfds, hfd], by rw [hnode, hn]⟩

/-- **What an `open` that works has done**: it has made the file, or found it, emptied or not. -/
theorem openFd_opened {os : Os} {path : Bytes} {creat trunc : Bool} {fd : Nat}
    (h : (os.openFd path creat trunc).1 = some fd) :
    fd = os.nextFd ∧ ∃ content, (os.openFd path creat trunc).2 = os.next.opened path content
      ∧ (os.node path = none ∧ content = []
        ∨ ∃ old, os.node path = some (.file old) ∧ content = if trunc then [] else old) := by
  unfold openFd at h ⊢
  split at h
  · rename_i hs
    rw [if_pos hs]
    cases hn : os.node path with
    | none =>
        rw [hn] at h
        dsimp only at h ⊢
        split at h
        · rename_i hc
          rw [if_pos hc]
          exact ⟨(Option.some.inj h).symm, [], rfl, .inl ⟨rfl, rfl⟩⟩
        · exact absurd h (by simp)
    | some node =>
        cases node with
        | dir =>
            rw [hn] at h
            exact absurd h (by simp)
        | file content =>
            rw [hn] at h
            exact ⟨(Option.some.inj h).symm, _, rfl, .inr ⟨content, rfl, rfl⟩⟩
  · exact absurd h (by simp)

/-- One that fails has done nothing. -/
theorem openFd_none {os : Os} {path : Bytes} {creat trunc : Bool}
    (h : (os.openFd path creat trunc).1 = none) : (os.openFd path creat trunc).2 = os.next := by
  unfold openFd at h ⊢
  split at h
  · rename_i hs
    rw [if_pos hs]
    split at h
    · rfl
    · exact absurd h (by simp)
    · split at h
      · exact absurd h (by simp)
      · rename_i hc
        rw [if_neg hc]
  · rename_i hs
    rw [if_neg hs]

theorem openFd_isOpen {os : Os} {path : Bytes} {creat trunc : Bool} {fd : Nat}
    (h : (os.openFd path creat trunc).1 = some fd) :
    0 < fd ∧ (os.openFd path creat trunc).2.IsOpen fd := by
  obtain ⟨rfl, content, hos, _⟩ := openFd_opened h
  rw [hos]
  exact ⟨os.nextFd_pos, ⟨path, 0⟩, content, Function.update_self .., Function.update_self ..⟩

theorem lseekEnd_isOpen {os : Os} {fd : Nat} (h : os.IsOpen fd) : (os.lseekEnd fd).IsOpen fd := by
  obtain ⟨o, content, hfd, hnode⟩ := h
  unfold lseekEnd
  rw [hfd]
  dsimp only
  rw [hnode]
  dsimp only
  split
  · exact ⟨_, content, Function.update_self .., hnode⟩
  · exact ⟨o, content, hfd, hnode⟩

end Os

/-! ## `write_file` -/

theorem writeMinLen_eq {writeLen offset : Nat} (h : offset < writeLen) :
    writeMinLen writeLen offset = (min 1024 (writeLen - offset) : Nat) := by
  unfold writeMinLen
  split <;> omega

/-- What the next `write` is asked to take. -/
def writeChunk (buf : Bytes) (writeLen offset : Nat) : Bytes :=
  (buf.drop offset).take (min 1024 (writeLen - offset))

theorem length_writeChunk {buf : Bytes} {writeLen : Nat} (hlen : writeLen ≤ buf.length)
    (offset : Nat) : (writeChunk buf writeLen offset).length = min 1024 (writeLen - offset) := by
  rw [writeChunk, List.length_take, List.length_drop]
  omega

/-- **A round of `write_file`** gives up, is the last one, or goes on behind a full chunk. -/
theorem writeFileLoop_round (buf : Bytes) {writeLen offset : Nat} (h : offset < writeLen)
    (fuel : Nat) (f : File) (os : Os) :
    ((os.write f.fd (writeChunk buf writeLen offset)).1 ≠ (min 1024 (writeLen - offset) : Nat)
        ∧ writeFileLoop buf writeLen (fuel + 1) offset f os
          = ⟨-1, { f with status := .writeError },
            (os.write f.fd (writeChunk buf writeLen offset)).2⟩)
      ∨ ((os.write f.fd (writeChunk buf writeLen offset)).1 = (min 1024 (writeLen - offset) : Nat)
        ∧ writeLen ≤ offset + 1024
        ∧ writeFileLoop buf writeLen (fuel + 1) offset f os
          = ⟨writeLen, { f with status := .writeError },
            (os.write f.fd (writeChunk buf writeLen offset)).2⟩)
      ∨ ((os.write f.fd (writeChunk buf writeLen offset)).1 = (min 1024 (writeLen - offset) : Nat)
        ∧ offset + 1024 < writeLen
        ∧ writeFileLoop buf writeLen (fuel + 1) offset f os
          = writeFileLoop buf writeLen fuel (offset + 1024 : Nat) f
            (os.write f.fd (writeChunk buf writeLen offset)).2) := by
  rw [writeFileLoop]
  simp only [writeMinLen_eq h, Int.toNat_natCast]
  rw [← writeChunk]
  generalize os.write f.fd (writeChunk buf writeLen offset) = w
  split
  · rename_i hne
    exact .inl ⟨hne, rfl⟩
  · rename_i hne
    have heq : w.1 = (min 1024 (writeLen - offset) : Nat) := by simpa using hne
    split
    · rename_i hdone
      have hret : (offset : Int) + w.1 = writeLen := by omega
      exact .inr (.inl ⟨heq, by omega, by rw [hret]⟩)
    · rename_i hmore
      have hnext : (offset : Int) + w.1 = ((offset + 1024 : Nat) : Int) := by omega
      exact .inr (.inr ⟨heq, by omega, by rw [hnext]⟩)

/-- **The loop of `write_file`** comes to `write_len` exactly when every chunk is taken. -/
theorem writeFileLoop_ret_iff {buf : Bytes} {writeLen : Nat} (hlen : writeLen ≤ buf.length) :
    ∀ (fuel offset : Nat) {f : File} {os : Os}, offset < writeLen → writeLen ≤ offset + fuel →
      os.IsOpen f.fd →
      ((writeFileLoop buf writeLen fuel offset f os).ret = writeLen
        ↔ os.TakesAll (writeLen - offset))
  | 0, offset, f, os, hlt, hfuel, _ => by omega
  | fuel + 1, offset, f, os, hlt, hfuel, hopen => by
      obtain ⟨hret, hopen', htick, hout⟩ := Os.write_open hopen (writeChunk buf writeLen offset)
      rw [length_writeChunk hlen] at hret
      rw [Os.takesAll_iff (by omega) htick hout, ← hret]
      rcases writeFileLoop_round buf hlt fuel f os with
        ⟨hne, hloop⟩ | ⟨heq, hdone, hloop⟩ | ⟨heq, hmore, hloop⟩
      · rw [hloop]
        constructor
        · intro h
          exact absurd (show (-1 : Int) = writeLen from h) (by omega)
        · intro h
          exact absurd h.1 hne
      · rw [hloop, show writeLen - offset - 1024 = 0 by omega]
        exact ⟨fun _ => ⟨heq, Os.takesAll_zero _⟩, fun _ => rfl⟩
      · rw [hloop, writeFileLoop_ret_iff hlen fuel (offset + 1024) (by omega) (by omega) hopen',
          Nat.sub_add_eq]
        exact ⟨fun h => ⟨heq, h⟩, fun h => h.2⟩

theorem writeFile_ret_iff (f : File) (buf : Bytes) (writeLen : Nat) (os : Os) (hpos : 0 < writeLen)
    (hlen : writeLen ≤ buf.length) (hfd : 0 < f.fd) (hopen : os.IsOpen f.fd) :
    (writeFile f buf writeLen os).ret = writeLen ↔ os.TakesAll writeLen := by
  unfold writeFile
  rw [if_pos ⟨hfd, by omega⟩]
  exact writeFileLoop_ret_iff hlen writeLen 0 hpos (by omega) hopen

/-! ## One attempt -/

/-- What `open_file` returns is on a descriptor that `open` has handed out. -/
theorem openFile_opened {path : Bytes} {os : Os} {f : File} (h : (openFile path os).1 = some f) :
    f.file = path ∧ ((os.isExistFile path).2.openFd path false false).1 = some f.fd
      ∧ (openFile path os).2.fds = ((os.isExistFile path).2.openFd path false false).2.fds
      ∧ (openFile path os).2.node = ((os.isExistFile path).2.openFd path false false).2.node
      ∧ (openFile path os).2.nextFd = ((os.isExistFile path).2.openFd path false false).2.nextFd := by
  unfold openFile at h ⊢
  dsimp only at h ⊢
  split at h
  · rename_i he
    rw [if_pos he]
    cases hfd : ((os.isExistFile path).2.openFd path false false).1 with
    | none =>
        rw [hfd] at h
        exact absurd h (by simp)
    | some fd =>
        rw [hfd] at h
        unfold fileNodeCreate at h ⊢
        dsimp only at h ⊢
        -- both allocations have to work
        split at h
        · rename_i ha
          rw [if_pos ha]
          split at h
          · rename_i hb
            rw [if_pos hb]
            obtain rfl := Option.some.inj h
            exact ⟨rfl, rfl, rfl, rfl, rfl⟩
          · exact absurd h (by simp)
        · exact absurd h (by simp)
  · exact absurd h (by simp)

theorem openFile_isOpen {path : Bytes} {os : Os} {f : File} (h : (openFile path os).1 = some f) :
    0 < f.fd ∧ (openFile path os).2.IsOpen f.fd := by
  obtain ⟨_, hfd, hfds, hnode, _⟩ := openFile_opened h
  obtain ⟨hpos, hopen⟩ := Os.openFd_isOpen hfd
  exact ⟨hpos, hopen.congr hfds hnode⟩

/-- What a successful creation leaves open. -/
def SkylogOut.Opened (x : SkylogOut) : Prop :=
  ∃ f, x.skylog.f = some f ∧ 0 < f.fd ∧ x.os.IsOpen f.fd

theorem clearAndOpen_opened {s : Skylog} {path : Bytes} {os : Os}
    (h : (clearAndOpen s path os).ret = true) : (clearAndOpen s path os).Opened := by
  unfold clearAndOpen at h ⊢
  dsimp only at h ⊢
  obtain ⟨f, hf⟩ := Option.isSome_iff_exists.mp h
  obtain ⟨hpos, hopen⟩ := openFile_isOpen hf
  rw [hf]
  refine ⟨f, rfl, hpos, ?_⟩
  dsimp only [lseekToEnd]
  rw [if_pos hpos]
  exact Os.lseekEnd_isOpen hopen

theorem createNewSkylogFile_opened {s : Skylog} {os : Os}
    (h : (createNewSkylogFile s os).ret = true) : (createNewSkylogFile s os).Opened := by
  unfold createNewSkylogFile at h ⊢
  dsimp only at h ⊢
  split at h
  · rename_i hd
    rw [if_pos hd]
    split at h
    · rename_i hc
      rw [if_pos hc]
      exact clearAndOpen_opened h
    · exact absurd h (by simp)
  · exact absurd h (by simp)

theorem createAndOpenSkylogFile_opened {s : Skylog} {os : Os}
    (h : (createAndOpenSkylogFile s os).ret = true) : (createAndOpenSkylogFile s os).Opened := by
  unfold createAndOpenSkylogFile at h ⊢
  dsimp only at h ⊢
  split at h
  · rename_i hp
    rw [if_pos hp]
    split at h
    · rename_i hc
      rw [if_pos hc]
      exact clearAndOpen_opened h
    · rename_i hc
      rw [if_neg hc]
      exact createNewSkylogFile_opened h
  · rename_i hp
    rw [if_neg hp]
    exact createNewSkylogFile_opened h

/-- A log without an open file has one created. -/
theorem skylogFileCreate_of_none {s : Skylog} (os : Os) (hf : s.f = none) :
    (if s.f.isNone then skylogFileCreate s os else ⟨true, s, os⟩) = createAndOpenSkylogFile s os := by
  rw [skylogFileCreate, hf]
  rfl

end TraceServer
