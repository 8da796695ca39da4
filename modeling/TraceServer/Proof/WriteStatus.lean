import TraceServer.Proof.Files

/-!
# What `write_file` reports

The data goes to the kernel from its beginning on, in order, and the return value says whether all
of it has gone there. `status` is to say the same, as it does in `read_file`, but the exit behind
the last chunk sets it to `E_FILE_STATUS_IO_WRITE_ERROR` too.
-/

namespace TraceServer

/-- `write_file` ends; the block, or with -1 only a beginning of it, has been written over `content`
from `pos` on, and `status` is the return value once more. -/
structure BlockReported (f : File) (buf : Bytes) (writeLen : Nat) (os : Os) (path content : Bytes)
    (pos : Nat) : Prop where
  terminates : ∀ fuel, writeLen ≤ fuel →
    writeFileLoop buf writeLen fuel 0 f os = writeFile f buf writeLen os
  ends : (writeFile f buf writeLen os).ret = writeLen ∨ (writeFile f buf writeLen os).ret = -1
  handed : ∃ piece, piece <+: buf.take writeLen
    ∧ (writeFile f buf writeLen os).os.fds f.fd = some ⟨path, pos + piece.length⟩
    ∧ (writeFile f buf writeLen os).os.node path = some (.file (Os.overwrite content pos piece))
    ∧ ((writeFile f buf writeLen os).ret = writeLen ↔ piece = buf.take writeLen)
  normal : (writeFile f buf writeLen os).f.status = .normal
    ↔ (writeFile f buf writeLen os).ret = writeLen
  writeError : (writeFile f buf writeLen os).f.status = .writeError
    ↔ (writeFile f buf writeLen os).ret = -1

/-! ## The loop -/

section Loop

variable {buf : Bytes} {writeLen : Nat}

/-- **It ends**: from where the rounds are enough, more of them change nothing. -/
theorem writeFileLoop_fuel : ∀ (fuel more offset : Nat) (f : File) (os : Os), offset < writeLen →
    writeLen ≤ offset + fuel →
    writeFileLoop buf writeLen (fuel + more) offset f os
      = writeFileLoop buf writeLen fuel offset f os
  | 0, _, offset, _, _, hlt, hfuel => by omega
  | fuel + 1, more, offset, f, os, hlt, hfuel => by
      rw [show fuel + 1 + more = fuel + more + 1 by omega]
      rcases writeFileLoop_round buf hlt (fuel + more) f os with
        ⟨hne, hloop⟩ | ⟨heq, hdone, hloop⟩ | ⟨heq, hmore, hloop⟩
      · rcases writeFileLoop_round buf hlt fuel f os with
          ⟨_, hloop'⟩ | ⟨heq', _⟩ | ⟨heq', _⟩
        · rw [hloop, hloop']
        · exact absurd heq' hne
        · exact absurd heq' hne
      · rcases writeFileLoop_round buf hlt fuel f os with
          ⟨hne', _⟩ | ⟨_, _, hloop'⟩ | ⟨_, hmore', _⟩
        · exact absurd heq hne'
        · rw [hloop, hloop']
        · omega
      · rcases writeFileLoop_round buf hlt fuel f os with
          ⟨hne', _⟩ | ⟨_, hdone', _⟩ | ⟨_, _, hloop'⟩
        · exact absurd heq hne'
        · omega
        · rw [hloop, hloop']
          exact writeFileLoop_fuel fuel more (offset + 1024) f _ (by omega) (by omega)

/-- **Both exits set the same status.** -/
theorem writeFileLoop_ends : ∀ (fuel offset : Nat) (f : File) (os : Os), offset < writeLen →
    writeLen ≤ offset + fuel →
    (writeFileLoop buf writeLen fuel offset f os).f.status = .writeError
      ∧ ((writeFileLoop buf writeLen fuel offset f os).ret = writeLen
        ∨ (writeFileLoop buf writeLen fuel offset f os).ret = -1)
  | 0, offset, _, _, hlt, hfuel => by omega
  | fuel + 1, offset, f, os, hlt, hfuel => by
      rcases writeFileLoop_round buf hlt fuel f os with ⟨_, hloop⟩ | ⟨_, _, hloop⟩ | ⟨_, hmore, hloop⟩
      · rw [hloop]
        exact ⟨rfl, .inr rfl⟩
      · rw [hloop]
        exact ⟨rfl, .inl rfl⟩
      · rw [hloop]
        exact writeFileLoop_ends fuel (offset + 1024) f _ (by omega) (by omega)

end Loop

/-! ## The call -/

/-- **The status of `write_file` is right exactly when the write fails**: some chunk of the block
is not taken whole. -/
theorem blockReported_iff (f : File) (buf : Bytes) (writeLen : Nat) (os : Os) (path content : Bytes)
    (pos : Nat) (hfd : 0 < f.fd) (hfds : os.fds f.fd = some ⟨path, pos⟩)
    (hnode : os.node path = some (.file content)) (hpos : 0 < writeLen)
    (hlen : writeLen ≤ buf.length) :
    BlockReported f buf writeLen os path content pos ↔ ¬ os.TakesAll writeLen := by
  have hret := writeFile_ret_iff f buf writeLen os hpos hlen hfd ⟨_, _, hfds, hnode⟩
  have hloop : writeFile f buf writeLen os = writeFileLoop buf writeLen writeLen 0 f os := by
    rw [writeFile, if_pos ⟨hfd, by omega⟩]
    rfl
  obtain ⟨hstatus, hends⟩ :=
    @writeFileLoop_ends buf writeLen writeLen 0 f os hpos (Nat.le_add_left _ _)
  rw [Nat.cast_zero, ← hloop] at hstatus hends
  constructor
  · intro h hall
    -- the whole block has gone, and the status says it has not
    have hnormal := h.normal.mpr (hret.mpr hall)
    rw [hstatus] at hnormal
    exact FileIoStatus.noConfusion hnormal
  · intro hnot
    have hne := fun h => hnot (hret.mp h)
    obtain ⟨piece, hfds', hnode', hpiece, hall, _⟩ := writeFile_writes hpos hlen hfd hfds hnode
    refine ⟨?_, hends, ⟨piece, hpiece, hfds', hnode', hall⟩, ?_, ?_⟩
    · intro fuel hfuel
      obtain ⟨more, rfl⟩ := Nat.exists_eq_add_of_le hfuel
      rw [hloop]
      exact writeFileLoop_fuel writeLen more 0 f os hpos (Nat.le_add_left _ _)
    · exact ⟨fun h => absurd (hstatus.symm.trans h) (by decide), fun h => absurd h hne⟩
    · exact ⟨fun _ => hends.resolve_left hne, fun _ => hstatus⟩

/-- A new file that is open as descriptor 3. -/
def newLog : Os := Os.fresh.opened (lit "/log") []

/-- On a full disk the status is right. -/
theorem blockReported_iff_full :
    BlockReported ⟨3, lit "/log", .normal⟩ (lit "ab") 2 { newLog with outcome := fun _ => .fail }
        (lit "/log") [] 0
      ↔ ¬ { newLog with outcome := fun _ => .fail }.TakesAll 2 :=
  blockReported_iff ⟨3, lit "/log", .normal⟩ (lit "ab") 2 { newLog with outcome := fun _ => .fail }
    (lit "/log") [] 0 (by decide) rfl rfl (by decide) (by decide)

/-- Two bytes, written as they should be. -/
theorem writtenBlock_misreported :
    ¬ BlockReported ⟨3, lit "/log", .normal⟩ (lit "ab") 2 newLog (lit "/log") [] 0 := by
  intro h
  have hret : (writeFile ⟨3, lit "/log", .normal⟩ (lit "ab") 2 newLog).ret = 2 := by decide
  have hstatus : (writeFile ⟨3, lit "/log", .normal⟩ (lit "ab") 2 newLog).f.status
      = .writeError := by decide
  have hnormal := h.normal.mpr hret
  rw [show ((2 : Nat) : Int) = 2 from rfl, hstatus] at hnormal
  exact FileIoStatus.noConfusion hnormal

end TraceServer
