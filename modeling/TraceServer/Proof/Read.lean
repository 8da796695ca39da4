import TraceServer.FileRead
import TraceServer.Proof.Files

/-!
# What has been written can be read

However early its `read`s come back, `read_file` gets what is there, in order and without a gap, and
as much of it as it was asked for unless it says `E_FILE_STATUS_IO_READ_ERROR`. So a block that
`write_file` has reported comes back from where it was put.
-/

namespace TraceServer

namespace Os

/-- A `read` of a file, where `there` is what it could get. -/
theorem read_at {os : Os} {fd pos : Nat} {path content : Bytes}
    (hfds : os.fds fd = some ⟨path, pos⟩) (hnode : os.node path = some (.file content)) (n : Nat) :
    (os.read fd n).2.2.node = os.node ∧ (os.read fd n).2.2.outcome = os.outcome
      ∧ ((os.answer.succeeds = false ∧ (os.read fd n).1 = -1
          ∧ (os.read fd n).2.2.fds fd = some ⟨path, pos⟩)
        ∨ ∃ k : Nat, (os.read fd n).1 = k ∧ k ≤ min n (content.length - pos)
          ∧ (k = 0 → min n (content.length - pos) = 0)
          ∧ (os.read fd n).2.1 = (content.drop pos).take k
          ∧ (os.read fd n).2.2.fds fd = some ⟨path, pos + k⟩) := by
  unfold read
  rw [hfds]
  dsimp only
  rw [hnode]
  dsimp only
  have hthere : ((content.drop pos).take n).length = min n (content.length - pos) := by
    rw [List.length_take, List.length_drop]
  split
  · rename_i hok
    refine ⟨rfl, rfl, .inr ⟨_, rfl, ?_, ?_, ?_, Function.update_self ..⟩⟩
    · rw [hthere]
      cases os.answer <;> simp only [Outcome.got] <;> omega
    · intro hzero
      rw [hthere] at hzero
      cases hanswer : os.answer with
      | ok => rwa [hanswer] at hzero
      | short k =>
          rw [hanswer] at hzero
          simp only [Outcome.got] at hzero
          omega
      | fail =>
          rw [hanswer] at hok
          exact absurd hok (by decide)
    · have hle : os.answer.got ((content.drop pos).take n).length ≤ n := by
        rw [hthere]
        cases os.answer <;> simp only [Outcome.got] <;> omega
      rw [List.take_take, min_eq_left hle]
  · rename_i hfail
    exact ⟨rfl, rfl, .inl ⟨by simpa using hfail, rfl, hfds⟩⟩

/-- `lseek` from the head, when it works. -/
theorem lseekSet_at {os : Os} {fd pos : Nat} {path content : Bytes} {offset : Int}
    (hfds : os.fds fd = some ⟨path, pos⟩) (hnode : os.node path = some (.file content))
    (hret : 0 ≤ (os.lseekSet fd offset).1) :
    (os.lseekSet fd offset).1 = offset
      ∧ (os.lseekSet fd offset).2.fds fd = some ⟨path, offset.toNat⟩ := by
  unfold lseekSet at hret ⊢
  rw [hfds] at hret ⊢
  dsimp only at hret ⊢
  rw [hnode] at hret ⊢
  dsimp only at hret ⊢
  split
  · exact ⟨rfl, Function.update_self ..⟩
  · rename_i hno
    rw [if_neg hno] at hret
    exact absurd hret (by simp)

theorem lseekSet_node (os : Os) (fd : Nat) (offset : Int) :
    (os.lseekSet fd offset).2.node = os.node
      ∧ (os.lseekSet fd offset).2.outcome = os.outcome := by
  unfold lseekSet
  split
  · exact ⟨rfl, rfl⟩
  · split
    · split <;> exact ⟨rfl, rfl⟩
    · exact ⟨rfl, rfl⟩

end Os

/-! ## `read_file` -/

/-- What a call that reads up to `n` bytes from `pos` on comes to. -/
structure ReadsOn (content : Bytes) (path : Bytes) (pos n : Nat) (f : File) (os : Os) (x : ReadOut)
    (k : Nat) : Prop where
  le : k ≤ min n (content.length - pos)
  fds : x.os.fds f.fd = some ⟨path, pos + k⟩
  node : x.os.node = os.node
  fd : x.f.fd = f.fd
  file : x.f.file = f.file
  all : x.f.status = .normal → k = min n (content.length - pos)
  status : x.f.status = .normal ∨ x.f.status = .readError
  works : (∀ t, (os.outcome t).succeeds = true) → x.f.status = .normal

theorem readMinLen_eq {readLen offset : Nat} (h : offset < readLen) :
    readMinLen readLen offset = (min 1024 (readLen - offset) : Nat) := by
  unfold readMinLen
  split <;> omega

/-- **The loop of `read_file`.** -/
theorem readFileLoop_reads {content path : Bytes} {readLen : Nat} :
    ∀ (fuel offset : Nat) (buf : Bytes) {f : File} {os : Os} {pos : Nat}, offset < readLen →
      readLen ≤ offset + fuel → os.fds f.fd = some ⟨path, pos⟩ →
      os.node path = some (.file content) →
      ∃ k, (readFileLoop readLen fuel offset buf f os).ret = (offset + k : Nat)
        ∧ (readFileLoop readLen fuel offset buf f os).buf = buf ++ (content.drop pos).take k
        ∧ ReadsOn content path pos (readLen - offset) f os
            (readFileLoop readLen fuel offset buf f os) k
  | 0, offset, buf, f, os, pos, hlt, hfuel, _, _ => by omega
  | fuel + 1, offset, buf, f, os, pos, hlt, hfuel, hfds, hnode => by
      obtain ⟨hnode', hout, hread⟩ := os.read_at hfds hnode (min 1024 (readLen - offset))
      rw [readFileLoop, readMinLen_eq hlt, Int.toNat_natCast]
      generalize os.read f.fd (min 1024 (readLen - offset)) = r at *
      rcases hread with ⟨hfail, hret, hfds'⟩ | ⟨k, hret, hle, hzero, hbuf, hfds'⟩
      · -- the call fails, and the loop gives up
        rw [if_pos (by omega)]
        refine ⟨0, by simp, by simp, Nat.zero_le _, hfds', hnode', rfl, rfl, ?_, .inr rfl, ?_⟩
        · exact fun h => absurd h (by simp)
        · intro hall
          exact absurd ((hall os.tick).symm.trans hfail) (by simp)
      · rw [if_neg (by omega)]
        by_cases hk : k = 0
        · -- the end of the file
          subst hk
          rw [if_pos (show r.1 = 0 from hret)]
          have hnone := hzero rfl
          refine ⟨0, by simp, by simp, Nat.zero_le _, hfds', hnode', rfl, rfl, ?_, .inl rfl,
            fun _ => rfl⟩
          exact fun _ => by omega
        · rw [if_neg (by omega)]
          by_cases hdone : readLen ≤ offset + k
          · rw [if_pos (by omega)]
            refine ⟨k, by rw [hret]; rfl, by rw [hbuf], by omega, hfds', hnode', rfl, rfl, ?_,
              .inl rfl, fun _ => rfl⟩
            exact fun _ => by omega
          · -- it goes on behind what it has got
            rw [if_neg (by omega), hret, hbuf,
              show (offset : Int) + (k : Nat) = ((offset + k : Nat) : Int) by omega]
            have hlt' : offset + k < readLen := by omega
            obtain ⟨k', hret', hbuf', hreads⟩ := readFileLoop_reads fuel (offset + k)
              (buf ++ (content.drop pos).take k) hlt' (by omega) hfds'
              ((congrFun hnode' path).trans hnode)
            have hle' := hreads.le
            refine ⟨k + k', by rw [hret', Nat.add_assoc], ?_, by omega, ?_, hreads.node.trans hnode',
              hreads.fd, hreads.file, ?_, hreads.status, ?_⟩
            · rw [hbuf', List.append_assoc, ← List.drop_drop, ← List.take_add]
            · rw [hreads.fds, Nat.add_assoc]
            · intro h
              have hall := hreads.all h
              omega
            · intro h
              exact hreads.works (by rwa [hout])

/-- **`read_file`.** -/
theorem readFile_reads {content path : Bytes} {f : File} {os : Os} {pos readLen : Nat}
    (hpos : 0 < readLen) (hfd : 0 < f.fd) (hfds : os.fds f.fd = some ⟨path, pos⟩)
    (hnode : os.node path = some (.file content)) :
    ∃ k : Nat, (readFile f readLen os).ret = k
      ∧ (readFile f readLen os).buf = (content.drop pos).take k
      ∧ ReadsOn content path pos readLen f os (readFile f readLen os) k := by
  unfold readFile
  rw [if_pos ⟨hfd, by omega⟩]
  obtain ⟨k, hret, hbuf, hreads⟩ := readFileLoop_reads readLen 0 []
    hpos (by omega) hfds hnode
  exact ⟨k, by rw [Int.toNat_natCast]; simpa using hret, by simpa using hbuf, hreads⟩

/-! ## There and back -/

/-- What has been written over a file stands in it where it was put. -/
theorem drop_overwrite (content : Bytes) (pos : Nat) (d : Bytes) :
    (Os.overwrite content pos d).drop pos = d ++ content.drop (pos + d.length) := by
  have hfront : (content.take pos ++ List.replicate (pos - content.length) 0).length = pos := by
    simp only [List.length_append, List.length_take, List.length_replicate]
    omega
  unfold Os.overwrite
  split
  · rename_i hd
    rw [hd]
    rfl
  · rw [List.append_assoc, List.drop_left' hfront]

/-- What the kernel will answer is not in the hands of the program. -/
theorem writeFileLoop_outcome (buf : Bytes) (writeLen : Int) :
    ∀ (fuel : Nat) (offset : Int) (f : File) (os : Os),
      (writeFileLoop buf writeLen fuel offset f os).os.outcome = os.outcome
  | 0, _, _, _ => rfl
  | fuel + 1, offset, f, os => by
      have hwrite : ∀ d : Bytes, (os.write f.fd d).2.outcome = os.outcome := by
        intro d
        unfold Os.write
        split
        · rfl
        · split <;> rfl
      rw [writeFileLoop]
      split
      · exact hwrite _
      · split
        · exact hwrite _
        · exact (writeFileLoop_outcome buf writeLen fuel _ f _).trans (hwrite _)

theorem writeFile_outcome (f : File) (buf : Bytes) (writeLen : Int) (os : Os) :
    (writeFile f buf writeLen os).os.outcome = os.outcome := by
  unfold writeFile
  split
  · exact writeFileLoop_outcome buf writeLen _ _ f os
  · rfl

/-- What comes back when the written block is read. -/
structure ReadBack (block : Bytes) (x : ReadOut) : Prop where
  ret : x.ret = x.buf.length
  front : x.buf <+: block
  all : x.f.status = .normal → x.buf = block
  status : x.f.status = .normal ∨ x.f.status = .readError

/-- **What `write_file` reports as written, `read_file` gets back** from where it was put, as far as
it comes; and it comes to the end if no call fails. -/
theorem written_readBack {f : File} {buf path content : Bytes} {os : Os} {pos writeLen : Nat}
    (hpos : 0 < writeLen) (hlen : writeLen ≤ buf.length) (hfd : 0 < f.fd)
    (hfds : os.fds f.fd = some ⟨path, pos⟩) (hnode : os.node path = some (.file content))
    (hret : (writeFile f buf writeLen os).ret = writeLen) :
    let w := writeFile f buf writeLen os
    let s := lseekFromHead (some w.f) pos w.os
    let r := readFile w.f writeLen s.2
    s.1 = pos → ReadBack (buf.take writeLen) r ∧ r.os.node = w.os.node
      ∧ ((∀ t, (os.outcome t).succeeds = true) → r.f.status = .normal) := by
  intro w s r hseek
  obtain ⟨piece, hfds', hnode', _, hall, hfd', _, _⟩ := writeFile_writes hpos hlen hfd hfds hnode
  obtain rfl := hall.mp hret
  have hw : 0 < w.f.fd := hfd'.symm ▸ hfd
  have hs : s = w.os.lseekSet w.f.fd pos := if_pos hw
  have hfdsw : w.os.fds w.f.fd = some ⟨path, pos + (buf.take writeLen).length⟩ := by
    rw [show w.f.fd = f.fd from hfd']
    exact hfds'
  have hseek' : (w.os.lseekSet w.f.fd pos).1 = pos := hs ▸ hseek
  obtain ⟨_, hback⟩ := Os.lseekSet_at hfdsw hnode' (hseek'.symm ▸ Int.natCast_nonneg pos)
  rw [Int.toNat_natCast, ← hs] at hback
  have hsnode : s.2.node = w.os.node := by rw [hs, (Os.lseekSet_node ..).1]
  obtain ⟨k, hrret, hrbuf, hreads⟩ := readFile_reads hpos hw hback
    ((congrFun hsnode path).trans hnode')
  have hblock : (buf.take writeLen).length = writeLen := by
    rw [List.length_take]
    omega
  have hle := hreads.le
  have hthere : writeLen ≤ (Os.overwrite content pos (buf.take writeLen)).length - pos := by
    have hdrop := congrArg List.length (drop_overwrite content pos (buf.take writeLen))
    rw [List.length_drop, List.length_append, hblock] at hdrop
    omega
  have hbuf : r.buf = (buf.take writeLen).take k := by
    rw [show r.buf = _ from hrbuf, drop_overwrite, List.take_append_of_le_length (by omega)]
  refine ⟨⟨?_, ?_, ?_, hreads.status⟩, hreads.node.trans hsnode, ?_⟩
  · rw [hbuf, List.length_take, hblock]
    exact hrret.trans (by omega)
  · rw [hbuf]
    exact List.take_prefix _ _
  · intro hnormal
    have hk := hreads.all hnormal
    rw [hbuf, List.take_of_length_le (by omega)]
  · intro hworks
    refine hreads.works ?_
    have hout : s.2.outcome = os.outcome := by
      rw [hs, (Os.lseekSet_node ..).2]
      exact writeFile_outcome f buf writeLen os
    rwa [hout]

/-- A block that is put behind three bytes, where the first `read` comes back with two bytes. -/
def earlyRead : Os :=
  { Os.fresh with
    outcome := fun n => if n = 2 then .short 2 else .ok
    node := fun p => if p = lit "/log/a" then some (.file [1, 2, 3]) else none
    fds := fun fd => if fd = 3 then some ⟨lit "/log/a", 3⟩ else none }

theorem earlyRead_readBack :
    let w := writeFile ⟨3, lit "/log/a", .normal⟩ (lit "log block") 9 earlyRead
    let s := lseekFromHead (some w.f) 3 w.os
    let r := readFile w.f 9 s.2
    s.1 = 3 → ReadBack ((lit "log block").take 9) r ∧ r.os.node = w.os.node
      ∧ ((∀ t, (earlyRead.outcome t).succeeds = true) → r.f.status = .normal) :=
  written_readBack (by decide) (by decide) (by decide) rfl rfl (by decide +kernel)

end TraceServer
