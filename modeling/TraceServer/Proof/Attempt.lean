import TraceServer.Attempt
import TraceServer.Proof.Write

/-!
# A save and its answers

Whatever the system answers, it is one of the lists of answers that `Attempt` tells apart, and the
functions of the source come to what the list says: from `create_dir` and `create_file` to an
attempt, and from an attempt to the loop over three of them. So `skylog_save` says `true` exactly
when the answers are those of a save (`skylogSave_ret_iff`).
-/

namespace TraceServer

namespace Os

variable {os : Os} {a : Answered} {l l' : List Answered}

@[simp] theorem answers_nil : os.Answers [] := trivial

@[simp] theorem answers_cons : os.Answers (a :: l) ↔ a.Agrees os ∧ (a.step os).Answers l := Iff.rfl

theorem answers_append : os.Answers (l ++ l') ↔ os.Answers l ∧ (os.after l).Answers l' :=
  Machine.along_append Answered.step

@[simp] theorem after_nil : os.after [] = os := rfl

@[simp] theorem after_cons : os.after (a :: l) = (a.step os).after l := rfl

theorem after_append : os.after (l ++ l') = (os.after l).after l' :=
  Machine.run_append Answered.step os l l'

end Os

variable {os : Os}

/-! ## The directory -/

theorem dirsMade_answers (ps : List Bytes) : ∀ os : Os,
    ∃ made l, DirsMade ps made l ∧ os.Answers l := by
  induction ps with
  | nil => exact fun os => ⟨true, [], .nil, trivial⟩
  | cons p ps ih =>
      intro os
      cases hfound : (os.isExistFile p).1 with
      | true =>
          obtain ⟨made, l, hl, hanswers⟩ := ih (os.isExistFile p).2
          exact ⟨made, _, .found hl, hfound, hanswers⟩
      | false =>
          cases hmade : ((os.isExistFile p).2.mkdir p).1 with
          | true =>
              obtain ⟨made, l, hl, hanswers⟩ := ih ((os.isExistFile p).2.mkdir p).2
              exact ⟨made, _, .made hl, hfound, hmade, hanswers⟩
          | false => exact ⟨false, _, .refused, hfound, hmade, trivial⟩

/-- **The loop of `create_dir`** comes to what the answers say. -/
theorem createDirLoop_eq {made : Bool} {l : List Answered} :
    ∀ {done str : Bytes} {os : Os}, DirsMade (dirsAbove done str) made l → os.Answers l →
      createDirLoop done str os = (made, os.after l)
  | done, [], os, h, _ => by
      rw [dirsAbove] at h
      cases h
      rfl
  | done, c :: str, os, h, hanswers => by
      rw [dirsAbove] at h
      rw [createDirLoop]
      split at h
      · rename_i hc
        rw [if_pos hc]
        cases h with
        | found h =>
            obtain ⟨hfound, hrest⟩ := hanswers
            exact (if_pos hfound).trans (createDirLoop_eq h hrest)
        | made h =>
            obtain ⟨hfound, hmade, hrest⟩ := hanswers
            exact (if_neg (Bool.eq_false_iff.mp hfound)).trans
              ((if_pos hmade).trans (createDirLoop_eq h hrest))
        | refused =>
            obtain ⟨hfound, hmade, _⟩ := hanswers
            exact (if_neg (Bool.eq_false_iff.mp hfound)).trans (if_neg (Bool.eq_false_iff.mp hmade))
      · rename_i hc
        rw [if_neg hc]
        exact createDirLoop_eq h hanswers

/-- The directories above come first. -/
theorem DirsMade.split {ps qs : List Bytes} {made : Bool} : ∀ {l : List Answered},
    DirsMade (ps ++ qs) made l → (made = false ∧ DirsMade ps false l)
      ∨ ∃ l₁ l₂, l = l₁ ++ l₂ ∧ DirsMade ps true l₁ ∧ DirsMade qs made l₂ := by
  induction ps with
  | nil => exact fun h => .inr ⟨[], _, rfl, .nil, h⟩
  | cons p ps ih =>
      intro l h
      cases h with
      | found h =>
          rcases ih h with ⟨rfl, h'⟩ | ⟨l₁, l₂, rfl, h₁, h₂⟩
          · exact .inl ⟨rfl, .found h'⟩
          · exact .inr ⟨_, l₂, rfl, .found h₁, h₂⟩
      | made h =>
          rcases ih h with ⟨rfl, h'⟩ | ⟨l₁, l₂, rfl, h₁, h₂⟩
          · exact .inl ⟨rfl, .made h'⟩
          · exact .inr ⟨_, l₂, rfl, .made h₁, h₂⟩
      | refused => exact .inl ⟨rfl, .refused⟩

theorem dirMade_answers (dir : Bytes) (os : Os) : ∃ made l, DirMade dir made l ∧ os.Answers l := by
  obtain ⟨made, l, hl, hanswers⟩ := dirsMade_answers (dirsOf dir) os
  cases made with
  | true =>
      exact ⟨_, _, .made hl ((os.after l).isExistFile dir).1,
        Os.answers_append.mpr ⟨hanswers, rfl, trivial⟩⟩
  | false => exact ⟨false, l, .refused hl, hanswers⟩

/-- `create_dir` down to `dir` itself, without the last look at it. -/
theorem createDir_dirs {dir : Bytes} {made : Bool} {l : List Answered}
    (h : DirsMade (dirsOf dir) made l) (hanswers : os.Answers l) :
    createDir dir os = if made then (os.after l).isExistFile dir else (false, os.after l) := by
  unfold createDir
  dsimp only
  rcases h.split with ⟨rfl, h'⟩ | ⟨l₁, l₂, rfl, h₁, h₂⟩
  · rw [createDirLoop_eq h' hanswers]
    rfl
  · obtain ⟨hanswers₁, hanswers₂⟩ := Os.answers_append.mp hanswers
    rw [createDirLoop_eq h₁ hanswers₁, if_pos rfl, Os.after_append]
    by_cases hnil : dir.take 511 = []
    · rw [if_pos hnil] at h₂
      cases h₂
      rw [hnil, if_neg (by simp)]
      rfl
    · rw [if_neg hnil] at h₂
      rw [if_pos (List.length_pos_iff.mpr hnil)]
      cases h₂ with
      | found h₂ =>
          cases h₂
          exact if_pos hanswers₂.1
      | made h₂ =>
          cases h₂
          obtain ⟨hfound, hmade, _⟩ := hanswers₂
          exact (if_neg (Bool.eq_false_iff.mp hfound)).trans (if_pos hmade)
      | refused =>
          obtain ⟨hfound, hmade, _⟩ := hanswers₂
          exact (if_neg (Bool.eq_false_iff.mp hfound)).trans (if_neg (Bool.eq_false_iff.mp hmade))

theorem createDir_eq {dir : Bytes} {made : Bool} {l : List Answered} (h : DirMade dir made l)
    (hanswers : os.Answers l) : createDir dir os = (made, os.after l) := by
  cases h with
  | made h found =>
      obtain ⟨hanswers, hfound, _⟩ := Os.answers_append.mp hanswers
      rw [createDir_dirs h hanswers, if_pos rfl, Os.after_append]
      exact Prod.ext hfound rfl
  | refused h => exact createDir_dirs h hanswers

/-! ## The file -/

theorem fileMade_answers (path : Bytes) (os : Os) :
    ∃ made l, FileMade path made l ∧ os.Answers l := by
  cases hfound : (os.isExistFile path).1 with
  | true => exact ⟨_, _, .there ((os.isExistFile path).2.isExistFile path).1, hfound, rfl, trivial⟩
  | false =>
      cases hopen : ((os.isExistFile path).2.openFd path true false).1 with
      | none => exact ⟨false, _, .refused, hfound, hopen, trivial⟩
      | some fd => exact ⟨_, _, .made fd _, hfound, hopen, trivial, rfl, trivial⟩

/-- What `open` hands out is a descriptor that `file_fd_close` closes. -/
theorem fileFdClose_opened {path : Bytes} {creat trunc : Bool} {fd : Nat} {os : Os}
    (h : (os.openFd path creat trunc).1 = some fd) (os' : Os) :
    fileFdClose fd os' = os'.close fd :=
  if_pos (Os.openFd_isOpen h).1

theorem createFile_eq {path : Bytes} {made : Bool} {l : List Answered} (h : FileMade path made l)
    (hanswers : os.Answers l) : createFile path os = (made, os.after l) := by
  unfold createFile
  dsimp only
  cases h with
  | there found =>
      simp only [Os.answers_cons, Answered.Agrees, Answered.step] at hanswers
      obtain ⟨hfound, hagain, _⟩ := hanswers
      exact (if_pos hfound).trans (Prod.ext hagain rfl)
  | made fd found =>
      simp only [Os.answers_cons, Answered.Agrees, Answered.step] at hanswers
      obtain ⟨hfound, hopen, _, hagain, _⟩ := hanswers
      rw [if_neg (Bool.eq_false_iff.mp hfound), hopen]
      dsimp only
      rw [fileFdClose_opened hopen]
      exact Prod.ext hagain rfl
  | refused =>
      simp only [Os.answers_cons, Answered.Agrees, Answered.step] at hanswers
      obtain ⟨hfound, hopen, _⟩ := hanswers
      rw [if_neg (Bool.eq_false_iff.mp hfound), hopen]
      rfl

theorem emptied_answers (path : Bytes) (os : Os) :
    ∃ emptied l, Emptied path emptied l ∧ os.Answers l := by
  cases hfound : (os.isExistFile path).1 with
  | true =>
      cases hopen : ((os.isExistFile path).2.openFd path true true).1 with
      | none => exact ⟨false, _, .refused, hfound, hopen, trivial⟩
      | some fd => exact ⟨true, _, .emptied fd, hfound, hopen, trivial, trivial⟩
  | false => exact ⟨false, _, .missing, hfound, trivial⟩

theorem clearFile_eq {path : Bytes} {emptied : Bool} {l : List Answered}
    (h : Emptied path emptied l) (hanswers : os.Answers l) :
    clearFile path os = (emptied, os.after l) := by
  unfold clearFile
  dsimp only
  cases h with
  | emptied fd =>
      simp only [Os.answers_cons, Answered.Agrees, Answered.step] at hanswers
      obtain ⟨hfound, hopen, _⟩ := hanswers
      rw [if_pos hfound, hopen]
      exact Prod.ext rfl (fileFdClose_opened hopen _)
  | refused =>
      simp only [Os.answers_cons, Answered.Agrees, Answered.step] at hanswers
      obtain ⟨hfound, hopen, _⟩ := hanswers
      rw [if_pos hfound, hopen]
      rfl
  | missing => exact if_neg (Bool.eq_false_iff.mp hanswers.1)

theorem opened_answers (path : Bytes) (os : Os) : ∃ fd l, Opened path fd l ∧ os.Answers l := by
  cases hfound : (os.isExistFile path).1 with
  | false => exact ⟨none, _, .missing, hfound, trivial⟩
  | true =>
      cases hopen : ((os.isExistFile path).2.openFd path false false).1 with
      | none => exact ⟨none, _, .refused, hfound, hopen, trivial⟩
      | some fd =>
          cases hhandle : ((os.isExistFile path).2.openFd path false false).2.call.1 with
          | false => exact ⟨none, _, .noHandle fd, hfound, hopen, hhandle, trivial⟩
          | true =>
              cases hname : ((os.isExistFile path).2.openFd path false false).2.call.2.call.1 with
              | false => exact ⟨none, _, .noName fd, hfound, hopen, hhandle, hname, trivial⟩
              | true => exact ⟨some fd, _, .opened fd, hfound, hopen, hhandle, hname, trivial⟩

theorem openFile_eq {path : Bytes} {fd : Option Nat} {l : List Answered} (h : Opened path fd l)
    (hanswers : os.Answers l) :
    openFile path os = (fd.map fun fd => ⟨fd, path, .normal⟩, os.after l) := by
  unfold openFile
  dsimp only
  cases h with
  | opened fd =>
      simp only [Os.answers_cons, Answered.Agrees, Answered.step] at hanswers
      obtain ⟨hfound, hopen, hhandle, hname, _⟩ := hanswers
      rw [if_pos hfound, hopen]
      exact (if_pos hhandle).trans (if_pos hname)
  | missing => exact if_neg (Bool.eq_false_iff.mp hanswers.1)
  | refused =>
      simp only [Os.answers_cons, Answered.Agrees, Answered.step] at hanswers
      obtain ⟨hfound, hopen, _⟩ := hanswers
      rw [if_pos hfound, hopen]
      rfl
  | noHandle fd =>
      simp only [Os.answers_cons, Answered.Agrees, Answered.step] at hanswers
      obtain ⟨hfound, hopen, hhandle, _⟩ := hanswers
      rw [if_pos hfound, hopen]
      exact if_neg (Bool.eq_false_iff.mp hhandle)
  | noName fd =>
      simp only [Os.answers_cons, Answered.Agrees, Answered.step] at hanswers
      obtain ⟨hfound, hopen, hhandle, hname, _⟩ := hanswers
      rw [if_pos hfound, hopen]
      exact (if_pos hhandle).trans (if_neg (Bool.eq_false_iff.mp hname))

/-- A descriptor that has been opened is open. -/
theorem Opened.isOpen {path : Bytes} {fd : Nat} {l : List Answered} (h : Opened path (some fd) l)
    (hanswers : os.Answers l) : 0 < fd ∧ (os.after l).IsOpen fd := by
  have heq := openFile_eq h hanswers
  have hos : (openFile path os).2 = os.after l := congrArg Prod.snd heq
  rw [← hos]
  exact openFile_isOpen (f := ⟨fd, path, .normal⟩) (congrArg Prod.fst heq)

/-! ## The writes -/

theorem written_answers (fd : Nat) : ∀ (k : Nat) {d : Bytes} (os : Os), d ≠ [] → d.length ≤ k →
    ∃ all w, Written fd d all w ∧ os.Answers w
  | 0, d, _, hne, hk => absurd (List.length_eq_zero_iff.mp (Nat.le_zero.mp hk)) hne
  | k + 1, d, os, hne, hk => by
      by_cases htaken : (os.write fd (d.take 1024)).1 = (d.take 1024).length
      · by_cases hlen : d.length ≤ 1024
        · rw [List.take_of_length_le hlen] at htaken
          exact ⟨true, _, .last hne hlen, htaken, trivial⟩
        · have hfull : (d.take 1024).length = 1024 := by
            rw [List.length_take]
            omega
          have hrest : d.drop 1024 ≠ [] := by
            rw [Ne, List.drop_eq_nil_iff]
            exact hlen
          obtain ⟨all, w, hw, hanswers⟩ := written_answers fd k (os.write fd (d.take 1024)).2 hrest
            (by rw [List.length_drop]; omega)
          rw [hfull] at htaken
          exact ⟨all, _, .more (by omega) hw, htaken, hanswers⟩
      · exact ⟨false, _, .short hne htaken, rfl, trivial⟩

theorem writeChunk_eq (buf : Bytes) (writeLen offset : Nat) :
    writeChunk buf writeLen offset = ((buf.take writeLen).drop offset).take 1024 := by
  rw [writeChunk, List.drop_take, List.take_take]

/-- **The loop of `write_file`** comes to what the answers say. -/
theorem writeFileLoop_eq {buf : Bytes} {writeLen : Nat} (hlen : writeLen ≤ buf.length) :
    ∀ (fuel offset : Nat) {f : File} {os : Os} {all : Bool} {w : List Answered}, offset < writeLen →
      writeLen ≤ offset + fuel → Written f.fd ((buf.take writeLen).drop offset) all w →
      os.Answers w → writeFileLoop buf writeLen fuel offset f os
        = ⟨if all then writeLen else -1, { f with status := .writeError }, os.after w⟩
  | 0, offset, f, os, all, w, hlt, hfuel, _, _ => by omega
  | fuel + 1, offset, f, os, all, w, hlt, hfuel, h, hanswers => by
      have hround := writeFileLoop_round buf hlt fuel f os
      have hchunk := length_writeChunk hlen offset
      rw [writeChunk_eq] at hround hchunk
      rw [← hchunk] at hround
      have hleft : ((buf.take writeLen).drop offset).length = writeLen - offset := by
        rw [List.length_drop, List.length_take]
        omega
      cases h with
      | last hne hshort =>
          rw [List.take_of_length_le hshort] at hround
          have hret : (os.write f.fd ((buf.take writeLen).drop offset)).1 = _ := hanswers.1
          rcases hround with ⟨hno, _⟩ | ⟨_, _, hloop⟩ | ⟨_, hmore, _⟩
          · exact absurd hret hno
          · exact hloop
          · omega
      | short hne hno =>
          have hret : (os.write f.fd (((buf.take writeLen).drop offset).take 1024)).1 = _ :=
            hanswers.1
          rw [hret] at hround
          rcases hround with ⟨_, hloop⟩ | ⟨hyes, _⟩ | ⟨hyes, _⟩
          · exact hloop
          · exact absurd hyes hno
          · exact absurd hyes hno
      | more hmore h =>
          obtain ⟨hret, hrest⟩ := hanswers
          have hret :
              (os.write f.fd (((buf.take writeLen).drop offset).take 1024)).1 = (1024 : Int) :=
            hret
          rw [hret] at hround
          rcases hround with ⟨hno, _⟩ | ⟨_, hdone, _⟩ | ⟨_, _, hloop⟩
          · exact absurd (by omega) hno
          · omega
          · rw [List.drop_drop] at h
            rw [hloop]
            exact writeFileLoop_eq hlen fuel (offset + 1024) (by omega) (by omega) h hrest

theorem writeFile_eq {f : File} {buf : Bytes} {writeLen : Nat} (hpos : 0 < writeLen)
    (hlen : writeLen ≤ buf.length) (hfd : 0 < f.fd) {all : Bool} {w : List Answered}
    (h : Written f.fd (buf.take writeLen) all w) (hanswers : os.Answers w) :
    writeFile f buf writeLen os
      = ⟨if all then writeLen else -1, { f with status := .writeError }, os.after w⟩ := by
  unfold writeFile
  rw [if_pos ⟨hfd, by omega⟩]
  exact writeFileLoop_eq hlen writeLen 0 hpos (by omega) h hanswers

/-! ## One attempt -/

variable {s s' : Skylog}

theorem newFile_answers (s : Skylog) (os : Os) :
    ∃ s' made l, NewFile s s' made l ∧ os.Answers l := by
  obtain ⟨made, l, hl, hanswers⟩ :=
    dirMade_answers (skylogDirPath (s.dated os.getSystemUTCTime.1)).str
      os.getSystemUTCTime.2.getTimestripUs.2
  cases made with
  | false =>
      exact ⟨_, false, _, .noDir _ os.getSystemUTCTime.2.getTimestripUs.1 hl, rfl, rfl, hanswers⟩
  | true =>
      obtain ⟨made, l', hl', hanswers'⟩ := fileMade_answers
        (s.named os.getSystemUTCTime.1 os.getSystemUTCTime.2.getTimestripUs.1).filePath.str
        (os.getSystemUTCTime.2.getTimestripUs.2.after l)
      exact ⟨_, made, _, .dir _ _ hl hl', rfl, rfl, Os.answers_append.mpr ⟨hanswers, hanswers'⟩⟩

/-- `_create_and_open_skylog_file` from the clock on, for the log as it is dated and named. -/
theorem createNewSkylogFile_named (s : Skylog) (os : Os) (t : UtcTime) (us : UInt64)
    (ht : os.getSystemUTCTime.1 = t) (hus : os.getSystemUTCTime.2.getTimestripUs.1 = us) :
    createNewSkylogFile s os =
      let d := createDir (skylogDirPath (s.dated t)).str os.getSystemUTCTime.2.getTimestripUs.2
      if d.1 then
        let c := createFile (s.named t us).filePath.str d.2
        if c.1 then clearAndOpen (s.named t us) (s.named t us).filePath.str c.2
        else ⟨false, s.named t us, c.2⟩
      else ⟨false, s.dated t, d.2⟩ := by
  subst ht hus
  rfl

theorem createNewSkylogFile_eq {made : Bool} {l : List Answered} (h : NewFile s s' made l)
    (hanswers : os.Answers l) : createNewSkylogFile s os
      = if made then clearAndOpen s' s'.filePath.str (os.after l) else ⟨false, s', os.after l⟩ := by
  cases h with
  | noDir t us h =>
      obtain ⟨ht, hus, hanswers⟩ := hanswers
      have hdir := createDir_eq h hanswers
      simp only [Answered.step] at hdir
      rw [createNewSkylogFile_named s os t us ht hus]
      dsimp only
      rw [hdir]
      rfl
  | dir t us h h' =>
      obtain ⟨ht, hus, hanswers⟩ := hanswers
      obtain ⟨hanswers, hanswers'⟩ := Os.answers_append.mp hanswers
      have hdir := createDir_eq h hanswers
      have hfile := createFile_eq h' hanswers'
      simp only [Answered.step] at hdir hfile
      rw [createNewSkylogFile_named s os t us ht hus, Os.after_cons, Os.after_cons, Os.after_append]
      dsimp only
      rw [hdir, if_pos rfl]
      dsimp only
      rw [hfile]
      cases made <;> rfl

theorem logFile_answers (s : Skylog) (os : Os) :
    ∃ s' made l, LogFile s s' made l ∧ os.Answers l := by
  by_cases hpath : s.filePath.str = []
  · obtain ⟨s', made, l, hl, hanswers⟩ := newFile_answers s os
    exact ⟨s', made, l, .first hpath hl, hanswers⟩
  · obtain ⟨made, l, hl, hanswers⟩ := fileMade_answers s.filePath.str os
    cases made with
    | true => exact ⟨s, true, l, .kept hpath hl, hanswers⟩
    | false =>
        obtain ⟨s', made, l', hl', hanswers'⟩ := newFile_answers s (os.after l)
        exact ⟨s', made, _, .again hpath hl hl', Os.answers_append.mpr ⟨hanswers, hanswers'⟩⟩

theorem createAndOpenSkylogFile_file {made : Bool} {l : List Answered} (h : LogFile s s' made l)
    (hanswers : os.Answers l) : createAndOpenSkylogFile s os
      = if made then clearAndOpen s' s'.filePath.str (os.after l) else ⟨false, s', os.after l⟩ := by
  unfold createAndOpenSkylogFile
  dsimp only
  cases h with
  | kept hpath h =>
      rw [if_pos (List.length_pos_iff.mpr hpath), createFile_eq h hanswers]
      rfl
  | again hpath h h' =>
      obtain ⟨hanswers, hanswers'⟩ := Os.answers_append.mp hanswers
      rw [if_pos (List.length_pos_iff.mpr hpath), createFile_eq h hanswers, if_neg (by simp),
        Os.after_append]
      exact createNewSkylogFile_eq h' hanswers'
  | first hpath h =>
      rw [if_neg (by simp [hpath])]
      exact createNewSkylogFile_eq h hanswers

theorem logOpened_answers (s : Skylog) (os : Os) :
    ∃ s' emptied fd l, LogOpened s s' emptied fd l ∧ os.Answers l := by
  obtain ⟨s', made, l, hl, hanswers⟩ := logFile_answers s os
  cases made with
  | false => exact ⟨s', false, none, l, .noFile hl, hanswers⟩
  | true =>
      obtain ⟨emptied, l₁, hl₁, hanswers₁⟩ := emptied_answers s'.filePath.str (os.after l)
      obtain ⟨fd, l₂, hl₂, hanswers₂⟩ := opened_answers s'.filePath.str ((os.after l).after l₁)
      cases fd with
      | none =>
          exact ⟨s', emptied, none, _, .refused hl hl₁ hl₂, Os.answers_append.mpr
            ⟨hanswers, Os.answers_append.mpr ⟨hanswers₁, hanswers₂⟩⟩⟩
      | some fd =>
          exact ⟨s', emptied, some (fd, _), _, .opened hl hl₁ hl₂ _, Os.answers_append.mpr
            ⟨hanswers, Os.answers_append.mpr
              ⟨hanswers₁, Os.answers_append.mpr ⟨hanswers₂, rfl, trivial⟩⟩⟩⟩

/-- **`_create_and_open_skylog_file`** comes to what the answers say. -/
theorem createAndOpenSkylogFile_eq (hf : s.f = none) {emptied : Bool} {fd : Option (Nat × Bool)}
    {l : List Answered} (h : LogOpened s s' emptied fd l) (hanswers : os.Answers l) :
    createAndOpenSkylogFile s os
      = ⟨fd.isSome, { s' with f := fd.map fun x => ⟨x.1, s'.filePath.str, .normal⟩ },
        os.after l⟩ := by
  cases h with
  | noFile h =>
      have hf' : s'.f = none := by
        cases h with
        | again _ _ h' => cases h' <;> exact hf
        | first _ h' => cases h' <;> exact hf
      rw [createAndOpenSkylogFile_file h hanswers]
      show SkylogOut.mk false s' (os.after l) = ⟨false, { s' with f := none }, os.after l⟩
      rw [← hf']
  | refused h h₁ h₂ =>
      obtain ⟨hanswers, hanswers'⟩ := Os.answers_append.mp hanswers
      obtain ⟨hanswers₁, hanswers₂⟩ := Os.answers_append.mp hanswers'
      rw [createAndOpenSkylogFile_file h hanswers, if_pos rfl, Os.after_append, Os.after_append]
      unfold clearAndOpen
      dsimp only
      rw [clearFile_eq h₁ hanswers₁, openFile_eq h₂ hanswers₂]
      rfl
  | opened h h₁ h₂ moved =>
      obtain ⟨hanswers, hanswers'⟩ := Os.answers_append.mp hanswers
      obtain ⟨hanswers₁, hanswers'⟩ := Os.answers_append.mp hanswers'
      obtain ⟨hanswers₂, _⟩ := Os.answers_append.mp hanswers'
      rw [createAndOpenSkylogFile_file h hanswers, if_pos rfl, Os.after_append, Os.after_append,
        Os.after_append]
      unfold clearAndOpen
      dsimp only
      rw [clearFile_eq h₁ hanswers₁, openFile_eq h₂ hanswers₂]
      exact congrArg (SkylogOut.mk true _) (if_pos (h₂.isOpen hanswers₂).1)

/-! ## Three attempts -/

theorem NewFile.f {made : Bool} {l : List Answered} (h : NewFile s s' made l) : s'.f = s.f := by
  cases h <;> rfl

theorem LogFile.f {made : Bool} {l : List Answered} (h : LogFile s s' made l) : s'.f = s.f := by
  cases h with
  | kept => rfl
  | again _ _ h => exact h.f
  | first _ h => exact h.f

theorem LogOpened.f {emptied : Bool} {fd : Option (Nat × Bool)} {l : List Answered}
    (h : LogOpened s s' emptied fd l) : s'.f = s.f := by
  cases h with
  | noFile h => exact h.f
  | refused h => exact h.f
  | opened h => exact h.f

/-- What has been opened can be written. -/
theorem LogOpened.isOpen {emptied moved : Bool} {fd : Nat} {l : List Answered}
    (h : LogOpened s s' emptied (some (fd, moved)) l) (hanswers : os.Answers l) : 0 < fd := by
  cases h with
  | opened _ _ h₂ =>
      obtain ⟨_, hanswers⟩ := Os.answers_append.mp hanswers
      obtain ⟨_, hanswers⟩ := Os.answers_append.mp hanswers
      exact (h₂.isOpen (Os.answers_append.mp hanswers).1).1

theorem SaveAnswers.calls_behind (l : List Answered) (x : SaveAnswers) :
    (x.behind l).calls = l ++ x.calls := List.append_assoc _ _ _

/-- What `skylog_save` comes to once the log is written: it is listed in the record. -/
def savedOut (s : Skylog) (record : SkylogRecord) (os : Os) : SaveOut :=
  let line := s.filePath.str ++ crlf
  let r := skylogRecord (snprintf 512 511 line).str line.length record os
  ⟨true, s, ⟨r.os, r.record⟩⟩

section

variable {data : Bytes} {dataLen : Int} (hpos : 0 < dataLen) (hlen : dataLen ≤ data.length)
  (hf : s.f = none)

include hpos hf in
/-- An attempt that is refused its file. -/
theorem skylogWriteToFile_notOpened {emptied : Bool} {l : List Answered}
    (h : LogOpened s s' emptied none l) (hanswers : os.Answers l) :
    skylogWriteToFile s data dataLen os = ⟨false, s', os.after l⟩ := by
  unfold skylogWriteToFile
  rw [if_pos hpos, skylogFileCreate_of_none os hf, createAndOpenSkylogFile_eq hf h hanswers]
  show SkylogOut.mk false { s' with f := none } _ = _
  rw [← h.f.trans hf]

include hpos hlen hf in
/-- An attempt that has its file. -/
theorem skylogWriteToFile_opened {emptied moved all : Bool} {fd : Nat} {l w : List Answered}
    (h : LogOpened s s' emptied (some (fd, moved)) l)
    (hw : Written fd (data.take dataLen.toNat) all w) (hanswers : os.Answers (l ++ w)) :
    skylogWriteToFile s data dataLen os
      = ⟨all, { s' with f := some ⟨fd, s'.filePath.str, .writeError⟩ }, os.after (l ++ w)⟩ := by
  obtain ⟨hanswers, hanswers'⟩ := Os.answers_append.mp hanswers
  have hwrite := writeFile_eq (f := ⟨fd, s'.filePath.str, .normal⟩) (by omega) (by omega)
    (h.isOpen hanswers) hw hanswers'
  rw [show ((dataLen.toNat : Nat) : Int) = dataLen by omega] at hwrite
  unfold skylogWriteToFile
  rw [if_pos hpos, skylogFileCreate_of_none os hf, createAndOpenSkylogFile_eq hf h hanswers]
  dsimp only [Option.map_some, Option.isSome_some]
  rw [if_pos rfl, hwrite, Os.after_append]
  dsimp only
  have hret : decide ((if all then dataLen else -1) = dataLen) = all := by
    cases all with
    | true => exact decide_eq_true rfl
    | false => exact decide_eq_false (fun h => absurd (show (-1 : Int) = dataLen from h) (by omega))
  rw [hret]

include hpos hlen

/-- **The loop of `skylog_save`**, where the answers are those of a save: the rest is the record. -/
theorem Saves.loop_eq {n : Nat} {x : SaveAnswers} (hx : Saves (data.take dataLen.toNat) n s x) :
    ∀ {h : Host}, s.f = none → h.os.Answers x.calls →
      ∃ f, skylogSaveLoop data dataLen n s h
        = savedOut { x.skylog with f := some f } h.record (h.os.after x.calls) := by
  induction hx with
  | @now n s s' emptied moved fd l w h hw =>
      intro host hf hanswers
      refine ⟨⟨fd, s'.filePath.str, .writeError⟩, ?_⟩
      rw [skylogSaveLoop]
      dsimp only
      rw [skylogWriteToFile_opened hpos hlen hf h hw hanswers, if_pos rfl]
      rfl
  | @notOpened n s s' emptied l x h hx ih =>
      intro host hf hanswers
      rw [SaveAnswers.calls_behind] at hanswers ⊢
      obtain ⟨hanswers, hrest⟩ := Os.answers_append.mp hanswers
      have hf' := h.f.trans hf
      obtain ⟨f, hloop⟩ := ih (h := { host with os := host.os.after l }) hf' hrest
      refine ⟨f, ?_⟩
      rw [skylogSaveLoop]
      dsimp only
      rw [skylogWriteToFile_notOpened hpos hf h hanswers, if_neg (by simp), Os.after_append]
      unfold skylogWriteFinish
      dsimp only
      rw [hf']
      have hsame : ({ s' with f := none } : Skylog) = s' := by rw [← hf']
      rw [hsame]
      exact hloop
  | @notWritten n s s' emptied moved fd l w x h hw hx ih =>
      intro host hf hanswers
      rw [SaveAnswers.calls_behind] at hanswers ⊢
      obtain ⟨hanswers, hrest⟩ := Os.answers_append.mp hanswers
      rw [← List.append_assoc] at hanswers hrest ⊢
      obtain ⟨hanswers, _⟩ := Os.answers_append.mp hanswers
      have hf' := h.f.trans hf
      obtain ⟨f, hloop⟩ :=
        ih (h := { host with os := host.os.after (l ++ w ++ [.close fd]) }) hf' hrest
      refine ⟨f, ?_⟩
      have hfd := h.isOpen (Os.answers_append.mp hanswers).1
      have hclose : (host.os.after (l ++ w)).close fd = host.os.after (l ++ w ++ [.close fd]) := by
        rw [Os.after_append (l := l ++ w)]
        rfl
      have hafter : host.os.after (l ++ w ++ [.close fd] ++ x.calls)
          = (host.os.after (l ++ w ++ [.close fd])).after x.calls := Os.after_append
      have hsame : ({ s' with f := none } : Skylog) = s' := by rw [← hf']
      rw [skylogSaveLoop]
      dsimp only
      rw [skylogWriteToFile_opened hpos hlen hf h hw hanswers, if_neg (by simp), hafter]
      unfold skylogWriteFinish fileClose fileFdClose
      dsimp only
      rw [if_pos hfd, hsame, hclose]
      exact hloop

/-- Where `skylog_save` says `true`, the answers were those of a save. -/
theorem saves_of_loop : ∀ (n : Nat) {s : Skylog} {h : Host}, s.f = none →
    (skylogSaveLoop data dataLen n s h).ret = true →
    ∃ x, Saves (data.take dataLen.toNat) n s x ∧ h.os.Answers x.calls
  | 0, _, _, _, hret => absurd hret (by simp [skylogSaveLoop])
  | n + 1, s, h, hf, hret => by
      have hblock : data.take dataLen.toNat ≠ [] := by
        rw [← List.length_pos_iff, List.length_take]
        omega
      obtain ⟨s', emptied, fd, l, hl, hanswers⟩ := logOpened_answers s h.os
      have hf' := hl.f.trans hf
      have hsame : ({ s' with f := none } : Skylog) = s' := by rw [← hf']
      rw [skylogSaveLoop] at hret
      dsimp only at hret
      cases fd with
      | none =>
          rw [skylogWriteToFile_notOpened hpos hf hl hanswers, if_neg (by simp)] at hret
          unfold skylogWriteFinish at hret
          dsimp only at hret
          rw [hf', hsame] at hret
          obtain ⟨x, hx, hrest⟩ := saves_of_loop n hf' hret
          refine ⟨_, .notOpened hl hx, ?_⟩
          rw [SaveAnswers.calls_behind]
          exact Os.answers_append.mpr ⟨hanswers, hrest⟩
      | some fd =>
          obtain ⟨fd, moved⟩ := fd
          obtain ⟨all, w, hw, hanswers'⟩ :=
            written_answers fd _ (h.os.after l) hblock (Nat.le_refl _)
          have hboth := Os.answers_append.mpr ⟨hanswers, hanswers'⟩
          cases all with
          | true => exact ⟨_, .now hl hw, hboth⟩
          | false =>
              rw [skylogWriteToFile_opened hpos hlen hf hl hw hboth, if_neg (by simp)] at hret
              unfold skylogWriteFinish fileClose fileFdClose at hret
              dsimp only at hret
              rw [if_pos (hl.isOpen hanswers), hsame] at hret
              obtain ⟨x, hx, hrest⟩ := saves_of_loop n hf' hret
              refine ⟨_, .notWritten hl hw hx, ?_⟩
              rw [SaveAnswers.calls_behind, ← List.append_assoc l w]
              refine Os.answers_append.mpr ⟨Os.answers_append.mpr ⟨hboth, trivial, trivial⟩, ?_⟩
              rw [Os.after_append]
              exact hrest

end

/-- **`skylog_save` says `true` exactly when there is something to save and the answers are those of
a save.** -/
theorem skylogSave_ret_iff {data : Bytes} {dataLen : Int} {h : Host} (hf : s.f = none)
    (hlen : dataLen ≤ data.length) : (skylogSave s data dataLen h).ret = true
      ↔ 0 < dataLen ∧ ∃ x, Saves (data.take dataLen.toNat) 3 s x ∧ h.os.Answers x.calls := by
  unfold skylogSave
  by_cases hpos : 0 < dataLen
  · rw [if_pos hpos]
    constructor
    · exact fun hret => ⟨hpos, saves_of_loop hpos hlen 3 hf hret⟩
    · rintro ⟨_, x, hx, hanswers⟩
      obtain ⟨f, hloop⟩ := hx.loop_eq hpos hlen hf hanswers
      rw [hloop]
      rfl
  · rw [if_neg hpos]
    exact ⟨fun hret => absurd hret (by simp), fun h => absurd h.1 hpos⟩

end TraceServer
