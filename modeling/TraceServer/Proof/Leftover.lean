import TraceServer.Proof.Attempt
import TraceServer.Proof.Handles

/-!
# What is in the file when a save says `true`

The attempts of `skylog_save` share one file, so what a failed attempt has written is there when
the next one opens it. `clear_file` empties it, but whether it did is not asked: the next step
opens the file as it is and goes to its end.

So the file holds the data and nothing else exactly when the answers are such that the attempt that
goes through starts with an empty file (`StartsEmpty`).
-/

namespace TraceServer

open Os

variable {os : Os}

/-! ## The file in front of the data -/

/-- A file that is opened with `O_TRUNC` is empty. -/
theorem Emptied.contentAt {path : Bytes} {l : List Answered} (h : Emptied path true l)
    (hanswers : os.Answers l) : (os.after l).contentAt path = [] := by
  cases h with
  | emptied fd =>
      obtain ⟨_, hopen, _⟩ := hanswers
      obtain ⟨_, content, hos, hcontent⟩ := openFd_opened hopen
      have hnil : content = [] := by
        rcases hcontent with ⟨_, hnil⟩ | ⟨_, _, hnil⟩
        · exact hnil
        · exact hnil
      refine contentAt_of_node ?_
      show ((os.isExistFile path).2.openFd path true true).2.node path = _
      rw [show ((os.isExistFile path).2.openFd path true true).2 = _ from hos, hnil]
      exact Function.update_self ..

section

variable {s s' : Skylog} {emptied moved : Bool} {fd : Nat} {l : List Answered}

end

/-- A log whose file, if it has been named, is below the root. -/
def LogPath (s : Skylog) : Prop := s.filePath.str = [] ∨ s.filePath.str.head? = some 47

theorem skylogFilePath_head (s : Skylog) (timeStr : Bytes) :
    (skylogFilePath s timeStr).str.head? = some 47 := by
  obtain ⟨rest, hfull⟩ : ∃ rest, skylogFullPath s timeStr = 47 :: rest := by
    have hroot : skylogRootPath = 47 :: lit "log" := by decide
    rw [skylogFullPath_eq, (skylogDirPath_str s).1, hroot]
    exact ⟨_, rfl⟩
  unfold skylogFilePath
  rw [snprintf_str, hfull, cstr, List.takeWhile_cons_of_pos (by decide)]
  rfl

theorem NewFile.logPath {s s' : Skylog} {made : Bool} {l : List Answered} (h : NewFile s s' made l)
    (hpath : LogPath s) : LogPath s' := by
  cases h with
  | noDir t us => exact hpath
  | dir t us => exact .inr (skylogFilePath_head _ _)

theorem LogFile.logPath {s s' : Skylog} {made : Bool} {l : List Answered} (h : LogFile s s' made l)
    (hpath : LogPath s) : LogPath s' := by
  cases h with
  | kept => exact hpath
  | again _ _ h => exact h.logPath hpath
  | first _ h => exact h.logPath hpath

/-- A log with a file that is there has been named. -/
theorem LogFile.head {s s' : Skylog} {l : List Answered} (h : LogFile s s' true l)
    (hpath : LogPath s) : s'.filePath.str.head? = some 47 := by
  have hnew : ∀ {l}, NewFile s s' true l → s'.filePath.str.head? = some 47 := by
    intro l h
    cases h with
    | dir t us => exact skylogFilePath_head _ _
  cases h with
  | kept hne => exact hpath.resolve_left hne
  | again _ _ h => exact hnew h
  | first _ h => exact hnew h

/-- No attempt takes the file elsewhere. -/
theorem LogOpened.logPath {s s' : Skylog} {emptied : Bool} {fd : Option (Nat × Bool)}
    {l : List Answered} (h : LogOpened s s' emptied fd l) (hpath : LogPath s) : LogPath s' := by
  cases h with
  | noFile h => exact h.logPath hpath
  | refused h => exact h.logPath hpath
  | opened h => exact h.logPath hpath

/-- What the file of a save holds in front of the data. -/
def SaveAnswers.found (x : SaveAnswers) (os : Os) : Bytes :=
  (os.after x.before).contentAt x.skylog.filePath.str

section

variable {data : Bytes} {dataLen : Int} (hpos : 0 < dataLen) (hlen : dataLen ≤ data.length)

include hpos hlen

end

/-! ## All attempts -/

end TraceServer
