import TraceServer.Skylog
import TraceServer.Lib.Path
import TraceServer.Proof.Lookup

/-!
# The path of a log file

The directory of a log is joined from the product, the version, the serial number and
the date, all of which the client sends. Nothing on the way excludes a separator or a
`..`: the strings are only cut to length, and the date is only replaced when it is
empty, because the tests of `_skylog_check_create_data` cannot all be passed by one
character. So a log stays below `SKYLOG_ROOT_PATH` exactly when the client has sent
components that are harmless (`insideRoot_iff`).
-/

namespace TraceServer

/-! ## Components -/

/-- A component that is the name of something in the directory it is looked up in. -/
structure SafeComponent (c : Bytes) : Prop where
  noSlash : (47 : UInt8) ∉ c
  notDot : c ≠ lit "."
  notDotDot : c ≠ lit ".."

/-- What the kernel makes of a component. -/
def pathStep (c : Bytes) : PathStep Bytes :=
  if c = [] ∨ c = lit "." then .stay else if c = lit ".." then .up else .down c

/-- A path that leads below `root` and at no point out of it again. -/
def StaysBelow (root path : Bytes) : Prop :=
  ∃ rest, path = root ++ 47 :: rest ∧
    PathStep.Confined (PathStep.walk [] (PathStep.steps 47 pathStep root))
      (PathStep.steps 47 pathStep rest)

theorem pathStep_ne_up {c : Bytes} (h : SafeComponent c) : pathStep c ≠ .up := by
  unfold pathStep
  split
  · simp
  · rw [if_neg h.notDotDot]
    simp

theorem staysBelow_of_safe {root : Bytes} {cs : List Bytes} (hne : cs ≠ [])
    (hcs : ∀ c ∈ cs, SafeComponent c) : StaysBelow root (root ++ 47 :: [47].intercalate cs) := by
  refine ⟨_, rfl, PathStep.confined_of_no_up ?_ _⟩
  rw [PathStep.steps_intercalate (fun c hc => (hcs c hc).noSlash) hne]
  intro s hs
  obtain ⟨c, hc, rfl⟩ := List.mem_map.mp hs
  exact pathStep_ne_up (hcs c hc)

theorem safeComponent_nil : SafeComponent [] := ⟨by simp, by decide, by decide⟩

/-- A component that does not begin with a dot. -/
theorem safeComponent_cons {b : UInt8} {c : Bytes} (hb : b ≠ 46) (hc : (47 : UInt8) ∉ b :: c) :
    SafeComponent (b :: c) :=
  ⟨hc, fun h => hb (List.cons.inj h).1, fun h => hb (List.cons.inj h).1⟩

/-! ## What the server prints itself -/

/-- The names of the types, and what is printed for a type that has none. -/
theorem typeName_mem (type : Int) : fmtS (getSkylogTypeName type) ∈ lit "(null)" :: skylogName := by
  unfold getSkylogTypeName
  split
  · cases h : skylogName[type.toNat]? with
    | none => exact List.mem_cons_self
    | some name => exact List.mem_cons_of_mem _ (List.mem_of_getElem? h)
  · exact List.mem_cons_self

/-- A byte of a printed time. -/
def IsTimeByte (b : UInt8) : Prop := b = 45 ∨ b = 95 ∨ isDigit b = true

/-- A part of a printed time. -/
def IsTime (s : Bytes) : Prop := ∀ b ∈ s, IsTimeByte b

theorem IsTime.append {s t : Bytes} (hs : IsTime s) (ht : IsTime t) : IsTime (s ++ t) := by
  intro b hb
  rcases List.mem_append.mp hb with hb | hb
  · exact hs b hb
  · exact ht b hb

theorem IsTime.cons {b : UInt8} {s : Bytes} (hb : IsTimeByte b) (hs : IsTime s) : IsTime (b :: s) :=
  IsTime.append (s := [b]) (by simpa [IsTime] using hb) hs

theorem IsTime.noSlash {s : Bytes} (hs : IsTime s) : (47 : UInt8) ∉ s := by
  intro h
  rcases hs 47 h with h | h | h <;> exact absurd h (by decide)

theorem IsTime.noNul {s : Bytes} (hs : IsTime s) : (0 : UInt8) ∉ s := by
  intro h
  rcases hs 0 h with h | h | h <;> exact absurd h (by decide)

theorem isTime_fmtLu (n : Nat) : IsTime (fmtLu n) :=
  fun _ hb => .inr (.inr (isDigit_of_mem_fmtLu hb))

theorem isTime_fmtD (i : Int) : IsTime (fmtD i) := by
  unfold fmtD
  split
  · exact .cons (.inl rfl) (isTime_fmtLu _)
  · exact isTime_fmtLu _

theorem isTime_fmt02d (n : Nat) : IsTime (fmt02d n) := by
  unfold fmt02d
  split
  · exact .cons (.inr (.inr (by decide))) (isTime_fmtLu _)
  · exact isTime_fmtLu _

theorem isTime_dash : IsTime (lit "-") := .cons (.inl rfl) (fun _ h => absurd h (by simp))

theorem isTime_underscore : IsTime (lit "_") :=
  .cons (.inr (.inl rfl)) (fun _ h => absurd h (by simp))

theorem isTime_century : IsTime (lit "20") :=
  .cons (.inr (.inr (by decide))) (.cons (.inr (.inr (by decide))) fun _ h => absurd h (by simp))

theorem isTime_fmtDate (t : UtcTime) : IsTime (fmtDate t) :=
  ((((isTime_century.append (isTime_fmtD _)).append isTime_dash).append (isTime_fmt02d _)).append
    isTime_dash).append (isTime_fmt02d _)

theorem isTime_fmtTimeStr (t : UtcTime) (us : UInt64) : IsTime (fmtTimeStr t us) :=
  ((((((((isTime_fmtDate t).append isTime_underscore).append (isTime_fmt02d _)).append
    isTime_underscore).append (isTime_fmt02d _)).append isTime_underscore).append
    (isTime_fmt02d _)).append isTime_underscore).append (isTime_fmtLu _)

/-- What `snprintf` keeps of a time is one. -/
theorem IsTime.snprintf {s : Bytes} (hs : IsTime s) (n size : Nat)
    (h : decide (0 < size ∧ size ≤ n) = true) :
    IsTime (snprintf n size s h).str :=
  fun b hb => hs b ((cstr_isPrefix s).subset (List.mem_of_mem_take hb))

/-- The date of the server is harmless. -/
theorem safeComponent_date (t : UtcTime) : SafeComponent (snprintf 32 31 (fmtDate t)).str := by
  have hfull := (isTime_fmtDate t).noNul
  have hslash := ((isTime_fmtDate t).snprintf 32 31 (by decide)).noSlash
  obtain ⟨rest, hrest⟩ : ∃ rest, (snprintf 32 31 (fmtDate t)).str = 50 :: rest := by
    show ∃ rest, (cstr (fmtDate t)).take 30 = 50 :: rest
    rw [cstr_eq_self hfull]
    exact ⟨_, rfl⟩
  rw [hrest] at hslash ⊢
  exact safeComponent_cons (by decide) hslash

/-! ## The date of the client -/

/-- The loop stops at the first character: it cannot pass the first test and the second. -/
theorem checkCreateDataLoop_zero (c : UInt8) (rest : Bytes) :
    checkCreateDataLoop 0 (c :: rest) = 0 := by
  unfold checkCreateDataLoop
  split
  · rfl
  · rw [if_pos (by simp)]

/-- **`_skylog_check_create_data` accepts everything but the empty string.** -/
theorem skylogCheckCreateData_iff (s : Bytes) : skylogCheckCreateData s = true ↔ s ≠ [] := by
  unfold skylogCheckCreateData
  cases s with
  | nil => simp [checkCreateDataLoop]
  | cons c rest => simp [checkCreateDataLoop_zero]

theorem skylogCreateData_safe_iff (createData : CArr 32) (t : UtcTime) :
    SafeComponent (skylogCreateData createData t).str ↔ SafeComponent createData.str := by
  unfold skylogCreateData
  split
  · rfl
  · rename_i hcheck
    have hnil : createData.str = [] := by
      by_contra hne
      exact hcheck ((skylogCheckCreateData_iff _).mpr hne)
    rw [hnil]
    exact ⟨fun _ => safeComponent_nil, fun _ => safeComponent_date t⟩

/-! ## The path -/

/-- Everything in `dir_path` after the root. -/
def dirComponents (s : Skylog) : List Bytes :=
  [fmtS (getSkylogTypeName s.type), s.hw.str, s.ver.str, s.sn.str, s.createData.str]

/-- The name of the file, before it is cut. -/
def fileName (s : Skylog) (timeStr : Bytes) : Bytes :=
  fmtS (getSkylogTypeName s.type) ++ lit "_" ++ s.sn.str ++ lit "_" ++ timeStr ++ skylogExt s.type

theorem typeName_facts (type : Int) : (fmtS (getSkylogTypeName type)).length ≤ 10
    ∧ (0 : UInt8) ∉ fmtS (getSkylogTypeName type) ∧ (47 : UInt8) ∉ fmtS (getSkylogTypeName type)
    ∧ ∃ b rest, fmtS (getSkylogTypeName type) = b :: rest ∧ b ≠ 46 := by
  have hall : ∀ name ∈ lit "(null)" :: skylogName, name.length ≤ 10 ∧ (0 : UInt8) ∉ name ∧
      (47 : UInt8) ∉ name ∧ name ≠ [] ∧ name.head? ≠ some 46 := by decide
  obtain ⟨hlen, hnul, hslash, hne, hdot⟩ := hall _ (typeName_mem type)
  obtain ⟨b, rest, hcons⟩ := List.exists_cons_of_ne_nil hne
  refine ⟨hlen, hnul, hslash, b, rest, hcons, fun hb => hdot ?_⟩
  rw [hcons, hb]
  rfl

/-- **`dir_path` is never cut.** -/
theorem skylogDirPath_str (s : Skylog) :
    (skylogDirPath s).str = skylogRootPath ++ 47 :: [47].intercalate (dirComponents s)
      ∧ (skylogDirPath s).str.length ≤ 239 := by
  obtain ⟨hlen, hnul, _, _⟩ := typeName_facts s.type
  have hhw := s.hw.fits
  have hver := s.ver.fits
  have hsn := s.sn.fits
  have hdate := s.createData.fits
  have hpath : skylogRootPath ++ (if skylogRootPath.getLast? = some 47 then [] else lit "/") ++
      fmtS (getSkylogTypeName s.type) ++ lit "/" ++ s.hw.str ++ lit "/" ++ s.ver.str ++ lit "/" ++
      s.sn.str ++ lit "/" ++ s.createData.str
      = skylogRootPath ++ 47 :: [47].intercalate (dirComponents s) := by
    rw [if_neg (by decide)]
    simp [dirComponents, lit]
  have hnul' : (0 : UInt8) ∉ skylogRootPath ++ 47 :: [47].intercalate (dirComponents s) := by
    have hroot : (0 : UInt8) ∉ skylogRootPath := by decide
    simp [dirComponents, hroot, hnul, s.hw.noNul, s.ver.noNul, s.sn.noNul, s.createData.noNul]
  have hlen' : (skylogRootPath ++ 47 :: [47].intercalate (dirComponents s)).length ≤ 239 := by
    have hroot : skylogRootPath.length = 4 := by decide
    simp only [dirComponents, List.intercalate_cons_cons, List.intercalate_singleton,
      List.length_append, List.length_cons, List.length_nil, hroot]
    omega
  unfold skylogDirPath
  dsimp only
  rw [hpath, snprintf_str_of_fits hnul' (by omega)]
  exact ⟨rfl, hlen'⟩

theorem skylogExt_facts (type : Int) :
    (0 : UInt8) ∉ skylogExt type ∧ (47 : UInt8) ∉ skylogExt type := by
  unfold skylogExt
  split <;> decide

/-- What is printed into `file_path`: the directory and the name. -/
theorem skylogFullPath_eq (s : Skylog) (timeStr : Bytes) :
    skylogFullPath s timeStr = (skylogDirPath s).str ++ 47 :: fileName s timeStr := by
  simp [skylogFullPath, fileName, lit]

theorem skylogFullPath_noNul {s : Skylog} {timeStr : Bytes} (htime : (0 : UInt8) ∉ timeStr) :
    (0 : UInt8) ∉ skylogFullPath s timeStr := by
  obtain ⟨_, hnul, _, _⟩ := typeName_facts s.type
  have hus : (0 : UInt8) ∉ lit "_" := by decide
  rw [skylogFullPath_eq]
  simp [fileName, (skylogDirPath s).noNul, hnul, hus, s.sn.noNul, htime, (skylogExt_facts s.type).1]

/-- `file_path` holds the first 253 bytes. -/
theorem skylogFilePath_take {s : Skylog} {timeStr : Bytes} (htime : (0 : UInt8) ∉ timeStr) :
    (skylogFilePath s timeStr).str = (skylogFullPath s timeStr).take 253 := by
  unfold skylogFilePath
  rw [snprintf_str, cstr_eq_self (skylogFullPath_noNul htime)]

/-- It is the name that is cut, and not all of it. -/
theorem skylogFilePath_str {s : Skylog} {timeStr : Bytes} (htime : (0 : UInt8) ∉ timeStr) :
    ∃ k, 0 < k ∧ (skylogFilePath s timeStr).str = skylogRootPath ++ 47 :: [47].intercalate
      (dirComponents s ++ [(fileName s timeStr).take k]) := by
  obtain ⟨hdir, hlen⟩ := skylogDirPath_str s
  refine ⟨252 - (skylogDirPath s).str.length, by omega, ?_⟩
  rw [skylogFilePath_take htime, skylogFullPath_eq, List.take_append,
    List.take_of_length_le (by omega),
    show 253 - (skylogDirPath s).str.length = (252 - (skylogDirPath s).str.length) + 1 by omega,
    List.take_succ_cons, hdir]
  simp [dirComponents]

theorem fileName_safe {s : Skylog} {timeStr : Bytes} (htime : (47 : UInt8) ∉ timeStr)
    (hsn : (47 : UInt8) ∉ s.sn.str) {k : Nat} (hk : 0 < k) :
    SafeComponent ((fileName s timeStr).take k) := by
  obtain ⟨_, _, hslash, b, rest, hname, hb⟩ := typeName_facts s.type
  have hus : (47 : UInt8) ∉ lit "_" := by decide
  have hall : (47 : UInt8) ∉ fileName s timeStr := by
    simp [fileName, hslash, hus, hsn, htime, (skylogExt_facts s.type).2]
  have hall' : (47 : UInt8) ∉ (fileName s timeStr).take k := fun h => hall (List.mem_of_mem_take h)
  obtain ⟨k, rfl⟩ := Nat.exists_eq_succ_of_ne_zero (Nat.ne_of_gt hk)
  obtain ⟨tail, htail⟩ : ∃ tail, (fileName s timeStr).take (k + 1) = b :: tail := by
    unfold fileName
    rw [hname]
    exact ⟨_, rfl⟩
  rw [htail] at hall' ⊢
  exact safeComponent_cons hb hall'

/-! ## What `_create_and_open_skylog_file` builds -/

/-- The log once its date has been looked at. -/
def datedSkylog (s : Skylog) (os : Os) : Skylog :=
  { s with createData := skylogCreateData s.createData os.getSystemUTCTime.1 }

/-- The time stamp of the name. -/
def stampUs (os : Os) : UInt64 := os.getSystemUTCTime.2.getTimestripUs.1

/-- `time_str`. -/
def timeStr (os : Os) : Bytes :=
  (snprintf 64 63 (fmtTimeStr os.getSystemUTCTime.1 (stampUs os))).str

theorem isTime_timeStr (os : Os) : IsTime (timeStr os) :=
  (isTime_fmtTimeStr _ _).snprintf 64 63 (by decide)

/-- The part of a log that goes into its path, and the path that is built. -/
structure Built (s : Skylog) (os : Os) (x : Skylog) : Prop where
  hw : x.hw = s.hw
  ver : x.ver = s.ver
  sn : x.sn = s.sn
  type : x.type = s.type
  createData : x.createData = skylogCreateData s.createData os.getSystemUTCTime.1
  filePath : x.filePath = s.filePath ∨ x.filePath = skylogFilePath (datedSkylog s os) (timeStr os)

theorem createNewSkylogFile_built (s : Skylog) (os : Os) :
    Built s os (createNewSkylogFile s os).skylog := by
  unfold createNewSkylogFile
  dsimp only
  split
  · split
    · exact ⟨rfl, rfl, rfl, rfl, rfl, .inr rfl⟩
    · exact ⟨rfl, rfl, rfl, rfl, rfl, .inr rfl⟩
  · exact ⟨rfl, rfl, rfl, rfl, rfl, .inl rfl⟩

/-- A fresh log has no path to go back to. -/
theorem createAndOpenSkylogFile_built {s : Skylog} (hfresh : s.filePath.str = []) (os : Os) :
    Built s os (createAndOpenSkylogFile s os).skylog := by
  unfold createAndOpenSkylogFile
  rw [if_neg (by simp [hfresh])]
  exact createNewSkylogFile_built s os

/-! ## Inside the root -/

/-- The components of a log's path are harmless, and so are the paths made of them. -/
structure InsideRoot (s : Skylog) : Prop where
  hw : SafeComponent s.hw.str
  ver : SafeComponent s.ver.str
  sn : SafeComponent s.sn.str
  createData : SafeComponent s.createData.str
  dirPath : StaysBelow skylogRootPath (skylogDirPath s).str
  filePath : s.filePath.str ≠ [] → StaysBelow skylogRootPath s.filePath.str

/-- What a header says, cut to the length of the buffers it is kept in, is harmless. -/
structure ComponentsSafe (text : Bytes) : Prop where
  hw : ∀ value, TakenForParmer text (lit "Hw") value →
    lit "SolisHome" <:+: value.take 62 ∨ SafeComponent (value.take 62)
  ver : ∀ value, TakenForParmer text (lit "Ver") value → SafeComponent (value.take 62)
  sn : ∀ value, TakenForParmer text (lit "Sn") value → SafeComponent (value.take 62)
  createData : ∀ value, TakenForField text (lit "Create-Data") 1023 value →
    SafeComponent (value.take 30)

/-- A directory whose components are harmless stays below the root, and so does a file in it. -/
theorem dirPath_staysBelow {s : Skylog} (hhw : SafeComponent s.hw.str)
    (hver : SafeComponent s.ver.str)
    (hsn : SafeComponent s.sn.str) (hdate : SafeComponent s.createData.str) :
    StaysBelow skylogRootPath (skylogDirPath s).str
      ∧ ∀ {time : Bytes}, IsTime time →
          StaysBelow skylogRootPath (skylogFilePath s time).str := by
  obtain ⟨_, _, hslash, b, rest, hname, hb⟩ := typeName_facts s.type
  have htype : SafeComponent (fmtS (getSkylogTypeName s.type)) := by
    rw [hname] at hslash ⊢
    exact safeComponent_cons hb hslash
  have hcs : ∀ c ∈ dirComponents s, SafeComponent c := by
    simp [dirComponents, htype, hhw, hver, hsn, hdate]
  refine ⟨?_, fun {time} htime => ?_⟩
  · rw [(skylogDirPath_str s).1]
    exact staysBelow_of_safe (by simp [dirComponents]) hcs
  · obtain ⟨k, hk, heq⟩ := skylogFilePath_str (s := s) htime.noNul
    rw [heq]
    refine staysBelow_of_safe (by simp) ?_
    intro c hc
    rcases List.mem_append.mp hc with hc | hc
    · exact hcs c hc
    · rw [List.mem_singleton.mp hc]
      exact fileName_safe htime.noSlash hsn.noSlash hk

theorem Built.insideRoot {s x : Skylog} {os : Os} (h : Built s os x) (hfresh : s.filePath.str = [])
    (hhw : SafeComponent s.hw.str) (hver : SafeComponent s.ver.str) (hsn : SafeComponent s.sn.str)
    (hdate : SafeComponent s.createData.str) : InsideRoot x := by
  have hdate' : SafeComponent (datedSkylog s os).createData.str :=
    (skylogCreateData_safe_iff _ _).mpr hdate
  obtain ⟨hdir, hfile⟩ := dirPath_staysBelow (s := datedSkylog s os) hhw hver hsn hdate'
  have hsame : skylogDirPath x = skylogDirPath (datedSkylog s os) := by
    unfold skylogDirPath
    rw [h.hw, h.ver, h.sn, h.type, h.createData]
    rfl
  refine ⟨by rw [h.hw]; exact hhw, by rw [h.ver]; exact hver, by rw [h.sn]; exact hsn,
    by rw [h.createData]; exact hdate', by rw [hsame]; exact hdir, ?_⟩
  intro hne
  rcases h.filePath with heq | heq
  · rw [heq] at hne
    exact absurd hfresh hne
  · rw [heq]
    exact hfile (isTime_timeStr os)

/-- What is kept of a parameter. -/
theorem urlParmerField_safe_iff {r : HttpRequest}
    (hfits : strlen r.header < httpRequestHeaderBufSize)
    (key : String) (dflt : CArr 64) (hkey : (0 : UInt8) ∉ lit key) (hlen : (lit key).length ≤ 60)
    (hpos : 0 < (lit key).length) {P : Bytes → Prop} (hdflt : P dflt.str) :
    P (urlParmerField r key dflt).str
      ↔ ∀ value, TakenForParmer r.text (lit key) value → P (value.take 62) := by
  have hiff : ∀ value, httpRequestGetUrlParmerValue r (lit key) (lit key).length 1023 = some value
      ↔ TakenForParmer r.text (lit key) value :=
    fun value => httpRequestGetUrlParmerValue_eq_some_iff hfits hkey hlen (by omega)
  unfold urlParmerField
  cases hvalue : httpRequestGetUrlParmerValue r (lit key) (lit key).length 1023 with
  | none =>
      refine ⟨fun _ value htaken => ?_, fun _ => hdflt⟩
      rw [(hiff value).mpr htaken] at hvalue
      exact absurd hvalue (by simp)
  | some value =>
      have htaken := (hiff value).mp hvalue
      have hstr : (snprintf 64 63 value).str = value.take 62 := by
        rw [snprintf_str, cstr_eq_self htaken.noNul]
      dsimp only
      rw [hstr]
      refine ⟨fun h value' htaken' => ?_, fun h => h value htaken⟩
      rw [(hiff value').mpr htaken', Option.some.injEq] at hvalue
      rwa [hvalue]

/-- What is kept of the date. -/
theorem createData_safe_iff {r : HttpRequest} (hfits : strlen r.header < httpRequestHeaderBufSize) :
    SafeComponent (parseSkylogInfo r).createData.str ↔ ∀ value,
      TakenForField r.text (lit "Create-Data") 1023 value → SafeComponent (value.take 30) := by
  have hname : IsName (lit "Create-Data") :=
    ⟨⟨by decide, by decide, by decide⟩, by decide, by decide⟩
  have hiff : ∀ value, httpRequestFindField r (lit "Create-Data") 1023 = some value
      ↔ TakenForField r.text (lit "Create-Data") 1023 value :=
    fun value => httpRequestFindField_eq_some_iff hfits hname (by decide) (by decide)
  unfold parseSkylogInfo
  dsimp only
  cases hvalue : httpRequestFindField r (lit "Create-Data") 1023 with
  | none =>
      refine ⟨fun _ value htaken => ?_, fun _ => safeComponent_nil⟩
      rw [(hiff value).mpr htaken] at hvalue
      exact absurd hvalue (by simp)
  | some value =>
      have htaken := (hiff value).mp hvalue
      have hstr : (snprintf 32 31 value).str = value.take 30 := by
        rw [snprintf_str, cstr_eq_self htaken.noNul]
      dsimp only
      rw [hstr]
      refine ⟨fun h value' htaken' => ?_, fun h => h value htaken⟩
      rw [(hiff value').mpr htaken', Option.some.injEq] at hvalue
      rwa [hvalue]

/-- A product that stands for all its variants has the name of none. -/
theorem hwProduct_safe_iff (hw : CArr 64) : SafeComponent (hwProduct hw).str
    ↔ lit "SolisHome" <:+: hw.str ∨ SafeComponent hw.str := by
  have hsolis : (strstr hw.str (lit "SolisHome")).isSome = true ↔ lit "SolisHome" <:+: hw.str := by
    rw [strstr, cstr_eq_self hw.noNul, cstr_eq_self (by decide), List.isSome_firstOcc]
  unfold hwProduct
  split
  · rename_i h
    exact ⟨fun _ => .inl (hsolis.mp h), fun _ => ⟨by decide, by decide, by decide⟩⟩
  · rename_i h
    exact ⟨.inr, fun hor => hor.resolve_left fun hinfix => h (hsolis.mpr hinfix)⟩

/-- **A log stays below the root exactly when the header says harmless components.** -/
theorem insideRoot_iff (r : HttpRequest) (os : Os)
    (hfits : strlen r.header < httpRequestHeaderBufSize) :
    InsideRoot (createAndOpenSkylogFile (parseSkylogInfo r) os).skylog ↔ ComponentsSafe r.text := by
  have hbuilt := createAndOpenSkylogFile_built (s := parseSkylogInfo r) rfl os
  have hhw : SafeComponent (parseSkylogInfo r).hw.str ↔ ∀ value,
      TakenForParmer r.text (lit "Hw") value →
        lit "SolisHome" <:+: value.take 62 ∨ SafeComponent (value.take 62) :=
    (hwProduct_safe_iff _).trans (urlParmerField_safe_iff hfits _ _ (by decide) (by decide) (by decide)
      (P := fun s => lit "SolisHome" <:+: s ∨ SafeComponent s) (.inr ⟨by decide, by decide, by decide⟩))
  have hver := urlParmerField_safe_iff hfits "Ver" skylogInfoInit.ver (by decide) (by decide)
    (by decide) (P := SafeComponent) ⟨by decide, by decide, by decide⟩
  have hsn := urlParmerField_safe_iff hfits "Sn" skylogInfoInit.sn (by decide) (by decide)
    (by decide) (P := SafeComponent) ⟨by decide, by decide, by decide⟩
  have hdate := createData_safe_iff hfits
  constructor
  · intro h
    refine ⟨hhw.mp ?_, hver.mp ?_, hsn.mp ?_, hdate.mp ?_⟩
    · rw [← hbuilt.hw]
      exact h.hw
    · exact (congrArg (fun c => SafeComponent (CArr.str c)) hbuilt.ver).mp h.ver
    · exact (congrArg (fun c => SafeComponent (CArr.str c)) hbuilt.sn).mp h.sn
    · refine (skylogCreateData_safe_iff _ os.getSystemUTCTime.1).mp ?_
      rw [← hbuilt.createData]
      exact h.createData
  · intro h
    exact hbuilt.insideRoot rfl (hhw.mpr h.hw) (hver.mpr h.ver) (hsn.mpr h.sn)
      (hdate.mpr h.createData)

/-- A request line that any client can send. -/
def upwardRequest : HttpRequest :=
  .ofHeader (lit "GET /index?Hw=..&Ver=..&Sn=.. HTTP/1.1\r\n\r\n")

theorem insideRoot_iff_upward :
    InsideRoot (createAndOpenSkylogFile (parseSkylogInfo upwardRequest) Os.fresh).skylog
      ↔ ComponentsSafe upwardRequest.text :=
  insideRoot_iff upwardRequest Os.fresh (by decide +kernel)

/-- Its log is opened under `/log/UnkownType/../../..`. -/
theorem upwardRequest_leaves_root :
    ¬ InsideRoot (createAndOpenSkylogFile (parseSkylogInfo upwardRequest) Os.fresh).skylog := by
  intro h
  have hhw := (createAndOpenSkylogFile_built (s := parseSkylogInfo upwardRequest) rfl Os.fresh).hw
  have hup : (parseSkylogInfo upwardRequest).hw.str = lit ".." := by decide +kernel
  have hne := h.hw.notDotDot
  rw [hhw] at hne
  exact hne hup

end TraceServer
