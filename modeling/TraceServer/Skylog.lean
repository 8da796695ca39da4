import TraceServer.SkylogRecord
import TraceServer.HttpRequest

/-!
# Saving an upload (`sky_log.c`, `skylog_type.c`)

`parse_skylog_info` takes the product, version, serial number, channel and type from
the URL and the date from the header; `_create_and_open_skylog_file` joins them into
a path below `SKYLOG_ROOT_PATH`; `skylog_save` makes up to three attempts to create,
open and write that file, and lists it in the record when one works.

The strings of a `skylog_t` are `CArr`s of the declared sizes, so every `snprintf`
that truncates in the source truncates here.
-/

namespace TraceServer

/-- The first and the last enumerator of `skylog_type_t`. -/
def skyLogTypeCrash : Int := 0
def skyLogTypeUnkown : Int := 6

/-- `_skylog_name`. -/
def skylogName : List Bytes :=
  [lit "Crash", lit "Error", lit "Log", lit "Debug", lit "Flow", lit "DNS", lit "UnkownType"]

/-- `get_skylog_type_name`. -/
def getSkylogTypeName (type : Int) : Option Bytes :=
  if skyLogTypeCrash ≤ type ∧ type ≤ skyLogTypeUnkown then skylogName[type.toNat]? else none

/-- `%s` of a pointer that may be `NULL`, as glibc prints it. -/
def fmtS : Option Bytes → Bytes
  | some s => s
  | none => lit "(null)"

/-- `skylog_t`. -/
structure Skylog where
  hw : CArr 64
  ver : CArr 64
  sn : CArr 64
  ch : Int
  createData : CArr 32
  filePath : CArr 255
  type : Int
  f : Option File

/-- As `calloc` leaves it. -/
def Skylog.zero : Skylog :=
  ⟨CArr.zero 64, CArr.zero 64, CArr.zero 64, 0, CArr.zero 32, CArr.zero 255, 0, none⟩

/-- `_skylog_info_init`. -/
def skylogInfoInit : Skylog :=
  { Skylog.zero with
    hw := snprintf 64 64 (lit "UnkownProduct")
    ver := snprintf 64 64 (lit "UnkownVersion")
    sn := snprintf 64 64 (lit "UnkownSn")
    ch := 1
    type := skyLogTypeUnkown }

def skylogRootPath : Bytes := lit "/log"

/-- The string field of a `skylog_t` that the URL parameter `key` sets; `dflt` is what
`_skylog_info_init` has put there. -/
def urlParmerField (r : HttpRequest) (key : String) (dflt : CArr 64) : CArr 64 :=
  match httpRequestGetUrlParmerValue r (lit key) (lit key).length 1023 with
  | some value => snprintf 64 63 value
  | none => dflt

/-- The number field that the URL parameter `key` sets when its value is all digits. -/
def urlParmerNumber (r : HttpRequest) (key : String) (dflt : Int) : Int :=
  match httpRequestGetUrlParmerValue r (lit key) (lit key).length 1023 with
  | some value => if isdigitStr value then atoi value else dflt
  | none => dflt

/-- `skylog->hw` once `strstr(skylog->hw, "SolisHome")` has been looked at. -/
def hwProduct (hw : CArr 64) : CArr 64 :=
  if (strstr hw.str (lit "SolisHome")).isSome then snprintf 64 64 (lit "SolisHome") else hw

/-- `parse_skylog_info`; its pointers are never `NULL`, so it returns `true`. -/
def parseSkylogInfo (r : HttpRequest) : Skylog :=
  let s := skylogInfoInit
  { s with
    createData := match httpRequestFindField r (lit "Create-Data") 1023 with
      | some value => snprintf 32 31 value
      | none => s.createData
    hw := hwProduct (urlParmerField r "Hw" s.hw)
    ver := urlParmerField r "Ver" s.ver
    sn := urlParmerField r "Sn" s.sn
    ch := urlParmerNumber r "Ch" s.ch
    type := urlParmerNumber r "Type" s.type }

/-- The loop of `_skylog_check_create_data`; the result is `i` where it stops. -/
def checkCreateDataLoop : Nat → Bytes → Nat
  | i, [] => i
  | i, c :: rest =>
    if ¬ (i ≤ 3 ∧ isDigit c) then i
    else if ¬ (i = 4 ∧ c = 45) then i
    else if ¬ (5 ≤ i ∧ i ≤ 6 ∧ isDigit c) then i
    else if ¬ (i = 7 ∧ c = 45) then i
    else if ¬ (8 ≤ i ∧ i ≤ 9 ∧ isDigit c) then i
    else checkCreateDataLoop (i + 1) rest

/-- `_skylog_check_create_data`. -/
def skylogCheckCreateData (createData : Bytes) : Bool :=
  checkCreateDataLoop 0 createData < createData.length

/-- `20%d-%02d-%02d`. -/
def fmtDate (t : UtcTime) : Bytes :=
  lit "20" ++ fmtD t.year ++ lit "-" ++ fmt02d t.mon ++ lit "-" ++ fmt02d t.data

/-- `20%d-%02d-%02d_%02d_%02d_%02d_%lu`. -/
def fmtTimeStr (t : UtcTime) (us : UInt64) : Bytes :=
  fmtDate t ++ lit "_" ++ fmt02d t.hour ++ lit "_" ++ fmt02d t.min ++ lit "_" ++ fmt02d t.sec ++
    lit "_" ++ fmtLu us.toNat

/-- `skylog->create_data` once a string that fails the check has been replaced. -/
def skylogCreateData (createData : CArr 32) (t : UtcTime) : CArr 32 :=
  if skylogCheckCreateData createData.str then createData else snprintf 32 31 (fmtDate t)

/-- `dir_path`. -/
def skylogDirPath (s : Skylog) : CArr 255 :=
  let p := skylogRootPath
  snprintf 255 254
    (p ++ (if p.getLast? = some 47 then [] else lit "/") ++ fmtS (getSkylogTypeName s.type) ++
      lit "/" ++ s.hw.str ++ lit "/" ++ s.ver.str ++ lit "/" ++ s.sn.str ++ lit "/" ++
      s.createData.str)

/-- The extension of a log file. -/
def skylogExt (type : Int) : Bytes := if type = skyLogTypeCrash then lit ".info" else lit ".gz"

/-- What is printed into `file_path`. -/
def skylogFullPath (s : Skylog) (timeStr : Bytes) : Bytes :=
  (skylogDirPath s).str ++ lit "/" ++ fmtS (getSkylogTypeName s.type) ++ lit "_" ++ s.sn.str ++
    lit "_" ++ timeStr ++ skylogExt s.type

/-- `file_path`. -/
def skylogFilePath (s : Skylog) (timeStr : Bytes) : CArr 255 :=
  snprintf 255 254 (skylogFullPath s timeStr)

/-- What a function of this file returns and leaves behind. -/
structure SkylogOut where
  ret : Bool
  skylog : Skylog
  os : Os

/-- `clear_file`, `open_file` and `LSEEK_TO_END` of the file at `path`. -/
def clearAndOpen (s : Skylog) (path : Bytes) (os : Os) : SkylogOut :=
  let c := clearFile path os
  let o := openFile path c.2
  ⟨o.1.isSome, { s with f := o.1 }, lseekToEnd o.1 o.2⟩

/-- `_create_and_open_skylog_file` from `GetSystemUTCTime` on. -/
def createNewSkylogFile (s : Skylog) (os : Os) : SkylogOut :=
  let t := os.getSystemUTCTime
  let s := { s with createData := skylogCreateData s.createData t.1 }
  let us := t.2.getTimestripUs
  let timeStr := (snprintf 64 63 (fmtTimeStr t.1 us.1)).str
  let d := createDir (skylogDirPath s).str us.2
  if d.1 then
    let s := { s with filePath := skylogFilePath s timeStr }
    let c := createFile s.filePath.str d.2
    if c.1 then clearAndOpen s s.filePath.str c.2 else ⟨false, s, c.2⟩
  else ⟨false, s, d.2⟩

/-- `_create_and_open_skylog_file`. -/
def createAndOpenSkylogFile (s : Skylog) (os : Os) : SkylogOut :=
  if 0 < s.filePath.str.length then
    let c := createFile s.filePath.str os
    if c.1 then clearAndOpen s s.filePath.str c.2 else createNewSkylogFile s c.2
  else createNewSkylogFile s os

/-- `_skylog_file_create`. -/
def skylogFileCreate (s : Skylog) (os : Os) : SkylogOut :=
  if s.f.isSome then ⟨true, s, os⟩ else createAndOpenSkylogFile s os

/-- `_skylog_write_to_file`. -/
def skylogWriteToFile (s : Skylog) (data : Bytes) (dataLen : Int) (os : Os) : SkylogOut :=
  if 0 < dataLen then
    let c := if s.f.isNone then skylogFileCreate s os else ⟨true, s, os⟩
    if c.ret then
      match c.skylog.f with
      | none => ⟨false, c.skylog, c.os⟩
      | some f =>
        let w := writeFile f data dataLen c.os
        ⟨w.ret = dataLen, { c.skylog with f := some w.f }, w.os⟩
    else c
  else ⟨false, s, os⟩

/-- `_skylog_write_finish`, and `skylog_save_finished`. -/
def skylogWriteFinish (s : Skylog) (os : Os) : Skylog × Os :=
  ({ s with f := none }, fileClose s.f os)

/-- The part of the process that is not one client's: the operating system and the
static variables of `skylog_record.c`. -/
structure Host where
  os : Os
  record : SkylogRecord

def Host.fresh : Host := ⟨Os.fresh, ⟨CArr.zero 128, none⟩⟩

/-- What `skylog_save` returns and leaves behind. -/
structure SaveOut where
  ret : Bool
  skylog : Skylog
  host : Host

/-- The loop of `skylog_save`, with the attempts that are left. -/
def skylogSaveLoop (data : Bytes) (dataLen : Int) : Nat → Skylog → Host → SaveOut
  | 0, s, h => ⟨false, s, h⟩
  | n + 1, s, h =>
    let w := skylogWriteToFile s data dataLen h.os
    if w.ret then
      let line := w.skylog.filePath.str ++ crlf
      let r := skylogRecord (snprintf 512 511 line).str line.length h.record w.os
      ⟨true, w.skylog, ⟨r.os, r.record⟩⟩
    else
      let x := skylogWriteFinish w.skylog w.os
      skylogSaveLoop data dataLen n x.1 { h with os := x.2 }

/-- `skylog_save`. -/
def skylogSave (s : Skylog) (data : Bytes) (dataLen : Int) (h : Host) : SaveOut :=
  if 0 < dataLen then skylogSaveLoop data dataLen 3 s h else ⟨false, s, h⟩

end TraceServer
