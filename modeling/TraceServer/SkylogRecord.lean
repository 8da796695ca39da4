import TraceServer.File

/-!
# The record of saved files (`skylog_record.c`)

One file a day in `./record` lists the logs that were saved. The file that is open
and its name are static variables behind a lock, so a call is one step.
-/

namespace TraceServer

/-- `_skylog_record_filename` and `_skylog_record_f`. -/
structure SkylogRecord where
  filename : CArr 128
  f : Option File

def skylogRecordDir : Bytes := lit "./record"

/-- What a function of this file returns and leaves behind. -/
structure RecordOut where
  ret : Bool
  record : SkylogRecord
  os : Os

/-- `_skylog_record_exit`. -/
def skylogRecordExit (r : SkylogRecord) (os : Os) : SkylogRecord × Os :=
  (⟨CArr.zero 128, none⟩, fileClose r.f os)

/-- The name of the record file of a date. -/
def skylogRecordFilename (t : UtcTime) : CArr 128 :=
  snprintf 128 127 (lit "skylog_record_20" ++ fmtD t.year ++ lit "-" ++ fmt02d t.mon ++ lit "-" ++
    fmt02d t.data ++ lit ".txt")

/-- `path` in `_skylog_record_create_and_open_file`. -/
def skylogRecordPath (filename : Bytes) : Bytes :=
  let path := skylogRecordDir
  (path ++ (if path.getLast? = some 47 then [] else lit "/") ++ filename).take 253

/-- `_skylog_record_create_and_open_file`. -/
def skylogRecordCreateAndOpenFile (r : SkylogRecord) (os : Os) : RecordOut :=
  let x := if r.f.isNone then skylogRecordExit r os else (r, os)
  let d := createDir skylogRecordDir x.2
  if d.1 then
    let t := d.2.getSystemUTCTime
    let filename := skylogRecordFilename t.1
    if filename.str = x.1.filename.str ∧ x.1.f.isSome then ⟨true, x.1, t.2⟩
    else
      let y := skylogRecordExit x.1 t.2
      let path := skylogRecordPath filename.str
      let c := createFile path y.2
      if c.1 then
        let o := openFile path c.2
        match o.1 with
        | none => ⟨false, y.1, o.2⟩
        | some f => ⟨true, ⟨filename, some f⟩, lseekToEnd (some f) o.2⟩
      else ⟨false, y.1, c.2⟩
  else
    let y := skylogRecordExit x.1 d.2
    ⟨false, y.1, y.2⟩

/-- `_skylog_record_write`. -/
def skylogRecordWrite (data : Bytes) (dataLen : Int) (r : SkylogRecord) (os : Os) : RecordOut :=
  match r.f with
  | none => ⟨false, r, os⟩
  | some f =>
    let w := writeFile f data dataLen os
    ⟨w.ret = dataLen, { r with f := some w.f }, w.os⟩

/-- `skylog_record`. -/
def skylogRecord (data : Bytes) (dataLen : Int) (r : SkylogRecord) (os : Os) : RecordOut :=
  if 0 < dataLen then
    let c := skylogRecordCreateAndOpenFile r os
    if c.ret then
      let w := skylogRecordWrite data dataLen c.record c.os
      if w.ret then w
      else
        let y := skylogRecordExit w.record w.os
        ⟨false, y.1, y.2⟩
    else
      let y := skylogRecordExit c.record c.os
      ⟨false, y.1, y.2⟩
  else ⟨false, r, os⟩

end TraceServer
