import Kcf.Writer.Basic

/-! # Archives

A handle is created over a stream and switched between reading and writing. An
archive starts with a marker of six bytes and a record that holds its version.
The scan for the marker and the routine that writes it go by state variables of
their own, which no switch sets.
-/

namespace Kcf

def MARKER : List UInt8 := [0x4B, 0x43, 0x21, 0x1A, 0x06, 0x00]

/-- `rec_from_archive_header` into a record that holds whatever its memory held. -/
def recFromArchiveHeader (archiveVersion : UInt16) (R : Record) (heap : Heap) :
    Exec (Record × Heap) :=
  match malloc heap 2 with
  -- the packing routine asserts that it has a buffer
  | (none, _) => .error .outOfBounds
  | (some buffer, heap) =>
    let (_, c) := writeU16LE 2 ⟨buffer, 0⟩ archiveVersion
    let R := { R.withData c.buffer with headFlags := 0, headType := KCF_ARCHIVE_HEADER }
    .ok (recFix R, heap)

/-- `rec_to_archive_header`: the error, and the version as far as the data held one. -/
def recToArchiveHeader (R : Record) : Exec (KcfError × Option UInt16) :=
  if !recValidate R then .ok (.invalidData, none)
  else if R.headType ≠ KCF_ARCHIVE_HEADER then .ok (.invalidData, none)
  else if R.headSize < 8 then .ok (.invalidData, none)
  else
    match R.data with
    | none => .error .outOfBounds
    | some block => .ok (.ok, (readU16LE R.dataSize ⟨block, 0⟩).1)

namespace KCF

/-- `KCF_create`; the stream is `none` for a null pointer. -/
def create : Option IOStream → Heap → KcfError × Option KCF
  | none, _ => (.invalidParameter, none)
  | some stream, heap =>
    match heap 0 with
    | none => (.outOfMemory, none)
    | some _ => (.ok, some (zero stream heap.next))

/-- `KCF_write_marker`. -/
def writeMarker (kcf : KCF) : KcfError × KCF :=
  if !kcf.isWriting ∨ kcf.writerState ≠ .marker then (.invalidState, kcf)
  else
    let (ret, stream) := ioWrite kcf.stream MARKER
    let kcf := { kcf with stream := stream }
    if ret < 0 then (.write, kcf) else (.ok, { kcf with writerState := .idle })

/-- The loop of `KCF_find_marker`: whether the buffer ends up with the marker, and the result of
the last read. -/
def findMarkerLoop : ℕ → IOStream → List UInt8 → Exec (Bool × ℤ × IOStream)
  | 0, _, _ => .error .outOfFuel
  | fuel + 1, s, buf =>
    if buf = MARKER then .ok (true, 1, s)
    else
      let (ret, bytes, s) := ioRead s 1
      let buf := (buf.drop 1 ++ buf.drop 5).overwrite 5 bytes
      if 0 < ret then findMarkerLoop fuel s buf else .ok (false, ret, s)

/-- `KCF_find_marker`. -/
def findMarker (kcf : KCF) : Exec (KcfError × KCF) :=
  if kcf.isWriting ∨ kcf.readerState ≠ .marker then .ok (.invalidState, kcf)
  else do
    let rounds := kcf.stream.ahead.length + 1
    let (found, ret, stream) ← findMarkerLoop rounds kcf.stream (List.replicate 6 0)
    let kcf := { kcf with stream := stream }
    if found then return (.ok, { kcf with readerState := .recordHeader })
    else if ret = -1 then return (.read, kcf)
    else return (.invalidFormat, kcf)

/-- `KCF_start_reading`. -/
def startReading (kcf : KCF) : Exec (KcfError × KCF) :=
  match kcf.parserState with
  | .neutral | .reading => .ok (.ok, kcf.setState .readMarker)
  | .writeMarker => .ok (.ok, kcf.setState .reading)
  | .writeAddedData => do
    let (error, kcf) ← kcf.finishAddedData
    if error ≠ .ok then return (error, kcf) else return flushed kcf
  | .writeRecord => .ok (flushed kcf)
  | _ => .ok (.ok, kcf)
where
  /-- Flush the stream and go over to reading. -/
  flushed (kcf : KCF) : KcfError × KCF :=
    let (ret, stream) := ioFlush kcf.stream
    let kcf := { kcf with stream := stream }
    if ret < 0 then (.unknown, kcf) else (.ok, kcf.setState .readRecordHeader)

/-- `KCF_start_writing`. -/
def startWriting (kcf : KCF) : KcfError × KCF :=
  match kcf.parserState with
  | .neutral | .reading | .writing | .readMarker => (kcf.setState .writeMarker).writeMarker
  | .readRecordHeader => (.ok, kcf.setState .writeRecord)
  | .readAddedData | .readRecordData => (.invalidState, kcf)
  | _ => (.ok, kcf)

/-- `KCF_write_archive_header`; the local record starts with whatever its memory holds. -/
def writeArchiveHeader (kcf : KCF) (local₀ : Record) : Exec (KcfError × KCF) := do
  let (R, heap) ← recFromArchiveHeader 1 local₀ kcf.heap
  let (error, kcf, _) ← { kcf with heap := heap }.writeRecord R
  return (error, kcf)

/-- `KCF_init_archive`. -/
def initArchive (kcf : KCF) (local₀ : Record) : Exec (KcfError × KCF) :=
  match kcf.startWriting with
  | (.ok, kcf) => kcf.writeArchiveHeader local₀
  | (error, kcf) => .ok (error, kcf)

end KCF

end Kcf
