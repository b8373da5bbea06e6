import Kcf.Handle.Basic

/-! # Writing records

A record is written with its added data in one call or opened, given its added
data in chunks and finished. Finishing goes back to the header to patch the
size and the checksum of what was added, unless the size was known from the
start and no checksum is asked for.
-/

namespace Kcf

/-- Allocate a buffer of the record's size and lay the record out in it. -/
def recBuffer (R : Record) (heap : Heap) : Exec (Option (List UInt8) × Heap) :=
  match malloc heap R.headSize.toNat with
  | (none, heap) => .ok (none, heap)
  | (some buffer, heap) => do
    let (_, buffer) ← recToBuffer R buffer R.headSize.toNat
    return (some buffer, heap)

namespace KCF

/-- The cleanup that ends the record being written. -/
def closeRecord (kcf : KCF) : KCF :=
  { kcf with
    lastRecord := recClear kcf.lastRecord
    recordOffset := 0
    recordEndOffset := 0
    addedDataAlreadyRead := 0
    availableAddedData := 0
    addedDataCRC32 := 0
    hasAddedDataCRC32 := false
    hasAddedSize := false
    parserState := .writeRecord }

/-- The size is known and no checksum is computed, so the header stays as it was written. -/
def keepsHeader (kcf : KCF) : Bool := 0 < kcf.addedDataToBeWritten && !kcf.hasAddedDataCRC32

/-- The last record with what was really added, and its checksum. -/
def countedRecord (kcf : KCF) : Record :=
  { kcf.lastRecord with
    addedSize := kcf.writtenAddedData
    addedDataCRC32 := kcf.addedDataCRC32 }

def patchedRecord (kcf : KCF) : Record := recFix kcf.countedRecord

/-- The handle with its patched record and a new heap. -/
def armed (kcf : KCF) (heap : Heap) : KCF :=
  { kcf with
    lastRecord := kcf.patchedRecord
    heap := heap }

/-- Write the patched record where the stream stands and go back to the end of the data. -/
def patchHeader (kcf : KCF) : Exec (KcfError × KCF) := do
  let (buffer, heap) ← recBuffer kcf.patchedRecord kcf.heap
  let kcf := kcf.armed heap
  match buffer with
  | none => return (.outOfMemory, kcf)
  | some buffer =>
    let (ret, stream) := ioWrite kcf.stream buffer
    let kcf := { kcf with stream := stream }
    if ret < 0 then return (.write, kcf)
    else
      -- the result of this seek is not looked at
      let (_, stream) := ioSeek kcf.stream kcf.recordEndOffset
      return (.ok, { kcf with stream := stream }.closeRecord)

/-- `KCF_finish_added_data`. -/
def finishAddedData (kcf : KCF) : Exec (KcfError × KCF) :=
  if !kcf.parserState.isWriting then .ok (.invalidState, kcf)
  else if kcf.parserState ≠ .writeAddedData then .ok (.invalidState, kcf)
  else if kcf.keepsHeader then .ok (.ok, kcf.closeRecord)
  else
    let kcf := { kcf with recordEndOffset := ioTell kcf.stream }
    let (ret, stream) := ioSeek kcf.stream kcf.recordOffset
    let kcf := { kcf with stream := stream }
    if ret < 0 then .ok (.write, kcf)
    else kcf.patchHeader

/-- What both record writers do first: check the state and finish the record before. -/
def acceptRecord (kcf : KCF) : Exec (KcfError × KCF) :=
  if !kcf.parserState.isWriting then .ok (.invalidState, kcf)
  else
    let kcf := if kcf.parserState = .writing then kcf.setState .writeRecord else kcf
    if kcf.parserState = .writeMarker then .ok (.invalidState, kcf)
    else if kcf.parserState = .writeAddedData then do
      -- the result of this finish is not looked at
      let (_, kcf) ← kcf.finishAddedData
      return (.ok, kcf)
    else .ok (.ok, kcf)

/-- Keep what the coming calls need to know about the record just written. -/
def saveRecord (kcf : KCF) (R : Record) : KCF :=
  let kcf :=
    { kcf with
      hasAddedSize := recHasAddedSize R
      hasAddedDataCRC32 := recHasAddedDataCRC R }
  if kcf.hasAddedSize then
    let (_, lastRecord, heap) := recCopy R kcf.heap
    { kcf with
      lastRecord := lastRecord
      heap := heap
      availableAddedData := lastRecord.addedSize
      parserState := .writeAddedData }
  else kcf

/-- The rest of `KCF_write_record`, once the record before is finished and this one is fixed. -/
def placeRecord (kcf : KCF) (R : Record) : Exec (KcfError × KCF × Record) := do
  let (buffer, heap) ← recBuffer R kcf.heap
  let kcf := { kcf with heap := heap }
  match buffer with
  | none => return (.outOfMemory, kcf, R)
  | some buffer =>
    let kcf := { kcf with recordOffset := ioTell kcf.stream }
    let (ret, stream) := ioWrite kcf.stream buffer
    let kcf := { kcf with stream := stream }
    if ret < 0 then return (.write, kcf, R)
    else return (.ok, kcf.saveRecord R, R)

/-- `KCF_write_record`, with the caller's record as the call leaves it. -/
def writeRecord (kcf : KCF) (R : Record) : Exec (KcfError × KCF × Record) := do
  let (error, kcf) ← kcf.acceptRecord
  if error ≠ .ok then return (error, kcf, R)
  else kcf.placeRecord (recFix R)

end KCF

/-- The record as the one-shot writer completes it before writing it. -/
def describeAddedData (R : Record) (addedData : List UInt8) : Record :=
  if addedData ≠ [] then
    let R := if recHasAddedDataCRC R then { R with addedDataCRC32 := crc32c 0 addedData } else R
    let flag := if 2147483647 < addedData.length then KCF_HAS_ADDED_SIZE_8 else KCF_HAS_ADDED_SIZE_4
    { R with
      headFlags := R.headFlags ||| flag
      addedSize := UInt64.ofNat addedData.length }
  else
    { R with
      headFlags := R.headFlags &&& ~~~ KCF_HAS_ADDED_DATA_CRC32 &&& ~~~ KCF_HAS_ADDED_SIZE_8
      addedSize := 0
      addedDataCRC32 := 0 }

namespace KCF

/-- The rest of `KCF_write_record_with_added_data`, once the record is fixed. -/
def placeRecordWithAddedData (kcf : KCF) (R : Record) (addedData : List UInt8) :
    Exec (KcfError × KCF × Record) := do
  let (buffer, heap) ← recBuffer R kcf.heap
  let kcf := { kcf with heap := heap }
  match buffer with
  | none => return (.outOfMemory, kcf, R)
  | some buffer =>
    let (ret, stream) := ioWrite kcf.stream buffer
    let kcf := { kcf with stream := stream }
    if ret < 0 then return (.write, kcf, R)
    else
      let (ret, stream) := ioWrite kcf.stream addedData
      let kcf := { kcf with stream := stream }
      if ret < 0 then return (.write, kcf, R)
      else return (.ok, kcf, R)

/-- `KCF_write_record_with_added_data`, with the caller's record as the call leaves it. -/
def writeRecordWithAddedData (kcf : KCF) (R : Record) (addedData : List UInt8) :
    Exec (KcfError × KCF × Record) := do
  let (error, kcf) ← kcf.acceptRecord
  if error ≠ .ok then return (error, kcf, R)
  else kcf.placeRecordWithAddedData (recFix (describeAddedData R addedData)) addedData

/-- What is left of the declared size, or no bound when the size is not known. -/
def writeRemaining (kcf : KCF) : Option UInt64 :=
  if 0 < kcf.addedDataToBeWritten then some (kcf.addedDataToBeWritten - kcf.writtenAddedData)
  else none

/-- The part of a chunk that is written: what is left of the declared size clamps it. -/
def acceptedSize (kcf : KCF) (size : ℕ) : ℕ :=
  match kcf.writeRemaining with
  | some remaining => min size remaining.toNat
  | none => size

/-- The counter and the running checksum after one more chunk. -/
def counted (kcf : KCF) (chunk : List UInt8) : KCF :=
  { kcf with
    addedDataAlreadyRead := kcf.writtenAddedData + UInt64.ofNat chunk.length
    addedDataCRC32 :=
      if kcf.hasAddedDataCRC32 then crc32c kcf.addedDataCRC32 chunk else kcf.addedDataCRC32 }

/-- `KCF_write_added_data` with the first `size` bytes at `addedData`. -/
def writeAddedData (kcf : KCF) (addedData : List UInt8) (size : ℕ) : Exec (KcfError × KCF) :=
  if !kcf.parserState.isWriting then .ok (.invalidState, kcf)
  else if kcf.parserState ≠ .writeAddedData then .ok (.invalidState, kcf)
  else if kcf.writeRemaining = some 0 then .ok (.ok, kcf)
  else
    let size := kcf.acceptedSize size
    if addedData.length < size then .error .outOfBounds
    else
      let chunk := addedData.take size
      let (ret, stream) := ioWrite kcf.stream chunk
      let kcf := { kcf with stream := stream }
      if ret < 0 then .ok (.write, kcf)
      else .ok (.ok, kcf.counted chunk)

end KCF

end Kcf
