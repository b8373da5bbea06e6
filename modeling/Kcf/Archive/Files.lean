import Kcf.Archive.Basic

/-! # Packing files

A file becomes a record with its metadata, followed by its contents as added
data. The routine defined under the name `file_info_to_record` parses a record,
and it is the one that packing a file calls; the one defined under the name
`record_to_file_info` lays a record out, and unpacking calls it.
-/

namespace Kcf

def KCF_FILE_HAS_TIMESTAMP : UInt8 := 0x01
def KCF_FILE_HAS_FILE_CRC32 : UInt8 := 0x02
def KCF_FILE_HAS_UNPACKED_4 : UInt8 := 0x04
def KCF_FILE_HAS_UNPACKED_8 : UInt8 := 0x0C

/-- The length of a string: its bytes before the first zero. -/
def strlen (s : List UInt8) : ℕ := (s.takeWhile (· ≠ 0)).length

def fileInfoClear (_info : FileInfo) : FileInfo := FileInfo.zero

/-- The copy of a name in fresh memory, or `NULL`; the length of the name is an `int`. -/
def copyName (name : List UInt8) (heap : Heap) : Exec (Option (List UInt8) × Heap) :=
  let fileNameSize := toInt (strlen name)
  -- a sum past the largest `int` has no value
  if fileNameSize = INT_MAX then .error .outOfBounds
  else match malloc heap (toSize (fileNameSize + 1)) with
  | (none, heap) => .ok (none, heap)
  | (some block, heap) => do
    let buffer ← memcpy block 0 (some name) (toSize fileNameSize)
    -- a zero ends the block
    return (some (buffer.take (toSize fileNameSize)), heap)

/-- `file_info_copy`: whether there was memory for the name, and the copy. -/
def fileInfoCopy (dest src : FileInfo) (heap : Heap) : Exec (Bool × FileInfo × Heap) :=
  let rest (name : Option (List UInt8)) : FileInfo := { src with fileName := name }
  match src.fileName with
  | none => .ok (true, rest dest.fileName, heap)
  | some name => do
    match ← copyName name heap with
    | (none, heap) =>
      return (false, { dest with
        timeStamp := src.timeStamp
        unpackedSize := src.unpackedSize
        fileName := none }, heap)
    | (some name, heap) => return (true, rest (some name), heap)

/-- A field of a record's data; one that the data does not hold is used without a value. -/
def readField {α : Type} (read : ℕ → Cursor → Option α × Cursor) (size : ℕ) (c : Cursor) :
    Exec (α × Cursor) :=
  match read size c with
  | (some value, c) => .ok (value, c)
  | (none, _) => .error .unset

/-- The body defined as `file_info_to_record`: parse the metadata in a record. -/
def fileInfoToRecord (info : FileInfo) (R : Record) (heap : Heap) :
    Exec (KcfError × FileInfo × Heap) :=
  if !recValidate R then .ok (.invalidData, info, heap)
  else if R.headType ≠ KCF_FILE_HEADER then .ok (.invalidData, info, heap)
  else match R.data with
  | none => .error .outOfBounds
  | some pbuf => do
    let size := R.dataSize
    let (flags, c) ← readField readU8 size ⟨pbuf, 0⟩
    -- the type is read and not kept
    let (_, c) := readU8 size c
    let info := { info with
      hasTimeStamp := flags &&& KCF_FILE_HAS_TIMESTAMP != 0
      hasFileCRC32 := flags &&& KCF_FILE_HAS_FILE_CRC32 != 0
      hasUnpackedSize := flags &&& KCF_FILE_HAS_UNPACKED_4 != 0
      hasUnpackedSize8 := flags &&& KCF_FILE_HAS_UNPACKED_8 == KCF_FILE_HAS_UNPACKED_8 }
    let (unpackedSize, c) ←
      if flags &&& KCF_FILE_HAS_UNPACKED_8 = KCF_FILE_HAS_UNPACKED_8 then
        readField readU64LE size c
      else if flags &&& KCF_FILE_HAS_UNPACKED_8 = KCF_FILE_HAS_UNPACKED_4 then do
        let (tmp4, c) ← readField readU32LE size c
        pure (tmp4.toUInt64, c)
      else pure (info.unpackedSize, c)
    let (fileCRC32, c) ←
      if info.hasFileCRC32 then readField readU32LE size c else pure (info.fileCRC32, c)
    let (compressionInfo, c) ← readField readU32LE size c
    let (timeStamp, c) ←
      if info.hasTimeStamp then readField readU64LE size c else pure (info.timeStamp, c)
    let (fileNameSize, c) ← readField readU16LE size c
    let info := { info with
      unpackedSize := unpackedSize
      fileCRC32 := fileCRC32
      compressionInfo := compressionInfo
      timeStamp := timeStamp }
    match malloc heap (fileNameSize.toNat + 1) with
    | (none, heap) => return (.outOfMemory, { info with fileName := none }, heap)
    | (some _, heap) =>
      if pbuf.length < c.offset + fileNameSize.toNat then .error .outOfBounds
      else
        let fileName := (pbuf.drop c.offset).take fileNameSize.toNat
        return (.ok, { info with fileName := some fileName }, heap)

/-- `get_file_info_data_size`. -/
def getFileInfoDataSize (info : FileInfo) : ℤ :=
  let fileNameSize :=
    match info.fileName with
    | some name => toInt (strlen name)
    | none => 0
  let unpackedSize :=
    if info.hasUnpackedSize && info.hasUnpackedSize8 then 8
    else if info.hasUnpackedSize && !info.hasUnpackedSize8 then 4
    else 0
  2 + unpackedSize + (if info.hasFileCRC32 then 4 else 0) +
    (if info.hasTimeStamp then 8 else 0) + 4 + 2 + fileNameSize

def fileFlags (info : FileInfo) : UInt8 :=
  (if info.hasTimeStamp then KCF_FILE_HAS_TIMESTAMP else 0) |||
    (if info.hasFileCRC32 then KCF_FILE_HAS_FILE_CRC32 else 0) |||
    (if info.hasUnpackedSize then KCF_FILE_HAS_UNPACKED_4 else 0) |||
    (if info.hasUnpackedSize8 then KCF_FILE_HAS_UNPACKED_8 else 0)

/-- The fields of a file's metadata up to its name, each as far as it fits the buffer. -/
def writeFileInfo (info : FileInfo) (size : ℕ) (c : Cursor) : Cursor :=
  let (_, c) := writeU8 size c (fileFlags info)
  let (_, c) := writeU8 size c info.fileType
  let (_, c) :=
    if info.hasUnpackedSize && info.hasUnpackedSize8 then writeU64LE size c info.unpackedSize
    else if info.hasUnpackedSize then writeU32LE size c info.unpackedSize.toUInt32
    else (true, c)
  let (_, c) := if info.hasFileCRC32 then writeU32LE size c info.fileCRC32 else (true, c)
  let (_, c) := writeU32LE size c info.compressionInfo
  let (_, c) := if info.hasTimeStamp then writeU64LE size c info.timeStamp else (true, c)
  c

/-- The body defined as `record_to_file_info`: lay the metadata out in a record. -/
def recordToFileInfo (R : Record) (info : FileInfo) (heap : Heap) :
    Exec (KcfError × Record × Heap) :=
  let R := { R with headType := KCF_FILE_HEADER }
  let size := getFileInfoDataSize info
  -- a sum past the largest `int` has no value
  if INT_MAX < size then .error .outOfBounds
  else match malloc heap (toSize size) with
  | (none, heap) => .ok (.outOfMemory, R.withNull R.dataSize, heap)
  | (some block, heap) =>
    let c := writeFileInfo info (toSize size) ⟨block, 0⟩
    match info.fileName with
    | none => .error .outOfBounds
    | some name => do
      let fileNameSize := toInt (strlen name)
      let (_, c) := writeU16LE (toSize size) c (UInt16.ofNat (strlen name))
      let buffer ← memcpy c.buffer c.offset (some name) (toSize fileNameSize)
      return (.ok, recFix (R.withData buffer), heap)

namespace KCF

/-- `KCF_begin_file`, with the caller's metadata as the call leaves it; the local record starts
with whatever its memory holds. -/
def beginFile (kcf : KCF) (info : FileInfo) (local₀ : Record) :
    Exec (KcfError × KCF × FileInfo) :=
  if !kcf.isWriting then .ok (.invalidState, kcf, info)
  else if kcf.packerState ≠ .idle ∧ kcf.packerState ≠ .fileHeader then
    .ok (.invalidState, kcf, info)
  else do
    let (_, currentFile, heap) ← fileInfoCopy (fileInfoClear kcf.currentFile) info kcf.heap
    let kcf := { kcf with currentFile := currentFile, heap := heap }
    -- the result is not looked at, and the record stays as it was
    let (_, info, heap) ← fileInfoToRecord info local₀ kcf.heap
    let (error, kcf, _) ← { kcf with heap := heap }.writeRecord local₀
    if error ≠ .ok then return (error, kcf, info)
    else return (.ok, { kcf with packerState := .fileData }, info)

def INSERT_FILE_BUFFER_SIZE : ℕ := 4096

/-- The loop of `KCF_insert_file_data`, for a number of rounds. The number of bytes written in each
round is a variable that no round sets. -/
def insertFileDataLoop : ℕ → KCF → IOStream → List UInt8 → ℕ →
    Exec (KcfError × KCF × IOStream)
  | 0, _, _, _, _ => .error .outOfFuel
  | fuel + 1, kcf, input, buffer, bytesRead => do
    let (ret, bytes, input) := ioRead input INSERT_FILE_BUFFER_SIZE
    let buffer := buffer.overwrite 0 bytes
    if ret < 0 then return (.read, kcf, input)
    else
      let (error, kcf) ← kcf.writeAddedData buffer bytesRead
      if error ≠ .ok then return (error, kcf, input)
      else if 0 < bytesRead then insertFileDataLoop fuel kcf input buffer bytesRead
      else return (.ok, { kcf with packerState := .afterFileData }, input)

/-- `KCF_insert_file_data`; buffer and counter start with whatever their memory holds. -/
def insertFileData (fuel : ℕ) (kcf : KCF) (input : IOStream) (buffer : List UInt8)
    (bytesRead : ℕ) : Exec (KcfError × KCF × IOStream) :=
  if !kcf.isWriting then .ok (.invalidState, kcf, input)
  else if kcf.packerState ≠ .fileData then .ok (.invalidState, kcf, input)
  else insertFileDataLoop fuel kcf input buffer bytesRead

/-- `KCF_end_file`. -/
def endFile (kcf : KCF) : Exec (KcfError × KCF) :=
  if !kcf.isWriting then .ok (.invalidState, kcf)
  else if kcf.packerState ≠ .afterFileData then .ok (.invalidState, kcf)
  else do
    let (error, kcf) ← kcf.finishAddedData
    if error ≠ .ok then return (error, kcf)
    else return (.ok, { kcf with packerState := .fileHeader })

end KCF

end Kcf
