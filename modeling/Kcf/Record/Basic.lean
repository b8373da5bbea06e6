import Kcf.Memory.Bytepack
import Kcf.Record.Crc32c

/-! # Records

A record of the archive in memory, its checksum, and its way into a buffer. The
fixed fields are followed by the size of the added data and by the checksum of
the added data when the flags announce them, and then by the record's own data.
-/

namespace Kcf

/-- The error codes of the library. -/
inductive KcfError
  | ok
  | unknown
  | notImplemented
  | invalidParameter
  | invalidFormat
  | invalidData
  | invalidState
  | fileNotFound
  | accessDenied
  | outOfMemory
  | write
  | read
  | eof
  | prematureEof
  deriving DecidableEq, Repr

def KCF_HAS_ADDED_DATA_CRC32 : UInt8 := 0x20
def KCF_HAS_ADDED_SIZE_4 : UInt8 := 0x80
def KCF_HAS_ADDED_SIZE_8 : UInt8 := 0xC0

/-- The codes of `enum KcfRecordType`. -/
def KCF_ARCHIVE_HEADER : UInt8 := 0x41
def KCF_FILE_HEADER : UInt8 := 0x46
def KCF_DATA_FRAGMENT : UInt8 := 0x44

/-- A record. `data` is `none` for a null pointer, else the block it points to. -/
structure Record where
  headCRC : UInt16
  headType : UInt8
  headFlags : UInt8
  headSize : UInt16
  addedSize : UInt64
  addedDataCRC32 : UInt32
  data : Option (List UInt8)
  dataSize : ℕ
  /-- A block holds as many bytes as the record says. -/
  data_length : ∀ block, data = some block → block.length = dataSize

namespace Record

/-- The record of all zeros with a null data pointer. -/
def zero : Record := ⟨0, 0, 0, 0, 0, 0, none, 0, by simp⟩

/-- The bytes the data pointer stands for. -/
def bytes (R : Record) : List UInt8 := R.data.getD []

/-- Point the record to a block. -/
def withData (R : Record) (block : List UInt8) : Record :=
  { R with
    data := some block
    dataSize := block.length
    data_length := by rintro _ ⟨⟩; rfl }

/-- Point the record to nothing, for a data size that stays as it is. -/
def withNull (R : Record) (dataSize : ℕ) : Record :=
  { R with data := none, dataSize := dataSize, data_length := by simp }

end Record

def recHasAddedSize (R : Record) : Bool := R.headFlags &&& KCF_HAS_ADDED_SIZE_4 != 0

def recHasAddedDataCRC (R : Record) : Bool := R.headFlags &&& KCF_HAS_ADDED_DATA_CRC32 != 0

def recHasAddedSize8 (R : Record) : Bool :=
  R.headFlags &&& KCF_HAS_ADDED_SIZE_8 == KCF_HAS_ADDED_SIZE_8

def recHasAddedSize4 (R : Record) : Bool :=
  R.headFlags &&& KCF_HAS_ADDED_SIZE_8 == KCF_HAS_ADDED_SIZE_4

def recClear (_R : Record) : Record := Record.zero

/-- The checksum of the header fields after `HeadCRC` and of the data. -/
def recCalculateCRC (R : Record) : UInt16 :=
  let c : Cursor := ⟨List.replicate 16 0, 0⟩
  let (_, c) := writeU8 16 c R.headType
  let (_, c) := writeU8 16 c R.headFlags
  let (_, c) := writeU16LE 16 c R.headSize
  let (_, c) :=
    if R.headFlags &&& KCF_HAS_ADDED_SIZE_8 = KCF_HAS_ADDED_SIZE_4 then
      writeU32LE 16 c R.addedSize.toUInt32
    else if R.headFlags &&& KCF_HAS_ADDED_SIZE_8 = KCF_HAS_ADDED_SIZE_8 then
      writeU64LE 16 c R.addedSize
    else (true, c)
  let (_, c) :=
    if R.headFlags &&& KCF_HAS_ADDED_DATA_CRC32 ≠ 0 then writeU32LE 16 c R.addedDataCRC32
    else (true, c)
  let crc := crc32c 0 (c.buffer.take c.offset)
  let crc :=
    match R.data with
    | some block => if 0 < R.dataSize then crc32c crc block else crc
    | none => crc
  crc.toUInt16

def recValidate (R : Record) : Bool := recCalculateCRC R == R.headCRC

/-- One more field of the header, unless an earlier one did not fit. -/
def writeField (write : Cursor → Bool × Cursor) : Bool × Cursor → Bool × Cursor
  | (true, c) => write c
  | (false, c) => (false, c)

/-- The header fields of a record, in the order of the format. -/
def writeHeader (R : Record) (size : ℕ) (c : Cursor) : Bool × Cursor :=
  let r := writeU16LE size c R.headCRC
  let r := writeField (writeU8 size · R.headType) r
  let r := writeField (writeU8 size · R.headFlags) r
  let r := writeField (writeU16LE size · R.headSize) r
  let r :=
    if recHasAddedSize8 R then writeField (writeU64LE size · R.addedSize) r
    else if recHasAddedSize4 R then writeField (writeU32LE size · R.addedSize.toUInt32) r
    else r
  if recHasAddedDataCRC R then writeField (writeU32LE size · R.addedDataCRC32) r else r

/-- Lay a record out in a buffer of the given size. -/
def recToBuffer (R : Record) (buffer : List UInt8) (size : ℕ) : Exec (Bool × List UInt8) :=
  if size < R.headSize.toNat then .ok (false, buffer)
  else
    let (result, c) := writeHeader R size ⟨buffer, 0⟩
    match memcpy c.buffer c.offset R.data R.dataSize with
    | .ok buffer => .ok (result, buffer)
    | .error fault => .error fault

/-- Set the record's size and checksum from its other fields. -/
def recFix (R : Record) : Record :=
  let size := UInt16.ofNat (6 + R.dataSize)
  let size :=
    if R.headFlags &&& KCF_HAS_ADDED_SIZE_8 = KCF_HAS_ADDED_SIZE_4 then size + 4
    else if R.headFlags &&& KCF_HAS_ADDED_SIZE_8 = KCF_HAS_ADDED_SIZE_8 then size + 8
    else size
  let size := if R.headFlags &&& KCF_HAS_ADDED_DATA_CRC32 ≠ 0 then size + 4 else size
  let R := { R with headSize := size }
  { R with headCRC := recCalculateCRC R }

/-- Copy a record together with its data; without memory the copy has a null pointer. -/
def recCopy (source : Record) (heap : Heap) : KcfError × Record × Heap :=
  match source.data with
  | some _ =>
    match malloc heap source.dataSize with
    | (some _, heap) => (.ok, source, heap)
    | (none, heap) => (.outOfMemory, source.withNull source.dataSize, heap)
  | none => (.ok, source, heap)

end Kcf
