import Kcf.Handle.Basic

/-! # Reading records

A record is read field by field through a zeroed buffer, so that what the
stream does not deliver reads as zero. Its added data is read in pieces of the
caller's size or skipped through a buffer of the library's own.
-/

namespace Kcf

/-- The locals of `read_record_header`: the stream, the buffer, how much of it is header so far,
and the caller's record. -/
structure HeaderState where
  stream : IOStream
  buffer : List UInt8
  size : ℕ
  record : Record

namespace HeaderState

/-- Read into the buffer at an offset; `false` when the stream reports an error. -/
def fill (h : HeaderState) (offset count : ℕ) : Bool × HeaderState :=
  let (ret, bytes, stream) := ioRead h.stream count
  (0 ≤ ret, { h with stream := stream, buffer := h.buffer.overwrite offset bytes })

/-- Go on unless the stream reported an error before. -/
def next (read : HeaderState → Bool × HeaderState) : Bool × HeaderState → Bool × HeaderState
  | (true, h) => read h
  | (false, h) => (false, h)

/-- The fields that every header has, from the buffer. -/
def parseFixedFields (h : HeaderState) : Bool × HeaderState :=
  let R := h.record
  let (headCRC, c) := readU16LE 6 ⟨h.buffer, h.size⟩
  let (headType, c) := readU8 6 c
  let (headFlags, c) := readU8 6 c
  let (headSize, c) := readU16LE 6 c
  let R :=
    { R with
      headCRC := headCRC.getD R.headCRC
      headType := headType.getD R.headType
      headFlags := headFlags.getD R.headFlags
      headSize := headSize.getD R.headSize
      addedSize := 0 }
  (true, { h with size := c.offset, record := R })

def readFixedFields (h : HeaderState) : Bool × HeaderState := next parseFixedFields (h.fill 0 6)

/-- The bytes of the `AddedSize` field that both of its widths have. -/
def fillAddedSizeLow (h : HeaderState) : Bool × HeaderState :=
  if h.record.headFlags &&& KCF_HAS_ADDED_SIZE_4 ≠ 0 then h.fill h.size 4 else (true, h)

/-- The `AddedSize` field of eight bytes, from the buffer. -/
def parseAddedSize8 (h : HeaderState) : Bool × HeaderState :=
  let (addedSize, c) := readU64LE 14 ⟨h.buffer, h.size⟩
  (true, { h with
    size := c.offset
    record := { h.record with addedSize := addedSize.getD h.record.addedSize } })

/-- The `AddedSize` field of four bytes, from the buffer; the high half is zero already. -/
def parseAddedSize4 (h : HeaderState) : Bool × HeaderState :=
  let (addedSizeLow, c) := readU32LE 14 ⟨h.buffer, h.size⟩
  (true, { h with
    size := c.offset
    record := { h.record with
      addedSize := (addedSizeLow.map UInt32.toUInt64).getD h.record.addedSize } })

def readAddedSize (h : HeaderState) : Bool × HeaderState :=
  if h.record.headFlags &&& KCF_HAS_ADDED_SIZE_8 = KCF_HAS_ADDED_SIZE_8 then
    next parseAddedSize8 (h.fill (h.size + 4) 4)
  else if h.record.headFlags &&& KCF_HAS_ADDED_SIZE_8 = KCF_HAS_ADDED_SIZE_4 then
    parseAddedSize4 h
  else (true, h)

def parseAddedDataCRC (h : HeaderState) : Bool × HeaderState :=
  let (crc, c) := readU32LE 18 ⟨h.buffer, h.size⟩
  (true, { h with
    size := c.offset
    record := { h.record with addedDataCRC32 := crc.getD h.record.addedDataCRC32 } })

def readAddedDataCRC (h : HeaderState) : Bool × HeaderState :=
  if h.record.headFlags &&& KCF_HAS_ADDED_DATA_CRC32 ≠ 0 then
    next parseAddedDataCRC (h.fill h.size 4)
  else (true, { h with record := { h.record with addedDataCRC32 := 0 } })

/-- All the fields of a header, in the order of the format. -/
def readFields (h : HeaderState) : Bool × HeaderState :=
  next readAddedDataCRC (next readAddedSize (next fillAddedSizeLow h.readFixedFields))

end HeaderState

namespace KCF

/-- `read_record_header`: the error, the handle, the caller's record and the header's size. -/
def readRecordHeader (kcf : KCF) (R : Record) : KcfError × KCF × Record × ℕ :=
  match (HeaderState.mk kcf.stream (List.replicate 18 0) 0 R).readFields with
  | (false, h) => (.read, { kcf with stream := h.stream }, h.record, h.size)
  | (true, h) =>
    (.ok, { kcf with
      stream := h.stream
      addedDataCRC32 := h.record.addedDataCRC32
      parserState := .readRecordData }, h.record, h.size)

/-- The counters and checksums as `KCF_read_record` clears them. -/
def cleared (kcf : KCF) : KCF :=
  { kcf with
    addedDataAlreadyRead := 0
    availableAddedData := 0
    addedDataCRC32 := 0
    actualAddedDataCRC32 := 0 }

/-- What comes after a record is read: its added data, or the next record. -/
def announced (kcf : KCF) (R : Record) : KCF :=
  { kcf with
    parserState := if recHasAddedSize R then .readAddedData else .readRecordHeader
    availableAddedData := R.addedSize }

/-- The rest of `KCF_read_record`, once the header is read and the size of the data known. -/
def readRecordData (kcf : KCF) (R : Record) (dataSize : ℕ) : KcfError × KCF × Record :=
  match malloc kcf.heap dataSize with
  | (none, heap) => (.outOfMemory, { kcf with heap := heap }, R.withNull dataSize)
  | (some block, heap) =>
    match ioRead kcf.stream dataSize with
    | (ret, bytes, stream) =>
      if ret < 0 then
        (.read, { kcf with heap := heap, stream := stream }, R.withData (block.overwrite 0 bytes))
      else
        (.ok, { kcf with heap := heap, stream := stream }.announced R,
          R.withData (block.overwrite 0 bytes))

/-- `KCF_read_record` into the caller's record, which may be a null pointer. -/
def readRecord (kcf : KCF) : Option Record → KcfError × KCF × Option Record
  | none => (.invalidParameter, kcf, none)
  | some R =>
    if !kcf.parserState.isReading then (.invalidState, kcf, some R)
    else if kcf.parserState ≠ .readRecordHeader then (.invalidState, kcf, some R)
    else
      match kcf.cleared.readRecordHeader R with
      | (.ok, kcf, R, headerSize) =>
        -- a header larger than the record wraps around
        match kcf.readRecordData R (toSize (R.headSize.toNat - headerSize)) with
        | (error, kcf, R) => (error, kcf, some R)
      | (error, kcf, R, _) => (error, kcf, some R)

end KCF

/-- `IO_skip`, for a number of rounds. -/
def ioSkip : ℕ → IOStream → ℤ → Exec (ℤ × IOStream)
  | 0, _, _ => .error .outOfFuel
  | fuel + 1, s, remaining =>
    let toRead := min 4096 remaining
    -- a negative size is one that no buffer has
    if toRead < 0 then .error .outOfBounds
    else
      let (nRead, _, s) := ioRead s toRead.toNat
      if nRead < 0 then .ok (0, s)
      else if 0 < remaining - nRead then ioSkip fuel s (remaining - nRead)
      else .ok (0, s)

namespace KCF

/-- The end of `KCF_skip_record`, once the number of bytes to skip is known. -/
def skipBytes (fuel : ℕ) (kcf : KCF) (dataSize : UInt64) : Exec (KcfError × KCF) := do
  let (ret, stream) ← ioSkip fuel kcf.stream (toInt64 dataSize.toNat)
  let kcf := { kcf with stream := stream }
  if ret = 0 then return (.read, kcf)
  else return (.ok, kcf.setState .readRecordHeader)

/-- `KCF_skip_record`; the local record starts with whatever its memory holds. -/
def skipRecord (fuel : ℕ) (kcf : KCF) (header : Record) : Exec (KcfError × KCF) :=
  if !kcf.parserState.isReading then .ok (.invalidState, kcf)
  else if kcf.parserState = .readRecordHeader then
    match kcf.readRecordHeader header with
    | (.ok, kcf, header, headerSize) =>
      kcf.skipBytes fuel (UInt64.ofNat (toSize (header.headSize.toNat - headerSize)) +
        header.addedSize)
    | (error, kcf, _, _) => .ok (error, kcf)
  else if kcf.parserState = .readAddedData then kcf.skipBytes fuel kcf.availableAddedData
  else .ok (.invalidState, kcf)

/-- `KCF_is_added_data_available`. -/
def isAddedDataAvailable (kcf : KCF) : Bool := 0 < kcf.availableAddedData

/-- The counters and the running checksum after a piece of added data was read. -/
def consumed (kcf : KCF) (bufferSize : ℕ) (bytes : List UInt8) (nRead : ℕ) : KCF :=
  let kcf := { kcf with
    availableAddedData := kcf.availableAddedData - UInt64.ofNat bufferSize
    actualAddedDataCRC32 := crc32c kcf.actualAddedDataCRC32 bytes
    addedDataAlreadyRead := kcf.addedDataAlreadyRead + UInt64.ofNat nRead }
  if kcf.availableAddedData = 0 then kcf.setState .readRecordHeader else kcf

/-- The rest of `KCF_read_added_data`, for a buffer no larger than what is left. -/
def readAvailable (kcf : KCF) (bufferSize : ℕ) :
    Exec (KcfError × KCF × List UInt8 × Option ℕ) :=
  match ioRead kcf.stream bufferSize with
  | (nRead, bytes, stream) =>
    -- compared as a `size_t`, so a negative result is no short one
    if toSize nRead < bufferSize then .ok (.read, { kcf with stream := stream }, bytes, some 0)
    else if nRead < 0 then .error .outOfBounds
    else
      .ok (.ok, { kcf with stream := stream }.consumed bufferSize bytes nRead.toNat, bytes,
        some nRead.toNat)

/-- `KCF_read_added_data`: the error, the handle, the bytes delivered and the count stored for the
caller, if one is. The buffer's size is `none` for a null pointer. -/
def readAddedData (kcf : KCF) : Option ℕ → Exec (KcfError × KCF × List UInt8 × Option ℕ)
  | none => .ok (.invalidParameter, kcf, [], none)
  | some bufferSize =>
    if !kcf.parserState.isReading then .ok (.invalidState, kcf, [], none)
    else if kcf.parserState ≠ .readAddedData then .ok (.invalidState, kcf, [], none)
    else if kcf.availableAddedData = 0 then
      .ok (.ok, { kcf with readerState := .recordHeader }, [], some 0)
    else kcf.readAvailable (min bufferSize kcf.availableAddedData.toNat)

end KCF

end Kcf
