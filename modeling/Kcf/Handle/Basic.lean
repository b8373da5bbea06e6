import Kcf.Record.Basic
import Kcf.Stream.Basic

/-! # The archive handle

The state behind a handle. Reader and writer share their two counters through
unions, so one field stands for both names of each. The heap that the calls
allocate from travels with the handle.
-/

namespace Kcf

/-- The values of `ParserState`. -/
inductive ParserState
  | neutral
  | reading
  | readMarker
  | readRecordHeader
  | readRecordData
  | readAddedData
  | writing
  | writeMarker
  | writeRecord
  | writeAddedData
  deriving DecidableEq, Repr

namespace ParserState

def code : ParserState → ℕ
  | neutral => 0
  | reading => 0x100
  | readMarker => 0x101
  | readRecordHeader => 0x102
  | readRecordData => 0x103
  | readAddedData => 0x104
  | writing => 0x200
  | writeMarker => 0x201
  | writeRecord => 0x202
  | writeAddedData => 0x203

def HIGH_MASK : ℕ := 0xF00

def isWriting (x : ParserState) : Bool := x.code &&& HIGH_MASK == writing.code

def isReading (x : ParserState) : Bool := x.code &&& HIGH_MASK == reading.code

end ParserState

/-- The states of the packer. -/
inductive PackerState
  | idle
  | fileHeader
  | fileData
  | afterFileData
  deriving DecidableEq, Repr

/-- The states of the marker scan, a variable of its own next to `ParserState`. -/
inductive ReaderState
  | marker
  | recordHeader
  deriving DecidableEq, Repr

/-- The states of the marker writer, a variable of its own next to `ParserState`. -/
inductive WriterState
  | marker
  | idle
  deriving DecidableEq, Repr

/-- File types: the code of a regular file is `R`, of a directory `d`, of none 0. -/
abbrev FileType := UInt8

def KCF_FILE_REGULAR : FileType := 0x52
def KCF_FILE_DIRECTORY : FileType := 0x64

/-- Metadata of a file; the name is a string without its terminating zero. -/
structure FileInfo where
  timeStamp : UInt64
  unpackedSize : UInt64
  fileName : Option (List UInt8)
  fileCRC32 : UInt32
  compressionInfo : UInt32
  fileType : FileType
  hasTimeStamp : Bool
  hasFileCRC32 : Bool
  hasUnpackedSize : Bool
  hasUnpackedSize8 : Bool
  deriving DecidableEq, Repr

def FileInfo.zero : FileInfo := ⟨0, 0, none, 0, 0, 0, false, false, false, false⟩

/-- The state behind a handle. -/
structure KCF where
  availableAddedData : UInt64
  addedDataAlreadyRead : UInt64
  addedDataCRC32 : UInt32
  actualAddedDataCRC32 : UInt32
  recordOffset : ℕ
  recordEndOffset : ℕ
  stream : IOStream
  lastRecord : Record
  hasAddedDataCRC32 : Bool
  hasAddedSize : Bool
  isWriting : Bool
  parserState : ParserState
  packerState : PackerState
  currentFile : FileInfo
  readerState : ReaderState
  writerState : WriterState
  heap : Heap

namespace KCF

/-- The writer's name for the counter the reader calls `AvailableAddedData`. -/
abbrev addedDataToBeWritten (kcf : KCF) : UInt64 := kcf.availableAddedData

/-- The writer's name for the counter the reader calls `AddedDataAlreadyRead`. -/
abbrev writtenAddedData (kcf : KCF) : UInt64 := kcf.addedDataAlreadyRead

/-- A handle of zeros over a stream, as `calloc` leaves it. -/
def zero (stream : IOStream) (heap : Heap) : KCF where
  availableAddedData := 0
  addedDataAlreadyRead := 0
  addedDataCRC32 := 0
  actualAddedDataCRC32 := 0
  recordOffset := 0
  recordEndOffset := 0
  stream := stream
  lastRecord := Record.zero
  hasAddedDataCRC32 := false
  hasAddedSize := false
  isWriting := false
  parserState := .neutral
  packerState := .idle
  currentFile := FileInfo.zero
  readerState := .marker
  writerState := .marker
  heap := heap

/-- The handle in another parser state. -/
def setState (kcf : KCF) (state : ParserState) : KCF := { kcf with parserState := state }

/-- A handle ready to write records on a stream, with blocks of zeros for memory. -/
def writing (stream : IOStream) : KCF := (zero stream Heap.zeros).setState .writeRecord

/-- A handle ready to read records from a stream, with blocks of zeros for memory. -/
def reading (stream : IOStream) : KCF := (zero stream Heap.zeros).setState .readRecordHeader

end KCF

end Kcf
