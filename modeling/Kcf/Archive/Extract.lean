import Kcf.Archive.Files
import Kcf.Reader.Basic

/-! # Unpacking files

A file is a file record and the data fragments chained behind it. It is asked
for its metadata, skipped, or extracted to an output. The unpacker's state is a
variable of its own and shares its memory with the packer's.
-/

namespace Kcf

/-- The states of the unpacker. -/
inductive UnpackerState
  | validatingFormat
  | fileHeader
  | fileData
  | afterFileData
  deriving DecidableEq, Repr

def UnpackerState.toPacker : UnpackerState → PackerState
  | validatingFormat => .idle
  | fileHeader => .fileHeader
  | fileData => .fileData
  | afterFileData => .afterFileData

def PackerState.toUnpacker : PackerState → UnpackerState
  | idle => .validatingFormat
  | fileHeader => .fileHeader
  | fileData => .fileData
  | afterFileData => .afterFileData

/-- A `bool` returned as an error code. -/
def KcfError.ofBool : Bool → KcfError
  | true => .unknown
  | false => .ok

/-- The record is continued in the next one. -/
def Record.Continues (R : Record) : Prop := R.headFlags &&& 0x01 ≠ 0

instance (R : Record) : Decidable R.Continues := inferInstanceAs (Decidable (_ ≠ _))

namespace KCF

/-- The unpacker's view of the variable it shares with the packer. -/
def unpackerState (kcf : KCF) : UnpackerState := kcf.packerState.toUnpacker

def setUnpackerState (kcf : KCF) (state : UnpackerState) : KCF :=
  { kcf with packerState := state.toPacker }

@[simp] theorem unpackerState_set (kcf : KCF) (state : UnpackerState) :
    (kcf.setUnpackerState state).unpackerState = state := by
  cases state <;> rfl

/-- A handle ready to unpack from a stream, with blocks of zeros for memory and a current file of a
name of one letter. -/
def unpacking (stream : IOStream) : KCF :=
  { reading stream with
    currentFile := { FileInfo.zero with fileName := some [0x61] } }.setUnpackerState .fileHeader

/-- `read_file_info`: the error, the handle and the caller's metadata. -/
def readFileInfo (kcf : KCF) (info : FileInfo) : Exec (KcfError × KCF × FileInfo) :=
  match kcf.readRecord (some Record.zero) with
  | (.ok, kcf, some R) => do
    let (error, _, heap) ← recordToFileInfo R info kcf.heap
    let kcf := { kcf with heap := heap }
    if error ≠ .ok then return (error, kcf, info)
    else
      let (copied, currentFile, heap) ← fileInfoCopy kcf.currentFile info kcf.heap
      let kcf := { kcf with currentFile := currentFile, heap := heap }
      return (.ofBool copied, kcf.setUnpackerState .fileData, info)
  | (error, kcf, _) => .ok (error, kcf, info)

/-- `KCF_get_current_file_info`; the caller's metadata is `none` for a null pointer. -/
def getCurrentFileInfo (kcf : KCF) : Option FileInfo → Exec (KcfError × KCF × Option FileInfo)
  | none => .ok (.invalidParameter, kcf, none)
  | some info =>
    match kcf.unpackerState with
    | .fileHeader => do
      let (error, kcf, info) ← kcf.readFileInfo info
      return (error, kcf, some info)
    | .fileData | .afterFileData => do
      let (copied, info, heap) ← fileInfoCopy info kcf.currentFile kcf.heap
      return (.ofBool copied, { kcf with heap := heap }, some info)
    | .validatingFormat => .ok (.invalidState, kcf, some info)

/-- The added data of a record that was read is skipped, with whatever result. -/
def skipAddedData (fuel : ℕ) (kcf : KCF) (R header : Record) : Exec KCF :=
  if recHasAddedSize R then (kcf.skipRecord fuel header).map Prod.snd else .ok kcf

/-- The switch of `KCF_skip_file` over the unpacker's state, once a record was read. -/
def skipFileRecord (fuel : ℕ) (kcf : KCF) (R header : Record) : Exec (KcfError × KCF) :=
  match kcf.unpackerState with
  | .fileHeader => do
    let kcf ← (kcf.setUnpackerState .fileData).skipAddedData fuel R header
    return (.ok, kcf)
  | .fileData =>
    if R.headType ≠ KCF_DATA_FRAGMENT then .ok (.invalidData, kcf)
    else do
      let kcf ← kcf.skipAddedData fuel R header
      return (.ok, kcf)
  | _ => .ok (.invalidState, kcf)

/-- The loop of `KCF_skip_file`, for a number of rounds. -/
def skipFileLoop (fuel : ℕ) (header : Record) : ℕ → KCF → Record → Exec (KcfError × KCF)
  | 0, _, _ => .error .outOfFuel
  | rounds + 1, kcf, R =>
    match kcf.readRecord (some R) with
    | (.ok, kcf, some R) => do
      let (error, kcf) ← kcf.skipFileRecord fuel R header
      if error ≠ .ok then return (error, kcf)
      else if R.Continues then skipFileLoop fuel header rounds kcf R
      else return (.ok, kcf.setUnpackerState .fileHeader)
    | (error, kcf, _) => .ok (error, kcf)

/-- `KCF_skip_file`; the record that the skips use as a local starts with whatever its memory
holds. -/
def skipFile (rounds fuel : ℕ) (kcf : KCF) (header : Record) : Exec (KcfError × KCF) :=
  if kcf.isWriting then .ok (.invalidState, kcf)
  else skipFileLoop fuel header rounds kcf Record.zero

def EXTRACT_BUFFER_SIZE : ℕ := 4096

/-- The inner loop of `KCF_extract`, for a number of rounds: copy the added data of a record to the
output. -/
def copyAddedData (remaining : ℕ) : ℕ → KCF → IOStream → ℕ → Exec (KcfError × KCF × IOStream)
  | 0, kcf, output, _ =>
    if kcf.isAddedDataAvailable then .error .outOfFuel else .ok (.ok, kcf, output)
  | fuel + 1, kcf, output, toRead =>
    if kcf.isAddedDataAvailable then do
      let toRead := if remaining < toRead then remaining else toRead
      let (error, kcf, bytes, bytesRead) ← kcf.readAddedData (some toRead)
      if error ≠ .ok then return (error, kcf, output)
      else
        let (ret, output) := ioWrite output (bytes.take (bytesRead.getD 0))
        if ret < 0 then return (.write, kcf, output)
        else copyAddedData remaining fuel kcf output toRead
    else .ok (.ok, kcf, output)

def readLastRecord (kcf : KCF) : KcfError × KCF :=
  match kcf.readRecord (some kcf.lastRecord) with
  | (error, kcf, R) => (error, { kcf with lastRecord := R.getD kcf.lastRecord })

/-- Go on to the fragment that continues the last record, if one does. -/
def nextFragment (kcf : KCF) : KcfError × KCF :=
  if kcf.lastRecord.Continues then
    match kcf.readLastRecord with
    | (.ok, kcf) =>
      if kcf.lastRecord.headType ≠ KCF_DATA_FRAGMENT then (.invalidFormat, kcf) else (.ok, kcf)
    | (error, kcf) => (error, kcf)
  else (.ok, kcf)

/-- The loop of `KCF_extract` over the records of a file, for a number of rounds. -/
def extractLoop (fuel : ℕ) : ℕ → KCF → IOStream → Exec (KcfError × KCF × IOStream)
  | 0, _, _ => .error .outOfFuel
  | rounds + 1, kcf, output => do
    let (error, kcf, output) ←
      copyAddedData kcf.lastRecord.addedSize.toNat fuel kcf output EXTRACT_BUFFER_SIZE
    if error ≠ .ok then return (error, kcf, output)
    else match kcf.nextFragment with
      | (.ok, kcf) =>
        -- the record tested here is the one just read, not the one copied
        if kcf.lastRecord.Continues then extractLoop fuel rounds kcf output
        else return (.ok, kcf, output)
      | (error, kcf) => return (error, kcf, output)

/-- `KCF_extract`. -/
def extract (rounds fuel : ℕ) (kcf : KCF) (output : IOStream) :
    Exec (KcfError × KCF × IOStream) :=
  if kcf.isWriting ∨ kcf.unpackerState ≠ .fileHeader then .ok (.invalidState, kcf, output)
  else match kcf.readLastRecord with
  | (.ok, kcf) =>
    if kcf.lastRecord.headType ≠ KCF_FILE_HEADER then
      .ok (.invalidFormat, { kcf with lastRecord := recClear kcf.lastRecord }, output)
    else do
      let (error, R, heap) ← recordToFileInfo kcf.lastRecord kcf.currentFile kcf.heap
      let kcf := { kcf with lastRecord := R, heap := heap }
      if error ≠ .ok then
        return (error, { kcf with lastRecord := recClear kcf.lastRecord }, output)
      else
        let (error, kcf, output) ← kcf.extractLoop fuel rounds output
        return (error, { kcf with
          currentFile := fileInfoClear kcf.currentFile
          lastRecord := recClear kcf.lastRecord }, output)
  | (error, kcf) => .ok (error, kcf, output)

end KCF

end Kcf
