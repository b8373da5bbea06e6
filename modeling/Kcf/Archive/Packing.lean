import Kcf.Archive.Files
import Kcf.Record.Layout

/-! # Packing an archive

Packing creates a handle, starts the archive and inserts one file after the
other. Starting the archive has to write the marker, which takes a handle that
is marked as writing, and no call ever marks one.
-/

namespace Kcf

/-- What the local variables of the routines hold before they are set. -/
structure Locals where
  header : Record
  file : Record
  buffer : List UInt8
  bytesRead : ℕ

/-- A file to be packed: its metadata, its contents, and the locals of the calls that pack it. -/
structure InputFile where
  info : FileInfo
  content : List UInt8
  locals : Locals

namespace KCF

/-- Pack one file, up to the first error. -/
def packFile (fuel : ℕ) (kcf : KCF) (file : InputFile) : Exec (KcfError × KCF) := do
  let (error, kcf, _) ← kcf.beginFile file.info file.locals.file
  if error ≠ .ok then return (error, kcf)
  else
    let (error, kcf, _) ←
      kcf.insertFileData fuel (.ofBytes file.content) file.locals.buffer file.locals.bytesRead
    if error ≠ .ok then return (error, kcf) else kcf.endFile

/-- Pack the files in order, up to the first error. -/
def packFiles (fuel : ℕ) (kcf : KCF) : List InputFile → Exec (KcfError × KCF)
  | [] => .ok (.ok, kcf)
  | file :: files => do
    let (error, kcf) ← kcf.packFile fuel file
    if error ≠ .ok then return (error, kcf) else packFiles fuel kcf files

end KCF

/-- Create a handle on a stream, start an archive and pack the files, up to the first error. The
program of `main.c` makes these calls, but drops the error of starting the archive and goes on to
the files. -/
def pack (fuel : ℕ) (stream : IOStream) (heap : Heap) (locals : Locals) (files : List InputFile) :
    Exec (KcfError × Option KCF) :=
  match KCF.create (some stream) heap with
  | (.ok, some kcf) => do
    let (error, kcf) ← kcf.initArchive locals.header
    if error ≠ .ok then return (error, some kcf)
    else
      let (error, kcf) ← kcf.packFiles fuel files
      return (error, some kcf)
  | (error, _) => .ok (error, none)

/-- A file record followed by its contents. -/
def fileBytes (R : Record) (file : InputFile) : List UInt8 := (recFix R).encode ++ file.content

/-- The bytes are those of an archive of version 1 with one file record for each file, in order,
whose added data is the file's contents. -/
def HoldsArchive (bytes : List UInt8) (files : List InputFile) : Prop :=
  ∃ header records, recToArchiveHeader header = .ok (.ok, some 1) ∧
    records.length = files.length ∧ (∀ R ∈ records, R.headType = KCF_FILE_HEADER) ∧
    bytes = MARKER ++ header.encode ++ (List.zipWith fileBytes records files).flatten

/-- The files are packed: every call succeeds and the stream then holds their archive. -/
def Packs (fuel : ℕ) (stream : IOStream) (heap : Heap) (locals : Locals)
    (files : List InputFile) : Prop :=
  ∃ kcf, pack fuel stream heap locals files = .ok (.ok, some kcf) ∧
    HoldsArchive kcf.stream.bytes files

theorem KCF.writeMarker_of_not_writing {kcf : KCF} (h : kcf.isWriting = false) :
    kcf.writeMarker = (.invalidState, kcf) := by
  simp [KCF.writeMarker, h]

/-- A handle that is not marked as writing packs no file. -/
theorem KCF.packFiles_refused {kcf : KCF} (h : kcf.isWriting = false) (fuel : ℕ)
    (files : List InputFile) :
    kcf.packFiles fuel files = .ok (if files = [] then .ok else .invalidState, kcf) := by
  cases files with
  | nil => rfl
  | cons file files =>
    have hbegin : kcf.beginFile file.info file.locals.file =
        .ok (.invalidState, kcf, file.info) := by
      simp [beginFile, h]
    rw [packFiles, packFile, hbegin]
    rfl

theorem KCF.initArchive_zero (stream : IOStream) (heap : Heap) (local₀ : Record) :
    (zero stream heap).initArchive local₀ =
      .ok (.invalidState, (zero stream heap).setState .writeMarker) := by
  have hw : (zero stream heap).startWriting =
      ((zero stream heap).setState .writeMarker).writeMarker := rfl
  rw [initArchive, hw, writeMarker_of_not_writing rfl]

theorem pack_eq (fuel : ℕ) (stream : IOStream) (heap : Heap) (locals : Locals)
    (files : List InputFile) :
    pack fuel stream heap locals files =
      if (heap 0).isSome then
        .ok (.invalidState, some ((KCF.zero stream heap.next).setState .writeMarker))
      else .ok (.outOfMemory, none) := by
  cases h : heap 0 with
  | none => simp [pack, KCF.create, h]
  | some fresh =>
    simp only [pack, KCF.create, h, KCF.initArchive_zero]
    rfl

theorem not_packs (fuel : ℕ) (stream : IOStream) (heap : Heap) (locals : Locals)
    (files : List InputFile) : ¬ Packs fuel stream heap locals files := by
  rintro ⟨kcf, h, -⟩
  rw [pack_eq] at h
  split at h <;> cases h

/-- No files are packed: whenever a handle is created at all, starting the archive is refused and
nothing is written. -/
theorem pack_refused (fuel : ℕ) (stream : IOStream) (heap : Heap) (locals : Locals)
    (files : List InputFile) :
    ¬ Packs fuel stream heap locals files ∧
      ((heap 0).isSome → ∃ kcf, pack fuel stream heap locals files = .ok (.invalidState, some kcf) ∧
        kcf.stream = stream) := by
  refine ⟨not_packs fuel stream heap locals files, fun h => ?_⟩
  exact ⟨_, (pack_eq fuel stream heap locals files).trans (if_pos h), rfl⟩

def Locals.zero : Locals := ⟨Record.zero, Record.zero, List.replicate 4096 0, 0⟩

theorem pack_refused_nothing :
    ∃ kcf, pack 1 (.ofBytes []) Heap.zeros .zero [] = .ok (.invalidState, some kcf) ∧
      kcf.stream = .ofBytes [] :=
  (pack_refused 1 (.ofBytes []) Heap.zeros .zero []).2 rfl

/-- Not even an archive without files is packed on an empty stream. -/
theorem nothing_not_packed : ¬ Packs 1 (.ofBytes []) Heap.zeros .zero [] :=
  not_packs 1 (.ofBytes []) Heap.zeros .zero []

end Kcf
