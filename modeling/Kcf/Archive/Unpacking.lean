import Kcf.Archive.Extract
import Kcf.Reader.Stands
import Kcf.Reader.States

/-! # Files on a stream

A file is laid out as a record and the fragments that continue it, each with its
added data. Reading such records leaves what belongs to the unpacker alone.
-/

namespace Kcf

theorem Record.shown_continues {F : Record} : F.shown.Continues ↔ F.Continues := Iff.rfl

/-- A record that its size field fits, with all the added data that its header announces. -/
structure Piece where
  record : Record
  added : List UInt8
  fits : record.Fits
  headSize : record.headSize.toNat = headerLength record.headFlags + record.dataSize
  addedSize : record.shown.addedSize.toNat = added.length

namespace Piece

def bytes (p : Piece) : List UInt8 := p.record.encode ++ p.added

/-- The bytes of one piece after the other. -/
def layout (ps : List Piece) : List UInt8 := ps.flatMap bytes

def addedTo (ps : List Piece) : List UInt8 := ps.flatMap added

@[simp] theorem layout_nil : layout [] = [] := rfl

@[simp] theorem addedTo_nil : addedTo [] = [] := rfl

@[simp] theorem layout_cons (p : Piece) (ps : List Piece) :
    layout (p :: ps) = p.bytes ++ layout ps := List.flatMap_cons ..

@[simp] theorem addedTo_cons (p : Piece) (ps : List Piece) :
    addedTo (p :: ps) = p.added ++ addedTo ps := List.flatMap_cons ..

theorem length_added_le {p : Piece} {ps : List Piece} (h : p ∈ ps) :
    p.added.length ≤ (addedTo ps).length := by
  obtain ⟨before, after, rfl⟩ := List.append_of_mem h
  rw [addedTo, List.flatMap_append, List.flatMap_cons, List.length_append, List.length_append]
  omega

theorem hasAddedSize {p : Piece} (h : p.added ≠ []) : recHasAddedSize p.record = true := by
  rw [recHasAddedSize_iff]
  intro hw
  apply h (List.length_eq_zero_iff.mp _)
  rw [← p.addedSize, Record.toNat_shown_addedSize, hw, pow_zero, Nat.mod_one]

theorem added_of_not {p : Piece} (h : ¬ recHasAddedSize p.record = true) : p.added = [] := by
  by_contra hne
  exact h (hasAddedSize hne)

/-- A record of this type with one byte of added data, continued by the next one or not. -/
def oneByteRecord (headType : UInt8) (continued : Bool) : Record :=
  { Record.adding 1 with
    headType := headType
    headFlags := if continued then 0x81 else 0x80 }

theorem oneByteRecord_fits (headType : UInt8) (continued : Bool) :
    (oneByteRecord headType continued).Fits := by
  have hle := headerLength_le (oneByteRecord headType continued).headFlags
  constructor
  · rintro -
    rfl
  · change headerLength (oneByteRecord headType continued).headFlags + 0 ≤ 65535
    omega

/-- A record of one added byte, with this byte behind it. -/
def oneByte (headType : UInt8) (continued : Bool) (b : UInt8) : Piece where
  record := recFix (oneByteRecord headType continued)
  added := [b]
  fits := oneByteRecord_fits headType continued
  headSize := recFix_headSize_of_fits (oneByteRecord_fits headType continued)
  addedSize := by
    have hsize : (oneByteRecord headType continued).addedSize.toNat = 1 := rfl
    have hwidth : addedSizeWidth (oneByteRecord headType continued).headFlags = 4 := by
      cases continued
      · exact (by decide : addedSizeWidth 0x80 = 4)
      · exact (by decide : addedSizeWidth 0x81 = 4)
    rw [Record.toNat_shown_addedSize, recFix_addedSize, recFix_headFlags, hsize, hwidth]
    rfl

end Piece

/-- Each piece is continued by the next one, a data fragment, and the last one by none. -/
def Chained : Piece → List Piece → Prop
  | p, [] => ¬ p.record.Continues
  | p, q :: qs => p.record.Continues ∧ q.record.headType = KCF_DATA_FRAGMENT ∧ Chained q qs

instance decidableChained : (p : Piece) → (qs : List Piece) → Decidable (Chained p qs)
  | _, [] => inferInstanceAs (Decidable (¬ _))
  | _, q :: qs =>
    have := decidableChained q qs
    inferInstanceAs (Decidable (_ ∧ _ ∧ _))

/-- A file: its record and the fragments that continue it. -/
structure StoredFile where
  head : Piece
  fragments : List Piece
  isFile : head.record.headType = KCF_FILE_HEADER
  chained : Chained head fragments

namespace StoredFile

/-- The records of the file in order. -/
def pieces (file : StoredFile) : List Piece := file.head :: file.fragments

def bytes (file : StoredFile) : List UInt8 := Piece.layout file.pieces

/-- The bytes of one file after the other. -/
def layout (files : List StoredFile) : List UInt8 := files.flatMap bytes

@[simp] theorem layout_cons (file : StoredFile) (files : List StoredFile) :
    layout (file :: files) = file.bytes ++ layout files := List.flatMap_cons ..

/-- The records of one file after the other. -/
def allPieces (files : List StoredFile) : List Piece := files.flatMap pieces

@[simp] theorem allPieces_cons (file : StoredFile) (files : List StoredFile) :
    allPieces (file :: files) = file.pieces ++ allPieces files := List.flatMap_cons ..

/-- A file of one record, with a byte added to it. -/
def oneByte (b : UInt8) : StoredFile where
  head := .oneByte KCF_FILE_HEADER false b
  fragments := []
  isFile := rfl
  chained := (by decide : ¬ (0x80 &&& 0x01 : UInt8) ≠ 0)

/-- A file of one record, with nothing added to it. -/
def empty : StoredFile where
  head :=
    { record := recFix { Record.zero with headType := KCF_FILE_HEADER }
      added := []
      fits := ⟨fun _ => rfl, by decide⟩
      headSize := recFix_headSize_of_fits ⟨fun _ => rfl, by decide⟩
      addedSize := rfl }
  fragments := []
  isFile := rfl
  chained := by decide

/-- A file of a record and a fragment, with nothing added to either. -/
def twoRecords : StoredFile where
  head :=
    { record := recFix { Record.zero with headType := KCF_FILE_HEADER, headFlags := 0x01 }
      added := []
      fits := ⟨fun _ => rfl, by decide⟩
      headSize := recFix_headSize_of_fits ⟨fun _ => rfl, by decide⟩
      addedSize := rfl }
  fragments :=
    [{ record := recFix { Record.zero with headType := KCF_DATA_FRAGMENT }
       added := []
       fits := ⟨fun _ => rfl, by decide⟩
       headSize := recFix_headSize_of_fits ⟨fun _ => rfl, by decide⟩
       addedSize := rfl }]
  isFile := rfl
  chained := by decide

end StoredFile

namespace KCF

variable {kcf k k' : KCF} {R : Record}

/-- What belongs to the unpacker is the same in both handles. -/
structure SameFile (kcf k : KCF) : Prop where
  lastRecord : k.lastRecord = kcf.lastRecord
  currentFile : k.currentFile = kcf.currentFile
  isWriting : k.isWriting = kcf.isWriting
  packerState : k.packerState = kcf.packerState

theorem SameFile.refl (kcf : KCF) : kcf.SameFile kcf := ⟨rfl, rfl, rfl, rfl⟩

theorem SameFile.trans (h : kcf.SameFile k) (h' : k.SameFile k') : kcf.SameFile k' :=
  ⟨h'.lastRecord.trans h.lastRecord, h'.currentFile.trans h.currentFile,
    h'.isWriting.trans h.isWriting, h'.packerState.trans h.packerState⟩

theorem SameFile.unpackerState (h : kcf.SameFile k) : k.unpackerState = kcf.unpackerState :=
  congrArg PackerState.toUnpacker h.packerState

theorem readRecordHeader_sameFile (kcf : KCF) (R : Record) :
    kcf.SameFile (kcf.readRecordHeader R).2.1 := by
  have hc := kcf.readRecordHeader_cases R
  generalize kcf.readRecordHeader R = x at hc
  cases hc with
  | failed => exact ⟨rfl, rfl, rfl, rfl⟩
  | delivered => exact ⟨rfl, rfl, rfl, rfl⟩

theorem readRecordData_sameFile (kcf : KCF) (R : Record) (size : ℕ) :
    kcf.SameFile (kcf.readRecordData R size).2.1 := by
  unfold readRecordData
  rcases malloc kcf.heap size with ⟨_ | block, heap⟩
  · exact ⟨rfl, rfl, rfl, rfl⟩
  · rcases ioRead kcf.stream size with ⟨ret, bytes, stream⟩
    dsimp only
    split
    · exact ⟨rfl, rfl, rfl, rfl⟩
    · exact ⟨rfl, rfl, rfl, rfl⟩

theorem readRecord_sameFile (kcf : KCF) (R : Record) :
    kcf.SameFile (kcf.readRecord (some R)).2.1 := by
  by_cases hp : kcf.parserState = .readRecordHeader
  · obtain ⟨h₁, h₂, h₃, h₄⟩ := kcf.cleared.readRecordHeader_sameFile R
    have hh : kcf.SameFile (kcf.cleared.readRecordHeader R).2.1 := ⟨h₁, h₂, h₃, h₄⟩
    rw [readRecord_of_header hp]
    generalize kcf.cleared.readRecordHeader R = x at hh
    obtain ⟨e, k, R', n⟩ := x
    cases e with
    | ok => exact hh.trans (readRecordData_sameFile k R' (toSize (R'.headSize.toNat - n)))
    | _ => exact hh
  · rw [readRecord_of_ne hp]
    exact .refl _

theorem readAddedData_sameFile {n : ℕ} {r : KcfError × KCF × List UInt8 × Option ℕ}
    (h : kcf.readAddedData (some n) = .ok r) : kcf.SameFile r.2.1 := by
  by_cases hp : kcf.parserState = .readAddedData
  · rw [readAddedData_of_added hp] at h
    split at h
    · cases h
      exact ⟨rfl, rfl, rfl, rfl⟩
    · unfold readAvailable at h
      rcases ioRead kcf.stream (min n kcf.availableAddedData.toNat) with ⟨ret, bytes, stream⟩
      dsimp only at h
      split at h
      · cases h
        exact ⟨rfl, rfl, rfl, rfl⟩
      · split at h
        · cases h
        · cases h
          unfold consumed
          dsimp only
          split
          · exact ⟨rfl, rfl, rfl, rfl⟩
          · exact ⟨rfl, rfl, rfl, rfl⟩
  · rw [readAddedData_of_ne hp] at h
    cases h
    exact .refl _

end KCF

end Kcf
