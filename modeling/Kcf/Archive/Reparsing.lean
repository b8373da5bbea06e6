import Mathlib.Data.List.TakeWhile
import Kcf.Archive.Parsing

/-! # Metadata laid out and parsed back

The data of a file record as a function of the metadata. The parser takes from
it what it says about the fields that are there; a field that is not there, and
the type of the file, stay as they were.
-/

namespace Kcf

open LittleEndian

namespace FileInfo

/-- The metadata as the data of a record: the fields, the length of the name and the name. -/
def laidOut (info : FileInfo) (name : List UInt8) : List UInt8 :=
  info.fields ++ encode 2 (strlen name) ++ name.take (strlen name)

/-- The size of eight bytes is one way in which there is a size. -/
def Consistent (info : FileInfo) : Prop :=
  info.hasUnpackedSize8 = true → info.hasUnpackedSize = true

/-- The metadata with another's as far as that is laid out. -/
def recovered (info source : FileInfo) (name : List UInt8) : FileInfo :=
  { info with
    timeStamp := if source.hasTimeStamp then source.timeStamp else info.timeStamp
    unpackedSize :=
      if source.unpackedSizeWidth = 0 then info.unpackedSize
      else UInt64.ofNat (source.unpackedSize.toNat % 256 ^ source.unpackedSizeWidth)
    fileName := some (name.take (strlen name))
    fileCRC32 := if source.hasFileCRC32 then source.fileCRC32 else info.fileCRC32
    compressionInfo := source.compressionInfo
    hasTimeStamp := source.hasTimeStamp
    hasFileCRC32 := source.hasFileCRC32
    hasUnpackedSize := source.hasUnpackedSize
    hasUnpackedSize8 := source.hasUnpackedSize8 }

end FileInfo

variable {info : FileInfo} {name : List UInt8}

theorem fileCRCWidth_fileFlags (info : FileInfo) :
    fileCRCWidth (fileFlags info) = if info.hasFileCRC32 then 4 else 0 := by
  unfold fileCRCWidth fileFlags
  cases info.hasTimeStamp <;> cases info.hasFileCRC32 <;> cases info.hasUnpackedSize <;>
    cases info.hasUnpackedSize8 <;> rfl

theorem timeStampWidth_fileFlags (info : FileInfo) :
    timeStampWidth (fileFlags info) = if info.hasTimeStamp then 8 else 0 := by
  unfold timeStampWidth fileFlags
  cases info.hasTimeStamp <;> cases info.hasFileCRC32 <;> cases info.hasUnpackedSize <;>
    cases info.hasUnpackedSize8 <;> rfl

theorem FileInfo.Consistent.cases (h : info.Consistent) :
    info.hasUnpackedSize = true ∨ info.hasUnpackedSize = false ∧ info.hasUnpackedSize8 = false := by
  cases hu : info.hasUnpackedSize with
  | true => exact .inl rfl
  | false =>
    have h₈ : info.hasUnpackedSize8 ≠ true := fun h' => Bool.false_ne_true (hu ▸ h h')
    exact .inr ⟨rfl, Bool.eq_false_iff.mpr h₈⟩

theorem unpackedWidth_fileFlags (h : info.Consistent) :
    unpackedWidth (fileFlags info) = info.unpackedSizeWidth := by
  unfold unpackedWidth fileFlags FileInfo.unpackedSizeWidth
  rcases h.cases with hu | ⟨hu, h₈⟩
  · rw [hu]
    cases info.hasTimeStamp <;> cases info.hasFileCRC32 <;> cases info.hasUnpackedSize8 <;> rfl
  · rw [hu, h₈]
    cases info.hasTimeStamp <;> cases info.hasFileCRC32 <;> rfl

theorem flagged_fileFlags (h : info.Consistent) (info₀ : FileInfo) :
    info₀.flagged (fileFlags info) =
      { info₀ with
        hasTimeStamp := info.hasTimeStamp
        hasFileCRC32 := info.hasFileCRC32
        hasUnpackedSize := info.hasUnpackedSize
        hasUnpackedSize8 := info.hasUnpackedSize8 } := by
  unfold FileInfo.flagged fileFlags
  rcases h.cases with hu | ⟨hu, h₈⟩
  · rw [hu]
    cases info.hasTimeStamp <;> cases info.hasFileCRC32 <;> cases info.hasUnpackedSize8 <;> rfl
  · rw [hu, h₈]
    cases info.hasTimeStamp <;> cases info.hasFileCRC32 <;> rfl

namespace FileInfo

theorem laidOut_eq (info : FileInfo) (name : List UInt8) :
    info.laidOut name = (encode 1 (fileFlags info).toNat ++ encode 1 info.fileType.toNat) ++
      (encode info.unpackedSizeWidth info.unpackedSize.toNat ++
        (encode (if info.hasFileCRC32 then 4 else 0) info.fileCRC32.toNat ++
          (encode 4 info.compressionInfo.toNat ++
            (encode (if info.hasTimeStamp then 8 else 0) info.timeStamp.toNat ++
              (encode 2 (strlen name) ++ name.take (strlen name)))))) := by
  simp only [laidOut, fields, List.append_assoc]

theorem length_laidOut (info : FileInfo) (name : List UInt8) :
    (info.laidOut name).length = info.fields.length + 2 + strlen name := by
  simp only [laidOut, List.length_append, length_encode, List.length_take,
    Nat.min_eq_left (strlen_le name)]

theorem length_fields (info : FileInfo) :
    info.fields.length = 2 + info.unpackedSizeWidth + (if info.hasFileCRC32 then 4 else 0) + 4 +
      if info.hasTimeStamp then 8 else 0 := by
  simp only [fields, List.length_append, length_encode]

theorem fileFlagsAt_laidOut (info : FileInfo) (name : List UInt8) :
    fileFlagsAt (info.laidOut name) = fileFlags info := by
  have hlt : (fileFlags info).toNat < 256 ^ 1 := (fileFlags info).toNat_lt
  rw [fileFlagsAt, laidOut_eq, List.append_assoc, field_encode_append, Nat.mod_eq_of_lt hlt,
    UInt8.ofNat_toNat]

/-- The bits of the flags byte are those of the format. -/
theorem field_fileFlags (info : FileInfo) (name : List UInt8) :
    field (info.laidOut name) 0 1 =
      (if info.hasTimeStamp then 0x01 else 0) + (if info.hasFileCRC32 then 0x02 else 0) +
        (if info.hasUnpackedSize || info.hasUnpackedSize8 then 0x04 else 0) +
        if info.hasUnpackedSize8 then 0x08 else 0 := by
  have hlt : (fileFlags info).toNat < 256 ^ 1 := (fileFlags info).toNat_lt
  rw [laidOut_eq, List.append_assoc, field_encode_append, Nat.mod_eq_of_lt hlt]
  unfold fileFlags
  cases info.hasTimeStamp <;> cases info.hasFileCRC32 <;> cases info.hasUnpackedSize <;>
    cases info.hasUnpackedSize8 <;> rfl

theorem field_fileType (info : FileInfo) (name : List UInt8) :
    field (info.laidOut name) 1 1 = info.fileType.toNat := by
  have hlt : info.fileType.toNat < 256 ^ 1 := info.fileType.toNat_lt
  rw [laidOut_eq, List.append_assoc, field_encode_middle (v := 1) rfl, Nat.mod_eq_of_lt hlt]

theorem field_unpackedSize (info : FileInfo) (name : List UInt8) :
    field (info.laidOut name) 2 info.unpackedSizeWidth =
      info.unpackedSize.toNat % 256 ^ info.unpackedSizeWidth := by
  rw [laidOut_eq, field_encode_middle (v := 2) rfl]

theorem field_fileCRC (h : info.hasFileCRC32 = true) (name : List UInt8) :
    field (info.laidOut name) (2 + info.unpackedSizeWidth) 4 = info.fileCRC32.toNat := by
  have hlt : info.fileCRC32.toNat < 256 ^ 4 := info.fileCRC32.toNat_lt
  rw [laidOut_eq, if_pos h, ← List.append_assoc, field_encode_middle, Nat.mod_eq_of_lt hlt]
  simp only [List.length_append, length_encode]

theorem field_compressionInfo (info : FileInfo) (name : List UInt8) :
    field (info.laidOut name)
        (2 + info.unpackedSizeWidth + if info.hasFileCRC32 then 4 else 0) 4 =
      info.compressionInfo.toNat := by
  have hlt : info.compressionInfo.toNat < 256 ^ 4 := info.compressionInfo.toNat_lt
  rw [laidOut_eq, ← List.append_assoc, ← List.append_assoc, field_encode_middle,
    Nat.mod_eq_of_lt hlt]
  simp only [List.length_append, length_encode]

theorem field_timeStamp (h : info.hasTimeStamp = true) (name : List UInt8) :
    field (info.laidOut name)
        (2 + info.unpackedSizeWidth + (if info.hasFileCRC32 then 4 else 0) + 4) 8 =
      info.timeStamp.toNat := by
  have hlt : info.timeStamp.toNat < 256 ^ 8 := info.timeStamp.toNat_lt
  rw [laidOut_eq, if_pos h, ← List.append_assoc, ← List.append_assoc, ← List.append_assoc,
    field_encode_middle, Nat.mod_eq_of_lt hlt]
  simp only [List.length_append, length_encode]

theorem field_nameSize (info : FileInfo) (h : strlen name < 65536) :
    field (info.laidOut name) info.fields.length 2 = strlen name := by
  rw [laidOut, List.append_assoc, field_encode_middle rfl]
  exact Nat.mod_eq_of_lt h

theorem drop_laidOut (info : FileInfo) (name : List UInt8) :
    (info.laidOut name).drop (info.fields.length + 2) = name.take (strlen name) := by
  apply List.drop_left'
  rw [List.length_append, length_encode]

end FileInfo

theorem nameSizeOffset_laidOut (h : info.Consistent) (name : List UInt8) :
    nameSizeOffset (fileFlagsAt (info.laidOut name)) = info.fields.length := by
  rw [info.fileFlagsAt_laidOut, nameSizeOffset, unpackedWidth_fileFlags h, fileCRCWidth_fileFlags,
    timeStampWidth_fileFlags, info.length_fields]

theorem nameOffset_laidOut (h : info.Consistent) (name : List UInt8) :
    nameOffset (info.laidOut name) = info.fields.length + 2 := by
  rw [nameOffset, nameSizeOffset_laidOut h]

theorem nameSizeAt_laidOut (h : info.Consistent) (hlt : strlen name < 65536) :
    nameSizeAt (info.laidOut name) = strlen name := by
  rw [nameSizeAt, nameSizeOffset_laidOut h, info.field_nameSize hlt]

/-- What a layout says is the metadata it was made from, as far as that is laid out. -/
theorem parsed_laidOut (h : info.Consistent) (hlt : strlen name < 65536) (info₀ : FileInfo) :
    info₀.parsed (info.laidOut name) = info₀.recovered info name := by
  have hn : (((info.laidOut name).drop (nameOffset (info.laidOut name))).take
      (nameSizeAt (info.laidOut name))) = name.take (strlen name) := by
    rw [nameOffset_laidOut h, nameSizeAt_laidOut h hlt, info.drop_laidOut, List.take_take,
      Nat.min_self]
  have ht : (fileFlags info &&& KCF_FILE_HAS_TIMESTAMP != 0) = info.hasTimeStamp :=
    congrArg FileInfo.hasTimeStamp (flagged_fileFlags h info)
  have hc : (fileFlags info &&& KCF_FILE_HAS_FILE_CRC32 != 0) = info.hasFileCRC32 :=
    congrArg FileInfo.hasFileCRC32 (flagged_fileFlags h info)
  have hcrc : (if info.hasFileCRC32 then
      UInt32.ofNat (field (info.laidOut name) (2 + info.unpackedSizeWidth) 4)
      else info₀.fileCRC32) = if info.hasFileCRC32 then info.fileCRC32 else info₀.fileCRC32 := by
    refine ite_congr rfl (fun hp => ?_) fun _ => rfl
    rw [info.field_fileCRC hp, UInt32.ofNat_toNat]
  have htime : (if info.hasTimeStamp then
      UInt64.ofNat (field (info.laidOut name)
        (2 + info.unpackedSizeWidth + (if info.hasFileCRC32 then 4 else 0) + 4) 8)
      else info₀.timeStamp) = if info.hasTimeStamp then info.timeStamp else info₀.timeStamp := by
    refine ite_congr rfl (fun hp => ?_) fun _ => rfl
    rw [info.field_timeStamp hp, UInt64.ofNat_toNat]
  unfold FileInfo.parsed
  simp only [hn, info.fileFlagsAt_laidOut, flagged_fileFlags h, unpackedWidth_fileFlags h,
    fileCRCWidth_fileFlags, info.field_unpackedSize, info.field_compressionInfo,
    UInt32.ofNat_toNat, ht, hc, hcrc, htime]
  rfl

theorem take_strlen (name : List UInt8) : name.take (strlen name) = name.takeWhile (· ≠ 0) :=
  (List.prefix_iff_eq_take.mp (List.takeWhile_prefix _)).symm

theorem strlen_take_strlen (name : List UInt8) :
    strlen (name.take (strlen name)) = strlen name := by
  rw [take_strlen, strlen, List.takeWhile_idem]
  rfl

theorem strlen_eq_length (h : 0 ∉ name) : strlen name = name.length := by
  unfold strlen
  rw [List.takeWhile_eq_self_iff.mpr]
  intro b hb
  exact decide_eq_true fun hz => h (hz ▸ hb)

/-- A valid file record with the metadata's layout for its data. Every field has been written: one
that had not would have left the name at a smaller offset. -/
structure Serialises (info : FileInfo) (name : List UInt8) (R R' : Record) : Prop where
  headType : R'.headType = KCF_FILE_HEADER
  headFlags : R'.headFlags = R.headFlags
  data : R'.data = some (info.laidOut name)
  dataSize : R'.dataSize = getFileInfoDataSize info
  valid : recValidate R' = true
  fits : R'.headSize.toNat = headerLength R.headFlags + R'.dataSize
  written : ∀ block, block.length = R'.dataSize →
    (writeU16LE R'.dataSize (writeFileInfo info R'.dataSize ⟨block, 0⟩)
      (UInt16.ofNat (strlen name))).2.offset + name.length = R'.dataSize

/-- The metadata agrees with another in what that has. -/
structure FileInfo.Recovers (info got : FileInfo) : Prop where
  presence : got.hasTimeStamp = info.hasTimeStamp ∧ got.hasFileCRC32 = info.hasFileCRC32 ∧
    got.hasUnpackedSize = info.hasUnpackedSize ∧ got.hasUnpackedSize8 = info.hasUnpackedSize8
  compressionInfo : got.compressionInfo = info.compressionInfo
  fileName : got.fileName = info.fileName
  unpackedSize : info.hasUnpackedSize = true → got.unpackedSize = info.unpackedSize
  fileCRC32 : info.hasFileCRC32 = true → got.fileCRC32 = info.fileCRC32
  timeStamp : info.hasTimeStamp = true → got.timeStamp = info.timeStamp

variable {R : Record} {heap heap₀ : Heap}

/-- The record into which metadata is laid out. -/
def serialised (R : Record) (info : FileInfo) (name : List UInt8) : Record :=
  recFix ({ R with headType := KCF_FILE_HEADER }.withData (info.laidOut name))

theorem toInt_strlen (hfit : (info.laidOut name).length ≤ 65535) :
    toInt (strlen name) = strlen name := by
  rw [info.length_laidOut] at hfit
  apply toInt_of_le
  unfold INT_MAX
  omega

theorem getFileInfoDataSize_laidOut (hname : info.fileName = some name)
    (hfit : (info.laidOut name).length ≤ 65535) :
    getFileInfoDataSize info = (info.laidOut name).length := by
  rw [getFileInfoDataSize_eq hname, toInt_strlen hfit, info.length_laidOut]
  push_cast
  rfl

theorem recordToFileInfo_laidOut (hname : info.fileName = some name)
    (hfit : (info.laidOut name).length ≤ 65535) (hm : (heap 0).isSome) (R : Record) :
    recordToFileInfo R info heap = .ok (.ok, serialised R info name, heap.next) := by
  have hint := toInt_strlen hfit
  have hfits : info.Fits := by
    refine ⟨⟨name, hname, hint ▸ Int.natCast_nonneg _⟩, ?_⟩
    rw [getFileInfoDataSize_laidOut hname hfit]
    unfold INT_MAX
    omega
  rw [recordToFileInfo_eq hfits hname hm, hint, Int.toNat_natCast]
  rfl

theorem fileInfoToRecord_laidOut (hv : recValidate R = true) (ht : R.headType = KCF_FILE_HEADER)
    (hd : R.data = some (info.laidOut name)) (h : info.Consistent) (hlt : strlen name < 65536)
    (hm : (heap 0).isSome) (info₀ : FileInfo) :
    fileInfoToRecord info₀ R heap = .ok (.ok, info₀.recovered info name, heap.next) := by
  have hlen := info.length_laidOut name
  rw [fileInfoToRecord_eq hv ht hd, parsed_laidOut h hlt, nameOffset_laidOut h,
    if_pos (by omega), nameSizeOffset_laidOut h, nameResult_some hm, info.field_nameSize hlt,
    if_pos (by omega), info.drop_laidOut, List.take_take, Nat.min_self]
  rfl

theorem fileInfoToRecord_serialised (h : info.Consistent)
    (hfit : (info.laidOut name).length ≤ 65535) (hm : (heap 0).isSome) (R : Record)
    (info₀ : FileInfo) :
    fileInfoToRecord info₀ (serialised R info name) heap =
      .ok (.ok, info₀.recovered info name, heap.next) := by
  rw [info.length_laidOut] at hfit
  exact fileInfoToRecord_laidOut (recValidate_recFix _) rfl rfl h (by omega) hm info₀

theorem serialises_serialised (hname : info.fileName = some name) (hz : 0 ∉ name)
    (hfit : headerLength R.headFlags + (info.laidOut name).length ≤ 65535) :
    Serialises info name R (serialised R info name) where
  headType := rfl
  headFlags := rfl
  data := rfl
  dataSize := (getFileInfoDataSize_laidOut hname (by omega)).symm
  valid := recValidate_recFix _
  fits := recFix_headSize_of_fits ⟨by rintro ⟨⟩, hfit⟩
  written block hblock := by
    have hlen := info.length_laidOut name
    have hsize : (serialised R info name).dataSize = (info.laidOut name).length := rfl
    rw [hsize] at hblock ⊢
    have h₀ : (⟨block, 0⟩ : Cursor).Wrote (info.laidOut name).length [] := ⟨hblock, rfl, rfl⟩
    have hfields := writeFileInfo_wrote info h₀ (by omega)
    obtain ⟨c, hc, hwrote⟩ := hfields.writeBytes (encode 2 (UInt16.ofNat (strlen name)).toNat)
      (by rw [length_encode]; omega)
    rw [writeU16LE_eq, hc, hwrote.offset, List.length_append, length_encode, hlen,
      strlen_eq_length hz]

theorem FileInfo.unpackedSize_recovered (info₀ : FileInfo) (name : List UInt8)
    (h : info.unpackedSizeWidth ≠ 0) : (info₀.recovered info name).unpackedSize =
      UInt64.ofNat (info.unpackedSize.toNat % 256 ^ info.unpackedSizeWidth) :=
  if_neg h

/-- A size comes back exactly if it is one of the width in which it is laid out. -/
theorem unpackedSize_recovered_iff (hu : info.hasUnpackedSize = true) (info₀ : FileInfo)
    (name : List UInt8) : (info₀.recovered info name).unpackedSize = info.unpackedSize ↔
      (info.hasUnpackedSize8 = false → info.unpackedSize.toNat < 2 ^ 32) := by
  have hlt : info.unpackedSize.toNat < 2 ^ 64 := info.unpackedSize.toNat_lt
  cases h₈ : info.hasUnpackedSize8 with
  | true =>
    have hw : info.unpackedSizeWidth = 8 := by
      rw [FileInfo.unpackedSizeWidth, hu, h₈]
      rfl
    have hn : (info₀.recovered info name).unpackedSize = info.unpackedSize := by
      rw [FileInfo.unpackedSize_recovered info₀ name (by omega), hw]
      exact (congrArg UInt64.ofNat (Nat.mod_eq_of_lt hlt)).trans UInt64.ofNat_toNat
    exact iff_of_true hn fun h => absurd h (by decide)
  | false =>
    have hw : info.unpackedSizeWidth = 4 := by
      rw [FileInfo.unpackedSizeWidth, hu, h₈]
      rfl
    rw [FileInfo.unpackedSize_recovered info₀ name (by omega), hw, ← UInt64.toNat_inj,
      UInt64.toNat_ofNat']
    constructor
    · intro h _
      omega
    · intro h
      have hmod := Nat.mod_eq_of_lt (h rfl)
      omega

theorem recovers_recovered (hname : info.fileName = some name) (hz : 0 ∉ name)
    (hsize : info.hasUnpackedSize8 = false → info.unpackedSize.toNat < 2 ^ 32)
    (info₀ : FileInfo) : info.Recovers (info₀.recovered info name) where
  presence := ⟨rfl, rfl, rfl, rfl⟩
  compressionInfo := rfl
  fileName := by
    change some (name.take (strlen name)) = info.fileName
    rw [strlen_eq_length hz, List.take_length, hname]
  unpackedSize h := (unpackedSize_recovered_iff h info₀ name).mpr hsize
  fileCRC32 h := if_pos h
  timeStamp h := if_pos h

/-- Metadata is laid out in a record byte for byte and recovered from it by parsing. -/
theorem fileInfo_roundTrip (hname : info.fileName = some name) (hz : 0 ∉ name)
    (h : info.Consistent)
    (hsize : info.hasUnpackedSize8 = false → info.unpackedSize.toNat < 2 ^ 32)
    (hfit : headerLength R.headFlags + (info.laidOut name).length ≤ 65535)
    (hm : (heap 0).isSome) :
    ∃ R', recordToFileInfo R info heap = .ok (.ok, R', heap.next) ∧ Serialises info name R R' ∧
      ∀ info₀ heap₀, (heap₀ 0).isSome → ∃ got,
        fileInfoToRecord info₀ R' heap₀ = .ok (.ok, got, heap₀.next) ∧ info.Recovers got := by
  refine ⟨_, recordToFileInfo_laidOut hname (by omega) hm R, serialises_serialised hname hz hfit,
    fun info₀ heap₀ hm₀ => ?_⟩
  exact ⟨_, fileInfoToRecord_serialised h (by omega) hm₀ R info₀,
    recovers_recovered hname hz hsize info₀⟩

/-- Metadata with all fields, and a name of one letter. -/
def allFields (fileType : FileType) : FileInfo where
  timeStamp := 1
  unpackedSize := 2
  fileName := some [0x61]
  fileCRC32 := 3
  compressionInfo := 4
  fileType := fileType
  hasTimeStamp := true
  hasFileCRC32 := true
  hasUnpackedSize := true
  hasUnpackedSize8 := true

theorem fileInfo_roundTrip_allFields :
    ∃ R', recordToFileInfo Record.zero (allFields KCF_FILE_REGULAR) Heap.zeros =
        .ok (.ok, R', Heap.zeros.next) ∧
      Serialises (allFields KCF_FILE_REGULAR) [0x61] Record.zero R' ∧
      ∀ info₀ heap₀, (heap₀ 0).isSome → ∃ got,
        fileInfoToRecord info₀ R' heap₀ = .ok (.ok, got, heap₀.next) ∧
          (allFields KCF_FILE_REGULAR).Recovers got :=
  fileInfo_roundTrip rfl (by decide) (fun _ => rfl) (by decide) (by decide) rfl

variable {S : Record}

/-- Laying the metadata out, parsing it into metadata of zeros and laying that out in the other
record gives the data and the checksum that were parsed. -/
def Reserialises (info : FileInfo) (R S : Record) (heap : Heap) : Prop :=
  ∃ R₁ R₂ got heap₁ heap₂ heap₃, recordToFileInfo R info heap = .ok (.ok, R₁, heap₁) ∧
    fileInfoToRecord FileInfo.zero R₁ heap₁ = .ok (.ok, got, heap₂) ∧
    recordToFileInfo S got heap₂ = .ok (.ok, R₂, heap₃) ∧
    R₂.data = R₁.data ∧ R₂.headCRC = R₁.headCRC

theorem encode_optional {α : Type} (b : Bool) (w : ℕ) (toNat : α → ℕ) (x y : α) :
    encode (if b then w else 0) (toNat (if b then x else y)) =
      encode (if b then w else 0) (toNat x) := by
  cases b <;> rfl

theorem FileInfo.fields_recovered (info₀ info : FileInfo) (name : List UInt8) :
    (info₀.recovered info name).fields = { info with fileType := info₀.fileType }.fields := by
  have hsize : encode info.unpackedSizeWidth (info₀.recovered info name).unpackedSize.toNat =
      encode info.unpackedSizeWidth info.unpackedSize.toNat := by
    by_cases h : info.unpackedSizeWidth = 0
    · rw [h]
      rfl
    · have hlt : info.unpackedSize.toNat % 256 ^ info.unpackedSizeWidth < 2 ^ 64 :=
        lt_of_le_of_lt (Nat.mod_le ..) info.unpackedSize.toNat_lt
      rw [unpackedSize_recovered info₀ name h, UInt64.toNat_ofNat', Nat.mod_eq_of_lt hlt,
        encode_mod]
  have hcrc := encode_optional info.hasFileCRC32 4 UInt32.toNat info.fileCRC32 info₀.fileCRC32
  have htime := encode_optional info.hasTimeStamp 8 UInt64.toNat info.timeStamp info₀.timeStamp
  change encode 1 (fileFlags info).toNat ++ encode 1 info₀.fileType.toNat ++
    encode info.unpackedSizeWidth (info₀.recovered info name).unpackedSize.toNat ++
    encode (if info.hasFileCRC32 then 4 else 0)
      (if info.hasFileCRC32 then info.fileCRC32 else info₀.fileCRC32).toNat ++
    encode 4 info.compressionInfo.toNat ++
    encode (if info.hasTimeStamp then 8 else 0)
      (if info.hasTimeStamp then info.timeStamp else info₀.timeStamp).toNat = _
  rw [hsize, hcrc, htime]
  rfl

theorem FileInfo.laidOut_recovered (info₀ info : FileInfo) (name : List UInt8) :
    (info₀.recovered info name).laidOut (name.take (strlen name)) =
      { info with fileType := info₀.fileType }.laidOut name := by
  unfold laidOut
  rw [fields_recovered, strlen_take_strlen, List.take_take, Nat.min_self]

theorem FileInfo.laidOut_setType_iff (info : FileInfo) (fileType : FileType) (name : List UInt8) :
    { info with fileType := fileType }.laidOut name = info.laidOut name ↔
      info.fileType = fileType := by
  constructor
  · intro h
    have ht := info.field_fileType name
    rw [← h, field_fileType] at ht
    exact (UInt8.toNat_inj.mp ht).symm
  · rintro rfl
    rfl

theorem length_laidOut_setType (info : FileInfo) (fileType : FileType) (name : List UInt8) :
    ({ info with fileType := fileType }.laidOut name).length = (info.laidOut name).length := by
  rw [FileInfo.length_laidOut, FileInfo.length_laidOut, FileInfo.length_fields,
    FileInfo.length_fields]
  rfl

theorem headCRC_serialised (hf : S.headFlags = R.headFlags) (ha : S.addedSize = R.addedSize)
    (hc : S.addedDataCRC32 = R.addedDataCRC32) {info' : FileInfo} {name' : List UInt8}
    (hd : info'.laidOut name' = info.laidOut name) :
    (serialised S info' name').headCRC = (serialised R info name).headCRC := by
  have henc : (serialised S info' name').encode = (serialised R info name).encode := by
    apply encode_recFix_congr
    · rfl
    · exact hf
    · exact ha
    · exact hd
    · exact congrArg List.length hd
    · exact fun _ => hc
  apply UInt16.toNat_inj.mp
  rw [← Record.field_headCRC _ [], henc, Record.field_headCRC]

/-- Laying the metadata out again gives the same record exactly where there is no type to lose. -/
theorem reserialises_iff_fileType (hname : info.fileName = some name) (h : info.Consistent)
    (hfit : headerLength R.headFlags + (info.laidOut name).length ≤ 65535)
    (hm : ∀ i < 3, (heap i).isSome) (hf : S.headFlags = R.headFlags)
    (ha : S.addedSize = R.addedSize) (hc : S.addedDataCRC32 = R.addedDataCRC32) :
    Reserialises info R S heap ↔ info.fileType = 0 := by
  have hagain := FileInfo.laidOut_recovered FileInfo.zero info name
  have hlen : ((FileInfo.zero.recovered info name).laidOut (name.take (strlen name))).length ≤
      65535 := by
    rw [hagain, length_laidOut_setType]
    omega
  have h₁ := recordToFileInfo_laidOut hname (by omega) (hm 0 (by decide)) R
  have h₂ : fileInfoToRecord FileInfo.zero (serialised R info name) heap.next =
      .ok (.ok, FileInfo.zero.recovered info name, heap.next.next) :=
    fileInfoToRecord_serialised h (by omega) (hm 1 (by decide)) R FileInfo.zero
  have h₃ : recordToFileInfo S (FileInfo.zero.recovered info name) heap.next.next =
      .ok (.ok, serialised S (FileInfo.zero.recovered info name) (name.take (strlen name)),
        heap.next.next.next) :=
    recordToFileInfo_laidOut rfl hlen (hm 2 (by decide)) S
  rw [← info.laidOut_setType_iff 0 name]
  constructor
  · rintro ⟨R₁, R₂, got, heap₁, heap₂, heap₃, e₁, e₂, e₃, hd, -⟩
    rw [h₁] at e₁
    cases e₁
    rw [h₂] at e₂
    cases e₂
    rw [h₃] at e₃
    cases e₃
    exact hagain.symm.trans (Option.some.inj hd)
  · intro heq
    exact ⟨_, _, _, _, _, _, h₁, h₂, h₃, congrArg some (hagain.trans heq),
      headCRC_serialised hf ha hc (hagain.trans heq)⟩

/-- Laying the metadata out again gives the same record exactly for a file without a type, and so
for no regular file and for no directory. -/
theorem reserialises_iff (hname : info.fileName = some name) (h : info.Consistent)
    (hfit : headerLength R.headFlags + (info.laidOut name).length ≤ 65535)
    (hm : ∀ i < 3, (heap i).isSome) (hf : S.headFlags = R.headFlags)
    (ha : S.addedSize = R.addedSize) (hc : S.addedDataCRC32 = R.addedDataCRC32) :
    (Reserialises info R S heap ↔ info.fileType = 0) ∧
      (info.fileType = KCF_FILE_REGULAR ∨ info.fileType = KCF_FILE_DIRECTORY →
        ¬ Reserialises info R S heap) := by
  have hiff := reserialises_iff_fileType hname h hfit hm hf ha hc
  refine ⟨hiff, ?_⟩
  rintro (ht | ht) hr
  · exact absurd (ht.symm.trans (hiff.mp hr)) (by decide)
  · exact absurd (ht.symm.trans (hiff.mp hr)) (by decide)

theorem reserialises_iff_allFields :
    Reserialises (allFields 0) Record.zero Record.zero Heap.zeros ∧
      ¬ Reserialises (allFields KCF_FILE_REGULAR) Record.zero Record.zero Heap.zeros ∧
      ¬ Reserialises (allFields KCF_FILE_DIRECTORY) Record.zero Record.zero Heap.zeros := by
  have hname (t : FileType) : (allFields t).fileName = some [0x61] := rfl
  refine ⟨(reserialises_iff (hname 0) ?_ ?_ ?_ rfl rfl rfl).1.mpr rfl,
    (reserialises_iff (hname _) ?_ ?_ ?_ rfl rfl rfl).2 (.inl rfl),
    (reserialises_iff (hname _) ?_ ?_ ?_ rfl rfl rfl).2 (.inr rfl)⟩
  iterate 3
    · exact fun _ => rfl
    · decide
    · exact fun _ _ => rfl

/-- The type of a regular file is lost. -/
theorem regular_not_reserialised :
    ¬ Reserialises (allFields KCF_FILE_REGULAR) Record.zero Record.zero Heap.zeros := by
  have hname : (allFields KCF_FILE_REGULAR).fileName = some [0x61] := rfl
  have hiff : Reserialises (allFields KCF_FILE_REGULAR) Record.zero Record.zero Heap.zeros ↔
      (allFields KCF_FILE_REGULAR).fileType = 0 :=
    reserialises_iff_fileType hname (fun _ => rfl) (by decide) (fun _ _ => rfl) rfl rfl rfl
  intro h
  exact absurd (hiff.mp h) (by decide)

end Kcf
