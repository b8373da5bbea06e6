import Kcf.Archive.Metadata

/-! # Parsing metadata

What the data of a file record says, as a function of its bytes, and when the
parser takes it from there. It looks at the result of none of its reads, nor at
whether the name is as long as it is said to be: of a record that is too short
for the fields its flags announce it uses values that were never set, and of one
that is too short for its name it copies what lies behind it.
-/

namespace Kcf

open LittleEndian

/-- The width of the `UnpackedSize` field that the flags announce. -/
def unpackedWidth (flags : UInt8) : ℕ :=
  if flags &&& KCF_FILE_HAS_UNPACKED_8 = KCF_FILE_HAS_UNPACKED_8 then 8
  else if flags &&& KCF_FILE_HAS_UNPACKED_8 = KCF_FILE_HAS_UNPACKED_4 then 4
  else 0

/-- The width of the `FileCRC32` field that the flags announce. -/
def fileCRCWidth (flags : UInt8) : ℕ := if flags &&& KCF_FILE_HAS_FILE_CRC32 != 0 then 4 else 0

/-- The width of the `TimeStamp` field that the flags announce. -/
def timeStampWidth (flags : UInt8) : ℕ := if flags &&& KCF_FILE_HAS_TIMESTAMP != 0 then 8 else 0

/-- The offset of the `FileNameSize` field. -/
def nameSizeOffset (flags : UInt8) : ℕ :=
  2 + unpackedWidth flags + fileCRCWidth flags + 4 + timeStampWidth flags

/-- The flags of the metadata in a byte string. -/
def fileFlagsAt (d : List UInt8) : UInt8 := UInt8.ofNat (field d 0 1)

def nameOffset (d : List UInt8) : ℕ := nameSizeOffset (fileFlagsAt d) + 2

def nameSizeAt (d : List UInt8) : ℕ := field d (nameSizeOffset (fileFlagsAt d)) 2

/-- The metadata with the presence of its fields as the flags announce it. -/
def FileInfo.flagged (info : FileInfo) (flags : UInt8) : FileInfo :=
  { info with
    hasTimeStamp := flags &&& KCF_FILE_HAS_TIMESTAMP != 0
    hasFileCRC32 := flags &&& KCF_FILE_HAS_FILE_CRC32 != 0
    hasUnpackedSize := flags &&& KCF_FILE_HAS_UNPACKED_4 != 0
    hasUnpackedSize8 := flags &&& KCF_FILE_HAS_UNPACKED_8 == KCF_FILE_HAS_UNPACKED_8 }

/-- The metadata that a byte string says; fields that are absent stay. -/
def FileInfo.parsed (info : FileInfo) (d : List UInt8) : FileInfo :=
  let flags := fileFlagsAt d
  let o := 2 + unpackedWidth flags
  { info.flagged flags with
    unpackedSize :=
      if unpackedWidth flags = 0 then info.unpackedSize
      else UInt64.ofNat (field d 2 (unpackedWidth flags))
    fileCRC32 :=
      if flags &&& KCF_FILE_HAS_FILE_CRC32 != 0 then UInt32.ofNat (field d o 4)
      else info.fileCRC32
    compressionInfo := UInt32.ofNat (field d (o + fileCRCWidth flags) 4)
    timeStamp :=
      if flags &&& KCF_FILE_HAS_TIMESTAMP != 0 then
        UInt64.ofNat (field d (o + fileCRCWidth flags + 4) 8)
      else info.timeStamp
    fileName := some ((d.drop (nameOffset d)).take (nameSizeAt d)) }

section Reads

variable {size : ℕ} {c : Cursor}

theorem readField_eq {α : Type} {read : ℕ → Cursor → Option α × Cursor} {w : ℕ} {value : α}
    (hle : c.offset + w ≤ size → read size c = (some value, { c with offset := c.offset + w }))
    (hlt : size < c.offset + w → (read size c).1 = none) :
    readField read size c =
      if c.offset + w ≤ size then .ok (value, { c with offset := c.offset + w })
      else .error .unset := by
  unfold readField
  split_ifs with h
  · rw [hle h]
  · have hnone := hlt (not_le.mp h)
    rcases hr : read size c with ⟨_ | value', c'⟩
    · rfl
    · rw [hr] at hnone
      cases hnone

theorem readField_u8 (size : ℕ) (c : Cursor) : readField readU8 size c =
    if c.offset + 1 ≤ size then
      .ok (UInt8.ofNat (field c.buffer c.offset 1), { c with offset := c.offset + 1 })
    else .error .unset :=
  readField_eq (readU8_of_le size) fun h => by rw [readU8_short h]

theorem readField_u16 (size : ℕ) (c : Cursor) : readField readU16LE size c =
    if c.offset + 2 ≤ size then
      .ok (UInt16.ofNat (field c.buffer c.offset 2), { c with offset := c.offset + 2 })
    else .error .unset :=
  readField_eq (readU16LE_of_le size) readU16LE_short

theorem readField_u32 (size : ℕ) (c : Cursor) : readField readU32LE size c =
    if c.offset + 4 ≤ size then
      .ok (UInt32.ofNat (field c.buffer c.offset 4), { c with offset := c.offset + 4 })
    else .error .unset :=
  readField_eq (readU32LE_of_le size) readU32LE_short

theorem readField_u64 (size : ℕ) (c : Cursor) : readField readU64LE size c =
    if c.offset + 8 ≤ size then
      .ok (UInt64.ofNat (field c.buffer c.offset 8), { c with offset := c.offset + 8 })
    else .error .unset :=
  readField_eq (readU64LE_of_le size) readU64LE_short

end Reads

section Parts

variable (info : FileInfo) (heap : Heap) (d : List UInt8)

def parseName (c : Cursor) : Exec (KcfError × FileInfo × Heap) := do
  let (fileNameSize, c) ← readField readU16LE d.length c
  match malloc heap (fileNameSize.toNat + 1) with
  | (none, heap) => return (.outOfMemory, { info with fileName := none }, heap)
  | (some _, heap) =>
    if d.length < c.offset + fileNameSize.toNat then .error .outOfBounds
    else
      let fileName := (d.drop c.offset).take fileNameSize.toNat
      return (.ok, { info with fileName := some fileName }, heap)

def parseTimeStamp (c : Cursor) : Exec (KcfError × FileInfo × Heap) := do
  let (timeStamp, c) ←
    if info.hasTimeStamp then readField readU64LE d.length c else pure (info.timeStamp, c)
  parseName { info with timeStamp := timeStamp } heap d c

def parseCompressionInfo (c : Cursor) : Exec (KcfError × FileInfo × Heap) := do
  let (compressionInfo, c) ← readField readU32LE d.length c
  parseTimeStamp { info with compressionInfo := compressionInfo } heap d c

def parseFileCRC (c : Cursor) : Exec (KcfError × FileInfo × Heap) := do
  let (fileCRC32, c) ←
    if info.hasFileCRC32 then readField readU32LE d.length c else pure (info.fileCRC32, c)
  parseCompressionInfo { info with fileCRC32 := fileCRC32 } heap d c

def parseUnpackedSize (flags : UInt8) (c : Cursor) : Exec (KcfError × FileInfo × Heap) := do
  let (unpackedSize, c) ←
    if flags &&& KCF_FILE_HAS_UNPACKED_8 = KCF_FILE_HAS_UNPACKED_8 then
      readField readU64LE d.length c
    else if flags &&& KCF_FILE_HAS_UNPACKED_8 = KCF_FILE_HAS_UNPACKED_4 then do
      let (tmp4, c) ← readField readU32LE d.length c
      pure (tmp4.toUInt64, c)
    else pure (info.unpackedSize, c)
  parseFileCRC { info with unpackedSize := unpackedSize } heap d c

end Parts

variable {R : Record} {info : FileInfo} {heap : Heap} {d : List UInt8} {o : ℕ}

/-- What the parser makes of a name whose length stands at the offset. -/
def nameResult (info : FileInfo) (heap : Heap) (d : List UInt8) (o : ℕ) :
    Exec (KcfError × FileInfo × Heap) :=
  match malloc heap (field d o 2 + 1) with
  | (none, heap) => .ok (.outOfMemory, { info with fileName := none }, heap)
  | (some _, heap) =>
    if d.length < o + 2 + field d o 2 then .error .outOfBounds
    else
      .ok (.ok, { info with fileName := some ((d.drop (o + 2)).take (field d o 2)) }, heap)

theorem parseName_eq (info : FileInfo) (heap : Heap) (d : List UInt8) (o : ℕ) :
    parseName info heap d ⟨d, o⟩ =
      if o + 2 ≤ d.length then nameResult info heap d o else .error .unset := by
  have hlt : field d o 2 < 65536 := field_lt ..
  have hsize : (UInt16.ofNat (field d o 2)).toNat = field d o 2 := by
    rw [UInt16.toNat_ofNat']
    omega
  unfold parseName nameResult
  rw [readField_u16, Exec.ite_bind]
  simp only [hsize]
  rfl

theorem ite_ite_of_imp {α : Type} {p q : Prop} [Decidable p] [Decidable q] (h : q → p) (x y : α) :
    (if p then if q then x else y else y) = if q then x else y := by
  rw [← ite_and]
  exact if_congr (and_iff_right_of_imp h) rfl rfl

-- Each part of the parser goes on where the data reaches the end of the name's length.
theorem parseTimeStamp_eq (info : FileInfo) (heap : Heap) (d : List UInt8) (o : ℕ) :
    parseTimeStamp info heap d ⟨d, o⟩ =
      if o + (if info.hasTimeStamp then 8 else 0) + 2 ≤ d.length then
        nameResult
          { info with
            timeStamp :=
              if info.hasTimeStamp then UInt64.ofNat (field d o 8) else info.timeStamp }
          heap d (o + if info.hasTimeStamp then 8 else 0)
      else .error .unset := by
  unfold parseTimeStamp
  by_cases h : info.hasTimeStamp = true
  · simp only [if_pos h]
    rw [readField_u64, Exec.ite_bind]
    simp only [parseName_eq]
    apply ite_ite_of_imp
    omega
  · simp only [if_neg h]
    exact parseName_eq ..

theorem parseCompressionInfo_eq (info : FileInfo) (heap : Heap) (d : List UInt8) (o : ℕ) :
    parseCompressionInfo info heap d ⟨d, o⟩ =
      if o + 4 + (if info.hasTimeStamp then 8 else 0) + 2 ≤ d.length then
        nameResult
          { info with
            compressionInfo := UInt32.ofNat (field d o 4)
            timeStamp :=
              if info.hasTimeStamp then UInt64.ofNat (field d (o + 4) 8) else info.timeStamp }
          heap d (o + 4 + if info.hasTimeStamp then 8 else 0)
      else .error .unset := by
  unfold parseCompressionInfo
  rw [readField_u32, Exec.ite_bind]
  simp only [parseTimeStamp_eq]
  apply ite_ite_of_imp
  omega

theorem parseFileCRC_eq (info : FileInfo) (heap : Heap) (d : List UInt8) (o : ℕ) :
    parseFileCRC info heap d ⟨d, o⟩ =
      let v := o + if info.hasFileCRC32 then 4 else 0
      if v + 4 + (if info.hasTimeStamp then 8 else 0) + 2 ≤ d.length then
        nameResult
          { info with
            fileCRC32 :=
              if info.hasFileCRC32 then UInt32.ofNat (field d o 4) else info.fileCRC32
            compressionInfo := UInt32.ofNat (field d v 4)
            timeStamp :=
              if info.hasTimeStamp then UInt64.ofNat (field d (v + 4) 8) else info.timeStamp }
          heap d (v + 4 + if info.hasTimeStamp then 8 else 0)
      else .error .unset := by
  unfold parseFileCRC
  by_cases h : info.hasFileCRC32 = true
  · simp only [if_pos h]
    rw [readField_u32, Exec.ite_bind]
    simp only [parseCompressionInfo_eq]
    apply ite_ite_of_imp
    omega
  · simp only [if_neg h]
    exact parseCompressionInfo_eq ..

theorem parseUnpackedSize_eq (info : FileInfo) (heap : Heap) (d : List UInt8) (flags : UInt8)
    (o : ℕ) :
    parseUnpackedSize info heap d flags ⟨d, o⟩ =
      let u := o + unpackedWidth flags
      let v := u + if info.hasFileCRC32 then 4 else 0
      if v + 4 + (if info.hasTimeStamp then 8 else 0) + 2 ≤ d.length then
        nameResult
          { info with
            unpackedSize :=
              if unpackedWidth flags = 0 then info.unpackedSize
              else UInt64.ofNat (field d o (unpackedWidth flags))
            fileCRC32 :=
              if info.hasFileCRC32 then UInt32.ofNat (field d u 4) else info.fileCRC32
            compressionInfo := UInt32.ofNat (field d v 4)
            timeStamp :=
              if info.hasTimeStamp then UInt64.ofNat (field d (v + 4) 8) else info.timeStamp }
          heap d (v + 4 + if info.hasTimeStamp then 8 else 0)
      else .error .unset := by
  unfold parseUnpackedSize unpackedWidth
  by_cases h₈ : flags &&& KCF_FILE_HAS_UNPACKED_8 = KCF_FILE_HAS_UNPACKED_8
  · simp only [if_pos h₈]
    rw [readField_u64, Exec.ite_bind]
    simp only [parseFileCRC_eq]
    apply ite_ite_of_imp
    omega
  · simp only [if_neg h₈]
    by_cases h₄ : flags &&& KCF_FILE_HAS_UNPACKED_8 = KCF_FILE_HAS_UNPACKED_4
    · simp only [if_pos h₄]
      rw [readField_u32, Exec.ite_bind]
      simp only [toUInt64_ofNat_field, pure_bind, parseFileCRC_eq]
      apply ite_ite_of_imp
      omega
    · simp only [if_neg h₄]
      exact parseFileCRC_eq ..

theorem fileInfoToRecord_parts (hv : recValidate R = true) (ht : R.headType = KCF_FILE_HEADER)
    (hd : R.data = some d) (info : FileInfo) (heap : Heap) :
    fileInfoToRecord info R heap = readField readU8 d.length ⟨d, 0⟩ >>= fun r =>
      parseUnpackedSize (info.flagged r.1) heap d r.1 (readU8 d.length r.2).2 := by
  have hs : R.dataSize = d.length := (R.data_length d hd).symm
  unfold fileInfoToRecord
  rw [hv, ht, hd, hs]
  rfl

theorem fileInfoToRecord_eq (hv : recValidate R = true) (ht : R.headType = KCF_FILE_HEADER)
    (hd : R.data = some d) (info : FileInfo) (heap : Heap) :
    fileInfoToRecord info R heap =
      if nameOffset d ≤ d.length then
        nameResult (info.parsed d) heap d (nameSizeOffset (fileFlagsAt d))
      else .error .unset := by
  have hend : nameOffset d = 2 + unpackedWidth (fileFlagsAt d) + fileCRCWidth (fileFlagsAt d) + 4 +
      timeStampWidth (fileFlagsAt d) + 2 := rfl
  rw [fileInfoToRecord_parts hv ht hd, readField_u8, Exec.ite_bind]
  by_cases h₀ : d.length = 0
  · rw [if_neg (by simp only; omega), if_neg (by omega)]
  rw [if_pos (by simp only; omega)]
  change parseUnpackedSize (info.flagged (fileFlagsAt d)) heap d (fileFlagsAt d)
    (readU8 d.length ⟨d, 0 + 1⟩).2 = _
  by_cases h₁ : d.length = 1
  · -- the type is not there, so the fields are looked for one byte before their place
    rw [readU8_short (by simp only; omega), parseUnpackedSize_eq, if_neg (by omega),
      if_neg (by omega)]
  · rw [readU8_of_le d.length (by simp only; omega), parseUnpackedSize_eq]
    rfl

theorem nameResult_none (h : heap 0 = none) (info : FileInfo) (d : List UInt8) (o : ℕ) :
    nameResult info heap d o = .ok (.outOfMemory, { info with fileName := none }, heap.next) := by
  have hm : malloc heap (field d o 2 + 1) = (none, heap.next) := Prod.ext (malloc_eq_none h) rfl
  unfold nameResult
  rw [hm]

theorem nameResult_some (h : (heap 0).isSome) (info : FileInfo) (d : List UInt8) (o : ℕ) :
    nameResult info heap d o =
      if o + 2 + field d o 2 ≤ d.length then
        .ok (.ok, { info with fileName := some ((d.drop (o + 2)).take (field d o 2)) }, heap.next)
      else .error .outOfBounds := by
  have hlt : field d o 2 < 65536 := field_lt ..
  have hsize : field d o 2 + 1 ≤ PTRDIFF_MAX := by
    unfold PTRDIFF_MAX
    omega
  obtain ⟨block, hm, -⟩ := malloc_granted h hsize
  unfold nameResult
  rw [hm]
  by_cases hd : o + 2 + field d o 2 ≤ d.length
  · rw [if_pos hd]
    exact if_neg (by omega)
  · rw [if_neg hd]
    exact if_pos (by omega)

/-- The parser comes back with an error, or with metadata that is taken from the record's data
field by field, the name included. -/
def ParsesInside (info : FileInfo) (R : Record) (heap : Heap) : Prop :=
  ∃ e info' heap', fileInfoToRecord info R heap = .ok (e, info', heap') ∧
    (e = .ok → ∃ d, R.data = some d ∧ nameOffset d + nameSizeAt d ≤ R.dataSize ∧
      info' = info.parsed d)

theorem fileInfoToRecord_null (hv : recValidate R = true) (ht : R.headType = KCF_FILE_HEADER)
    (hd : R.data = none) (info : FileInfo) (heap : Heap) :
    fileInfoToRecord info R heap = .error .outOfBounds := by
  unfold fileInfoToRecord
  rw [hv, ht, hd]
  rfl

/-- Parsing keeps to the record's data exactly where it is long enough for the fields that its flags
announce, and for the name unless there is no memory for that. -/
theorem parsesInside_iff (hv : recValidate R = true) (ht : R.headType = KCF_FILE_HEADER)
    (info : FileInfo) (heap : Heap) :
    ParsesInside info R heap ↔ ∃ d, R.data = some d ∧ nameOffset d ≤ R.dataSize ∧
      (heap 0 = none ∨ nameOffset d + nameSizeAt d ≤ R.dataSize) := by
  constructor
  · rintro ⟨e, info', heap', h, hinside⟩
    rcases hd : R.data with _ | d
    · rw [fileInfoToRecord_null hv ht hd] at h
      cases h
    have hs : d.length = R.dataSize := R.data_length d hd
    rw [fileInfoToRecord_eq hv ht hd] at h
    by_cases hfields : nameOffset d ≤ d.length
    · refine ⟨d, rfl, hs ▸ hfields, ?_⟩
      rcases hm : heap 0 with _ | fresh
      · exact .inl rfl
      · right
        by_contra hname
        rw [if_pos hfields, nameResult_some (by rw [hm]; rfl), if_neg (hs ▸ hname)] at h
        cases h
    · rw [if_neg hfields] at h
      cases h
  · rintro ⟨d, hd, hfields, hname⟩
    have hs : d.length = R.dataSize := R.data_length d hd
    have heq := fileInfoToRecord_eq hv ht hd info heap
    rw [if_pos (hs ▸ hfields)] at heq
    rcases hm : heap 0 with _ | fresh
    · rw [nameResult_none hm] at heq
      exact ⟨_, _, _, heq, fun h => absurd h (by decide)⟩
    · have hle : nameOffset d + nameSizeAt d ≤ R.dataSize :=
        hname.resolve_left (by rw [hm]; exact Option.some_ne_none fresh)
      rw [nameResult_some (by rw [hm]; rfl), if_pos (hs ▸ hle)] at heq
      exact ⟨_, _, _, heq, fun _ => ⟨d, hd, hle, rfl⟩⟩

def fileRecord (d : List UInt8) : Record :=
  recFix { Record.zero.withData d with headType := KCF_FILE_HEADER }

theorem fileInfoToRecord_fileRecord (info : FileInfo) (d : List UInt8) (heap : Heap) :
    fileInfoToRecord info (fileRecord d) heap =
      if nameOffset d ≤ d.length then
        nameResult (info.parsed d) heap d (nameSizeOffset (fileFlagsAt d))
      else .error .unset :=
  fileInfoToRecord_eq (recValidate_recFix _) rfl rfl info heap

theorem parsesInside_iff_named :
    ParsesInside FileInfo.zero (fileRecord [0, 0x52, 0, 0, 0, 0, 1, 0, 0x61]) Heap.zeros := by
  apply (parsesInside_iff (recValidate_recFix _) rfl _ _).mpr
  exact ⟨_, rfl, by decide, .inr (by decide)⟩

/-- A valid record that ends before its name gets bytes from behind it copied, and one without data
gives values that were never set. -/
theorem shortRecords_parsed_outside :
    let unnamed := fileRecord [0, 0x52, 0, 0, 0, 0, 1, 0]
    let empty := fileRecord []
    (recValidate unnamed = true ∧ recValidate empty = true) ∧
      fileInfoToRecord FileInfo.zero unnamed Heap.zeros = .error .outOfBounds ∧
      fileInfoToRecord FileInfo.zero empty Heap.zeros = .error .unset ∧
      ¬ ParsesInside FileInfo.zero unnamed Heap.zeros ∧
      ¬ ParsesInside FileInfo.zero empty Heap.zeros := by
  intro unnamed empty
  have hunnamed : fileInfoToRecord FileInfo.zero unnamed Heap.zeros = .error .outOfBounds := by
    rw [fileInfoToRecord_fileRecord, if_pos (by decide), nameResult_some rfl, if_neg (by decide)]
  have hempty : fileInfoToRecord FileInfo.zero empty Heap.zeros = .error .unset := by
    rw [fileInfoToRecord_fileRecord, if_neg (by decide)]
  refine ⟨⟨recValidate_recFix _, recValidate_recFix _⟩, hunnamed, hempty, ?_, ?_⟩
  · rintro ⟨e, info, heap, h, -⟩
    rw [hunnamed] at h
    cases h
  · rintro ⟨e, info, heap, h, -⟩
    rw [hempty] at h
    cases h

end Kcf
