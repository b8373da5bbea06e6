import Kcf.Archive.Files
import Kcf.Record.Layout

/-! # Metadata in a record

The fields of a file's metadata as a byte string, in front of the length of the
name and the name itself. Laying them out in a record succeeds exactly when the
file has a name, the sizes are numbers of an `int` and there is memory. A copy of
them takes one answer of the heap, for the name.
-/

namespace Kcf

open LittleEndian

namespace FileInfo

/-- The width of the `UnpackedSize` field that the metadata asks for. -/
def unpackedSizeWidth (info : FileInfo) : ℕ :=
  if info.hasUnpackedSize && info.hasUnpackedSize8 then 8
  else if info.hasUnpackedSize then 4
  else 0

/-- The fields up to the name. -/
def fields (info : FileInfo) : List UInt8 :=
  encode 1 (fileFlags info).toNat ++ encode 1 info.fileType.toNat ++
    encode info.unpackedSizeWidth info.unpackedSize.toNat ++
    encode (if info.hasFileCRC32 then 4 else 0) info.fileCRC32.toNat ++
    encode 4 info.compressionInfo.toNat ++
    encode (if info.hasTimeStamp then 8 else 0) info.timeStamp.toNat

/-- The file has a name, and neither its length nor the size of the data passes an `int`. -/
structure Fits (info : FileInfo) : Prop where
  named : ∃ name, info.fileName = some name ∧ 0 ≤ toInt (strlen name)
  size : getFileInfoDataSize info ≤ INT_MAX

end FileInfo

variable {R R' : Record} {info : FileInfo} {heap heap' : Heap} {name : List UInt8}
  {size : ℕ} {c : Cursor}

theorem getFileInfoDataSize_eq (h : info.fileName = some name) :
    getFileInfoDataSize info = info.fields.length + 2 + toInt (strlen name) := by
  unfold getFileInfoDataSize
  rw [h]
  simp only [FileInfo.fields, FileInfo.unpackedSizeWidth, List.length_append, length_encode]
  cases info.hasUnpackedSize <;> cases info.hasUnpackedSize8 <;> cases info.hasFileCRC32 <;>
    cases info.hasTimeStamp <;> simp

theorem strlen_le (s : List UInt8) : strlen s ≤ s.length := (List.takeWhile_sublist _).length_le

theorem writeUnpackedSize_eq (info : FileInfo) (size : ℕ) (c : Cursor) :
    (if info.hasUnpackedSize && info.hasUnpackedSize8 then writeU64LE size c info.unpackedSize
      else if info.hasUnpackedSize then writeU32LE size c info.unpackedSize.toUInt32
      else (true, c)) =
      writeBytes size c (encode info.unpackedSizeWidth info.unpackedSize.toNat) := by
  unfold FileInfo.unpackedSizeWidth
  split_ifs
  · exact writeU64LE_eq ..
  · rw [writeU32LE_eq, UInt64.toNat_toUInt32, ← encode_mod 4 info.unpackedSize.toNat]
    rfl
  · rfl

theorem writeOptional_eq (b : Bool) (size : ℕ) (c : Cursor) (w n : ℕ) :
    (if b then writeBytes size c (encode w n) else (true, c)) =
      writeBytes size c (encode (if b then w else 0) n) := by
  cases b <;> rfl

theorem writeFileInfo_eq (info : FileInfo) (size : ℕ) (c : Cursor) :
    writeFileInfo info size c =
      let c := (writeBytes size c (encode 1 (fileFlags info).toNat)).2
      let c := (writeBytes size c (encode 1 info.fileType.toNat)).2
      let c := (writeBytes size c (encode info.unpackedSizeWidth info.unpackedSize.toNat)).2
      let c := (writeBytes size c
        (encode (if info.hasFileCRC32 then 4 else 0) info.fileCRC32.toNat)).2
      let c := (writeBytes size c (encode 4 info.compressionInfo.toNat)).2
      (writeBytes size c (encode (if info.hasTimeStamp then 8 else 0) info.timeStamp.toNat)).2 := by
  unfold writeFileInfo
  simp only [writeU8_eq, writeUnpackedSize_eq]
  simp only [writeU32LE_eq, writeU64LE_eq, writeOptional_eq]

theorem length_writeFileInfo (info : FileInfo) (size : ℕ) (c : Cursor) :
    (writeFileInfo info size c).buffer.length = c.buffer.length := by
  rw [writeFileInfo_eq]
  simp only [length_writeBytes]

theorem writeFileInfo_wrote (info : FileInfo) (h : c.Wrote size [])
    (hs : info.fields.length ≤ size) :
    (writeFileInfo info size c).Wrote size info.fields := by
  simp only [FileInfo.fields, List.length_append, length_encode] at hs
  obtain ⟨c₁, e₁, h₁⟩ := h.writeBytes (encode 1 (fileFlags info).toNat) (by simp; omega)
  obtain ⟨c₂, e₂, h₂⟩ := h₁.writeBytes (encode 1 info.fileType.toNat) (by simp; omega)
  obtain ⟨c₃, e₃, h₃⟩ := h₂.writeBytes
    (encode info.unpackedSizeWidth info.unpackedSize.toNat) (by simp; omega)
  obtain ⟨c₄, e₄, h₄⟩ := h₃.writeBytes
    (encode (if info.hasFileCRC32 then 4 else 0) info.fileCRC32.toNat) (by simp; omega)
  obtain ⟨c₅, e₅, h₅⟩ := h₄.writeBytes (encode 4 info.compressionInfo.toNat) (by simp; omega)
  obtain ⟨c₆, e₆, h₆⟩ := h₅.writeBytes
    (encode (if info.hasTimeStamp then 8 else 0) info.timeStamp.toNat) (by simp; omega)
  rw [writeFileInfo_eq]
  dsimp only
  rw [e₁, e₂, e₃, e₄, e₅, e₆]
  exact h₆

/-- Where laying out succeeds, the metadata fits and there was memory; the record keeps its flags
and the size of its added data. -/
theorem recordToFileInfo_ok (h : recordToFileInfo R info heap = .ok (.ok, R', heap')) :
    info.Fits ∧ (heap 0).isSome ∧ heap' = heap.next ∧ R'.headFlags = R.headFlags ∧
      R'.addedSize = R.addedSize := by
  unfold recordToFileInfo at h
  dsimp only at h
  split at h
  · cases h
  rename_i hsize
  rcases hm : malloc heap (toSize (getFileInfoDataSize info)) with ⟨_ | block, rest⟩
  · rw [hm] at h
    cases h
  rw [hm] at h
  dsimp only at h
  split at h
  · cases h
  rename_i name hname
  obtain ⟨buffer, hcopy, h⟩ := Exec.bind_ok h
  cases h
  obtain ⟨hgranted, hmax, hlen⟩ := granted_of_malloc hm
  refine ⟨⟨⟨name, hname, ?_⟩, not_lt.mp hsize⟩, hgranted, (congrArg Prod.snd hm).symm,
    recFix_headFlags _, recFix_addedSize _⟩
  by_contra hneg
  -- a negative length is one that no buffer has
  have hlarge := toSize_of_neg (not_le.mp hneg) (toInt_range (strlen name)).1
  have hbuffer : (writeU16LE (toSize (getFileInfoDataSize info))
      (writeFileInfo info (toSize (getFileInfoDataSize info)) ⟨block, 0⟩)
      (UInt16.ofNat (strlen name))).2.buffer.length ≤ PTRDIFF_MAX := by
    rw [writeU16LE_eq, length_writeBytes, length_writeFileInfo, hlen]
    exact hmax
  rw [memcpy_faults (Nat.ne_zero_of_lt hlarge) (.inr (lt_of_le_of_lt hbuffer hlarge))] at hcopy
  cases hcopy

theorem FileInfo.Fits.size_eq (h : info.Fits) (hname : info.fileName = some name)
    (hnat : 0 ≤ toInt (strlen name)) :
    toSize (getFileInfoDataSize info) = info.fields.length + 2 + (toInt (strlen name)).toNat ∧
      toSize (getFileInfoDataSize info) ≤ PTRDIFF_MAX := by
  have hdata := getFileInfoDataSize_eq hname
  have hmax : INT_MAX ≤ PTRDIFF_MAX := by decide
  have hle := h.size
  rw [toSize_of_nonneg (by omega) hle]
  omega

/-- Metadata that fits is laid out where there is memory, whatever that holds: the fields, the
length of the name and the name. -/
theorem recordToFileInfo_eq (h : info.Fits) (hname : info.fileName = some name)
    (hm : (heap 0).isSome) (R : Record) :
    recordToFileInfo R info heap =
      .ok (.ok, recFix ({ R with headType := KCF_FILE_HEADER }.withData
        (info.fields ++ encode 2 (strlen name) ++ name.take (toInt (strlen name)).toNat)),
        heap.next) := by
  obtain ⟨name', hname', hnat⟩ := h.named
  obtain rfl : name = name' := Option.some.inj (hname.symm.trans hname')
  obtain ⟨hsize, hmax⟩ := h.size_eq hname hnat
  obtain ⟨block, hblock, hlen⟩ := malloc_granted hm hmax
  have h₀ : (⟨block, 0⟩ : Cursor).Wrote (toSize (getFileInfoDataSize info)) [] := ⟨hlen, rfl, rfl⟩
  have hfields := writeFileInfo_wrote info h₀ (by omega)
  obtain ⟨c, hc, hwrote⟩ := hfields.writeBytes (encode 2 (UInt16.ofNat (strlen name)).toNat)
    (by rw [length_encode]; omega)
  have hlength : encode 2 (UInt16.ofNat (strlen name)).toNat = encode 2 (strlen name) := by
    rw [UInt16.toNat_ofNat', ← encode_mod 2 (strlen name)]
    rfl
  rw [hlength] at hc hwrote
  have hle := toInt_le hnat
  have hstr := strlen_le name
  have hoffset := hwrote.offset
  rw [List.length_append, length_encode] at hoffset
  have hcopy : memcpy c.buffer c.offset (some name) (toSize (toInt (strlen name))) =
      .ok (info.fields ++ encode 2 (strlen name) ++ name.take (toInt (strlen name)).toNat) := by
    rw [toSize_of_nonneg hnat (toInt_range (strlen name)).2,
      memcpy_take (by omega) (by rw [hwrote.length]; omega), hwrote.overwrite]
    rw [List.length_append, length_encode, List.length_take]
    omega
  unfold recordToFileInfo
  dsimp only
  rw [if_neg (not_lt.mpr h.size), hblock]
  dsimp only
  rw [hname]
  dsimp only
  rw [writeU16LE_eq, hlength, hc, hcopy]
  rfl

theorem recordToFileInfo_fits (h : info.Fits) (hm : (heap 0).isSome) (R : Record) :
    ∃ R', recordToFileInfo R info heap = .ok (.ok, R', heap.next) := by
  obtain ⟨name, hname, -⟩ := h.named
  exact ⟨_, recordToFileInfo_eq h hname hm R⟩

theorem copyName_heap {copy : Option (List UInt8)} (h : copyName name heap = .ok (copy, heap')) :
    heap' = heap.next := by
  unfold copyName at h
  rcases hm : malloc heap (toSize (toInt (strlen name) + 1)) with ⟨_ | block, rest⟩
  all_goals
    have hrest : rest = heap.next := (congrArg Prod.snd hm).symm
    dsimp only at h
    rw [hm] at h
    split at h
    · cases h
  · cases h
    exact hrest
  · obtain ⟨buffer, -, h⟩ := Exec.bind_ok h
    cases h
    exact hrest

/-- A name whose length is below the largest `int` is copied up to its zero, if there is memory. -/
theorem copyName_eq (hlt : strlen name < INT_MAX) (heap : Heap) :
    copyName name heap =
      .ok ((malloc heap (strlen name + 1)).1.map fun _ => name.take (strlen name), heap.next) := by
  have hint : toInt (strlen name) = strlen name := toInt_of_le hlt.le
  have hsize : toSize (strlen name : ℤ) = strlen name := by
    rw [toSize_of_nonneg (by omega) (by omega), Int.toNat_natCast]
  have hroom : toSize ((strlen name : ℤ) + 1) = strlen name + 1 := by
    rw [toSize_of_nonneg (by omega) (by omega)]
    omega
  unfold copyName
  dsimp only
  rw [hint, if_neg (by omega), hsize, hroom]
  rcases hm : malloc heap (strlen name + 1) with ⟨_ | block, rest⟩
  all_goals cases congrArg Prod.snd hm
  · rfl
  · have hblock : 0 + strlen name ≤ block.length := by
      rw [length_of_malloc hm]
      omega
    have hcopied : (block.overwrite 0 (name.take (strlen name))).take (strlen name) =
        name.take (strlen name) := by
      rw [List.overwrite, List.take_zero, List.nil_append, List.take_append_of_le_length,
        List.take_take, min_self]
      rw [List.length_take, min_eq_left (strlen_le name)]
    dsimp only
    rw [memcpy_take (strlen_le name) hblock, Exec.ok_bind, hcopied]
    rfl

theorem fileInfoCopy_heap {dest copy : FileInfo} {copied : Bool}
    (hname : info.fileName = some name)
    (h : fileInfoCopy dest info heap = .ok (copied, copy, heap')) : heap' = heap.next := by
  unfold fileInfoCopy at h
  rw [hname] at h
  obtain ⟨⟨_ | copy, rest⟩, hc, h⟩ := Exec.bind_ok h
  all_goals
    cases h
    exact copyName_heap hc

theorem fileInfoCopy_comes (hname : info.fileName = some name) (hlt : strlen name < INT_MAX)
    (dest : FileInfo) (heap : Heap) :
    ∃ copied copy, fileInfoCopy dest info heap = .ok (copied, copy, heap.next) := by
  unfold fileInfoCopy
  rw [hname]
  dsimp only
  rw [copyName_eq hlt]
  cases (malloc heap (strlen name + 1)).1 with
  | none => exact ⟨_, _, rfl⟩
  | some block => exact ⟨_, _, rfl⟩

theorem fileInfoCopy_failed {dest src copy : FileInfo}
    (h : fileInfoCopy dest src heap = .ok (false, copy, heap')) : copy.fileName = none := by
  unfold fileInfoCopy at h
  split at h
  · cases h
  · obtain ⟨⟨_ | copied, rest⟩, -, h⟩ := Exec.bind_ok h
    · cases h
      rfl
    · cases h

end Kcf
