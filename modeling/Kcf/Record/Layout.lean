import Mathlib.Data.FinEnum
import Kcf.Record.Basic

/-! # The layout of a record

The header of a record as a byte string, written from the format description:
every field in its width, the two optional ones when the flags announce them.
The routines that check, size and lay out a record compute exactly this string.
-/

namespace Kcf

open LittleEndian

/-- The width of the `AddedSize` field that the flags announce. -/
def addedSizeWidth (flags : UInt8) : ℕ :=
  if flags &&& KCF_HAS_ADDED_SIZE_8 = KCF_HAS_ADDED_SIZE_4 then 4
  else if flags &&& KCF_HAS_ADDED_SIZE_8 = KCF_HAS_ADDED_SIZE_8 then 8
  else 0

/-- The width of the `AddedDataCRC32` field that the flags announce. -/
def addedDataCRCWidth (flags : UInt8) : ℕ :=
  if flags &&& KCF_HAS_ADDED_DATA_CRC32 ≠ 0 then 4 else 0

/-- The length of the header fields that the flags announce. -/
def headerLength (flags : UInt8) : ℕ := 6 + addedSizeWidth flags + addedDataCRCWidth flags

theorem addedSizeWidth_le (flags : UInt8) : addedSizeWidth flags ≤ 8 := by
  unfold addedSizeWidth; split_ifs <;> omega

theorem addedSizeWidth_cases {flags : UInt8} (h : addedSizeWidth flags ≠ 0) :
    addedSizeWidth flags = 4 ∨ addedSizeWidth flags = 8 := by
  revert h
  unfold addedSizeWidth
  split_ifs <;> simp

theorem addedDataCRCWidth_le (flags : UInt8) : addedDataCRCWidth flags ≤ 4 := by
  unfold addedDataCRCWidth; split_ifs <;> omega

theorem headerLength_le (flags : UInt8) : headerLength flags ≤ 18 := by
  have := addedSizeWidth_le flags
  have := addedDataCRCWidth_le flags
  unfold headerLength; omega

theorem six_le_headerLength (flags : UInt8) : 6 ≤ headerLength flags := by
  unfold headerLength; omega

theorem addedSizeWidth_eq_zero_iff (flags : UInt8) :
    addedSizeWidth flags = 0 ↔ flags &&& KCF_HAS_ADDED_SIZE_4 = 0 := by
  revert flags
  decide +kernel

theorem recHasAddedSize_iff {R : Record} :
    recHasAddedSize R = true ↔ addedSizeWidth R.headFlags ≠ 0 := by
  rw [recHasAddedSize, bne_iff_ne, ne_eq, ne_eq, addedSizeWidth_eq_zero_iff]

theorem recHasAddedDataCRC_iff {R : Record} :
    recHasAddedDataCRC R = true ↔ R.headFlags &&& KCF_HAS_ADDED_DATA_CRC32 ≠ 0 :=
  bne_iff_ne

namespace Record

/-- The header fields covered by the checksum. -/
def fields (R : Record) : List UInt8 :=
  R.headType :: R.headFlags :: (encode 2 R.headSize.toNat ++
    (encode (addedSizeWidth R.headFlags) R.addedSize.toNat ++
      encode (addedDataCRCWidth R.headFlags) R.addedDataCRC32.toNat))

/-- The header of a record. -/
def header (R : Record) : List UInt8 := encode 2 R.headCRC.toNat ++ R.fields

/-- A record without its added data. -/
def encode (R : Record) : List UInt8 := R.header ++ R.bytes

/-- The record's data is there and its header and data fit the 16-bit size field. -/
def Fits (R : Record) : Prop :=
  (R.data = none → R.dataSize = 0) ∧ headerLength R.headFlags + R.dataSize ≤ 65535

instance (R : Record) : Decidable R.Fits := inferInstanceAs (Decidable (_ ∧ _))

variable {R : Record}

theorem length_fields (R : Record) : R.fields.length + 2 = headerLength R.headFlags := by
  simp only [fields, headerLength, List.length_cons, List.length_append, length_encode]
  omega

theorem length_header (R : Record) : R.header.length = headerLength R.headFlags := by
  rw [header, List.length_append, length_encode, Nat.add_comm, length_fields]

theorem length_bytes (h : R.data = none → R.dataSize = 0) : R.bytes.length = R.dataSize := by
  cases hd : R.data with
  | none => simp [bytes, hd, h hd]
  | some block => simpa [bytes, hd] using R.data_length block hd

theorem length_encode (h : R.Fits) :
    R.encode.length = headerLength R.headFlags + R.dataSize := by
  rw [Record.encode, List.length_append, length_header, length_bytes h.1]

theorem encode_append_eq (R : Record) (cs : List UInt8) :
    R.encode ++ cs = (LittleEndian.encode 2 R.headCRC.toNat ++ [R.headType, R.headFlags]) ++
      (LittleEndian.encode 2 R.headSize.toNat ++
        (LittleEndian.encode (addedSizeWidth R.headFlags) R.addedSize.toNat ++
          (LittleEndian.encode (addedDataCRCWidth R.headFlags) R.addedDataCRC32.toNat ++
            (R.bytes ++ cs)))) := by
  simp only [Record.encode, header, fields, List.append_assoc, List.cons_append, List.nil_append]

theorem field_headCRC (R : Record) (cs : List UInt8) :
    field (R.encode ++ cs) 0 2 = R.headCRC.toNat := by
  have hlt : R.headCRC.toNat < 256 ^ 2 := R.headCRC.toNat_lt
  have h := field_encode_append 2 R.headCRC.toNat (R.fields ++ R.bytes ++ cs)
  rw [← List.append_assoc, ← List.append_assoc] at h
  rw [Record.encode, header, h, Nat.mod_eq_of_lt hlt]

theorem field_headType (R : Record) (cs : List UInt8) :
    field (R.encode ++ cs) 2 1 = R.headType.toNat := field_one ..

theorem field_headFlags (R : Record) (cs : List UInt8) :
    field (R.encode ++ cs) 3 1 = R.headFlags.toNat := field_one ..

theorem field_headSize (R : Record) (cs : List UInt8) :
    field (R.encode ++ cs) 4 2 = R.headSize.toNat := by
  have hlt : R.headSize.toNat < 256 ^ 2 := R.headSize.toNat_lt
  rw [encode_append_eq, field_encode_middle (v := 4) rfl, Nat.mod_eq_of_lt hlt]

theorem field_addedSize (R : Record) (cs : List UInt8) :
    field (R.encode ++ cs) 6 (addedSizeWidth R.headFlags) =
      R.addedSize.toNat % 256 ^ addedSizeWidth R.headFlags := by
  rw [encode_append_eq, ← List.append_assoc, field_encode_middle (v := 6) rfl]

theorem field_addedDataCRC (R : Record) (cs : List UInt8) :
    field (R.encode ++ cs) (6 + addedSizeWidth R.headFlags) (addedDataCRCWidth R.headFlags) =
      R.addedDataCRC32.toNat % 256 ^ addedDataCRCWidth R.headFlags := by
  rw [encode_append_eq, ← List.append_assoc, ← List.append_assoc, field_encode_middle]
  rw [List.length_append, LittleEndian.length_encode]
  rfl

end Record

/-- The cursor stands behind these bytes in a buffer of this size. -/
structure Cursor.Wrote (c : Cursor) (size : ℕ) (bs : List UInt8) : Prop where
  length : c.buffer.length = size
  offset : c.offset = bs.length
  take : c.buffer.take bs.length = bs

theorem Cursor.Wrote.writeBytes {c : Cursor} {size : ℕ} {bs : List UInt8}
    (h : c.Wrote size bs) (ds : List UInt8) (hs : bs.length + ds.length ≤ size) :
    ∃ c', Kcf.writeBytes size c ds = (true, c') ∧ c'.Wrote size (bs ++ ds) := by
  have hl := h.length
  have ho := h.offset
  refine ⟨_, writeBytes_fits (by omega) (by omega), ?_, ?_, ?_⟩
  · rw [List.length_overwrite_of_le (by omega), hl]
  · simp [ho]
  · rw [List.length_append, ho, List.take_overwrite (by omega), h.take]

theorem Cursor.Wrote.overwrite {c : Cursor} {size : ℕ} {bs : List UInt8} (h : c.Wrote size bs)
    {ds : List UInt8} (hs : bs.length + ds.length = size) :
    c.buffer.overwrite c.offset ds = bs ++ ds := by
  have hl := h.length
  rw [List.overwrite, h.offset, h.take, List.drop_eq_nil_of_le (by omega), List.append_nil]

theorem writeAddedSize_eq (R : Record) (size : ℕ) (c : Cursor) :
    (if R.headFlags &&& KCF_HAS_ADDED_SIZE_8 = KCF_HAS_ADDED_SIZE_4 then
        writeU32LE size c R.addedSize.toUInt32
      else if R.headFlags &&& KCF_HAS_ADDED_SIZE_8 = KCF_HAS_ADDED_SIZE_8 then
        writeU64LE size c R.addedSize
      else (true, c)) =
      writeBytes size c (encode (addedSizeWidth R.headFlags) R.addedSize.toNat) := by
  unfold addedSizeWidth
  split_ifs
  · rw [writeU32LE_eq, UInt64.toNat_toUInt32, ← encode_mod 4 R.addedSize.toNat]
    rfl
  · exact writeU64LE_eq ..
  · rfl

theorem writeAddedDataCRC_eq (R : Record) (size : ℕ) (c : Cursor) :
    (if R.headFlags &&& KCF_HAS_ADDED_DATA_CRC32 ≠ 0 then writeU32LE size c R.addedDataCRC32
      else (true, c)) =
      writeBytes size c (encode (addedDataCRCWidth R.headFlags) R.addedDataCRC32.toNat) := by
  unfold addedDataCRCWidth
  split_ifs
  · exact writeU32LE_eq ..
  · rfl

theorem recCalculateCRC_eq (R : Record) :
    recCalculateCRC R = (crc32c 0 (R.fields ++ R.bytes)).toUInt16 := by
  have h₀ : (⟨List.replicate 16 0, 0⟩ : Cursor).Wrote 16 [] := ⟨by simp, rfl, rfl⟩
  have hw := R.length_fields
  have hle := headerLength_le R.headFlags
  simp only [Record.fields, List.length_cons, List.length_append, length_encode] at hw
  obtain ⟨c₁, e₁, h₁⟩ := h₀.writeBytes (encode 1 R.headType.toNat) (by simp)
  obtain ⟨c₂, e₂, h₂⟩ := h₁.writeBytes (encode 1 R.headFlags.toNat) (by simp)
  obtain ⟨c₃, e₃, h₃⟩ := h₂.writeBytes (encode 2 R.headSize.toNat) (by simp)
  obtain ⟨c₄, e₄, h₄⟩ := h₃.writeBytes
    (encode (addedSizeWidth R.headFlags) R.addedSize.toNat) (by simp; omega)
  obtain ⟨c₅, e₅, h₅⟩ := h₄.writeBytes
    (encode (addedDataCRCWidth R.headFlags) R.addedDataCRC32.toNat) (by simp; omega)
  have hf : c₅.buffer.take c₅.offset = R.fields := by
    rw [h₅.offset, h₅.take]
    simp [Record.fields, encode_succ, UInt8.ofNat_toNat]
  simp only [recCalculateCRC, writeU8_eq, writeU16LE_eq, writeAddedSize_eq, writeAddedDataCRC_eq,
    e₁, e₂, e₃, e₄, e₅, hf, crc32c_append]
  cases hd : R.data with
  | none => simp [Record.bytes, hd]
  | some block =>
    have hb := R.data_length block hd
    simp only [Record.bytes, hd, Option.getD_some]
    split
    · rfl
    · rw [List.length_eq_zero_iff.mp (show block.length = 0 by omega), crc32c_nil]

theorem recFix_headSize (R : Record) :
    (recFix R).headSize.toNat = (headerLength R.headFlags + R.dataSize) % 65536 := by
  simp only [recFix, headerLength, addedSizeWidth, addedDataCRCWidth]
  split_ifs <;> simp <;> omega

theorem recFix_headSize_of_fits {R : Record} (h : R.Fits) :
    (recFix R).headSize.toNat = headerLength R.headFlags + R.dataSize := by
  rw [recFix_headSize, Nat.mod_eq_of_lt]
  have := h.2
  omega

@[simp] theorem recFix_headType (R : Record) : (recFix R).headType = R.headType := rfl
@[simp] theorem recFix_headFlags (R : Record) : (recFix R).headFlags = R.headFlags := rfl
@[simp] theorem recFix_addedSize (R : Record) : (recFix R).addedSize = R.addedSize := rfl
@[simp] theorem recFix_addedDataCRC32 (R : Record) :
    (recFix R).addedDataCRC32 = R.addedDataCRC32 := rfl
@[simp] theorem recFix_data (R : Record) : (recFix R).data = R.data := rfl
@[simp] theorem recFix_dataSize (R : Record) : (recFix R).dataSize = R.dataSize := rfl
@[simp] theorem recFix_bytes (R : Record) : (recFix R).bytes = R.bytes := rfl
@[simp] theorem recFix_fits (R : Record) : (recFix R).Fits ↔ R.Fits := Iff.rfl

theorem recValidate_recFix (R : Record) : recValidate (recFix R) = true := by
  rw [recValidate, recCalculateCRC_eq, beq_iff_eq]
  exact (recCalculateCRC_eq _).symm

theorem recFix_headSize_congr {R S : Record} (hf : R.headFlags = S.headFlags)
    (hs : R.dataSize = S.dataSize) : (recFix R).headSize = (recFix S).headSize := by
  simp only [recFix, hf, hs]

/-- The bytes of a record depend on its fields as far as the flags announce them. -/
theorem encode_recFix_congr {R S : Record} (ht : R.headType = S.headType)
    (hf : R.headFlags = S.headFlags) (ha : R.addedSize = S.addedSize) (hd : R.bytes = S.bytes)
    (hs : R.dataSize = S.dataSize)
    (hc : recHasAddedDataCRC R = true → R.addedDataCRC32 = S.addedDataCRC32) :
    (recFix R).encode = (recFix S).encode := by
  have hh := recFix_headSize_congr hf hs
  have hcrc : LittleEndian.encode (addedDataCRCWidth R.headFlags) R.addedDataCRC32.toNat =
      LittleEndian.encode (addedDataCRCWidth S.headFlags) S.addedDataCRC32.toNat := by
    rw [hf]
    by_cases h : S.headFlags &&& KCF_HAS_ADDED_DATA_CRC32 = 0
    · simp [addedDataCRCWidth, h]
    · rw [hc (recHasAddedDataCRC_iff.mpr (hf ▸ h))]
  have hfields : (recFix R).fields = (recFix S).fields := by
    simp only [Record.fields, recFix_headType, recFix_headFlags, recFix_addedSize,
      recFix_addedDataCRC32, hh, hcrc, ht, ha]
    rw [hf]
  have hcrc16 : (recFix R).headCRC = (recFix S).headCRC := by
    have hR := beq_iff_eq.mp (recValidate_recFix R)
    have hS := beq_iff_eq.mp (recValidate_recFix S)
    rw [← hR, ← hS, recCalculateCRC_eq, recCalculateCRC_eq, hfields, recFix_bytes, recFix_bytes, hd]
  simp only [Record.encode, Record.header, hcrc16, hfields, recFix_bytes, hd]

theorem writeField_writeBytes (size : ℕ) (c : Cursor) (bs ds : List UInt8) :
    writeField (writeBytes size · ds) (writeBytes size c bs) = writeBytes size c (bs ++ ds) := by
  rw [writeBytes_append]
  rcases writeBytes size c bs with ⟨_ | _, c'⟩ <;> rfl

theorem writeHeader_eq (R : Record) (size : ℕ) (c : Cursor) :
    writeHeader R size c = writeBytes size c R.header := by
  have hs : ∀ r : Bool × Cursor,
      (if recHasAddedSize8 R then writeField (writeU64LE size · R.addedSize) r
        else if recHasAddedSize4 R then writeField (writeU32LE size · R.addedSize.toUInt32) r
        else r) =
      writeField (writeBytes size · (encode (addedSizeWidth R.headFlags) R.addedSize.toNat)) r := by
    rintro ⟨_ | _, c⟩
    · simp [writeField]
    · simp only [writeField, ← writeAddedSize_eq, recHasAddedSize8, recHasAddedSize4, beq_iff_eq]
      by_cases h₄ : R.headFlags &&& KCF_HAS_ADDED_SIZE_8 = KCF_HAS_ADDED_SIZE_4
      · have h₈ : ¬ R.headFlags &&& KCF_HAS_ADDED_SIZE_8 = KCF_HAS_ADDED_SIZE_8 := by
          rw [h₄]; decide
        simp only [if_neg h₈, if_pos h₄]
      · simp only [if_neg h₄]
  have hc : ∀ r : Bool × Cursor,
      (if recHasAddedDataCRC R then writeField (writeU32LE size · R.addedDataCRC32) r else r) =
      writeField (writeBytes size ·
        (encode (addedDataCRCWidth R.headFlags) R.addedDataCRC32.toNat)) r := by
    rintro ⟨_ | _, c⟩
    · simp [writeField]
    · simp only [writeField, recHasAddedDataCRC_iff, writeAddedDataCRC_eq]
  simp only [writeHeader, writeU8_eq, writeU16LE_eq, hs, hc, writeField_writeBytes]
  simp [Record.header, Record.fields, encode_succ]

theorem recToBuffer_of_fits {R : Record} (h : R.Fits)
    (hs : R.headSize.toNat = headerLength R.headFlags + R.dataSize) {buffer : List UInt8}
    (hb : buffer.length = R.headSize.toNat) :
    recToBuffer R buffer R.headSize.toNat = .ok (true, R.encode) := by
  have h₀ : (⟨buffer, 0⟩ : Cursor).Wrote R.headSize.toNat [] := ⟨hb, rfl, rfl⟩
  have hl := R.length_header
  obtain ⟨c, e, hc⟩ := h₀.writeBytes R.header (by simp; omega)
  rw [List.nil_append] at hc
  have hd := R.length_bytes h.1
  have hm : memcpy c.buffer c.offset R.data R.dataSize = .ok R.encode := by
    have hlen := hc.length
    have hoff := hc.offset
    rw [memcpy_fits hd (by omega), Record.encode, ← Record.bytes, hc.overwrite (by omega)]
  simp only [recToBuffer, lt_irrefl, if_false, writeHeader_eq, e, hm]

theorem recToBuffer_of_not_fits {R : Record} (h : ¬ R.Fits) {buffer : List UInt8}
    (hs : R.headSize.toNat = (headerLength R.headFlags + R.dataSize) % 65536)
    (hb : buffer.length = R.headSize.toNat) :
    recToBuffer R buffer R.headSize.toNat = .error .outOfBounds := by
  have hle := headerLength_le R.headFlags
  have hl := length_writeBytes R.headSize.toNat ⟨buffer, 0⟩ R.header
  rcases e : writeBytes R.headSize.toNat ⟨buffer, 0⟩ R.header with ⟨result, c⟩
  rw [e] at hl
  have hm : memcpy c.buffer c.offset R.data R.dataSize = .error .outOfBounds := by
    rcases not_and_or.mp h with hd | hd
    · obtain ⟨hd, hz⟩ := Classical.not_imp.mp hd
      exact memcpy_faults hz (.inl hd)
    · exact memcpy_faults (by omega) (.inr (by simp only at hl; omega))
  simp only [recToBuffer, lt_irrefl, if_false, writeHeader_eq, e, hm]

theorem recCopy_encode {R : Record} {heap : Heap} (hf : R.Fits)
    (hc : (recCopy R heap).2.1.Fits) : (recCopy R heap).2.1.encode = R.encode := by
  cases hd : R.data with
  | none => simp [recCopy, hd]
  | some block =>
    cases hm : malloc heap R.dataSize with
    | mk fresh heap' =>
      cases fresh with
      | some fresh => simp [recCopy, hd, hm]
      | none =>
        simp only [recCopy, hd, hm] at hc ⊢
        have h₀ : R.dataSize = 0 := hc.1 rfl
        have hb : R.bytes = [] :=
          List.length_eq_zero_iff.mp ((Record.length_bytes hf.1).trans h₀)
        exact congrArg (R.header ++ ·) hb.symm

theorem recCopy_headSize (R : Record) (heap : Heap) :
    (recCopy R heap).2.1.headSize = R.headSize := by
  unfold recCopy
  split
  · split <;> rfl
  · rfl

theorem recCopy_headFlags (R : Record) (heap : Heap) :
    (recCopy R heap).2.1.headFlags = R.headFlags := by
  unfold recCopy
  split
  · split <;> rfl
  · rfl

end Kcf
