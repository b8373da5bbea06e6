import Kcf.Writer.Session

/-! # What a backpatch touches

Finishing a record writes its whole header once more, from the copy kept since
it was opened. The copy differs from what was written in the size and the
checksum of the added data, and for their sake in the checksum of the header:
every other byte of the stream stays, and so does the position.
-/

namespace Kcf

open LittleEndian Record

/-- The offsets of the fields `HeadCRC`, `AddedSize` and `AddedDataCRC32` in a header with these
flags. -/
def PatchedOffset (flags : UInt8) (i : ℕ) : Prop :=
  i < 2 ∨ (6 ≤ i ∧ i < 6 + addedSizeWidth flags) ∨
    6 + addedSizeWidth flags ≤ i ∧ i < headerLength flags

/-- From one handle to the other the stream has changed in those fields of the header at this offset
only, the position is the same, and no record is open any more. -/
structure Backpatched (flags : UInt8) (offset : ℕ) (k k' : KCF) : Prop where
  length : k'.stream.bytes.length = k.stream.bytes.length
  changed : ∀ i, k'.stream.bytes[i]? ≠ k.stream.bytes[i]? →
    offset ≤ i ∧ PatchedOffset flags (i - offset)
  pos : k'.stream.pos = k.stream.pos
  state : k'.parserState = .writeRecord
  bound : k'.addedDataToBeWritten = 0
  written : k'.writtenAddedData = 0
  crc : k'.addedDataCRC32 = 0
  recordOffset : k'.recordOffset = 0
  recordEndOffset : k'.recordEndOffset = 0

namespace Record

def optional (R : Record) : List UInt8 :=
  LittleEndian.encode (addedSizeWidth R.headFlags) R.addedSize.toNat ++
    LittleEndian.encode (addedDataCRCWidth R.headFlags) R.addedDataCRC32.toNat

theorem length_optional (R : Record) : 6 + R.optional.length = headerLength R.headFlags := by
  simp only [optional, List.length_append, LittleEndian.length_encode, headerLength]
  omega

theorem encode_eq_optional (R : Record) : R.encode =
    LittleEndian.encode 2 R.headCRC.toNat ++
      (R.headType :: R.headFlags :: LittleEndian.encode 2 R.headSize.toNat) ++
        R.optional ++ R.bytes := by
  simp only [Record.encode, header, fields, optional, List.append_assoc, List.cons_append]

/-- Two records that differ in those fields only are laid out alike elsewhere. -/
theorem encode_changed {R F : Record} (ht : F.headType = R.headType)
    (hf : F.headFlags = R.headFlags) (hs : F.headSize = R.headSize) (hb : F.bytes = R.bytes)
    (pre tail : List UInt8) {i : ℕ}
    (hi : (pre ++ F.encode ++ tail)[i]? ≠ (pre ++ R.encode ++ tail)[i]?) :
    pre.length ≤ i ∧ PatchedOffset R.headFlags (i - pre.length) := by
  by_contra hout
  apply hi
  have hopt : R.optional.length = F.optional.length := by
    have h₁ := F.length_optional
    have h₂ := R.length_optional
    rw [hf] at h₁
    omega
  have hl := R.length_optional
  -- outside of the patched fields the offset is outside of both blocks that are exchanged
  have hcrc : i < pre.length ∨ pre.length + 2 ≤ i := by
    unfold PatchedOffset at hout
    omega
  have hfields : i < pre.length + 6 ∨ pre.length + 6 + R.optional.length ≤ i := by
    unfold PatchedOffset at hout
    omega
  set mid := R.headType :: R.headFlags :: LittleEndian.encode 2 R.headSize.toNat with hmid
  have hmidF : F.headType :: F.headFlags :: LittleEndian.encode 2 F.headSize.toNat = mid := by
    rw [ht, hf, hs]
  calc (pre ++ F.encode ++ tail)[i]?
      = (pre ++ LittleEndian.encode 2 F.headCRC.toNat ++
          (mid ++ F.optional ++ R.bytes ++ tail))[i]? := by
        rw [F.encode_eq_optional, hmidF, hb]
        simp only [List.append_assoc]
    _ = (pre ++ LittleEndian.encode 2 R.headCRC.toNat ++
          (mid ++ F.optional ++ R.bytes ++ tail))[i]? :=
        List.getElem?_exchange (by simp) (by simpa using hcrc)
    _ = (pre ++ LittleEndian.encode 2 R.headCRC.toNat ++ mid ++ F.optional ++
          (R.bytes ++ tail))[i]? := by
        simp only [List.append_assoc]
    _ = (pre ++ LittleEndian.encode 2 R.headCRC.toNat ++ mid ++ R.optional ++
          (R.bytes ++ tail))[i]? := by
        refine List.getElem?_exchange hopt ?_
        have hlen : (pre ++ LittleEndian.encode 2 R.headCRC.toNat ++ mid).length =
            pre.length + 6 := by simp [hmid]
        rw [hlen]
        exact hfields
    _ = (pre ++ R.encode ++ tail)[i]? := by
        rw [R.encode_eq_optional, ← hmid]
        simp only [List.append_assoc]

end Record

variable {kcf k : KCF} {R : Record} {pre tail added : List UInt8} {w₀ : UInt64} {c₀ : UInt32}

theorem KCF.Finish.closed (h : kcf.Finish .ok k) : ∃ k' : KCF, k = k'.closeRecord := by
  cases h with
  | kept => exact ⟨_, rfl⟩
  | patched => exact ⟨_, rfl⟩

/-- Finishing an open record changes the stream in the fields to be patched only. -/
theorem Streaming.finish_backpatched (h : Streaming pre tail R w₀ c₀ added kcf)
    (ho : kcf.Obliging) :
    ∃ k, kcf.finishAddedData = .ok (.ok, k) ∧ Backpatched R.headFlags pre.length kcf k := by
  obtain ⟨k, hk, -, hi⟩ := h.finish ho
  refine ⟨k, hk.eq, ?_⟩
  obtain ⟨k', rfl⟩ := hk.closed
  have hlen : (recFix (R.final w₀ c₀ added)).encode.length = (recFix R).encode.length := by
    obtain ⟨a, c, hF⟩ := R.final_eq w₀ c₀ added
    rw [length_encode_recFix (final_fits.mpr h.fits), length_encode_recFix h.fits, hF]
  have hb := hi.stream.bytes
  have hb' := h.stream.bytes
  rw [List.append_assoc] at hb hb'
  refine ⟨?_, fun i hi => ?_, ?_, rfl, rfl, rfl, rfl, rfl, rfl⟩
  · rw [hb, hb']
    simp only [List.length_append, hlen]
  · rw [hb, hb'] at hi
    obtain ⟨a, c, hF⟩ := R.final_eq w₀ c₀ added
    rw [hF] at hi
    have hsize := recFix_headSize_congr (R := { R with addedSize := a, addedDataCRC32 := c })
      (S := R) rfl rfl
    have hout := encode_changed ?_ ?_ hsize ?_ pre _ hi
    · rwa [recFix_headFlags] at hout
    · rw [recFix_headType, recFix_headType]
    · rw [recFix_headFlags, recFix_headFlags]
    · rw [recFix_bytes, recFix_bytes]
      rfl
  · rw [hi.stream.pos, h.stream.pos]
    simp only [List.length_append, hlen]

/-- Once a record was opened where the stream stood and given its chunks, finishing it changes the
stream only in the fields of its header that are patched, and leaves the position at the end of the
added data. -/
theorem finishAddedData_backpatched (hp : kcf.parserState = .writeRecord) (ho : kcf.Obliging)
    (hf : R.Fits) (ha : recHasAddedSize R = true) (chunks : List (List UInt8)) :
    ∃ k₁ k₂ k₃, kcf.writeRecord R = .ok (.ok, k₁, recFix R) ∧
      k₁.writeChunks chunks = .ok (.ok, k₂) ∧ k₂.finishAddedData = .ok (.ok, k₃) ∧
      Backpatched R.headFlags kcf.stream.pos k₂ k₃ ∧
      k₃.stream.pos = kcf.stream.pos + (recFix R).headSize.toNat +
        (R.admits kcf.writtenAddedData chunks.flatten).length := by
  have hacc : kcf.Accept .ok kcf := .idle hp
  have h₁ := hacc.writeRecord (ho.grants 0) ho.writes hf
  have hs₁ := Streaming.of_placed ho.grants (ho.writes 0) hf ha
  obtain ⟨k₂, h₂, ho₂, hs₂⟩ := hs₁.writeChunks_admits (ho.saved hf) (R.admits_nil _) chunks
  obtain ⟨k₃, h₃, hpatch⟩ := hs₂.finish_backpatched ho₂
  rw [kcf.stream.length_behind] at hpatch
  refine ⟨_, k₂, k₃, h₁, h₂, h₃, hpatch, ?_⟩
  rw [hpatch.pos, hs₂.stream.pos, recFix_headSize_of_fits hf, List.length_append,
    List.length_append, kcf.stream.length_behind, length_encode_recFix hf]
  rfl

theorem finishAddedData_backpatched_three :
    ∃ k₁ k₂ k₃, (KCF.writing { IOStream.ofBytes [1, 2, 3] with pos := 3 }).writeRecord
        { Record.zero with headFlags := 0xA0 } =
          .ok (.ok, k₁, recFix { Record.zero with headFlags := 0xA0 }) ∧
      k₁.writeChunks [[7], [8, 9]] = .ok (.ok, k₂) ∧ k₂.finishAddedData = .ok (.ok, k₃) ∧
      Backpatched 0xA0 3 k₂ k₃ ∧ k₃.stream.pos = 20 :=
  finishAddedData_backpatched (R := { Record.zero with headFlags := 0xA0 }) rfl
    ⟨Heap.grants_zeros, fun _ => rfl, fun _ => rfl⟩ (by decide) rfl [[7], [8, 9]]

end Kcf
