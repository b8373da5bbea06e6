import Kcf.Writer.Session

/-! # One-shot and streaming writers

Writing a record together with its added data leaves the same bytes as opening
it, adding the data in chunks and finishing it, whatever the chunks are and
whether or not the size was declared from the start.
-/

namespace Kcf

open Record

/-- The flags that announce added data of this length. -/
def addedSizeFlags (D : List UInt8) : UInt8 :=
  if 2147483647 < D.length then KCF_HAS_ADDED_SIZE_8 else KCF_HAS_ADDED_SIZE_4

/-- The record that announces the added data, with the given size in its header. -/
def Record.announcing (R : Record) (D : List UInt8) (size : UInt64) : Record :=
  { R with headFlags := R.headFlags ||| addedSizeFlags D, addedSize := size }

variable {R : Record} {D : List UInt8} {size : UInt64}

theorem addedSizeFlags_keep (flags : UInt8) (D : List UInt8) :
    (flags ||| addedSizeFlags D) &&& KCF_HAS_ADDED_SIZE_4 ≠ 0 ∧
      (flags ||| addedSizeFlags D) &&& KCF_HAS_ADDED_DATA_CRC32 =
        flags &&& KCF_HAS_ADDED_DATA_CRC32 := by
  have h₄ : ∀ f : UInt8, (f ||| KCF_HAS_ADDED_SIZE_4) &&& KCF_HAS_ADDED_SIZE_4 ≠ 0 ∧
      (f ||| KCF_HAS_ADDED_SIZE_4) &&& KCF_HAS_ADDED_DATA_CRC32 =
        f &&& KCF_HAS_ADDED_DATA_CRC32 := by decide +kernel
  have h₈ : ∀ f : UInt8, (f ||| KCF_HAS_ADDED_SIZE_8) &&& KCF_HAS_ADDED_SIZE_4 ≠ 0 ∧
      (f ||| KCF_HAS_ADDED_SIZE_8) &&& KCF_HAS_ADDED_DATA_CRC32 =
        f &&& KCF_HAS_ADDED_DATA_CRC32 := by decide +kernel
  unfold addedSizeFlags
  split
  · exact h₈ flags
  · exact h₄ flags

theorem recHasAddedSize_announcing : recHasAddedSize (R.announcing D size) = true :=
  bne_iff_ne.mpr (addedSizeFlags_keep R.headFlags D).1

theorem recHasAddedDataCRC_announcing :
    recHasAddedDataCRC (R.announcing D size) = recHasAddedDataCRC R := by
  simp only [recHasAddedDataCRC, announcing, (addedSizeFlags_keep R.headFlags D).2]

theorem describeAddedData_eq (hD : D ≠ []) :
    describeAddedData R D =
      { R.announcing D (UInt64.ofNat D.length) with
        addedDataCRC32 := if recHasAddedDataCRC R then crc32c 0 D else R.addedDataCRC32 } := by
  unfold describeAddedData
  rw [if_pos hD]
  cases recHasAddedDataCRC R <;> rfl

theorem describeAddedData_fits (hD : D ≠ []) :
    (describeAddedData R D).Fits ↔ (R.announcing D size).Fits := by
  rw [describeAddedData_eq hD]
  exact Iff.rfl

theorem accepts_announcing (hs : size = 0 ∨ size = UInt64.ofNat D.length)
    (hl : D.length < 2 ^ 64) : (R.announcing D size).accepts D = D := by
  have hn : (UInt64.ofNat D.length).toNat = D.length := by
    rw [UInt64.toNat_ofNat', Nat.mod_eq_of_lt hl]
  unfold accepts announcing
  rcases hs with rfl | rfl
  · exact if_pos rfl
  · split
    · rfl
    · rw [hn, List.take_length]

theorem encode_final_announcing (hD : D ≠ []) (hs : size = 0 ∨ size = UInt64.ofNat D.length) :
    (recFix ((R.announcing D size).final 0 0 D)).encode =
      (recFix (describeAddedData R D)).encode := by
  rw [describeAddedData_eq hD]
  by_cases hk : (R.announcing D size).Keeps
  · rw [final, if_pos hk]
    obtain ⟨hne, hc⟩ := hk
    have hs := hs.resolve_left hne
    refine encode_recFix_congr rfl rfl hs rfl rfl fun h => ?_
    cases h.symm.trans hc
  · rw [final, if_neg hk]
    refine encode_recFix_congr rfl rfl (UInt64.zero_add _) rfl rfl fun h => ?_
    have h' : recHasAddedDataCRC (R.announcing D size) = true := h
    simp only [counted, h', if_true]
    rw [recHasAddedDataCRC_announcing] at h'
    rw [h', if_pos rfl]

/-- The one-shot writer and the streaming writer leave the same bytes, the same position and the
same state, for every split of the data into chunks. -/
theorem oneShot_eq_streaming {a b : List UInt8} {kcf : KCF} (ho : kcf.Obliging)
    (hi : Idle a b kcf) (hD : D ≠ []) (hl : D.length < 2 ^ 64)
    (hs : size = 0 ∨ size = UInt64.ofNat D.length) (hf : (R.announcing D size).Fits)
    {chunks : List (List UInt8)} (hc : chunks.flatten = D) :
    ∃ k k' S, kcf.writeRecordWithAddedData R D = .ok (.ok, k, S) ∧
      kcf.streamRecord (R.announcing D size) chunks = .ok (.ok, k') ∧
      k.stream.bytes = k'.stream.bytes ∧ k.stream.pos = k'.stream.pos ∧
      k.parserState = k'.parserState := by
  have hr := hi.ready ho
  obtain ⟨k, hk, -, hi₁⟩ := hr.writeRecordWithAddedData ((describeAddedData_fits hD).mpr hf)
  obtain ⟨k', hk', -, hi₂⟩ := hr.streamRecord hf recHasAddedSize_announcing chunks
  have hlen : (recFix (R.announcing D size)).encode.length =
      (recFix (describeAddedData R D)).encode.length := by
    rw [length_encode_recFix hf, length_encode_recFix ((describeAddedData_fits hD).mpr hf),
      describeAddedData_eq hD]
    rfl
  rw [hc, accepts_announcing hs hl, encode_final_announcing hD hs, hlen] at hi₂
  exact ⟨k, k', _, hk, hk', hi₁.stream.bytes.trans hi₂.stream.bytes.symm,
    hi₁.stream.pos.trans hi₂.stream.pos.symm, hi₁.state.trans hi₂.state.symm⟩

theorem oneShot_eq_streaming_three :
    ∃ k k' S,
      (KCF.writing (.ofBytes [])).writeRecordWithAddedData
        { Record.zero with headFlags := 0x20 } [1, 2, 3] = .ok (.ok, k, S) ∧
      (KCF.writing (.ofBytes [])).streamRecord
        ({ Record.zero with headFlags := 0x20 }.announcing [1, 2, 3] 3) [[1], [], [2, 3]] =
          .ok (.ok, k') ∧
      k.stream.bytes = k'.stream.bytes ∧ k.stream.pos = k'.stream.pos ∧
      k.parserState = k'.parserState :=
  oneShot_eq_streaming (a := []) (b := []) ⟨fun _ => rfl, fun _ => rfl, fun _ => rfl⟩
    ⟨rfl, ⟨rfl, rfl⟩, rfl, rfl, rfl⟩ (by decide) (by decide) (.inr (by decide)) (by decide) rfl

end Kcf
