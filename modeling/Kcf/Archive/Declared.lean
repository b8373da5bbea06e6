import Kcf.Reader.Exact
import Kcf.Reader.States
import Kcf.Writer.Session

/-! # Declared and added sizes

A record whose size was declared and whose added data is not summed keeps the
header it was opened with. It tells the truth once as much was added as was
declared; every other header is patched and tells the truth anyway.
-/

namespace Kcf

open LittleEndian Record

/-- A byte string starts with a record whose checksum is valid and whose header tells the size of
the added data, which follows the record. -/
structure TellsTruth (s added : List UInt8) : Prop where
  valid : field s 0 2 = (crc32c 0 ((s.take (sizeAt s)).drop 2)).toNat % 2 ^ 16
  size : addedSizeAt s = added.length
  stored : (s.drop (sizeAt s)).take added.length = added

instance (s added : List UInt8) : Decidable (TellsTruth s added) :=
  decidable_of_iff (_ ∧ _ ∧ _) ⟨fun h => ⟨h.1, h.2.1, h.2.2⟩, fun h => ⟨h.valid, h.size, h.stored⟩⟩

/-- No record is open and the counters are clear. -/
structure KCF.Fresh (kcf : KCF) : Prop where
  state : kcf.parserState = .writeRecord
  bound : kcf.addedDataToBeWritten = 0
  written : kcf.writtenAddedData = 0
  crc : kcf.addedDataCRC32 = 0

variable {R : Record} {kcf k : KCF} {added cs : List UInt8} {chunks : List (List UInt8)}

theorem Record.flagsAt_encode (F : Record) (cs : List UInt8) :
    flagsAt (F.encode ++ cs) = F.headFlags := by
  rw [flagsAt, field_headFlags, UInt8.ofNat_toNat]

theorem sizeAt_encode {F : Record} (hf : F.Fits)
    (hs : F.headSize.toNat = headerLength F.headFlags + F.dataSize) (cs : List UInt8) :
    sizeAt (F.encode ++ cs) = F.encode.length := by
  rw [sizeAt, field_headSize, hs, length_encode hf]

theorem Record.addedSizeAt_encode (F : Record) (cs : List UInt8) :
    addedSizeAt (F.encode ++ cs) = F.addedSize.toNat % 256 ^ addedSizeWidth F.headFlags := by
  rw [addedSizeAt, flagsAt_encode, field_addedSize]

theorem tellsTruth_encode {F : Record} (hf : F.Fits)
    (hs : F.headSize.toNat = headerLength F.headFlags + F.dataSize)
    (hv : recValidate F = true) (added cs : List UInt8) :
    TellsTruth (F.encode ++ (added ++ cs)) added ↔
      F.addedSize.toNat % 256 ^ addedSizeWidth F.headFlags = added.length := by
  have hsize := sizeAt_encode hf hs (added ++ cs)
  have hadded := F.addedSizeAt_encode (added ++ cs)
  refine ⟨fun h => hadded.symm.trans h.size, fun h => ⟨?_, hadded.trans h, ?_⟩⟩
  · rw [hsize, List.take_left, field_headCRC]
    have hcrc := F.recValidate_iff_encode.mp hv
    have hhead := F.field_headCRC []
    rw [List.append_nil] at hhead
    rw [← hcrc, hhead]
  · rw [hsize, List.drop_left, List.take_left]

theorem toNat_final_addedSize (ha : recHasAddedSize R = true) (hD : R.addedSize.toNat < 2 ^ 32)
    {total : List UInt8} (ht : total.length < 2 ^ 32) :
    (R.final 0 0 (R.accepts total)).addedSize.toNat % 256 ^ addedSizeWidth R.headFlags =
        (R.accepts total).length ↔
      R.addedSize = 0 ∨ recHasAddedDataCRC R = true ∨ R.addedSize.toNat ≤ total.length := by
  have hle : (R.accepts total).length ≤ total.length := by
    unfold accepts
    split
    · exact le_rfl
    · exact List.length_take_le' ..
  have hmod (n : ℕ) (hn : n < 2 ^ 32) : n % 256 ^ addedSizeWidth R.headFlags = n := by
    rcases addedSizeWidth_cases (recHasAddedSize_iff.mp ha) with hw | hw <;> rw [hw] <;> omega
  by_cases hk : R.Keeps
  · obtain ⟨h₀, hc⟩ := hk
    rw [final, if_pos ⟨h₀, hc⟩, hmod _ hD, accepts, if_neg h₀, List.length_take, hc]
    simp only [h₀, Bool.false_eq_true, false_or]
    omega
  · have hcount : (R.counted 0 0 (R.accepts total)).addedSize.toNat = (R.accepts total).length := by
      change (0 + UInt64.ofNat _).toNat = _
      rw [UInt64.zero_add, UInt64.toNat_ofNat']
      omega
    rw [final, if_neg hk, hcount, hmod _ (by omega)]
    refine iff_of_true rfl ?_
    rw [Keeps, not_and_or, not_not, Bool.not_eq_false] at hk
    exact hk.imp_right .inl

theorem KCF.Fresh.streamed (h : kcf.Fresh) (ho : kcf.Obliging) (ha : recHasAddedSize R = true)
    (hk : kcf.streamRecord R chunks = .ok (.ok, k)) :
    R.Fits ∧ ∃ tail, k.stream.bytes.drop kcf.stream.pos =
      (recFix (R.final 0 0 (R.accepts chunks.flatten))).encode ++
        (R.accepts chunks.flatten ++ tail) := by
  have hf := KCF.fits_of_streamRecord hk
  obtain ⟨k', hrun, -, hi⟩ := (KCF.Accept.idle h.state).streamRecord ho hf ha chunks
  obtain rfl := congrArg Prod.snd (Except.ok.inj (hrun.symm.trans hk))
  have hb := hi.stream.bytes
  rw [h.written, h.crc, R.admits_zero, List.append_assoc, List.append_assoc] at hb
  have hd := congrArg (List.drop kcf.stream.pos) hb
  conv_rhs at hd => rw [← kcf.stream.length_behind, List.drop_left]
  exact ⟨hf, _, hd⟩

/-- Once a record is finished with success, its header tells the truth about the added data, which
is as much of the chunks as the declared size admits, exactly when no size was declared, a checksum
is asked for or the chunks are no shorter than declared. -/
theorem tellsTruth_iff (hk : kcf.Fresh) (ho : kcf.Obliging) (ha : recHasAddedSize R = true)
    (hD : R.addedSize.toNat < 2 ^ 32) (ht : chunks.flatten.length < 2 ^ 32)
    (h : kcf.streamRecord R chunks = .ok (.ok, k)) :
    TellsTruth (k.stream.bytes.drop kcf.stream.pos) (R.accepts chunks.flatten) ↔
      R.addedSize = 0 ∨ recHasAddedDataCRC R = true ∨
        R.addedSize.toNat ≤ chunks.flatten.length := by
  obtain ⟨hf, tail, hb⟩ := hk.streamed ho ha h
  have hfits : (R.final 0 0 (R.accepts chunks.flatten)).Fits := final_fits.mpr hf
  have htruth := tellsTruth_encode ((recFix_fits _).mpr hfits) (recFix_headSize_of_fits hfits)
    (recValidate_recFix _) (R.accepts chunks.flatten) tail
  rw [recFix_headFlags, recFix_addedSize, final_headFlags] at htruth
  rw [hb, htruth]
  exact toNat_final_addedSize ha hD ht

theorem tellsTruth_clamped :
    ∃ k, (KCF.writing (.ofBytes [])).streamRecord (.adding 1) [[7, 8]] = .ok (.ok, k) ∧
      TellsTruth (k.stream.bytes.drop 0) [7] := by
  have ho : (KCF.writing (.ofBytes [])).Obliging :=
    ⟨Heap.grants_zeros, fun _ => rfl, fun _ => rfl⟩
  have hlen : ([[7, 8]] : List (List UInt8)).flatten.length < 2 ^ 32 := by decide
  exact ⟨_, rfl, (tellsTruth_iff (R := .adding 1) ⟨rfl, rfl, rfl, rfl⟩ ho rfl (by decide) hlen
    rfl).mpr (.inr (.inr (by decide)))⟩

/-- One byte is added to a record that declares two. -/
theorem tellsTruth_unmet :
    ∃ k, (KCF.writing (.ofBytes [])).streamRecord (.adding 2) [[7]] = .ok (.ok, k) ∧
      k.stream.bytes.length = 11 ∧ addedSizeAt k.stream.bytes = 2 ∧
      ¬ TellsTruth (k.stream.bytes.drop 0) [7] :=
  ⟨_, rfl, by decide +kernel, by decide +kernel, by decide +kernel⟩

end Kcf
