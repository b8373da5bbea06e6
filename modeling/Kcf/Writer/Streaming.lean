import Kcf.Writer.Cases

/-! # A record while its added data is written

The state between opening a record and finishing it: where its header lies, how
much was added and what the running checksum stands at. A chunk extends the
added data as far as the declared size allows, and finishing leaves the final
header in place of the provisional one.
-/

namespace Kcf

namespace Record

/-- The record with what was really added, started from the given counter and checksum. -/
def counted (R : Record) (w₀ : UInt64) (c₀ : UInt32) (added : List UInt8) : Record :=
  { R with
    addedSize := w₀ + UInt64.ofNat added.length
    addedDataCRC32 := if recHasAddedDataCRC R then crc32c c₀ added else c₀ }

/-- The part of the bytes that the declared size admits; zero declares nothing. -/
def accepts (R : Record) (bs : List UInt8) : List UInt8 :=
  if R.addedSize = 0 then bs else bs.take R.addedSize.toNat

/-- A header with a declared size and without a checksum stays as it was written. -/
def Keeps (R : Record) : Prop := R.addedSize ≠ 0 ∧ recHasAddedDataCRC R = false

instance (R : Record) : Decidable R.Keeps := inferInstanceAs (Decidable (_ ∧ _))

/-- The record whose header is left on the stream in the end. -/
def final (R : Record) (w₀ : UInt64) (c₀ : UInt32) (added : List UInt8) : Record :=
  if R.Keeps then R else R.counted w₀ c₀ added

variable {R : Record} {w₀ : UInt64} {c₀ : UInt32} {added bs cs : List UInt8}

theorem final_eq (R : Record) (w₀ : UInt64) (c₀ : UInt32) (added : List UInt8) :
    ∃ addedSize addedDataCRC32, R.final w₀ c₀ added =
      { R with addedSize := addedSize, addedDataCRC32 := addedDataCRC32 } := by
  unfold final
  split
  · exact ⟨R.addedSize, R.addedDataCRC32, rfl⟩
  · exact ⟨_, _, rfl⟩

@[simp] theorem final_headFlags : (R.final w₀ c₀ added).headFlags = R.headFlags := by
  obtain ⟨a, c, h⟩ := R.final_eq w₀ c₀ added
  rw [h]

theorem final_fits : (R.final w₀ c₀ added).Fits ↔ R.Fits := by
  obtain ⟨a, c, h⟩ := R.final_eq w₀ c₀ added
  rw [h]
  exact Iff.rfl

theorem length_encode_recFix (h : R.Fits) :
    (recFix R).encode.length = headerLength R.headFlags + R.dataSize :=
  (recFix R).length_encode ((recFix_fits R).mpr h)

theorem encode_ne_nil (R : Record) : R.encode ≠ [] := by
  refine List.ne_nil_of_length_pos ?_
  have hl := R.length_header
  have h6 := six_le_headerLength R.headFlags
  rw [Record.encode, List.length_append]
  omega

theorem length_encode_counted (w₀ : UInt64) (c₀ : UInt32) (added : List UInt8) (h : R.Fits) :
    (recFix (R.counted w₀ c₀ added)).encode.length = (recFix R).encode.length := by
  rw [length_encode_recFix h]
  exact length_encode_recFix (R := R.counted w₀ c₀ added) h

end Record

open Record

/-- Memory is granted, and every write and seek goes through. -/
structure KCF.Obliging (kcf : KCF) : Prop where
  grants : kcf.heap.Grants
  writes : kcf.stream.WritesFully
  seeks : kcf.stream.Seeks

/-- A record is open: its provisional header follows `pre`, and `added` follows the header over
a stream that went on with `tail`. The counter and the checksum started from `w₀` and `c₀`. -/
structure Streaming (pre tail : List UInt8) (R : Record) (w₀ : UInt64) (c₀ : UInt32)
    (added : List UInt8) (kcf : KCF) : Prop where
  state : kcf.parserState = .writeAddedData
  record : kcf.lastRecord = recFix R
  fits : R.Fits
  offset : kcf.recordOffset = pre.length
  stream : kcf.stream.At (pre ++ (recFix R).encode ++ added) (tail.drop added.length)
  bound : kcf.addedDataToBeWritten = R.addedSize
  summed : kcf.hasAddedDataCRC32 = recHasAddedDataCRC R
  written : kcf.writtenAddedData = w₀ + UInt64.ofNat added.length
  crc : kcf.addedDataCRC32 = if recHasAddedDataCRC R then crc32c c₀ added else c₀

/-- No record is open and nothing is left of the one before. -/
structure Idle (a b : List UInt8) (kcf : KCF) : Prop where
  state : kcf.parserState = .writeRecord
  stream : kcf.stream.At a b
  bound : kcf.addedDataToBeWritten = 0
  written : kcf.writtenAddedData = 0
  crc : kcf.addedDataCRC32 = 0

namespace Streaming

variable {pre tail added : List UInt8} {R : Record} {w₀ : UInt64} {c₀ : UInt32} {kcf : KCF}

theorem keepsHeader_iff (h : Streaming pre tail R w₀ c₀ added kcf) :
    kcf.keepsHeader = true ↔ R.Keeps := by
  simp only [KCF.keepsHeader, h.bound, h.summed, Keeps, Bool.and_eq_true, decide_eq_true_eq,
    Bool.not_eq_true', UInt64.pos_iff_ne_zero]

theorem patches_iff (h : Streaming pre tail R w₀ c₀ added kcf) : kcf.Patches ↔ ¬ R.Keeps := by
  rw [KCF.Patches, ← h.keepsHeader_iff, Bool.not_eq_true]
  exact and_iff_right h.state

theorem countedRecord_eq (h : Streaming pre tail R w₀ c₀ added kcf) :
    kcf.patchedRecord = recFix (R.counted w₀ c₀ added) := by
  rw [KCF.patchedRecord, KCF.countedRecord, h.record, h.written, h.crc]
  rfl

end Streaming

namespace KCF

variable {kcf : KCF} {R : Record}

/-- The handle that remembers the record whose added data is to come. -/
def opened (kcf : KCF) (R : Record) (heap : Heap) : KCF :=
  { kcf with
    hasAddedSize := true
    hasAddedDataCRC32 := recHasAddedDataCRC R
    lastRecord := R
    heap := heap
    availableAddedData := R.addedSize
    parserState := .writeAddedData }

theorem recCopy_granted {heap : Heap} (hm : heap.Grants) (hf : R.Fits) :
    ∃ heap', heap'.Grants ∧ recCopy R heap = (.ok, R, heap') := by
  have hs := hf.2
  cases hd : R.data with
  | none => exact ⟨heap, hm, by simp [recCopy, hd]⟩
  | some block =>
    obtain ⟨fresh, hb, -⟩ := malloc_granted (hm 0)
      (show R.dataSize ≤ PTRDIFF_MAX by rw [PTRDIFF_MAX]; omega)
    exact ⟨heap.next, hm.next, by simp [recCopy, hd, hb]⟩

theorem saveRecord_of_sized (kcf : KCF) (hm : kcf.heap.Grants) (hf : R.Fits)
    (ha : recHasAddedSize R = true) :
    ∃ heap, heap.Grants ∧ kcf.saveRecord R = kcf.opened R heap := by
  obtain ⟨heap, hg, hc⟩ := recCopy_granted hm hf
  refine ⟨heap, hg, ?_⟩
  simp only [saveRecord, ha, if_true, hc]
  rfl

theorem saveRecord_of_unsized (ha : recHasAddedSize R = false) :
    kcf.saveRecord R =
      { kcf with hasAddedSize := false, hasAddedDataCRC32 := recHasAddedDataCRC R } := by
  simp [saveRecord, ha]

theorem saveRecord_stream (kcf : KCF) (R : Record) : (kcf.saveRecord R).stream = kcf.stream := by
  cases ha : recHasAddedSize R <;> simp [saveRecord, ha]

theorem saveRecord_written (kcf : KCF) (R : Record) :
    (kcf.saveRecord R).writtenAddedData = kcf.writtenAddedData := by
  cases ha : recHasAddedSize R <;> simp [saveRecord, ha]

variable {pre e rest tail : List UInt8}

theorem patched_at (h : kcf.stream.At (pre ++ e ++ rest) tail)
    (ho : kcf.recordOffset = pre.length) (hl : kcf.patchedRecord.encode.length = e.length)
    (hw : kcf.stream.writes 0 = .full) :
    kcf.patched.stream.At (pre ++ kcf.patchedRecord.encode) (rest ++ tail) := by
  change (ioWrite (kcf.stream.sought kcf.recordOffset) kcf.patchedRecord.encode).2.At _ _
  rw [List.append_assoc] at h
  have hh := h.sought.stored kcf.patchedRecord.encode
  rw [List.append_assoc, List.drop_left' hl.symm] at hh
  rw [ho, ioWrite_full (s := kcf.stream.sought pre.length) hw]
  exact hh

theorem at_patched (h : kcf.stream.At (pre ++ e ++ rest) tail)
    (ho : kcf.recordOffset = pre.length) (hl : kcf.patchedRecord.encode.length = e.length)
    (hw : kcf.stream.writes 0 = .full) (hs : kcf.stream.seeks 1 = .done ∨ rest = []) :
    kcf.patched.returned.stream.At (pre ++ kcf.patchedRecord.encode ++ rest) tail := by
  have hb : kcf.stream.pos = (pre ++ kcf.patchedRecord.encode ++ rest).length := by
    rw [h.pos]
    simp only [List.length_append, hl]
  change (ioSeek kcf.patched.stream kcf.stream.pos).2.At _ _
  rw [hb]
  exact (patched_at h ho hl hw).ioSeek hs

end KCF

namespace Streaming

variable {pre tail added : List UInt8} {R : Record} {w₀ : UInt64} {c₀ : UInt32} {kcf : KCF}

theorem of_placed (hm : kcf.heap.Grants) (hw : kcf.stream.writes 0 = .full) (hf : R.Fits)
    (ha : recHasAddedSize R = true) :
    Streaming kcf.stream.behind (kcf.stream.ahead.drop (recFix R).encode.length) R
      kcf.writtenAddedData kcf.addedDataCRC32 []
      ((kcf.placed (recFix R)).saveRecord (recFix R)) := by
  obtain ⟨heap, -, hs⟩ := (kcf.placed (recFix R)).saveRecord_of_sized (R := recFix R)
    hm.next hf ha
  rw [hs]
  have ha := kcf.stream.at_stored (encode_ne_nil (recFix R))
  refine ⟨rfl, rfl, hf, kcf.stream.length_behind.symm, ?_, rfl, rfl, ?_, ?_⟩
  · change (ioWrite kcf.stream (recFix R).encode).2.At _ _
    rw [ioWrite_full hw, List.append_nil]
    exact ha
  · exact (UInt64.add_zero _).symm
  · rw [crc32c_nil, ite_self]
    rfl

theorem counted (h : Streaming pre tail R w₀ c₀ added kcf) (hw : kcf.stream.writes 0 = .full)
    (chunk : List UInt8) :
    Streaming pre tail R w₀ c₀ (added ++ chunk) ((kcf.wrote chunk).counted chunk) := by
  refine ⟨h.state, h.record, h.fits, h.offset, ?_, h.bound, h.summed, ?_, ?_⟩
  · rw [List.length_append, ← List.drop_drop, ← List.append_assoc]
    exact h.stream.ioWrite hw chunk
  · change kcf.writtenAddedData + UInt64.ofNat chunk.length = _
    rw [h.written, List.length_append, UInt64.ofNat_add, UInt64.add_assoc]
  · change (if kcf.hasAddedDataCRC32 then crc32c kcf.addedDataCRC32 chunk else _) = _
    rw [h.summed]
    change (if recHasAddedDataCRC R then crc32c kcf.addedDataCRC32 chunk
      else kcf.addedDataCRC32) = _
    rw [h.crc]
    split
    · rw [crc32c_append]
    · rfl

theorem failed (h : Streaming pre tail R w₀ c₀ added kcf) (hw : (kcf.stream.writes 0).Fails)
    (chunk : List UInt8) : Streaming pre tail R w₀ c₀ added (kcf.wrote chunk) := by
  refine ⟨h.state, h.record, h.fits, h.offset, ?_, h.bound, h.summed, h.written, h.crc⟩
  change (ioWrite kcf.stream chunk).2.At _ _
  rw [ioWrite_failed hw]
  exact h.stream.unstored _

theorem length_patched (h : Streaming pre tail R w₀ c₀ added kcf) :
    kcf.patchedRecord.encode.length = (recFix R).encode.length := by
  rw [h.countedRecord_eq, length_encode_counted w₀ c₀ added h.fits]

theorem patched_at (h : Streaming pre tail R w₀ c₀ added kcf)
    (hw : kcf.stream.writes 0 = .full) :
    kcf.patched.stream.At (pre ++ (recFix (R.counted w₀ c₀ added)).encode)
      (added ++ tail.drop added.length) := by
  rw [← h.countedRecord_eq]
  exact KCF.patched_at h.stream h.offset h.length_patched hw

theorem at_patched (h : Streaming pre tail R w₀ c₀ added kcf)
    (hw : kcf.stream.writes 0 = .full) (hs : kcf.stream.seeks 1 = .done ∨ added = []) :
    kcf.patched.returned.stream.At
      (pre ++ (recFix (R.counted w₀ c₀ added)).encode ++ added) (tail.drop added.length) := by
  rw [← h.countedRecord_eq]
  exact KCF.at_patched h.stream h.offset h.length_patched hw hs

end Streaming

end Kcf
