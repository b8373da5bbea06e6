import Kcf.Reader.Short

/-! # What a record is read from

No read of a record is checked for having delivered in full. A record is the
one in the bytes that its reads hand over, whatever they deliver: the header
has zeros in the place of bytes that are missing, and the data what the fresh
block happens to hold.
-/

namespace Kcf

open LittleEndian

/-- A byte string with zeros up to a length. -/
def padTo (n : ℕ) (d : List UInt8) : List UInt8 := d ++ List.replicate (n - d.length) 0

theorem length_padTo {n : ℕ} {d : List UInt8} (h : d.length ≤ n) : (padTo n d).length = n := by
  rw [padTo, List.length_append, List.length_replicate, Nat.add_sub_cancel' h]

theorem field_padTo (n : ℕ) (d : List UInt8) (v w : ℕ) : field (padTo n d) v w = field d v w :=
  field_append_zeros ..

theorem padded_append_padTo {p d : List UInt8} {n : ℕ} (hd : d.length ≤ n)
    (h : p.length + n ≤ 18) : padded (p ++ padTo n d) = padded (p ++ d) := by
  simp only [padded, padTo, List.append_assoc, List.replicate_append_replicate,
    List.length_append, List.length_replicate]
  congr 3
  omega

theorem overwrite_padded (p d : List UInt8) :
    (padded p).overwrite p.length d = padded (p ++ d) := by
  rw [padded, List.overwrite_append, padded, List.drop_replicate, List.length_append,
    Nat.sub_sub]

namespace IOStream

variable {s : IOStream} {c d : List ℕ} {n : ℕ}

/-- The bytes that reads of these sizes hand over one after the other, with zeros for those that
are not delivered. -/
def gathered : IOStream → List ℕ → List UInt8
  | _, [] => []
  | s, n :: counts => padTo n (ioRead s n).2.1 ++ (ioRead s n).2.2.gathered counts

theorem length_gathered (s : IOStream) (c : List ℕ) : (s.gathered c).length = c.sum := by
  induction c generalizing s with
  | nil => rfl
  | cons n c ih =>
    rw [gathered, List.length_append, length_padTo (HeaderState.length_ioRead_le s n), ih,
      List.sum_cons]

theorem gathered_append (s : IOStream) (c d : List ℕ) :
    s.gathered (c ++ d) = s.gathered c ++ (s.after c).gathered d := by
  induction c generalizing s with
  | nil => rfl
  | cons n c ih =>
    rw [List.cons_append, gathered, gathered, ih, List.append_assoc]
    rfl

theorem gathered_of_gets (h : s.Gets c) : s.gathered c = s.ahead.take c.sum := by
  induction c generalizing s with
  | nil => exact List.take_zero.symm
  | cons n c ih =>
    obtain ⟨hle, hr⟩ := ioRead_of_gets h.1
    have hrest := h.2
    rw [gathered, List.sum_cons, List.take_add]
    rw [hr] at hrest ⊢
    rw [ih hrest, ahead_took, padTo, List.length_take, Nat.min_eq_left hle, Nat.sub_self]
    exact congrArg (· ++ _) (List.append_nil _)

end IOStream

namespace HeaderState

variable {s : IOStream} {p : List UInt8} {n : ℕ} {R : Record}

theorem fill_padded (hp : p.length = n) {count : ℕ} (h : n + count ≤ 18) (size : ℕ) (R : Record) :
    ((⟨s, padded p, size, R⟩ : HeaderState).fill n count).2 =
      ⟨s.after [count], padded (p ++ s.gathered [count]), size, R⟩ := by
  subst hp
  have hb := padded_append_padTo (p := p) (length_ioRead_le s count) h
  rw [IOStream.gathered, IOStream.gathered, List.append_nil, hb, ← overwrite_padded]
  rfl

def sizeCounts (flags : UInt8) : List ℕ :=
  (if flags &&& KCF_HAS_ADDED_SIZE_4 ≠ 0 then [4] else []) ++
    if flags &&& KCF_HAS_ADDED_SIZE_8 = KCF_HAS_ADDED_SIZE_8 then [4] else []

/-- The sizes of the reads that its checksum takes. -/
def crcCounts (flags : UInt8) : List ℕ :=
  if flags &&& KCF_HAS_ADDED_DATA_CRC32 ≠ 0 then [4] else []

theorem sum_sizeCounts (flags : UInt8) : (sizeCounts flags).sum = addedSizeWidth flags := by
  revert flags
  decide +kernel

theorem readFixedFields_gathered (hk : (readFixedFields ⟨s, padded [], 0, R⟩).1 = true) :
    (readFixedFields ⟨s, padded [], 0, R⟩).2 =
      ⟨s.after [6], padded (s.gathered [6]), 6, R.fixed (s.gathered [6])⟩ := by
  have hfill := fill_padded (s := s) (p := []) (n := 0) rfl (show 0 + 6 ≤ 18 by norm_num) 0 R
  rw [readFixedFields, (next_eq hk).2, hfill, List.nil_append, parseFixedFields_padded]

/-- The flags announce no size, one of four bytes, or one of eight. -/
theorem sizeCounts_cases (flags : UInt8) :
    (flags &&& KCF_HAS_ADDED_SIZE_4 = 0 ∧ ¬ flags &&& KCF_HAS_ADDED_SIZE_8 = KCF_HAS_ADDED_SIZE_8 ∧
        ¬ flags &&& KCF_HAS_ADDED_SIZE_8 = KCF_HAS_ADDED_SIZE_4 ∧ addedSizeWidth flags = 0 ∧
        sizeCounts flags = []) ∨
      (flags &&& KCF_HAS_ADDED_SIZE_4 ≠ 0 ∧
        ¬ flags &&& KCF_HAS_ADDED_SIZE_8 = KCF_HAS_ADDED_SIZE_8 ∧
        flags &&& KCF_HAS_ADDED_SIZE_8 = KCF_HAS_ADDED_SIZE_4 ∧ addedSizeWidth flags = 4 ∧
        sizeCounts flags = [4]) ∨
      (flags &&& KCF_HAS_ADDED_SIZE_4 ≠ 0 ∧ flags &&& KCF_HAS_ADDED_SIZE_8 = KCF_HAS_ADDED_SIZE_8 ∧
        addedSizeWidth flags = 8 ∧ sizeCounts flags = [4] ++ [4]) := by
  revert flags
  decide +kernel

theorem fillAddedSizeLow_gathered (hp : p.length = 6)
    (h : R.headFlags &&& KCF_HAS_ADDED_SIZE_4 ≠ 0) :
    (fillAddedSizeLow ⟨s, padded p, 6, R⟩).2 =
      ⟨s.after [4], padded (p ++ s.gathered [4]), 6, R⟩ := by
  rw [fillAddedSizeLow, if_pos h]
  exact fill_padded hp (by norm_num) 6 R

theorem readAddedSize4_gathered
    (h₈ : ¬ R.headFlags &&& KCF_HAS_ADDED_SIZE_8 = KCF_HAS_ADDED_SIZE_8)
    (h₄ : R.headFlags &&& KCF_HAS_ADDED_SIZE_8 = KCF_HAS_ADDED_SIZE_4) :
    (readAddedSize ⟨s, padded p, 6, R⟩).2 =
      ⟨s, padded p, 10, { R with addedSize := UInt64.ofNat (field p 6 4) }⟩ := by
  have hr := readU32LE_of_le 14 (c := ⟨padded p, 6⟩) (by simp)
  have hv := toUInt64_ofNat_field p 6
  rw [field_padded] at hr
  rw [readAddedSize, if_neg h₈, if_pos h₄, parseAddedSize4, hr]
  simp only [Option.map_some, Option.getD_some, hv]

theorem readAddedSize8_gathered (hp : p.length = 10)
    (h₈ : R.headFlags &&& KCF_HAS_ADDED_SIZE_8 = KCF_HAS_ADDED_SIZE_8)
    (hk : (readAddedSize ⟨s, padded p, 6, R⟩).1 = true) :
    (readAddedSize ⟨s, padded p, 6, R⟩).2 =
      ⟨s.after [4], padded (p ++ s.gathered [4]), 14,
        { R with addedSize := UInt64.ofNat (field (p ++ s.gathered [4]) 6 8) }⟩ := by
  have hr := readU64LE_of_le 14 (c := ⟨padded (p ++ s.gathered [4]), 6⟩) (by simp)
  rw [field_padded] at hr
  rw [readAddedSize, if_pos h₈] at hk ⊢
  rw [(next_eq hk).2, fill_padded hp (by norm_num), parseAddedSize8, hr]
  rfl

/-- The size of the added data is read from what is handed over for it. -/
theorem readAddedSize_gathered (hp : p.length = 6) (h₀ : R.addedSize = 0)
    (hk : (next readAddedSize (fillAddedSizeLow ⟨s, padded p, 6, R⟩)).1 = true) :
    (next readAddedSize (fillAddedSizeLow ⟨s, padded p, 6, R⟩)).2 =
      ⟨s.after (sizeCounts R.headFlags), padded (p ++ s.gathered (sizeCounts R.headFlags)),
        6 + addedSizeWidth R.headFlags,
        { R with addedSize := UInt64.ofNat (field (p ++ s.gathered (sizeCounts R.headFlags)) 6
          (addedSizeWidth R.headFlags)) }⟩ := by
  have hlen : (p ++ s.gathered [4]).length = 10 := by
    rw [List.length_append, hp, IOStream.length_gathered]
    rfl
  obtain ⟨-, hn⟩ := next_eq hk
  rw [hn] at hk ⊢
  rcases sizeCounts_cases R.headFlags with ⟨hz, h₈, h₄, hw, hc⟩ | ⟨hz, h₈, h₄, hw, hc⟩ |
    ⟨hz, h₈, hw, hc⟩
  · have hf : fillAddedSizeLow ⟨s, padded p, 6, R⟩ = (true, ⟨s, padded p, 6, R⟩) :=
      if_neg (not_not.mpr hz)
    have hr : readAddedSize ⟨s, padded p, 6, R⟩ = (true, ⟨s, padded p, 6, R⟩) :=
      (if_neg h₈).trans (if_neg h₄)
    rw [hf, hr, hw, hc, field_zero, ← show R.addedSize = UInt64.ofNat 0 from h₀]
    exact congrArg (HeaderState.mk s · 6 R) (congrArg padded (List.append_nil p).symm)
  · rw [fillAddedSizeLow_gathered hp hz, readAddedSize4_gathered h₈ h₄, hw, hc]
  · rw [fillAddedSizeLow_gathered hp hz] at hk ⊢
    rw [readAddedSize8_gathered hlen h₈ hk, hw, hc, IOStream.gathered_append, List.append_assoc,
      IOStream.after_append]

theorem readAddedDataCRC_gathered (hp : p.length = n) (hn : n ≤ 14)
    (hk : (readAddedDataCRC ⟨s, padded p, n, R⟩).1 = true) :
    (readAddedDataCRC ⟨s, padded p, n, R⟩).2.record =
      { R with addedDataCRC32 := UInt32.ofNat (field (p ++ s.gathered (crcCounts R.headFlags)) n
        (addedDataCRCWidth R.headFlags)) } := by
  unfold readAddedDataCRC crcCounts addedDataCRCWidth at *
  by_cases hc : R.headFlags &&& KCF_HAS_ADDED_DATA_CRC32 ≠ 0
  · have hr := readU32LE_of_le 18 (c := ⟨padded (p ++ s.gathered [4]), n⟩)
      (show n + 4 ≤ 18 by omega)
    rw [field_padded] at hr
    rw [if_pos hc] at hk
    rw [if_pos hc, if_pos hc, if_pos hc, (next_eq hk).2, fill_padded hp (by omega),
      parseAddedDataCRC, hr]
    rfl
  · rw [if_neg hc, if_neg hc, if_neg hc, field_zero]
    rfl

/-- A header is read from what its reads hand over. -/
theorem readFields_gathered (s : IOStream) (R : Record)
    (hk : (readFields ⟨s, padded [], 0, R⟩).1 = true) :
    (readFields ⟨s, padded [], 0, R⟩).2.record = R.parsed (s.gathered s.headCounts) := by
  set p := s.gathered [6] with hp
  have h₆ : p.length = 6 := s.length_gathered [6]
  have hflags : (R.fixed p).headFlags = s.headFlags :=
    congrArg UInt8.ofNat ((congrArg (field · 3 1) (List.append_nil _)).trans (field_padTo ..))
  have hw := addedSizeWidth_le (R.fixed p).headFlags
  have hlen : (p ++ (s.after [6]).gathered (sizeCounts (R.fixed p).headFlags)).length =
      6 + addedSizeWidth (R.fixed p).headFlags := by
    rw [List.length_append, h₆, IOStream.length_gathered, sum_sizeCounts]
  have hsplit : s.gathered s.headCounts =
      p ++ (s.after [6]).gathered (sizeCounts (R.fixed p).headFlags) ++
        ((s.after [6]).after (sizeCounts (R.fixed p).headFlags)).gathered
          (crcCounts (R.fixed p).headFlags) := by
    rw [List.append_assoc, ← IOStream.gathered_append, hp, ← IOStream.gathered_append, hflags]
    rfl
  have hfixed : R.fixed (s.gathered s.headCounts) = R.fixed p := by
    rw [← Record.fixed_take, hsplit, List.append_assoc, List.take_left' h₆]
  unfold readFields at hk ⊢
  -- the parts of the header one after the other, from the last one back
  obtain ⟨hsize, hn⟩ := next_eq hk
  rw [hn] at hk ⊢
  obtain ⟨hlow, hn⟩ := next_eq hsize
  obtain ⟨hfix, hn'⟩ := next_eq hlow
  rw [hn', readFixedFields_gathered hfix, ← hp] at hsize hk ⊢
  rw [readAddedSize_gathered h₆ rfl hsize] at hk ⊢
  rw [readAddedDataCRC_gathered hlen (by omega) hk, Record.parsed, hfixed, hsplit,
    field_append_left hlen.ge]

end HeaderState

theorem Record.parsed_append (R : Record) {a : List UInt8}
    (h : headerLength (flagsAt a) ≤ a.length) (b : List UInt8) :
    R.parsed (a ++ b) = R.parsed a := by
  have h₆ := (six_le_headerLength _).trans h
  have hfixed : R.fixed (a ++ b) = R.fixed a := by
    rw [← fixed_take, List.take_append_of_le_length h₆, fixed_take]
  have hflags : (R.fixed a).headFlags = flagsAt a := rfl
  unfold headerLength at h
  rw [parsed, parsed, hfixed, hflags, field_append_left (by omega), field_append_left (by omega)]

namespace IOStream

variable {s : IOStream} {heap : Heap}

/-- The size of the record's data, in the header that the first read delivers. -/
def dataCount (s : IOStream) : ℕ := s.headSize.toNat - headerLength s.headFlags

/-- The fresh block for the data with the bytes that are delivered stored in it. -/
def dataReceived (s : IOStream) (heap : Heap) : List UInt8 :=
  ((malloc heap s.dataCount).1.getD []).overwrite 0
    (ioRead (s.after s.headCounts) s.dataCount).2.1

/-- The bytes of a record as its reads hand them over, the header and the data. -/
def received (s : IOStream) (heap : Heap) : List UInt8 :=
  s.gathered s.headCounts ++ s.dataReceived heap

theorem length_header (s : IOStream) :
    (s.gathered s.headCounts).length = headerLength s.headFlags :=
  (s.length_gathered _).trans s.sum_headCounts

theorem field_header (s : IOStream) {v w : ℕ} (h : v + w ≤ 6) (b : List UInt8) :
    field (s.gathered s.headCounts ++ b) v w = field (ioRead s 6).2.1 v w := by
  have hl : (padTo 6 (ioRead s 6).2.1).length = 6 := length_padTo (HeaderState.length_ioRead_le s 6)
  rw [headCounts, gathered, List.append_assoc, field_append_left (h.trans_eq hl.symm), field_padTo]

theorem flagsAt_header (s : IOStream) (b : List UInt8) :
    flagsAt (s.gathered s.headCounts ++ b) = s.headFlags :=
  congrArg UInt8.ofNat (s.field_header (by norm_num) b)

theorem sizeAt_header (s : IOStream) (b : List UInt8) :
    sizeAt (s.gathered s.headCounts ++ b) = s.headSize.toNat := by
  rw [sizeAt, field_header s (by norm_num), headSize]
  exact (Nat.mod_eq_of_lt (field_lt ..)).symm.trans (UInt16.toNat_ofNat' ..).symm

theorem malloc_dataCount (hm : (heap 0).isSome) :
    ∃ block, malloc heap s.dataCount = (some block, heap.next) ∧ block.length = s.dataCount := by
  have hlt := s.headSize.toNat_lt
  exact malloc_granted hm (by unfold dataCount PTRDIFF_MAX; omega)

theorem length_dataReceived (hm : (heap 0).isSome) :
    (s.dataReceived heap).length = s.dataCount := by
  obtain ⟨block, hb, hl⟩ := s.malloc_dataCount hm
  have hr := HeaderState.length_ioRead_le (s.after s.headCounts) s.dataCount
  rw [dataReceived, hb, Option.getD_some, List.length_overwrite_of_le (by omega), hl]

theorem received_holds (hm : (heap 0).isSome) (hle : headerLength s.headFlags ≤ s.headSize.toNat) :
    HoldsRecord (s.received heap) ∧ sizeAt (s.received heap) = (s.received heap).length := by
  have hsize : sizeAt (s.received heap) = s.headSize.toNat := s.sizeAt_header _
  have hflags : flagsAt (s.received heap) = s.headFlags := s.flagsAt_header _
  have hlen : sizeAt (s.received heap) = (s.received heap).length := by
    rw [hsize, received, List.length_append, length_header, length_dataReceived hm, dataCount,
      Nat.add_sub_cancel' hle]
  exact ⟨⟨by rwa [hflags, hsize], hlen.le⟩, hlen⟩

/-- The record in the bytes handed over has the fields of the header and this data. -/
theorem whole_received (hm : (heap 0).isSome) (R : Record) :
    R.whole (s.received heap) =
      (R.parsed (s.gathered s.headCounts)).withData (s.dataReceived heap) := by
  have hflags : flagsAt (s.gathered s.headCounts) = s.headFlags := by
    have hf := s.flagsAt_header []
    rwa [List.append_nil] at hf
  rw [received, Record.whole, R.parsed_append (by rw [hflags, length_header]), flagsAt_header,
    sizeAt_header, ← length_header, List.drop_left,
    List.take_of_length_le (by rw [length_dataReceived hm, length_header, dataCount])]

/-- Where the reads get what they ask for, these are the bytes of the record that stands ahead. -/
theorem received_of_gets (h : s.Gets s.recordCounts) (hm : (heap 0).isSome)
    (hle : headerLength s.headFlags ≤ s.headSize.toNat) :
    s.received heap = s.ahead.take (sizeAt s.ahead) := by
  obtain ⟨hhead, hdata, -⟩ : s.Gets s.headCounts ∧ (s.after s.headCounts).Gets [s.dataCount] :=
    gets_append.mp h
  obtain ⟨hn, hr⟩ := ioRead_of_gets hdata
  obtain ⟨block, hb, hl⟩ := s.malloc_dataCount hm
  have hb' := List.overwrite_block (p := []) (q := []) (e := block)
    (d := (s.after s.headCounts).ahead.take s.dataCount)
    (by rw [hl, List.length_take, Nat.min_eq_left hn])
  simp only [List.nil_append, List.append_nil, List.length_nil] at hb'
  rw [received, dataReceived, hb, Option.getD_some, hr, hb', gathered_of_gets hhead,
    ahead_of_gets hhead, sum_headCounts, ← List.take_add, ← headSize_of_gets hhead, dataCount,
    Nat.add_sub_cancel' hle]

end IOStream

namespace KCF

variable {kcf k : KCF} {R R' : Record}

theorem readRecordData_received {n : ℕ} (h : kcf.readRecordData R n = (.ok, k, R')) :
    R' = R.withData (((malloc kcf.heap n).1.getD []).overwrite 0 (ioRead kcf.stream n).2.1) := by
  unfold readRecordData at h
  rcases hm : malloc kcf.heap n with ⟨_ | block, heap⟩
  · rw [hm] at h
    cases h
  · rw [hm] at h
    rcases hr : ioRead kcf.stream n with ⟨ret, bytes, stream⟩
    rw [hr] at h
    dsimp only at h
    split at h
    · cases h
    · cases h
      rfl

/-- A record that is read with success is the one in the bytes that its reads hand over. -/
theorem readRecord_received (h : kcf.readRecord (some R) = (.ok, k, some R')) :
    R' = R.whole (kcf.stream.received kcf.heap) ∧ HoldsRecord (kcf.stream.received kcf.heap) ∧
      sizeAt (kcf.stream.received kcf.heap) = (kcf.stream.received kcf.heap).length := by
  obtain ⟨hp, -, hle, hm, -⟩ := readRecord_ok h
  refine ⟨?_, IOStream.received_holds hm hle⟩
  obtain ⟨-, hdel⟩ := HeaderState.readFields_delivers kcf.stream R
  have hgathered := HeaderState.readFields_gathered kcf.stream R
  have hfollows := (HeaderState.readFields_follows kcf.stream R).1
  rw [readRecord_of_header hp] at h
  unfold readRecordHeader at h
  rw [← padded_nil, show kcf.cleared.stream = kcf.stream from rfl] at h
  rcases hx : (HeaderState.mk kcf.stream (padded []) 0 R).readFields with ⟨_ | _, h'⟩
  · rw [hx] at h
    cases h
  · rw [hx] at hfollows hgathered hdel h
    obtain ⟨-, hs, hn, -⟩ := hdel rfl
    dsimp only at hs hn
    have hcount : toSize (h'.record.headSize.toNat - h'.size) = kcf.stream.dataCount := by
      have hlt := kcf.stream.headSize.toNat_lt
      rw [hs, hn, IOStream.dataCount]
      unfold toSize UInt64.size
      omega
    unfold afterHeader at h
    dsimp only at h
    rw [hcount] at h
    rcases hy : readRecordData _ h'.record _ with ⟨e, k', R''⟩
    rw [hy] at h
    cases h
    have hst : h'.stream = kcf.stream.after kcf.stream.headCounts := hfollows rfl
    have hR := readRecordData_received hy
    dsimp only at hR
    rw [hst] at hR
    rw [IOStream.whole_received hm, ← hgathered rfl]
    exact hR

end KCF

end Kcf
