import Kcf.Reader.Cases

/-! # Reading a record and its added data

What a reader makes of a record that was laid out on a stream that delivers all
its bytes, and how a client drains the added data behind it in pieces of
whatever sizes it likes.
-/

namespace Kcf

open LittleEndian

namespace Record

/-- The record as its header shows it. -/
def shown (F : Record) : Record :=
  { F with
    addedSize := UInt64.ofNat (F.addedSize.toNat % 256 ^ addedSizeWidth F.headFlags)
    addedDataCRC32 := if recHasAddedDataCRC F then F.addedDataCRC32 else 0 }.withData F.bytes

variable {F : Record}

@[simp] theorem shown_headType (F : Record) : F.shown.headType = F.headType := rfl
@[simp] theorem shown_headFlags (F : Record) : F.shown.headFlags = F.headFlags := rfl
@[simp] theorem shown_bytes (F : Record) : F.shown.bytes = F.bytes := rfl

theorem toNat_shown_addedSize (F : Record) :
    F.shown.addedSize.toNat = F.addedSize.toNat % 256 ^ addedSizeWidth F.headFlags := by
  have hlt : F.addedSize.toNat % 256 ^ addedSizeWidth F.headFlags < 2 ^ 64 :=
    lt_of_le_of_lt (Nat.mod_le ..) F.addedSize.toNat_lt
  exact (UInt64.toNat_ofNat' ..).trans (Nat.mod_eq_of_lt hlt)

theorem shown_fields (F : Record) : F.shown.fields = F.fields := by
  have hs : LittleEndian.encode (addedSizeWidth F.headFlags) F.shown.addedSize.toNat =
      LittleEndian.encode (addedSizeWidth F.headFlags) F.addedSize.toNat := by
    rw [toNat_shown_addedSize, encode_mod]
  have hc : LittleEndian.encode (addedDataCRCWidth F.headFlags) F.shown.addedDataCRC32.toNat =
      LittleEndian.encode (addedDataCRCWidth F.headFlags) F.addedDataCRC32.toNat := by
    by_cases h : recHasAddedDataCRC F = true
    · rw [show F.shown.addedDataCRC32 = F.addedDataCRC32 from if_pos h]
    · rw [recHasAddedDataCRC_iff, not_not] at h
      simp [addedDataCRCWidth, h]
  simp only [fields, shown_headType, shown_headFlags, hs, hc]
  rfl

theorem recValidate_shown (F : Record) : recValidate F.shown = recValidate F := by
  simp only [recValidate, recCalculateCRC_eq, shown_fields, shown_bytes]
  rfl

theorem parsed_encode (R F : Record) (cs : List UInt8) :
    (R.parsed (F.encode ++ cs)).withData F.bytes = F.shown := by
  have hf : (R.fixed (F.encode ++ cs)).headFlags = F.headFlags := by
    rw [fixed, field_headFlags, UInt8.ofNat_toNat]
  have hc : UInt32.ofNat (F.addedDataCRC32.toNat % 256 ^ addedDataCRCWidth F.headFlags) =
      if recHasAddedDataCRC F then F.addedDataCRC32 else 0 := by
    by_cases h : recHasAddedDataCRC F = true
    · have hw : addedDataCRCWidth F.headFlags = 4 := if_pos (recHasAddedDataCRC_iff.mp h)
      rw [if_pos h, hw, Nat.mod_eq_of_lt (show _ < 256 ^ 4 from UInt32.toNat_lt _),
        UInt32.ofNat_toNat]
    · rw [if_neg h]
      rw [recHasAddedDataCRC_iff, not_not] at h
      simp [addedDataCRCWidth, h, Nat.mod_one]
  simp only [parsed, hf, field_addedSize, field_addedDataCRC, hc]
  simp only [fixed, field_headCRC, field_headType, field_headFlags, field_headSize,
    UInt16.ofNat_toNat, UInt8.ofNat_toNat]
  rfl

end Record

/-- A reader with memory on a stream that delivers all its bytes, between these two stretches. -/
structure ReaderAt (a b : List UInt8) (kcf : KCF) : Prop where
  grants : kcf.heap.Grants
  reads : kcf.stream.ReadsFully
  stream : kcf.stream.At a b

theorem IOStream.At.advanced {s : IOStream} {a b c : List UInt8} (h : s.At a (b ++ c)) :
    (s.advanced b.length).At (a ++ b) c :=
  ⟨h.bytes.trans (List.append_assoc ..).symm, by
    rw [IOStream.advanced, h.pos, List.length_append]⟩

/-- The handle once a header of this length was read. -/
def KCF.tookHeader (kcf : KCF) (size : ℕ) (crc : UInt32) : KCF :=
  { kcf with
    stream := kcf.stream.advanced size
    addedDataCRC32 := crc
    parserState := .readRecordData }

/-- The handle once so many bytes of data were read into a fresh block. -/
def KCF.tookData (kcf : KCF) (size : ℕ) : KCF :=
  { kcf with
    heap := kcf.heap.next
    stream := kcf.stream.advanced size }

namespace ReaderAt

variable {a b c : List UInt8} {kcf : KCF}

theorem ioRead (h : ReaderAt a (b ++ c) kcf) :
    Kcf.ioRead kcf.stream b.length = ((b.length : ℤ), b, kcf.stream.advanced b.length) := by
  have hl : min b.length (b ++ c).length = b.length := by
    rw [List.length_append]
    omega
  rw [ioRead_full (h.reads 0), h.stream.ahead_eq, hl, List.take_left, h.reads.took_eq]

theorem advanced (h : ReaderAt a (b ++ c) kcf) {k : KCF}
    (hs : k.stream = kcf.stream.advanced b.length) (hm : k.heap.Grants) :
    ReaderAt (a ++ b) c k :=
  ⟨hm, hs ▸ h.reads.advanced _, hs ▸ h.stream.advanced⟩

theorem readRecordHeader {F : Record} (h : ReaderAt a (F.encode ++ c) kcf) (R : Record) :
    kcf.readRecordHeader R =
      (.ok, kcf.tookHeader F.header.length (R.parsed (F.encode ++ c)).addedDataCRC32,
        R.parsed (F.encode ++ c), F.header.length) := by
  have hf : (R.parsed (F.encode ++ c)).headFlags = F.headFlags := by
    have hp := congrArg Record.headFlags (R.parsed_encode F c)
    exact hp
  have hl : min F.header.length (F.encode ++ c).length = F.header.length := by
    rw [Record.encode, List.length_append, List.length_append]
    omega
  unfold KCF.readRecordHeader
  rw [← padded_nil, HeaderState.readFields_full h.reads, h.stream.ahead_eq, hf,
    ← F.length_header]
  simp only [HeaderState.standing, h.stream.ahead_eq, hl]
  rfl

end ReaderAt

namespace KCF

variable {a b : List UInt8} {kcf : KCF}

theorem readRecordData_laid {d : List UInt8} (h : ReaderAt a (d ++ b) kcf) (hd : d.length ≤ 65535)
    (R : Record) :
    kcf.readRecordData R d.length =
      (.ok, (kcf.tookData d.length).announced R, R.withData d) := by
  obtain ⟨block, hm, hl⟩ := malloc_granted (h.grants 0)
    (show d.length ≤ PTRDIFF_MAX by rw [PTRDIFF_MAX]; omega)
  have ho : block.overwrite 0 d = d := by
    simpa using List.overwrite_block (p := []) (q := []) hl
  unfold readRecordData
  simp only [hm, h.ioRead, ho]
  exact if_neg (by omega)

/-- A record that was laid out is read as its header shows it. -/
theorem readRecord_laid {F : Record} (hp : kcf.parserState = .readRecordHeader)
    (h : ReaderAt a (F.encode ++ b) kcf) (hf : F.Fits)
    (hs : F.headSize.toNat = headerLength F.headFlags + F.dataSize) (R : Record) :
    ∃ k, kcf.readRecord (some R) = (.ok, k, some F.shown) ∧ ReaderAt (a ++ F.encode) b k ∧
      k.availableAddedData = F.shown.addedSize ∧ k.actualAddedDataCRC32 = 0 ∧
      k.parserState = if recHasAddedSize F then .readAddedData else .readRecordHeader := by
  have hc : ReaderAt a (F.encode ++ b) kcf.cleared := ⟨h.grants, h.reads, h.stream⟩
  have hk : ReaderAt (a ++ F.header) (F.bytes ++ b)
      (kcf.cleared.tookHeader F.header.length (R.parsed (F.encode ++ b)).addedDataCRC32) := by
    rw [Record.encode, List.append_assoc] at hc
    exact hc.advanced rfl h.grants
  have hd : (R.parsed (F.encode ++ b)).headSize = F.headSize := by
    have hp := congrArg Record.headSize (R.parsed_encode F b)
    exact hp
  have hl := F.length_bytes hf.1
  have hz : toSize ((F.headSize.toNat : ℤ) - F.header.length) = F.bytes.length := by
    have := hf.2
    rw [hs, F.length_header, hl]
    unfold toSize UInt64.size
    omega
  refine ⟨((kcf.cleared.tookHeader F.header.length
    (R.parsed (F.encode ++ b)).addedDataCRC32).tookData F.bytes.length).announced
      (R.parsed (F.encode ++ b)), ?_, ?_, ?_, rfl, ?_⟩
  · rw [readRecord_of_header hp, hc.readRecordHeader]
    unfold afterHeader
    dsimp only
    rw [hd, hz, readRecordData_laid hk (by have := hf.2; omega), R.parsed_encode]
  · rw [Record.encode, ← List.append_assoc]
    exact hk.advanced rfl h.grants.next
  · have hp := congrArg Record.addedSize (R.parsed_encode F b)
    exact hp
  · have hp := congrArg recHasAddedSize (R.parsed_encode F b)
    exact congrArg (fun b : Bool => if b then ParserState.readAddedData else .readRecordHeader) hp

/-- Read added data in pieces of the given sizes while some is available, for a number of
rounds. -/
def drain : ℕ → (ℕ → ℕ) → KCF → Exec (KcfError × KCF × List UInt8)
  | 0, _, kcf => if kcf.isAddedDataAvailable then .error .outOfFuel else .ok (.ok, kcf, [])
  | fuel + 1, sizes, kcf =>
    if kcf.isAddedDataAvailable then do
      let (error, kcf, bytes, _) ← kcf.readAddedData (some (sizes 0))
      if error ≠ .ok then return (error, kcf, bytes)
      else
        let (error, kcf, more) ← kcf.drain fuel fun i => sizes (i + 1)
        return (error, kcf, bytes ++ more)
    else .ok (.ok, kcf, [])

end KCF

/-- These bytes of a record's added data are left to deliver, and the bytes delivered so far have
this checksum. -/
structure Delivering (a added b : List UInt8) (crc : UInt32) (kcf : KCF) : Prop where
  reader : ReaderAt a (added ++ b) kcf
  left : kcf.availableAddedData.toNat = added.length
  state : added ≠ [] → kcf.parserState = .readAddedData
  crc : kcf.actualAddedDataCRC32 = crc

namespace Delivering

variable {a b added piece rest : List UInt8} {crc : UInt32} {kcf : KCF}

theorem isAddedDataAvailable_iff (h : Delivering a added b crc kcf) :
    kcf.isAddedDataAvailable = true ↔ added ≠ [] := by
  rw [KCF.isAddedDataAvailable, decide_eq_true_iff, UInt64.lt_iff_toNat_lt, h.left]
  exact List.length_pos_iff

theorem consumed (h : Delivering a (piece ++ rest) b crc kcf) (hp : piece ≠ []) {k : KCF}
    (hk : k = { kcf with stream := kcf.stream.advanced piece.length }.consumed piece.length piece
      piece.length) :
    Delivering (a ++ piece) rest b (crc32c crc piece) k ∧
      (rest = [] → k.parserState = .readRecordHeader) := by
  have hr := h.reader
  have hl := h.left
  have hs := KCF.consumed_parserState { kcf with stream := kcf.stream.advanced piece.length }
    (h.state (by simp [hp])) piece.length piece piece.length
  rw [List.append_assoc] at hr
  rw [List.length_append] at hl
  have hv : (kcf.availableAddedData - UInt64.ofNat piece.length).toNat = rest.length := by
    have hlt := kcf.availableAddedData.toNat_lt
    have hp : (UInt64.ofNat piece.length).toNat = piece.length :=
      (UInt64.toNat_ofNat' ..).trans (Nat.mod_eq_of_lt (by omega))
    rw [UInt64.toNat_sub_of_le _ _ (UInt64.le_iff_toNat_le.mpr (by omega)), hp]
    omega
  obtain ⟨hstream, hheap, hsum, hleft⟩ : k.stream = kcf.stream.advanced piece.length ∧
      k.heap = kcf.heap ∧ k.actualAddedDataCRC32 = crc32c crc piece ∧
      k.availableAddedData.toNat = rest.length := by
    rw [← h.crc, ← hv, hk]
    unfold KCF.consumed
    dsimp only
    split <;> exact ⟨rfl, rfl, rfl, rfl⟩
  have h₀ : k.availableAddedData = 0 ↔ rest = [] := by
    rw [← UInt64.toNat_inj, hleft]
    exact List.length_eq_zero_iff
  rw [← hk] at hs
  refine ⟨⟨hr.advanced hstream (hheap ▸ hr.grants), hleft, fun hne => ?_, hsum⟩, fun hz => ?_⟩
  · rw [hs, if_neg (mt h₀.mp hne)]
  · rw [hs, if_pos (h₀.mpr hz)]

/-- One call delivers the next piece, and after the last one the reader is ready for a record. -/
theorem readAddedData (h : Delivering a (piece ++ rest) b crc kcf) (hp : piece ≠ []) {n : ℕ}
    (hn : min n (piece ++ rest).length = piece.length) :
    ∃ k, kcf.readAddedData (some n) = .ok (.ok, k, piece, some piece.length) ∧
      Delivering (a ++ piece) rest b (crc32c crc piece) k ∧
      (rest = [] → k.parserState = .readRecordHeader) := by
  have hr := h.reader
  have hlt := kcf.availableAddedData.toNat_lt
  have hle : piece.length ≤ kcf.availableAddedData.toNat := by
    rw [h.left, List.length_append]
    omega
  have h₀ : kcf.availableAddedData ≠ 0 := by
    intro hz
    rw [hz] at hle
    exact hp (List.length_eq_zero_iff.mp (Nat.le_zero.mp hle))
  have hsize : ¬ toSize piece.length < piece.length := by
    rw [toSize_natCast, Nat.mod_eq_of_lt (lt_of_le_of_lt hle hlt)]
    exact lt_irrefl _
  rw [List.append_assoc] at hr
  obtain ⟨hk, hend⟩ := h.consumed hp rfl
  refine ⟨_, ?_, hk, hend⟩
  rw [KCF.readAddedData_of_added (h.state (by simp [hp])), if_neg h₀, h.left, hn]
  unfold KCF.readAvailable
  rw [hr.ioRead]
  dsimp only
  rw [if_neg hsize, if_neg (by omega)]
  rfl

theorem drain_nothing (h : Delivering a [] b crc kcf) (fuel : ℕ) (sizes : ℕ → ℕ) :
    kcf.drain fuel sizes = .ok (.ok, kcf, []) := by
  have hn : ¬ kcf.isAddedDataAvailable = true := fun hn => h.isAddedDataAvailable_iff.mp hn rfl
  cases fuel with
  | zero => exact if_neg hn
  | succ fuel => exact if_neg hn

/-- Draining delivers all that is left, whatever sizes the pieces have. -/
theorem drain (h : Delivering a added b crc kcf) {sizes : ℕ → ℕ} (hs : ∀ i, 0 < sizes i)
    {fuel : ℕ} (hf : added.length ≤ fuel) :
    ∃ k, kcf.drain fuel sizes = .ok (.ok, k, added) ∧
      Delivering (a ++ added) [] b (crc32c crc added) k ∧
      k.parserState = if added = [] then kcf.parserState else .readRecordHeader := by
  induction fuel generalizing kcf a added crc sizes with
  | zero =>
    obtain rfl := List.length_eq_zero_iff.mp (Nat.le_zero.mp hf)
    rw [List.append_nil, crc32c_nil]
    exact ⟨kcf, h.drain_nothing .., h, rfl⟩
  | succ fuel ih =>
    by_cases hne : added = []
    · subst hne
      rw [List.append_nil, crc32c_nil]
      exact ⟨kcf, h.drain_nothing .., h, rfl⟩
    · have hav := h.isAddedDataAvailable_iff.mpr hne
      have hpos := List.length_pos_iff.mpr hne
      have hn := hs 0
      have hlen : (added.take (sizes 0)).length = min (sizes 0) added.length := List.length_take ..
      have hp : added.take (sizes 0) ≠ [] := List.ne_nil_of_length_pos (by omega)
      rw [← List.take_append_drop (sizes 0) added] at h
      obtain ⟨k, hk, hd, hend⟩ := h.readAddedData hp (n := sizes 0)
        (by rw [List.take_append_drop]; exact hlen.symm)
      obtain ⟨k', hk', hd', hend'⟩ := ih hd (fun i => hs (i + 1)) (by rw [List.length_drop]; omega)
      rw [List.append_assoc, ← crc32c_append, List.take_append_drop] at hd'
      refine ⟨k', ?_, hd', ?_⟩
      · rw [KCF.drain, if_pos hav, hk]
        change (k.drain fuel _ >>= fun r => Except.ok (r.1, r.2.1, _ ++ r.2.2)) = _
        rw [hk']
        exact congrArg (fun bs => Except.ok (KcfError.ok, k', bs)) (List.take_append_drop ..)
      · rw [hend', if_neg hne]
        split
        · exact hend ‹_›
        · rfl

end Delivering

end Kcf
