import Kcf.Reader.Header

/-! # What each read call does in each state

A record is read where a header is expected, added data where added data is
left, and a record is skipped in both. In every other state a call is refused.
-/

namespace Kcf

namespace KCF

variable {kcf k : KCF} {R : Record}

theorem isReading_iff (x : ParserState) : x.isReading = true ↔
    x = .reading ∨ x = .readMarker ∨ x = .readRecordHeader ∨ x = .readRecordData ∨
      x = .readAddedData := by
  cases x <;> decide

/-- What `KCF_read_record` does with the outcome of reading the header. -/
def afterHeader : KcfError × KCF × Record × ℕ → KcfError × KCF × Option Record
  | (.ok, kcf, R, headerSize) =>
    match kcf.readRecordData R (toSize (R.headSize.toNat - headerSize)) with
    | (error, kcf, R) => (error, kcf, some R)
  | (error, kcf, R, _) => (error, kcf, some R)

theorem readRecord_of_header (h : kcf.parserState = .readRecordHeader) (R : Record) :
    kcf.readRecord (some R) = afterHeader (kcf.cleared.readRecordHeader R) := by
  have hr : kcf.parserState.isReading = true := (isReading_iff _).mpr (by simp [h])
  unfold readRecord
  dsimp only
  rw [hr, if_neg (by simp), if_neg (by simp [h])]
  rfl

theorem readRecord_of_ne (h : kcf.parserState ≠ .readRecordHeader) (R : Record) :
    kcf.readRecord (some R) = (.invalidState, kcf, some R) := by
  simp [readRecord, h]

theorem readAddedData_of_added (h : kcf.parserState = .readAddedData) (bufferSize : ℕ) :
    kcf.readAddedData (some bufferSize) =
      if kcf.availableAddedData = 0 then
        .ok (.ok, { kcf with readerState := .recordHeader }, [], some 0)
      else kcf.readAvailable (min bufferSize kcf.availableAddedData.toNat) := by
  have hr : kcf.parserState.isReading = true := (isReading_iff _).mpr (by simp [h])
  unfold readAddedData
  dsimp only
  rw [hr, if_neg (by simp), if_neg (by simp [h])]

theorem readAddedData_of_ne (h : kcf.parserState ≠ .readAddedData) (bufferSize : ℕ) :
    kcf.readAddedData (some bufferSize) = .ok (.invalidState, kcf, [], none) := by
  simp [readAddedData, h]

/-- What `KCF_skip_record` does with the outcome of reading the header. -/
def skipAfterHeader (fuel : ℕ) : KcfError × KCF × Record × ℕ → Exec (KcfError × KCF)
  | (.ok, kcf, header, headerSize) =>
    kcf.skipBytes fuel (UInt64.ofNat (toSize (header.headSize.toNat - headerSize)) +
      header.addedSize)
  | (error, kcf, _, _) => .ok (error, kcf)

theorem skipRecord_of_header (h : kcf.parserState = .readRecordHeader) (fuel : ℕ)
    (header : Record) :
    kcf.skipRecord fuel header = skipAfterHeader fuel (kcf.readRecordHeader header) := by
  have hr : kcf.parserState.isReading = true := (isReading_iff _).mpr (by simp [h])
  unfold skipRecord
  rw [hr, if_neg (by simp), if_pos h]
  rfl

theorem skipRecord_of_added (h : kcf.parserState = .readAddedData) (fuel : ℕ)
    (header : Record) : kcf.skipRecord fuel header = kcf.skipBytes fuel kcf.availableAddedData := by
  have hr : kcf.parserState.isReading = true := (isReading_iff _).mpr (by simp [h])
  unfold skipRecord
  rw [hr, if_neg (by simp), if_neg (by simp [h]), if_pos h]

theorem skipRecord_of_ne (hh : kcf.parserState ≠ .readRecordHeader)
    (ha : kcf.parserState ≠ .readAddedData) (fuel : ℕ) (header : Record) :
    kcf.skipRecord fuel header = .ok (.invalidState, kcf) := by
  simp [skipRecord, hh, ha]

/-- The record's data is delivered too: the header is no larger than the record, there is memory,
and the read behind those of the header does not fail. -/
def DeliversData (kcf : KCF) : Prop :=
  headerLength kcf.stream.headFlags ≤ kcf.stream.headSize.toNat ∧ (kcf.heap 0).isSome ∧
    ¬ (kcf.stream.reads kcf.stream.headReads).Fails

instance (kcf : KCF) : Decidable kcf.DeliversData := inferInstanceAs (Decidable (_ ∧ _ ∧ _))

/-- The outcomes of `readRecordHeader`. -/
inductive ReadHeader (kcf : KCF) : KcfError × KCF × Record × ℕ → Prop
  | failed {stream : IOStream} {R : Record} {size : ℕ} : ¬ kcf.stream.DeliversHeader →
      ReadHeader kcf (.read, { kcf with stream := stream }, R, size)
  | delivered {stream : IOStream} {R : Record} : kcf.stream.DeliversHeader →
      R.headFlags = kcf.stream.headFlags → R.headSize = kcf.stream.headSize →
      R.addedSize = UInt64.ofNat kcf.stream.headAddedSize →
      (∀ i, stream.reads i = kcf.stream.reads (kcf.stream.headReads + i)) →
      ReadHeader kcf (.ok,
        { kcf with
          stream := stream
          addedDataCRC32 := R.addedDataCRC32
          parserState := .readRecordData }, R, headerLength kcf.stream.headFlags)

theorem readRecordHeader_cases (kcf : KCF) (R : Record) :
    kcf.ReadHeader (kcf.readRecordHeader R) := by
  have hd := HeaderState.readFields_delivers kcf.stream R
  have ha := HeaderState.readFields_addedSize kcf.stream R
  unfold readRecordHeader
  rw [← padded_nil]
  rcases hx : (HeaderState.mk kcf.stream (padded []) 0 R).readFields with ⟨_ | _, h⟩
  · rw [hx] at hd
    exact .failed fun h => Bool.false_ne_true (hd.1.mpr h)
  · rw [hx] at hd ha
    obtain ⟨hf, hs, hn, hr⟩ := hd.2 rfl
    dsimp only
    rw [hn]
    exact .delivered (hd.1.mp rfl) hf hs (ha rfl) hr

/-- The outcomes of `readRecordData`. -/
inductive ReadData (kcf : KCF) (R : Record) (size : ℕ) : KcfError → KCF → Prop
  | noMemory {k : KCF} : (malloc kcf.heap size).1 = none → k.parserState = kcf.parserState →
      ReadData kcf R size .outOfMemory k
  | failed {k : KCF} : (kcf.stream.reads 0).Fails → k.parserState = kcf.parserState →
      ReadData kcf R size .read k
  | read {k : KCF} : (malloc kcf.heap size).1.isSome → ¬ (kcf.stream.reads 0).Fails →
      k.parserState = (if addedSizeWidth R.headFlags = 0 then .readRecordHeader
        else .readAddedData) →
      k.availableAddedData = R.addedSize → ReadData kcf R size .ok k

theorem readRecordData_cases (kcf : KCF) (R : Record) (size : ℕ) :
    kcf.ReadData R size (kcf.readRecordData R size).1 (kcf.readRecordData R size).2.1 := by
  have hf : (ioRead kcf.stream size).1 < 0 ↔ (kcf.stream.reads 0).Fails :=
    Transfer.ret_neg_iff ..
  unfold readRecordData
  rcases hm : malloc kcf.heap size with ⟨_ | block, heap⟩
  · exact .noMemory (by rw [hm]) rfl
  · rcases hr : ioRead kcf.stream size with ⟨ret, bytes, stream⟩
    rw [hr] at hf
    dsimp only at hf ⊢
    by_cases hn : ret < 0
    · rw [if_pos hn]
      exact .failed (hf.mp hn) rfl
    · rw [if_neg hn]
      refine .read (by rw [hm]; rfl) (mt hf.mpr hn) ?_ rfl
      have hw := recHasAddedSize_iff (R := R)
      unfold announced
      by_cases h₀ : addedSizeWidth R.headFlags = 0
      · rw [if_pos h₀, if_neg (fun h => hw.mp h h₀)]
      · rw [if_neg h₀, if_pos (hw.mpr h₀)]

/-- The outcomes of `readRecord` into a record. -/
inductive ReadRecord (kcf : KCF) : KcfError → KCF → Prop
  | refused : kcf.parserState ≠ .readRecordHeader → ReadRecord kcf .invalidState kcf
  | noHeader {k : KCF} : kcf.parserState = .readRecordHeader → ¬ kcf.stream.DeliversHeader →
      k.parserState = .readRecordHeader → ReadRecord kcf .read k
  | noData {k : KCF} {e : KcfError} : kcf.parserState = .readRecordHeader →
      kcf.stream.DeliversHeader → ¬ kcf.DeliversData → e = .outOfMemory ∨ e = .read →
      k.parserState = .readRecordData → ReadRecord kcf e k
  | read {k : KCF} : kcf.parserState = .readRecordHeader → kcf.stream.DeliversHeader →
      kcf.DeliversData →
      k.parserState = (if addedSizeWidth kcf.stream.headFlags = 0 then .readRecordHeader
        else .readAddedData) →
      k.availableAddedData = UInt64.ofNat kcf.stream.headAddedSize → ReadRecord kcf .ok k

theorem ReadRecord.parserState (h : kcf.ReadRecord .ok k) :
    kcf.parserState = .readRecordHeader := by
  cases h with
  | noData hp => exact hp
  | read hp => exact hp

theorem malloc_wrapped {heap : Heap} {size n : ℕ} (hn : n ≤ 18) (h : size < n) :
    (malloc heap (toSize ((size : ℤ) - n))).1 = none := by
  refine malloc_refused ?_
  unfold toSize PTRDIFF_MAX UInt64.size
  omega

theorem malloc_dataSize {heap : Heap} {size n : ℕ} (h₀ : (heap 0).isSome) (h : n ≤ size)
    (hs : size < 65536) :
    ∃ block, malloc heap (toSize ((size : ℤ) - n)) = (some block, heap.next) := by
  have hz : toSize ((size : ℤ) - n) = size - n := by
    unfold toSize UInt64.size
    omega
  obtain ⟨block, hb, _⟩ := malloc_granted h₀
    (show size - n ≤ PTRDIFF_MAX by unfold PTRDIFF_MAX; omega)
  exact ⟨block, hz ▸ hb⟩

/-- The rest of a record is read exactly when its data is delivered. -/
theorem afterHeader_cases (hp : kcf.parserState = .readRecordHeader)
    (hd : kcf.stream.DeliversHeader) (hf : R.headFlags = kcf.stream.headFlags)
    (hs : R.headSize = kcf.stream.headSize)
    (ha : R.addedSize = UInt64.ofNat kcf.stream.headAddedSize)
    (hr : k.stream.reads 0 = kcf.stream.reads kcf.stream.headReads) (hh : k.heap = kcf.heap)
    (hk : k.parserState = .readRecordData) :
    kcf.ReadRecord (afterHeader (.ok, k, R, headerLength kcf.stream.headFlags)).1
      (afterHeader (.ok, k, R, headerLength kcf.stream.headFlags)).2.1 := by
  have hle := headerLength_le kcf.stream.headFlags
  have hlt : kcf.stream.headSize.toNat < 65536 := kcf.stream.headSize.toNat_lt
  have hx := k.readRecordData_cases R
    (toSize (R.headSize.toNat - headerLength kcf.stream.headFlags))
  unfold afterHeader
  dsimp only
  generalize k.readRecordData R _ = y at hx
  obtain ⟨e, k', R'⟩ := y
  cases hx with
  | noMemory hm hk' =>
    refine .noData hp hd (fun hdata => ?_) (.inl rfl) (hk'.trans hk)
    obtain ⟨block, hb⟩ := malloc_dataSize hdata.2.1 hdata.1 hlt
    rw [hh, hs, hb] at hm
    cases hm
  | failed hfail hk' =>
    exact .noData hp hd (fun hdata => hdata.2.2 (hr ▸ hfail)) (.inr rfl) (hk'.trans hk)
  | read hm hfull hk' hv =>
    rw [hh, hs] at hm
    have hn : headerLength kcf.stream.headFlags ≤ kcf.stream.headSize.toNat := by
      by_contra hlt
      rw [malloc_wrapped hle (not_le.mp hlt)] at hm
      cases hm
    have h₀ : (kcf.heap 0).isSome := by
      by_contra h₀
      rw [malloc_eq_none (Option.not_isSome_iff_eq_none.mp h₀)] at hm
      cases hm
    exact .read hp hd ⟨hn, h₀, hr ▸ hfull⟩ (hf ▸ hk') (hv.trans ha)

theorem readRecord_cases (kcf : KCF) (R : Record) :
    kcf.ReadRecord (kcf.readRecord (some R)).1 (kcf.readRecord (some R)).2.1 := by
  by_cases hp : kcf.parserState = .readRecordHeader
  · have hc := kcf.cleared.readRecordHeader_cases R
    rw [readRecord_of_header hp]
    generalize kcf.cleared.readRecordHeader R = x at hc
    cases hc with
    | failed hd => exact .noHeader hp hd hp
    | delivered hd hf hs ha hr => exact afterHeader_cases hp hd hf hs ha (hr 0) rfl rfl
  · rw [readRecord_of_ne hp]
    exact .refused hp

/-- The outcomes of `readAddedData` into a buffer. -/
inductive ReadAdded (kcf : KCF) : KcfError → KCF → Prop
  | refused : kcf.parserState ≠ .readAddedData → ReadAdded kcf .invalidState kcf
  | nothing {k : KCF} : kcf.parserState = .readAddedData → kcf.availableAddedData = 0 →
      k.parserState = .readAddedData → k.availableAddedData = 0 → ReadAdded kcf .ok k
  | short {k : KCF} : kcf.parserState = .readAddedData → kcf.availableAddedData ≠ 0 →
      k.parserState = .readAddedData → k.availableAddedData = kcf.availableAddedData →
      ReadAdded kcf .read k
  | read {k : KCF} : kcf.parserState = .readAddedData → kcf.availableAddedData ≠ 0 →
      k.parserState = (if k.availableAddedData = 0 then .readRecordHeader else .readAddedData) →
      ReadAdded kcf .ok k

theorem consumed_parserState (kcf : KCF) (h : kcf.parserState = .readAddedData) (bufferSize : ℕ)
    (bytes : List UInt8) (nRead : ℕ) :
    (kcf.consumed bufferSize bytes nRead).parserState =
      if (kcf.consumed bufferSize bytes nRead).availableAddedData = 0 then .readRecordHeader
      else .readAddedData := by
  unfold consumed
  by_cases h₀ : kcf.availableAddedData - UInt64.ofNat bufferSize = 0
  · simp [h₀, setState]
  · simp [h₀, h]

theorem readAddedData_cases {bufferSize : ℕ} {r : KcfError × KCF × List UInt8 × Option ℕ}
    (h : kcf.readAddedData (some bufferSize) = .ok r) : kcf.ReadAdded r.1 r.2.1 := by
  by_cases hp : kcf.parserState = .readAddedData
  · rw [readAddedData_of_added hp] at h
    by_cases h₀ : kcf.availableAddedData = 0
    · rw [if_pos h₀] at h
      cases h
      exact .nothing hp h₀ hp h₀
    · rw [if_neg h₀] at h
      unfold readAvailable at h
      generalize ioRead kcf.stream (min bufferSize kcf.availableAddedData.toNat) = x at h
      obtain ⟨ret, bytes, stream⟩ := x
      dsimp only at h
      split at h
      · cases h
        exact .short hp h₀ hp rfl
      · split at h
        · cases h
        · cases h
          exact .read hp h₀ (consumed_parserState { kcf with stream := stream } hp ..)
  · rw [readAddedData_of_ne hp] at h
    cases h
    exact .refused hp

/-- The outcomes of `skipRecord`. -/
inductive SkipRecord (kcf : KCF) : KcfError → KCF → Prop
  | refused : kcf.parserState ≠ .readRecordHeader → kcf.parserState ≠ .readAddedData →
      SkipRecord kcf .invalidState kcf
  | noHeader {k : KCF} : kcf.parserState = .readRecordHeader → ¬ kcf.stream.DeliversHeader →
      k.parserState = .readRecordHeader → SkipRecord kcf .read k
  | header {k : KCF} : kcf.parserState = .readRecordHeader → kcf.stream.DeliversHeader →
      k.parserState = .readRecordData → SkipRecord kcf .read k
  | added {k : KCF} : kcf.parserState = .readAddedData → k.parserState = .readAddedData →
      k.availableAddedData = kcf.availableAddedData → SkipRecord kcf .read k

theorem ioSkip_ret {fuel : ℕ} {s : IOStream} {remaining : ℤ} {r : ℤ × IOStream}
    (h : ioSkip fuel s remaining = .ok r) : r.1 = 0 := by
  induction fuel generalizing s remaining with
  | zero => cases h
  | succ fuel ih =>
    unfold ioSkip at h
    rcases ioRead s (min 4096 remaining).toNat with ⟨nRead, bytes, s'⟩
    dsimp only at h
    split at h
    · cases h
    · split at h
      · cases h
        rfl
      · split at h
        · exact ih h
        · cases h
          rfl

theorem skipBytes_cases {fuel : ℕ} {size : UInt64} {r : KcfError × KCF}
    (h : kcf.skipBytes fuel size = .ok r) :
    ∃ stream, r = (.read, { kcf with stream := stream }) := by
  obtain ⟨⟨ret, stream⟩, hs, hr⟩ := Exec.bind_ok h
  obtain rfl : ret = 0 := ioSkip_ret hs
  exact ⟨stream, (Except.ok.inj hr).symm⟩

theorem skipRecord_cases {fuel : ℕ} {header : Record} {r : KcfError × KCF}
    (h : kcf.skipRecord fuel header = .ok r) : kcf.SkipRecord r.1 r.2 := by
  by_cases hh : kcf.parserState = .readRecordHeader
  · have hc := kcf.readRecordHeader_cases header
    rw [skipRecord_of_header hh] at h
    generalize kcf.readRecordHeader header = x at hc h
    cases hc with
    | failed hd =>
      cases h
      exact .noHeader hh hd hh
    | delivered hd =>
      obtain ⟨stream, rfl⟩ := skipBytes_cases h
      exact .header hh hd rfl
  · by_cases ha : kcf.parserState = .readAddedData
    · rw [skipRecord_of_added ha] at h
      obtain ⟨stream, rfl⟩ := skipBytes_cases h
      exact .added ha ha rfl
    · rw [skipRecord_of_ne hh ha] at h
      cases h
      exact .refused hh ha

end KCF

end Kcf
