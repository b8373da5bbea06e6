import Kcf.Reader.Skip
import Kcf.Reader.Sizes
import Kcf.Reader.Frame

/-! # The rounds of a skip

The loop that passes bytes goes round until it has passed as many as it was
asked for. It does not look whether a read delivered any, so that it goes round
for ever at the end of the stream; and it takes the amount for a signed number,
so that it asks for a negative length when the amount is one of 64 bits.
-/

namespace Kcf

/-- The loop ends, from some number of rounds on, having passed what it was asked for, or what
there is. -/
def IOStream.SkipEnds (s : IOStream) (size : ℕ) : Prop :=
  ∃ rounds s', (∀ fuel ≥ rounds, ioSkip fuel s (toInt64 size) = .ok (0, s')) ∧
    s'.pos = s.pos + min size s.ahead.length

theorem ioSkip_loops {fuel : ℕ} {s : IOStream} (hs : s.ReadsOn) {n : ℕ} (hn : s.ahead.length < n) :
    ioSkip fuel s n = .error .outOfFuel := by
  induction fuel generalizing s n with
  | zero => rfl
  | succ fuel ih =>
    obtain ⟨m, hle, hl, -, hround⟩ := ioSkip_round hs n
    rw [hround, if_pos (by omega)]
    apply ih (hs.took m)
    rw [IOStream.ahead_took, List.length_drop]
    omega

theorem skipEnds_iff {s : IOStream} (hs : s.ReadsOn) {size : ℕ} (hsize : size < 2 ^ 63) :
    s.SkipEnds size ↔ size ≤ s.ahead.length := by
  unfold IOStream.SkipEnds
  rw [toInt64_of_lt hsize]
  constructor
  · rintro ⟨rounds, s', hend, -⟩
    by_contra hlt
    have hloop := hend rounds le_rfl
    rw [ioSkip_loops hs (not_le.mp hlt)] at hloop
    cases hloop
  · intro hle
    obtain ⟨k, hk⟩ := ioSkip_on hs hle
    exact ⟨size + 1, _, fun fuel hf => hk fuel hf, by rw [Nat.min_eq_left hle]⟩

namespace HeaderState

variable {h : HeaderState}

theorem stream_next {f : HeaderState → Bool × HeaderState} {r : Bool × HeaderState}
    (hf : (f r.2).2.stream = r.2.stream) : (next f r).2.stream = r.2.stream := by
  obtain ⟨_ | _, h⟩ := r
  · rfl
  · exact hf

theorem fillAddedSizeLow_stream (h : HeaderState) : h.fillAddedSizeLow.2.stream =
    if h.record.headFlags &&& KCF_HAS_ADDED_SIZE_4 ≠ 0 then (ioRead h.stream 4).2.2
    else h.stream := by
  unfold fillAddedSizeLow
  split <;> rfl

theorem readAddedSize_stream (h : HeaderState) : h.readAddedSize.2.stream =
    if h.record.headFlags &&& KCF_HAS_ADDED_SIZE_8 = KCF_HAS_ADDED_SIZE_8 then
      (ioRead h.stream 4).2.2
    else h.stream := by
  unfold readAddedSize
  split
  · exact stream_next (parseAddedSize8_stream _)
  · split
    · exact parseAddedSize4_stream h
    · rfl

theorem readAddedDataCRC_stream (h : HeaderState) : h.readAddedDataCRC.2.stream =
    if h.record.headFlags &&& KCF_HAS_ADDED_DATA_CRC32 ≠ 0 then (ioRead h.stream 4).2.2
    else h.stream := by
  unfold readAddedDataCRC
  split
  · exact stream_next (parseAddedDataCRC_stream _)
  · rfl

end HeaderState

namespace IOStream

def behindSizeLow (s : IOStream) (flags : UInt8) : IOStream :=
  if flags &&& KCF_HAS_ADDED_SIZE_4 ≠ 0 then (ioRead s 4).2.2 else s

def behindSizeHigh (s : IOStream) (flags : UInt8) : IOStream :=
  if flags &&& KCF_HAS_ADDED_SIZE_8 = KCF_HAS_ADDED_SIZE_8 then (ioRead s 4).2.2 else s

/-- The stream behind a field of a checksum of added data. -/
def behindCRC (s : IOStream) (flags : UInt8) : IOStream :=
  if flags &&& KCF_HAS_ADDED_DATA_CRC32 ≠ 0 then (ioRead s 4).2.2 else s

def behindHeader (s : IOStream) : IOStream :=
  (((ioRead s 6).2.2.behindSizeLow s.headFlags).behindSizeHigh s.headFlags).behindCRC s.headFlags

theorem ReadsOn.behindHeader {s : IOStream} (h : s.ReadsOn) : s.behindHeader.ReadsOn := by
  have hr (s : IOStream) (p : Prop) [Decidable p] (h : s.ReadsOn) :
      (if p then (Kcf.ioRead s 4).2.2 else s).ReadsOn := by
    split
    · exact h.ioRead 4
    · exact h
  exact hr _ _ (hr _ _ (hr _ _ (h.ioRead 6)))

end IOStream

namespace HeaderState

theorem readFields_stream {s : IOStream} {R : Record}
    (hk : (readFields ⟨s, padded [], 0, R⟩).1 = true) :
    (readFields ⟨s, padded [], 0, R⟩).2.stream = s.behindHeader := by
  have hf : ¬ (s.reads 0).Fails :=
    (readFields_delivers s R).1.mp hk 0 (Nat.add_pos_left one_pos _)
  unfold readFields at hk ⊢
  rw [readFixedFields_of_not_fails hf] at hk ⊢
  set h : HeaderState :=
    ⟨(ioRead s 6).2.2, padded (ioRead s 6).2.1, 6, R.fixed (ioRead s 6).2.1⟩
  obtain ⟨ho, hn⟩ := next_eq hk
  obtain ⟨hl, hs⟩ := next_eq ho
  change h.fillAddedSizeLow.1 = true at hl
  change HeaderState.next readAddedSize h.fillAddedSizeLow = _ at hs
  have hlow := h.fillAddedSizeLow_takes
  have hsize := readAddedSize_takes (h := h.fillAddedSizeLow.2) (hlow.size hl)
  have hflags := hlow.flags hl
  have hflags' := (hsize.flags (hs ▸ ho)).trans hflags
  rw [hn]
  change (HeaderState.next readAddedSize h.fillAddedSizeLow).2.readAddedDataCRC.2.stream = _
  rw [hs]
  change h.fillAddedSizeLow.2.readAddedSize.2.readAddedDataCRC.2.stream = _
  rw [readAddedDataCRC_stream, hflags', readAddedSize_stream, hflags, fillAddedSizeLow_stream]
  rfl

end HeaderState

namespace KCF

variable {kcf : KCF}

theorem readRecordHeader_stream {R R' : Record} {k : KCF} {n : ℕ}
    (h : kcf.readRecordHeader R = (.ok, k, R', n)) : k.stream = kcf.stream.behindHeader := by
  have hs := HeaderState.readFields_stream (s := kcf.stream) (R := R)
  unfold readRecordHeader at h
  rw [← padded_nil] at h
  rcases hx : (HeaderState.mk kcf.stream (padded []) 0 R).readFields with ⟨_ | _, x⟩
  · rw [hx] at h
    cases h
  · rw [hx] at h hs
    cases h
    exact hs rfl

theorem skipSize_toNat {R R' : Record} {k : KCF} {n : ℕ}
    (h : kcf.readRecordHeader R = (.ok, k, R', n)) :
    ((skipSize R' n).toNat : ℤ) = kcf.stream.remaining % 2 ^ 64 := by
  obtain ⟨-, rfl, hs, ha⟩ := readRecordHeader_ok h
  have hlt := kcf.stream.headAddedSize_lt
  have h₁₈ := headerLength_le kcf.stream.headFlags
  rw [skipSize, UInt64.toNat_add, UInt64.toNat_ofNat', ha, UInt64.toNat_ofNat',
    IOStream.remaining, ← hs]
  unfold dataSize toSize UInt64.size
  omega

/-- The stream that a skip starts on and the number of bytes that it is to pass. -/
def skipStart (kcf : KCF) : Option (IOStream × ℕ) :=
  if kcf.parserState = .readRecordHeader then
    if kcf.stream.DeliversHeader then
      some (kcf.stream.behindHeader, (kcf.stream.remaining % 2 ^ 64).toNat)
    else none
  else if kcf.parserState = .readAddedData then
    some (kcf.stream, kcf.availableAddedData.toNat)
  else none

theorem skipStart_eq_some_iff {s : IOStream} {n : ℕ} : kcf.skipStart = some (s, n) ↔
    (kcf.parserState = .readRecordHeader ∧ kcf.stream.DeliversHeader ∧
        s = kcf.stream.behindHeader ∧ n = (kcf.stream.remaining % 2 ^ 64).toNat) ∨
      (kcf.parserState = .readAddedData ∧ s = kcf.stream ∧ n = kcf.availableAddedData.toNat) := by
  unfold skipStart
  constructor
  · intro h
    split_ifs at h with hp hd ha
    · cases h
      exact .inl ⟨hp, hd, rfl, rfl⟩
    · cases h
      exact .inr ⟨ha, rfl, rfl⟩
  · rintro (⟨hp, hd, rfl, rfl⟩ | ⟨ha, rfl, rfl⟩)
    · rw [if_pos hp, if_pos hd]
    · rw [if_neg (by rw [ha]; decide), if_pos ha]

theorem skipBytes_eq (fuel : ℕ) (kcf : KCF) (size : UInt64) : kcf.skipBytes fuel size =
    (ioSkip fuel kcf.stream (toInt64 size.toNat)).map
      fun r => (.read, { kcf with stream := r.2 }) := by
  unfold skipBytes
  cases hskip : ioSkip fuel kcf.stream (toInt64 size.toNat) with
  | error fault => rfl
  | ok r =>
    obtain ⟨ret, stream⟩ := r
    obtain rfl : ret = 0 := ioSkip_ret hskip
    rfl

theorem skipRecord_of_none (h : kcf.skipStart = none) (header : Record) :
    ∃ r, ∀ fuel, kcf.skipRecord fuel header = .ok r := by
  unfold skipStart at h
  split at h
  · rename_i hp
    split at h
    · cases h
    · rename_i hd
      have hc := kcf.readRecordHeader_cases header
      generalize hx : kcf.readRecordHeader header = x at hc
      cases hc with
      | failed => exact ⟨_, fun fuel => by rw [skipRecord_of_header hp, hx]; rfl⟩
      | delivered hd' => exact absurd hd' hd
  · rename_i hp
    split at h
    · cases h
    · exact ⟨_, fun fuel => skipRecord_of_ne hp ‹_› fuel header⟩

theorem skipRecord_of_some {s : IOStream} {n : ℕ} (h : kcf.skipStart = some (s, n))
    (header : Record) : n < 2 ^ 64 ∧ ∃ k : KCF, ∀ fuel, kcf.skipRecord fuel header =
      (ioSkip fuel s (toInt64 n)).map fun r => (.read, { k with stream := r.2 }) := by
  rcases skipStart_eq_some_iff.mp h with ⟨hp, hd, rfl, rfl⟩ | ⟨hp, rfl, rfl⟩
  · obtain ⟨k, R', hr⟩ := readRecordHeader_of_delivers hd header
    have hn := skipSize_toNat hr
    refine ⟨by omega, k, fun fuel => ?_⟩
    rw [skipRecord_of_header hp, hr, skipAfterHeader_ok, skipBytes_eq,
      readRecordHeader_stream hr, ← hn, Int.toNat_natCast]
  · refine ⟨kcf.availableAddedData.toNat_lt, kcf, fun fuel => ?_⟩
    rw [skipRecord_of_added hp, skipBytes_eq]

theorem readsOn_of_skipStart (hs : kcf.stream.ReadsOn) {s : IOStream} {n : ℕ}
    (h : kcf.skipStart = some (s, n)) : s.ReadsOn := by
  rcases skipStart_eq_some_iff.mp h with ⟨-, -, rfl, -⟩ | ⟨-, rfl, -⟩
  · exact hs.behindHeader
  · exact hs

/-- The call does not loop for ever. -/
def SkipReturns (kcf : KCF) (header : Record) : Prop :=
  ∃ rounds, ∀ fuel ≥ rounds, kcf.skipRecord fuel header ≠ .error .outOfFuel

/-- A skip returns exactly when there are as many bytes as it is to pass, if it is to pass any. -/
theorem skipReturns_iff (hs : kcf.stream.ReadsOn) (header : Record) : kcf.SkipReturns header ↔
    ∀ s n, kcf.skipStart = some (s, n) → n < 2 ^ 63 → n ≤ s.ahead.length := by
  constructor
  · rintro ⟨rounds, hend⟩ s n hstart hn
    obtain ⟨-, k, hskip⟩ := skipRecord_of_some hstart header
    by_contra hlt
    apply hend rounds le_rfl
    rw [hskip, toInt64_of_lt hn, ioSkip_loops (readsOn_of_skipStart hs hstart) (not_le.mp hlt)]
    rfl
  · intro hle
    cases hstart : kcf.skipStart with
    | none =>
      obtain ⟨r, hr⟩ := skipRecord_of_none hstart header
      exact ⟨0, fun fuel _ h => by rw [hr] at h; cases h⟩
    | some start =>
      obtain ⟨s, n⟩ := start
      obtain ⟨hlt, k, hskip⟩ := skipRecord_of_some hstart header
      refine ⟨n + 1, fun fuel hf h => ?_⟩
      rw [hskip] at h
      by_cases hn : n < 2 ^ 63
      · obtain ⟨_, hk⟩ := ioSkip_on (readsOn_of_skipStart hs hstart) (hle s n hstart hn)
        rw [toInt64_of_lt hn, hk fuel hf] at h
        cases h
      · obtain ⟨fuel, rfl⟩ := Nat.exists_eq_add_one_of_ne_zero (Nat.ne_zero_of_lt hf)
        have hneg : toInt64 n < 0 := not_le.mp (mt (lt_of_toInt64 hlt) hn)
        rw [ioSkip_neg hneg] at h
        cases h

end KCF

/-- The lengths that the reads of `IO_skip` ask for, in a number of rounds. -/
def ioSkipReads : ℕ → IOStream → ℤ → List ℤ
  | 0, _, _ => []
  | fuel + 1, s, remaining =>
    let toRead := min 4096 remaining
    toRead ::
      if toRead < 0 then []
      else
        let (nRead, _, s) := ioRead s toRead.toNat
        if nRead < 0 then []
        else if 0 < remaining - nRead then ioSkipReads fuel s (remaining - nRead)
        else []

/-- The loop goes out of its buffer exactly when it asks for a negative length. -/
theorem ioSkip_outOfBounds_iff {fuel : ℕ} {s : IOStream} {remaining : ℤ} :
    ioSkip fuel s remaining = .error .outOfBounds ↔ ∃ n ∈ ioSkipReads fuel s remaining, n < 0 := by
  induction fuel generalizing s remaining with
  | zero => simp [ioSkip, ioSkipReads]
  | succ fuel ih =>
    unfold ioSkip ioSkipReads
    dsimp only
    generalize ioRead s (min 4096 remaining).toNat = x
    obtain ⟨nRead, bytes, s'⟩ := x
    dsimp only
    by_cases hneg : min 4096 remaining < 0
    · simp [hneg]
    · rw [if_neg hneg, if_neg hneg]
      by_cases hn : nRead < 0
      · simp [hn, hneg]
      · rw [if_neg hn, if_neg hn]
        by_cases hrest : 0 < remaining - nRead
        · rw [if_pos hrest, if_pos hrest, ih]
          simp [hneg]
        · rw [if_neg hrest, if_neg hrest]
          simp [hneg]

theorem ioSkipReads_le {fuel : ℕ} {s : IOStream} {remaining : ℤ} (h : 0 ≤ remaining) :
    ∀ n ∈ ioSkipReads fuel s remaining, 0 ≤ n ∧ n ≤ 4096 := by
  induction fuel generalizing s remaining with
  | zero => simp [ioSkipReads]
  | succ fuel ih =>
    unfold ioSkipReads
    dsimp only
    generalize ioRead s (min 4096 remaining).toNat = x
    obtain ⟨nRead, bytes, s'⟩ := x
    intro n hn
    rcases List.mem_cons.mp hn with rfl | hn
    · omega
    · split at hn
      · cases hn
      · split at hn
        · cases hn
        · split at hn
          · exact ih (by omega) n hn
          · cases hn

namespace KCF

/-- The lengths that the reads of `IO_skip` ask for in `KCF_skip_record`. -/
def skipReads (fuel : ℕ) (kcf : KCF) (header : Record) : List ℤ :=
  if kcf.parserState = .readRecordHeader then
    match kcf.readRecordHeader header with
    | (.ok, kcf, header, headerSize) =>
      ioSkipReads fuel kcf.stream (toInt64 (skipSize header headerSize).toNat)
    | _ => []
  else if kcf.parserState = .readAddedData then
    ioSkipReads fuel kcf.stream (toInt64 kcf.availableAddedData.toNat)
  else []

/-- Whatever number of rounds there are, each asks for no more than the buffer has. -/
def SkipsInside (kcf : KCF) (header : Record) : Prop :=
  ∀ fuel, ∀ n ∈ kcf.skipReads fuel header, 0 ≤ n ∧ n ≤ 4096

theorem skipReads_eq (fuel : ℕ) (kcf : KCF) (header : Record) : kcf.skipReads fuel header =
    (kcf.skipStart.elim [] fun start => ioSkipReads fuel start.1 (toInt64 start.2)) := by
  unfold skipReads skipStart
  split
  · split
    · rename_i k R' n hr
      have hn := skipSize_toNat hr
      rw [if_pos (readRecordHeader_ok hr).1, readRecordHeader_stream hr, ← hn, Int.toNat_natCast]
      rfl
    · rename_i hne
      split
      · rename_i hd
        obtain ⟨k, R', hr⟩ := readRecordHeader_of_delivers hd header
        exact absurd hr (hne k R' _)
      · rfl
  · split <;> rfl

theorem skipsInside_iff_skipStart (kcf : KCF) (header : Record) :
    kcf.SkipsInside header ↔ ∀ s n, kcf.skipStart = some (s, n) → n < 2 ^ 63 := by
  unfold SkipsInside
  simp only [skipReads_eq]
  constructor
  · intro hin s n hs
    have hn := hin 1
    rw [hs] at hn
    have hmin := hn (min 4096 (toInt64 n)) List.mem_cons_self
    exact lt_of_toInt64 (skipRecord_of_some hs header).1 (by omega)
  · intro hlt fuel n hn
    cases hs : kcf.skipStart with
    | none =>
      rw [hs] at hn
      cases hn
    | some start =>
      rw [hs] at hn
      have hle := hlt start.1 start.2 hs
      exact ioSkipReads_le (by rw [toInt64_of_lt hle]; omega) n hn

/-- Each read fits the buffer exactly when the amount to pass is a number of 63 bits. -/
theorem skipsInside_iff (kcf : KCF) (header : Record) : kcf.SkipsInside header ↔
    (kcf.parserState = .readRecordHeader → kcf.stream.DeliversHeader →
        kcf.stream.remaining % 2 ^ 64 < 2 ^ 63) ∧
      (kcf.parserState = .readAddedData → kcf.availableAddedData.toNat < 2 ^ 63) := by
  rw [skipsInside_iff_skipStart]
  constructor
  · intro hlt
    constructor
    · intro hp hd
      have hn := hlt _ _ (skipStart_eq_some_iff.mpr (.inl ⟨hp, hd, rfl, rfl⟩))
      omega
    · intro hp
      exact hlt _ _ (skipStart_eq_some_iff.mpr (.inr ⟨hp, rfl, rfl⟩))
  · rintro ⟨hheader, hadded⟩ s n hs
    rcases skipStart_eq_some_iff.mp hs with ⟨hp, hd, -, rfl⟩ | ⟨hp, -, rfl⟩
    · have hlt := hheader hp hd
      omega
    · exact hadded hp

/-- Behind a header with an added size of 2 ^ 63 the first read is asked for a negative length. -/
theorem hugeSize_read_outside :
    (reading (.ofBytes [0, 0, 0, 0xC0, 14, 0, 0, 0, 0, 0, 0, 0, 0, 0x80])).skipReads 1 Record.zero =
        [-2 ^ 63] ∧
      ¬ (reading (.ofBytes [0, 0, 0, 0xC0, 14, 0, 0, 0, 0, 0, 0, 0, 0, 0x80])).SkipsInside
        Record.zero := by
  have hreads : (reading (.ofBytes [0, 0, 0, 0xC0, 14, 0, 0, 0, 0, 0, 0, 0, 0, 0x80])).skipReads 1
      Record.zero = [-2 ^ 63] := by decide +kernel
  refine ⟨hreads, fun hin => ?_⟩
  have hneg := hin 1 (-2 ^ 63) (by rw [hreads]; exact List.mem_singleton_self _)
  omega

end KCF

end Kcf
