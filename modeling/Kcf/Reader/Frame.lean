import Kcf.Reader.Calls

/-! # What a reader leaves alone

Reading moves the position and uses up answers of `IO_read` and `malloc`. The
bytes of the stream, what it has in store for the other operations and the log
of its writes stay as they are, through every run of read calls.
-/

namespace Kcf

open CallMachine

/-- The second stream is the first after some reads. -/
structure IOStream.ReadOn (s t : IOStream) : Prop where
  bytes : t.bytes = s.bytes
  writes : t.writes = s.writes
  seeks : t.seeks = s.seeks
  flushes : t.flushes = s.flushes
  log : t.log = s.log

namespace IOStream.ReadOn

variable {s t u : IOStream}

theorem refl (s : IOStream) : ReadOn s s := ⟨rfl, rfl, rfl, rfl, rfl⟩

theorem trans (h : ReadOn s t) (h' : ReadOn t u) : ReadOn s u :=
  ⟨h'.bytes.trans h.bytes, h'.writes.trans h.writes, h'.seeks.trans h.seeks,
    h'.flushes.trans h.flushes, h'.log.trans h.log⟩

theorem ioRead (s : IOStream) (size : ℕ) : ReadOn s (ioRead s size).2.2 :=
  ⟨rfl, rfl, rfl, rfl, rfl⟩

theorem ioSkip {fuel : ℕ} {remaining : ℤ} {r : ℤ × IOStream}
    (h : ioSkip fuel s remaining = .ok r) : ReadOn s r.2 := by
  induction fuel generalizing s remaining with
  | zero => cases h
  | succ fuel ih =>
    have hr := ioRead s (min 4096 remaining).toNat
    unfold Kcf.ioSkip at h
    dsimp only at h
    generalize Kcf.ioRead s (min 4096 remaining).toNat = x at h hr
    obtain ⟨nRead, bytes, s'⟩ := x
    dsimp only at h
    split at h
    · cases h
    · split at h
      · cases h
        exact hr
      · split at h
        · exact hr.trans (ih h)
        · cases h
          exact hr

end IOStream.ReadOn

namespace HeaderState

/-- A part of the header does nothing to the stream but read from it. -/
def Reads (read : HeaderState → Bool × HeaderState) : Prop :=
  ∀ h : HeaderState, h.stream.ReadOn (read h).2.stream

theorem reads_of_stream {read : HeaderState → Bool × HeaderState}
    (hr : ∀ h, (read h).2.stream = h.stream) : Reads read := fun h => by
  rw [hr h]
  exact .refl _

theorem Reads.next {read : HeaderState → Bool × HeaderState} (hr : Reads read) {s : IOStream}
    {r : Bool × HeaderState} (h : s.ReadOn r.2.stream) : s.ReadOn (next read r).2.stream := by
  obtain ⟨_ | _, h'⟩ := r
  · exact h
  · exact h.trans (hr h')

theorem fill_reads (h : HeaderState) (offset count : ℕ) :
    h.stream.ReadOn (h.fill offset count).2.stream := .ioRead ..

theorem parseFixedFields_stream (h : HeaderState) :
    (parseFixedFields h).2.stream = h.stream := by
  unfold parseFixedFields
  rcases readU16LE 6 _ with ⟨headCRC, c⟩
  dsimp only

theorem readFixedFields_reads : Reads readFixedFields := fun h =>
  (reads_of_stream parseFixedFields_stream).next (h.fill_reads 0 6)

theorem fillAddedSizeLow_reads : Reads fillAddedSizeLow := fun h => by
  unfold fillAddedSizeLow
  split
  · exact h.fill_reads _ _
  · exact .refl _

theorem parseAddedSize8_stream (h : HeaderState) : (parseAddedSize8 h).2.stream = h.stream := by
  unfold parseAddedSize8
  rcases readU64LE 14 _ with ⟨addedSize, c⟩
  rfl

theorem parseAddedSize4_stream (h : HeaderState) : (parseAddedSize4 h).2.stream = h.stream := by
  unfold parseAddedSize4
  rcases readU32LE 14 _ with ⟨addedSizeLow, c⟩
  rfl

theorem readAddedSize_reads : Reads readAddedSize := fun h => by
  unfold readAddedSize
  split
  · exact (reads_of_stream parseAddedSize8_stream).next (h.fill_reads _ _)
  · split
    · exact reads_of_stream parseAddedSize4_stream h
    · exact .refl _

theorem parseAddedDataCRC_stream (h : HeaderState) :
    (parseAddedDataCRC h).2.stream = h.stream := by
  unfold parseAddedDataCRC
  rcases readU32LE 18 _ with ⟨crc, c⟩
  rfl

theorem readAddedDataCRC_reads : Reads readAddedDataCRC := fun h => by
  unfold readAddedDataCRC
  split
  · exact (reads_of_stream parseAddedDataCRC_stream).next (h.fill_reads _ _)
  · exact .refl _

theorem readFields_reads : Reads readFields := fun h =>
  readAddedDataCRC_reads.next
    (readAddedSize_reads.next (fillAddedSizeLow_reads.next (readFixedFields_reads h)))

end HeaderState

/-- The second handle is the first after some reads from its stream and some answers of its
heap. -/
structure KCF.ReadOn (s t : KCF) : Prop where
  stream : s.stream.ReadOn t.stream
  heap : ∃ n, t.heap = fun i => s.heap (i + n)

namespace KCF

variable {s t u kcf k : KCF}

theorem ReadOn.refl (s : KCF) : ReadOn s s := ⟨.refl _, 0, rfl⟩

theorem ReadOn.trans (h : ReadOn s t) (h' : ReadOn t u) : ReadOn s u := by
  obtain ⟨n, hn⟩ := h.heap
  obtain ⟨m, hm⟩ := h'.heap
  refine ⟨h.stream.trans h'.stream, m + n, hm.trans (funext fun i => ?_)⟩
  simp only [hn, Nat.add_assoc]

theorem ReadOn.grants (h : ReadOn s t) (hs : s.heap.Grants) : t.heap.Grants := by
  obtain ⟨n, hn⟩ := h.heap
  exact fun i => hn ▸ hs (i + n)

theorem readRecordHeader_readOn (kcf : KCF) (R : Record) :
    kcf.ReadOn (kcf.readRecordHeader R).2.1 := by
  have hr := HeaderState.readFields_reads ⟨kcf.stream, List.replicate 18 0, 0, R⟩
  unfold readRecordHeader
  generalize (HeaderState.mk kcf.stream (List.replicate 18 0) 0 R).readFields = x at hr
  obtain ⟨_ | _, h⟩ := x
  · exact ⟨hr, 0, rfl⟩
  · exact ⟨hr, 0, rfl⟩

theorem readRecordData_readOn (kcf : KCF) (R : Record) (size : ℕ) :
    kcf.ReadOn (kcf.readRecordData R size).2.1 := by
  have hr := IOStream.ReadOn.ioRead kcf.stream size
  have hm := malloc_snd kcf.heap size
  unfold readRecordData
  generalize malloc kcf.heap size = m at hm
  generalize ioRead kcf.stream size = x at hr
  obtain ⟨_ | block, heap⟩ := m
  · exact ⟨.refl _, 1, hm⟩
  · obtain ⟨ret, bytes, stream⟩ := x
    dsimp only
    split
    · exact ⟨hr, 1, hm⟩
    · exact ⟨hr, 1, hm⟩

theorem readRecord_readOn (kcf : KCF) (R : Option Record) :
    kcf.ReadOn (kcf.readRecord R).2.1 := by
  cases R with
  | none => exact .refl _
  | some R =>
    by_cases hp : kcf.parserState = .readRecordHeader
    · obtain ⟨hs, hm⟩ := kcf.cleared.readRecordHeader_readOn R
      have hh : kcf.ReadOn (kcf.cleared.readRecordHeader R).2.1 := ⟨hs, hm⟩
      rw [readRecord_of_header hp]
      generalize kcf.cleared.readRecordHeader R = x at hh
      obtain ⟨e, k, R', n⟩ := x
      cases e with
      | ok => exact hh.trans (readRecordData_readOn k R' (toSize (R'.headSize.toNat - n)))
      | _ => exact hh
    · rw [readRecord_of_ne hp]
      exact .refl _

theorem readAddedData_readOn {bufferSize : Option ℕ}
    {r : KcfError × KCF × List UInt8 × Option ℕ} (h : kcf.readAddedData bufferSize = .ok r) :
    kcf.ReadOn r.2.1 := by
  cases bufferSize with
  | none =>
    cases h
    exact .refl _
  | some size =>
    by_cases hp : kcf.parserState = .readAddedData
    · rw [readAddedData_of_added hp] at h
      split at h
      · cases h
        exact ⟨.refl _, 0, rfl⟩
      · have hr := IOStream.ReadOn.ioRead kcf.stream (min size kcf.availableAddedData.toNat)
        unfold readAvailable at h
        generalize ioRead kcf.stream (min size kcf.availableAddedData.toNat) = x at h hr
        obtain ⟨ret, bytes, stream⟩ := x
        dsimp only at h
        split at h
        · cases h
          exact ⟨hr, 0, rfl⟩
        · split at h
          · cases h
          · cases h
            unfold consumed
            dsimp only
            split
            · exact ⟨hr, 0, rfl⟩
            · exact ⟨hr, 0, rfl⟩
    · rw [readAddedData_of_ne hp] at h
      cases h
      exact .refl _

theorem skipBytes_readOn {fuel : ℕ} {size : UInt64} {r : KcfError × KCF}
    (h : kcf.skipBytes fuel size = .ok r) : kcf.ReadOn r.2 := by
  obtain ⟨⟨ret, stream⟩, hs, hr⟩ := Exec.bind_ok h
  have hstream : kcf.stream.ReadOn stream := .ioSkip hs
  obtain rfl : ret = 0 := ioSkip_ret hs
  cases hr
  exact ⟨hstream, 0, rfl⟩

theorem skipRecord_readOn {fuel : ℕ} {header : Record} {r : KcfError × KCF}
    (h : kcf.skipRecord fuel header = .ok r) : kcf.ReadOn r.2 := by
  by_cases hh : kcf.parserState = .readRecordHeader
  · have hr := kcf.readRecordHeader_readOn header
    rw [skipRecord_of_header hh] at h
    generalize kcf.readRecordHeader header = x at h hr
    obtain ⟨e, k, R', n⟩ := x
    cases e with
    | ok => exact hr.trans (skipBytes_readOn h)
    | _ =>
      cases h
      exact hr
  · by_cases ha : kcf.parserState = .readAddedData
    · rw [skipRecord_of_added ha] at h
      exact skipBytes_readOn h
    · rw [skipRecord_of_ne hh ha] at h
      cases h
      exact .refl _

theorem readOn_of_step {c : ReaderCall} {a : ReaderResult} (hc : c ≠ .startReading)
    (h : readerStep c kcf = .ok (a, k)) : kcf.ReadOn k := by
  cases c with
  | readRecord R =>
    have hr := kcf.readRecord_readOn R
    change Except.ok (ofRecord (kcf.readRecord R)) = _ at h
    generalize kcf.readRecord R = x at h hr
    cases h
    exact hr
  | readAddedData bufferSize =>
    obtain ⟨r, hx, hr⟩ := Exec.map_ok h
    cases hr
    exact readAddedData_readOn hx
  | isAddedDataAvailable =>
    cases h
    exact .refl _
  | skipRecord fuel header =>
    obtain ⟨r, hx, hr⟩ := Exec.map_ok h
    cases hr
    exact skipRecord_readOn hx
  | startReading => exact absurd rfl hc

end KCF

theorem readOn_of_run {s t : KCF} {tr : List (ReaderCall × ReaderResult)}
    (h : Run readerStep (fun c _ => c ≠ .startReading) s tr t) : s.ReadOn t :=
  h.invariant (I := s.ReadOn) (fun _ _ _ _ hs hc hstep => hs.trans (KCF.readOn_of_step hc hstep))
    (.refl s)

end Kcf
