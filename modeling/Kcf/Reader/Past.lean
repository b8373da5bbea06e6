import Kcf.Reader.Calls

/-! # What a reader shows of its past

What the read calls return hangs on the parser's state, the bytes ahead, the
answers of `malloc` and the counters. Reading a record starts the counters anew,
before anything can fail, so nothing of what a handle did before shows.
-/

namespace Kcf

open CallMachine

/-- Two streams that no read can tell apart. -/
structure IOStream.SameReads (s t : IOStream) : Prop where
  bytes : s.bytes = t.bytes
  pos : s.pos = t.pos
  reads : s.reads = t.reads

namespace IOStream.SameReads

variable {s t : IOStream}

theorem ioRead (h : SameReads s t) (size : ℕ) : ∃ ret bytes s' t',
    ioRead s size = (ret, bytes, s') ∧ ioRead t size = (ret, bytes, t') ∧ SameReads s' t' := by
  obtain ⟨bytes, pos, reads, _, _, _, _⟩ := s
  obtain ⟨rfl, rfl, rfl⟩ := h
  exact ⟨_, _, _, _, rfl, rfl, rfl, rfl, rfl⟩

theorem ioSkip (h : SameReads s t) (fuel : ℕ) (remaining : ℤ) :
    Agree SameReads (ioSkip fuel s remaining) (ioSkip fuel t remaining) := by
  induction fuel generalizing s t remaining with
  | zero => exact .error _
  | succ fuel ih =>
    obtain ⟨ret, bytes, s', t', hs, ht, hk⟩ := h.ioRead (min 4096 remaining).toNat
    unfold Kcf.ioSkip
    dsimp only
    rw [hs, ht]
    split
    · exact .error _
    · split
      · exact .ok hk
      · split
        · exact ih hk _
        · exact .ok hk

end IOStream.SameReads

namespace HeaderState

/-- Two readers of a header that differ in nothing a read can tell. -/
structure Alike (h h' : HeaderState) : Prop where
  stream : h.stream.SameReads h'.stream
  buffer : h.buffer = h'.buffer
  size : h.size = h'.size
  record : h.record = h'.record

/-- Two readers go on alike: both of them or neither. -/
def AlikeAfter (x y : Bool × HeaderState) : Prop := x.1 = y.1 ∧ x.2.Alike y.2

theorem AlikeAfter.next {x y : Bool × HeaderState} {read : HeaderState → Bool × HeaderState}
    (hxy : AlikeAfter x y) (hr : ∀ {h h'}, Alike h h' → AlikeAfter (read h) (read h')) :
    AlikeAfter (next read x) (next read y) := by
  obtain ⟨b, h⟩ := x
  obtain ⟨b', h'⟩ := y
  obtain ⟨rfl, hh⟩ : b = b' ∧ h.Alike h' := hxy
  cases b with
  | true => exact hr hh
  | false => exact ⟨rfl, hh⟩

namespace Alike

variable {h h' : HeaderState}

theorem fill (hh : Alike h h') (offset count : ℕ) :
    AlikeAfter (h.fill offset count) (h'.fill offset count) := by
  obtain ⟨ret, bytes, s, t, hs, ht, hk⟩ := hh.stream.ioRead count
  unfold HeaderState.fill
  rw [hs, ht, hh.buffer]
  exact ⟨rfl, hk, rfl, hh.size, hh.record⟩

theorem parseFixedFields (hh : Alike h h') :
    AlikeAfter h.parseFixedFields h'.parseFixedFields := by
  obtain ⟨_, _, _, _⟩ := h
  obtain ⟨_, _, _, _⟩ := h'
  obtain ⟨hs, rfl, rfl, rfl⟩ := hh
  unfold HeaderState.parseFixedFields
  dsimp only
  rcases readU16LE 6 _ with ⟨headCRC, c₁⟩
  rcases readU8 6 c₁ with ⟨headType, c₂⟩
  rcases readU8 6 c₂ with ⟨headFlags, c₃⟩
  rcases readU16LE 6 c₃ with ⟨headSize, c₄⟩
  exact ⟨rfl, hs, rfl, rfl, rfl⟩

theorem readFixedFields (hh : Alike h h') : AlikeAfter h.readFixedFields h'.readFixedFields :=
  (hh.fill 0 6).next parseFixedFields

theorem fillAddedSizeLow (hh : Alike h h') :
    AlikeAfter h.fillAddedSizeLow h'.fillAddedSizeLow := by
  unfold HeaderState.fillAddedSizeLow
  rw [hh.record, hh.size]
  split
  · exact hh.fill _ _
  · exact ⟨rfl, hh⟩

theorem parseAddedSize8 (hh : Alike h h') : AlikeAfter h.parseAddedSize8 h'.parseAddedSize8 := by
  obtain ⟨_, _, _, _⟩ := h
  obtain ⟨_, _, _, _⟩ := h'
  obtain ⟨hs, rfl, rfl, rfl⟩ := hh
  unfold HeaderState.parseAddedSize8
  dsimp only
  rcases readU64LE 14 _ with ⟨addedSize, c⟩
  exact ⟨rfl, hs, rfl, rfl, rfl⟩

theorem parseAddedSize4 (hh : Alike h h') : AlikeAfter h.parseAddedSize4 h'.parseAddedSize4 := by
  obtain ⟨_, _, _, _⟩ := h
  obtain ⟨_, _, _, _⟩ := h'
  obtain ⟨hs, rfl, rfl, rfl⟩ := hh
  unfold HeaderState.parseAddedSize4
  dsimp only
  rcases readU32LE 14 _ with ⟨addedSizeLow, c⟩
  exact ⟨rfl, hs, rfl, rfl, rfl⟩

theorem readAddedSize (hh : Alike h h') : AlikeAfter h.readAddedSize h'.readAddedSize := by
  unfold HeaderState.readAddedSize
  rw [hh.record, hh.size]
  split
  · exact (hh.fill _ _).next parseAddedSize8
  · split
    · exact hh.parseAddedSize4
    · exact ⟨rfl, hh⟩

theorem parseAddedDataCRC (hh : Alike h h') :
    AlikeAfter h.parseAddedDataCRC h'.parseAddedDataCRC := by
  obtain ⟨_, _, _, _⟩ := h
  obtain ⟨_, _, _, _⟩ := h'
  obtain ⟨hs, rfl, rfl, rfl⟩ := hh
  unfold HeaderState.parseAddedDataCRC
  dsimp only
  rcases readU32LE 18 _ with ⟨crc, c⟩
  exact ⟨rfl, hs, rfl, rfl, rfl⟩

theorem readAddedDataCRC (hh : Alike h h') :
    AlikeAfter h.readAddedDataCRC h'.readAddedDataCRC := by
  unfold HeaderState.readAddedDataCRC
  rw [hh.record, hh.size]
  split
  · exact (hh.fill _ _).next parseAddedDataCRC
  · exact ⟨rfl, hh.stream, hh.buffer, rfl, rfl⟩

theorem readFields (hh : Alike h h') : AlikeAfter h.readFields h'.readFields :=
  ((hh.readFixedFields.next fillAddedSizeLow).next readAddedSize).next readAddedDataCRC

end Alike

end HeaderState

/-- Two handles agree in all that reading looks at, and both are reading. -/
structure SameReader (s t : KCF) : Prop where
  parserState : s.parserState = t.parserState
  reading : s.parserState = .readRecordHeader ∨ s.parserState = .readRecordData ∨
    s.parserState = .readAddedData
  stream : s.stream.SameReads t.stream
  heap : s.heap = t.heap
  available : s.availableAddedData = t.availableAddedData
  alreadyRead : s.addedDataAlreadyRead = t.addedDataAlreadyRead
  crc : s.addedDataCRC32 = t.addedDataCRC32
  actual : s.actualAddedDataCRC32 = t.actualAddedDataCRC32

namespace SameReader

variable {s t : KCF}

theorem readRecordHeader (h : SameReader s t) (R : Record) :
    (s.readRecordHeader R).1 = (t.readRecordHeader R).1 ∧
      SameReader (s.readRecordHeader R).2.1 (t.readRecordHeader R).2.1 ∧
      (s.readRecordHeader R).2.2 = (t.readRecordHeader R).2.2 := by
  have ha : (HeaderState.mk s.stream (List.replicate 18 0) 0 R).Alike
      ⟨t.stream, List.replicate 18 0, 0, R⟩ := ⟨h.stream, rfl, rfl, rfl⟩
  obtain ⟨hb, hk⟩ := ha.readFields
  unfold KCF.readRecordHeader
  generalize (HeaderState.mk s.stream (List.replicate 18 0) 0 R).readFields = x at hb hk
  generalize (HeaderState.mk t.stream (List.replicate 18 0) 0 R).readFields = y at hb hk
  rcases x with ⟨b, r⟩
  rcases y with ⟨_, r'⟩
  cases hb
  cases b with
  | false =>
    exact ⟨rfl, ⟨h.parserState, h.reading, hk.stream, h.heap, h.available, h.alreadyRead, h.crc,
      h.actual⟩, Prod.ext hk.record hk.size⟩
  | true =>
    exact ⟨rfl, ⟨rfl, .inr (.inl rfl), hk.stream, h.heap, h.available, h.alreadyRead,
      congrArg Record.addedDataCRC32 hk.record, h.actual⟩, Prod.ext hk.record hk.size⟩

theorem readRecordData (h : SameReader s t) (R : Record) (size : ℕ) :
    (s.readRecordData R size).1 = (t.readRecordData R size).1 ∧
      SameReader (s.readRecordData R size).2.1 (t.readRecordData R size).2.1 ∧
      (s.readRecordData R size).2.2 = (t.readRecordData R size).2.2 := by
  obtain ⟨ret, bytes, s', t', hs, ht, hk⟩ := h.stream.ioRead size
  unfold KCF.readRecordData
  rw [h.heap]
  rcases malloc t.heap size with ⟨_ | block, heap⟩
  · exact ⟨rfl, ⟨h.parserState, h.reading, h.stream, rfl, h.available, h.alreadyRead, h.crc,
      h.actual⟩, rfl⟩
  · rw [hs, ht]
    dsimp only
    by_cases hr : ret < 0
    · rw [if_pos hr, if_pos hr]
      exact ⟨rfl, ⟨h.parserState, h.reading, hk, rfl, h.available, h.alreadyRead, h.crc,
        h.actual⟩, rfl⟩
    · rw [if_neg hr, if_neg hr]
      refine ⟨rfl, ⟨rfl, ?_, hk, rfl, rfl, h.alreadyRead, h.crc, h.actual⟩, rfl⟩
      unfold KCF.announced
      dsimp only
      split
      · exact .inr (.inr rfl)
      · exact .inl rfl

theorem readRecord (hs : s.parserState = .readRecordHeader) (ht : t.parserState = .readRecordHeader)
    (hstream : s.stream.SameReads t.stream) (hheap : s.heap = t.heap) (R : Record) :
    (s.readRecord (some R)).1 = (t.readRecord (some R)).1 ∧
      SameReader (s.readRecord (some R)).2.1 (t.readRecord (some R)).2.1 ∧
      (s.readRecord (some R)).2.2 = (t.readRecord (some R)).2.2 := by
  have hc : SameReader s.cleared t.cleared :=
    ⟨hs.trans ht.symm, .inl hs, hstream, hheap, rfl, rfl, rfl, rfl⟩
  obtain ⟨he, hk, hR⟩ := hc.readRecordHeader R
  rw [KCF.readRecord_of_header hs, KCF.readRecord_of_header ht]
  generalize s.cleared.readRecordHeader R = x at he hk hR
  generalize t.cleared.readRecordHeader R = y at he hk hR
  rcases x with ⟨e, k, R₁, size⟩
  rcases y with ⟨_, k', _⟩
  cases he
  cases hR
  cases e with
  | ok =>
    obtain ⟨he, hk, hR⟩ := hk.readRecordData R₁ (toSize (R₁.headSize.toNat - size))
    exact ⟨he, hk, congrArg some hR⟩
  | _ => exact ⟨rfl, hk, rfl⟩

/-- Two outcomes of one call: the same fault, or the same result and handles that agree. -/
abbrev Same {α : Type} (x y : Exec (α × KCF)) : Prop := Agree SameReader x y

theorem readRecord_any (h : SameReader s t) (R : Option Record) :
    Same (readerStep (.readRecord R) s) (readerStep (.readRecord R) t) := by
  cases R with
  | none => exact .ok h
  | some R =>
    change Same (.ok (ofRecord _)) (.ok (ofRecord _))
    by_cases hp : t.parserState = .readRecordHeader
    · obtain ⟨he, hk, hR⟩ := readRecord (h.parserState.trans hp) hp h.stream h.heap R
      generalize s.readRecord (some R) = x at he hk hR
      generalize t.readRecord (some R) = y at he hk hR
      rcases x with ⟨e, k, R₁⟩
      rcases y with ⟨_, k', _⟩
      cases he
      cases hR
      exact .ok hk
    · rw [KCF.readRecord_of_ne hp, KCF.readRecord_of_ne (h.parserState ▸ hp)]
      exact .ok h

theorem skipBytes (h : SameReader s t) (fuel : ℕ) (size : UInt64) :
    Same (s.skipBytes fuel size) (t.skipBytes fuel size) := by
  have hs := h.stream.ioSkip fuel (toInt64 size.toNat)
  unfold KCF.skipBytes
  generalize ioSkip fuel s.stream (toInt64 size.toNat) = x at hs
  generalize ioSkip fuel t.stream (toInt64 size.toNat) = y at hs
  cases hs with
  | error fault => exact .error fault
  | @ok ret _ _ hk =>
    change Agree SameReader (if ret = 0 then _ else _) (if ret = 0 then _ else _)
    split
    · exact .ok ⟨h.parserState, h.reading, hk, h.heap, h.available, h.alreadyRead, h.crc,
        h.actual⟩
    · exact .ok ⟨rfl, .inl rfl, hk, h.heap, h.available, h.alreadyRead, h.crc, h.actual⟩

theorem skipRecord (h : SameReader s t) (fuel : ℕ) (header : Record) :
    Same (s.skipRecord fuel header) (t.skipRecord fuel header) := by
  rcases h.reading with hs | hs | hs
  · obtain ⟨he, hk, hR⟩ := h.readRecordHeader header
    rw [KCF.skipRecord_of_header hs, KCF.skipRecord_of_header (h.parserState ▸ hs)]
    generalize s.readRecordHeader header = x at he hk hR
    generalize t.readRecordHeader header = y at he hk hR
    rcases x with ⟨e, k, R₁, size⟩
    rcases y with ⟨_, k', _⟩
    cases he
    cases hR
    cases e with
    | ok => exact skipBytes hk fuel _
    | _ => exact .ok hk
  · have ht := h.parserState.symm.trans hs
    rw [KCF.skipRecord_of_ne (by simp [hs]) (by simp [hs]),
      KCF.skipRecord_of_ne (by simp [ht]) (by simp [ht])]
    exact .ok h
  · rw [KCF.skipRecord_of_added hs, KCF.skipRecord_of_added (h.parserState ▸ hs), h.available]
    exact skipBytes h fuel _

theorem consumed (h : SameReader s t) (bufferSize : ℕ) (bytes : List UInt8) (nRead : ℕ) :
    SameReader (s.consumed bufferSize bytes nRead) (t.consumed bufferSize bytes nRead) := by
  unfold KCF.consumed
  simp only [h.available, h.actual, h.alreadyRead]
  split
  · exact ⟨rfl, .inl rfl, h.stream, h.heap, rfl, rfl, h.crc, rfl⟩
  · exact ⟨h.parserState, h.reading, h.stream, h.heap, rfl, rfl, h.crc, rfl⟩

theorem readAvailable (h : SameReader s t) (bufferSize : ℕ) :
    Same ((s.readAvailable bufferSize).map ofAddedData)
      ((t.readAvailable bufferSize).map ofAddedData) := by
  obtain ⟨ret, bytes, s', t', hs, ht, hstream⟩ := h.stream.ioRead bufferSize
  have hk : SameReader { s with stream := s' } { t with stream := t' } :=
    ⟨h.parserState, h.reading, hstream, h.heap, h.available, h.alreadyRead, h.crc, h.actual⟩
  unfold KCF.readAvailable
  rw [hs, ht]
  by_cases hr : toSize ret < bufferSize
  · simp only [if_pos hr]
    exact .ok hk
  · by_cases hn : ret < 0
    · simp only [if_neg hr, if_pos hn]
      exact .error _
    · simp only [if_neg hr, if_neg hn]
      exact .ok (hk.consumed _ _ _)

theorem readAddedData (h : SameReader s t) (bufferSize : Option ℕ) :
    Same (readerStep (.readAddedData bufferSize) s) (readerStep (.readAddedData bufferSize) t) := by
  change Same ((KCF.readAddedData _ _).map _) ((KCF.readAddedData _ _).map _)
  cases bufferSize with
  | none => exact .ok h
  | some size =>
    by_cases hp : t.parserState = .readAddedData
    · rw [KCF.readAddedData_of_added hp, KCF.readAddedData_of_added (h.parserState.trans hp),
        h.available]
      by_cases ha : t.availableAddedData = 0
      · rw [if_pos ha, if_pos ha]
        exact .ok ⟨h.parserState, h.reading, h.stream, h.heap, rfl, h.alreadyRead, h.crc,
          h.actual⟩
      · rw [if_neg ha, if_neg ha]
        exact h.readAvailable _
    · rw [KCF.readAddedData_of_ne hp, KCF.readAddedData_of_ne (h.parserState ▸ hp)]
      exact .ok h

theorem startReading (h : SameReader s t) :
    Same (readerStep .startReading s) (readerStep .startReading t) := by
  change Same ((KCF.startReading _).map _) ((KCF.startReading _).map _)
  rw [KCF.startReading_of_reading h.reading,
    KCF.startReading_of_reading (h.parserState ▸ h.reading)]
  exact .ok h

theorem step (h : SameReader s t) (c : ReaderCall) :
    Same (readerStep c s) (readerStep c t) := by
  cases c with
  | readRecord R => exact h.readRecord_any R
  | readAddedData bufferSize => exact h.readAddedData bufferSize
  | isAddedDataAvailable =>
    unfold readerStep KCF.isAddedDataAvailable
    rw [h.available]
    exact .ok h
  | skipRecord fuel header =>
    have hs := h.skipRecord fuel header
    change Same ((KCF.skipRecord _ _ _).map _) ((KCF.skipRecord _ _ _).map _)
    generalize s.skipRecord fuel header = x at hs
    generalize t.skipRecord fuel header = y at hs
    cases hs with
    | error fault => exact .error fault
    | ok hk => exact .ok hk
  | startReading => exact h.startReading

theorem observedStep (h : SameReader s t) (c : ReaderCall) :
    Agree SameReader (observedStep c s) (observedStep c t) := by
  have hs := h.step c
  unfold Kcf.observedStep
  generalize readerStep c s = x at hs
  generalize readerStep c t = y at hs
  cases hs with
  | error fault => exact .error fault
  | ok hk =>
    change Agree SameReader (.ok (observe _)) (.ok (observe _))
    unfold observe
    dsimp only
    rw [hk.parserState, hk.crc, hk.actual]
    exact .ok hk

theorem observedStep_readRecord (hs : s.parserState = .readRecordHeader)
    (ht : t.parserState = .readRecordHeader) (hstream : s.stream.SameReads t.stream)
    (hheap : s.heap = t.heap) (R : Record) :
    Agree SameReader (Kcf.observedStep (.readRecord (some R)) s)
      (Kcf.observedStep (.readRecord (some R)) t) := by
  obtain ⟨he, hk, hR⟩ := readRecord hs ht hstream hheap R
  change Agree SameReader (.ok (observe (ofRecord _))) (.ok (observe (ofRecord _)))
  generalize s.readRecord (some R) = x at he hk hR
  generalize t.readRecord (some R) = y at he hk hR
  rcases x with ⟨e, k, R₁⟩
  rcases y with ⟨_, k', _⟩
  cases he
  cases hR
  change Agree SameReader (.ok (_, k)) (.ok (_, k'))
  rw [show k.parserState = k'.parserState from hk.parserState, hk.crc, hk.actual]
  exact .ok hk

end SameReader

/-- A handle that expects a record on an empty stream, with added data left over from before. -/
def KCF.leftOver (available : UInt64) : KCF :=
  { reading (.ofBytes []) with availableAddedData := available }

/-- What calls return and leave to be seen does not depend on what the handle did before, when
the first of them reads a record. -/
theorem answers_forget_past {s t : KCF} (hs : s.parserState = .readRecordHeader)
    (ht : t.parserState = .readRecordHeader) (hstream : s.stream.SameReads t.stream)
    (hheap : s.heap = t.heap) (R : Record) (calls : List ReaderCall) :
    (answers observedStep (.readRecord (some R) :: calls) s).1 =
        (answers observedStep (.readRecord (some R) :: calls) t).1 ∧
      AgreeEnd SameReader (answers observedStep (.readRecord (some R) :: calls) s).2
        (answers observedStep (.readRecord (some R) :: calls) t).2 := by
  have h := SameReader.observedStep_readRecord hs ht hstream hheap R
  unfold answers
  generalize observedStep (.readRecord (some R)) s = x at h
  generalize observedStep (.readRecord (some R)) t = y at h
  cases h with
  | error fault => exact ⟨rfl, .error fault⟩
  | ok hk =>
    obtain ⟨ha, he⟩ := answers_agree (fun c _ _ h => SameReader.observedStep h c) calls hk
    exact ⟨by simp only [ha], he⟩

theorem answers_forget_past_oneByte :
    ∃ s t : KCF, s.availableAddedData ≠ t.availableAddedData ∧
      s.addedDataAlreadyRead ≠ t.addedDataAlreadyRead ∧ s.addedDataCRC32 ≠ t.addedDataCRC32 ∧
      (answers observedStep [.readRecord (some Record.zero), .isAddedDataAvailable,
        .readAddedData (some 4)] s).1.map (fun a => a.result.error) = [.ok, .ok, .ok] ∧
      (answers observedStep [.readRecord (some Record.zero), .isAddedDataAvailable,
        .readAddedData (some 4)] s).1 =
        (answers observedStep [.readRecord (some Record.zero), .isAddedDataAvailable,
          .readAddedData (some 4)] t).1 := by
  refine ⟨{ KCF.leftOver 0 with stream := .ofBytes [0, 0, 0, 0x80, 10, 0, 1, 0, 0, 0, 7] },
    { KCF.leftOver 5 with
      stream := .ofBytes [0, 0, 0, 0x80, 10, 0, 1, 0, 0, 0, 7]
      addedDataAlreadyRead := 3
      addedDataCRC32 := 1 }, by decide, by decide, by decide, by decide +kernel, ?_⟩
  exact (answers_forget_past rfl rfl ⟨rfl, rfl, rfl⟩ rfl Record.zero
    [.isAddedDataAvailable, .readAddedData (some 4)]).1

/-- A record read into a null pointer is refused before the counters are cleared, and they show. -/
theorem answers_show_past :
    (KCF.leftOver 0).parserState = .readRecordHeader ∧
      (KCF.leftOver 1).parserState = .readRecordHeader ∧
      (KCF.leftOver 0).stream = (KCF.leftOver 1).stream ∧
      (KCF.leftOver 0).heap = (KCF.leftOver 1).heap ∧
      (answers observedStep [.readRecord none, .isAddedDataAvailable] (KCF.leftOver 0)).1 ≠
        (answers observedStep [.readRecord none, .isAddedDataAvailable] (KCF.leftOver 1)).1 := by
  refine ⟨rfl, rfl, rfl, rfl, fun h => ?_⟩
  have hlast := congrArg (fun as => as.getLast?.map fun a => a.result) h
  have hne : ReaderResult.available false = .available true := Option.some.inj hlast
  cases hne

end Kcf
