import Kcf.Reader.Exact

/-! # Short reads

A record is put together from up to five reads, and none of them is checked for
having delivered as much as it was asked for. A record that is returned was
consumed in full exactly when every one of its reads delivered in full, and then
its fields and its data are the bytes of the stream.
-/

namespace Kcf

open LittleEndian

namespace IOStream

variable {s : IOStream} {n : ℕ} {c d : List ℕ}

/-- The stream after reads of these sizes. -/
def after (s : IOStream) (counts : List ℕ) : IOStream :=
  counts.foldl (fun s n => (ioRead s n).2.2) s

/-- Each of these reads in turn returns the number of bytes it was asked for. -/
def Gets : IOStream → List ℕ → Prop
  | _, [] => True
  | s, n :: counts => (ioRead s n).1 = n ∧ (ioRead s n).2.2.Gets counts

/-- The same bytes from a backend that delivers all of them. -/
def fully (s : IOStream) : IOStream := { s with reads := fun _ => .full }

@[simp] theorem ahead_fully (s : IOStream) : s.fully.ahead = s.ahead := rfl

instance decidableGets : (s : IOStream) → (counts : List ℕ) → Decidable (s.Gets counts)
  | _, [] => .isTrue trivial
  | s, n :: counts =>
    have := decidableGets (ioRead s n).2.2 counts
    inferInstanceAs (Decidable (_ ∧ _))

theorem after_append (s : IOStream) (c d : List ℕ) : s.after (c ++ d) = (s.after c).after d :=
  List.foldl_append ..

theorem gets_append : s.Gets (c ++ d) ↔ s.Gets c ∧ (s.after c).Gets d := by
  induction c generalizing s with
  | nil => exact (iff_of_eq (true_and _)).symm
  | cons n c ih => exact (and_congr_right fun _ => ih).trans and_assoc.symm

theorem ioRead_of_gets (h : (ioRead s n).1 = n) :
    n ≤ s.ahead.length ∧ ioRead s n = ((n : ℤ), s.ahead.take n, s.took n) := by
  have hf : ¬ (s.reads 0).Fails := by
    intro hf
    have hneg : (ioRead s n).1 < 0 := (Transfer.ret_neg_iff ..).mpr hf
    omega
  obtain ⟨m, -, hl, hr⟩ := ioRead_delivered hf n
  rw [hr] at h
  obtain rfl : m = n := Int.natCast_inj.mp h
  exact ⟨hl, hr⟩

theorem ioRead_fully (h : (ioRead s n).1 = n) :
    ioRead s.fully n = ((ioRead s n).1, (ioRead s n).2.1, (ioRead s n).2.2.fully) := by
  obtain ⟨hl, hr⟩ := ioRead_of_gets h
  have hfull := ioRead_full (s := s.fully) rfl n
  rw [ahead_fully, Nat.min_eq_left hl] at hfull
  rw [hfull, hr]
  rfl

theorem pos_after_le (s : IOStream) (c : List ℕ) : (s.after c).pos ≤ s.pos + c.sum := by
  induction c generalizing s with
  | nil => exact le_rfl
  | cons n c ih =>
    have hrest := ih (ioRead s n).2.2
    have hm := (s.reads 0).moved_le (min n (s.bytes.length - s.pos))
    change ((ioRead s n).2.2.after c).pos ≤ _
    change _ ≤ s.pos + (s.reads 0).moved (min n (s.bytes.length - s.pos)) + c.sum at hrest
    rw [List.sum_cons]
    omega

theorem pos_of_gets (h : s.Gets c) : (s.after c).pos = s.pos + c.sum := by
  induction c generalizing s with
  | nil => rfl
  | cons n c ih =>
    have hr := (ioRead_of_gets h.1).2
    have hrest := ih h.2
    change ((ioRead s n).2.2.after c).pos = _
    rw [hrest, hr, List.sum_cons, ← Nat.add_assoc]
    rfl

theorem gets_of_pos (hf : ∀ i < c.length, ¬ (s.reads i).Fails)
    (h : s.pos + c.sum ≤ (s.after c).pos) : s.Gets c := by
  induction c generalizing s with
  | nil => trivial
  | cons n c ih =>
    obtain ⟨m, hm, -, hr⟩ := ioRead_delivered (hf 0 (Nat.succ_pos _)) n
    have hrest := pos_after_le (ioRead s n).2.2 c
    change _ ≤ ((ioRead s n).2.2.after c).pos at h
    rw [List.sum_cons] at h
    rw [hr] at h hrest
    have hp : (s.took m).pos = s.pos + m := rfl
    dsimp only at h hrest
    obtain rfl : m = n := by omega
    refine ⟨by rw [hr], ih (fun i hi => ?_) ?_⟩
    · rw [hr]
      exact hf (i + 1) (Nat.succ_lt_succ hi)
    · rw [hr]
      dsimp only
      omega

end IOStream

namespace HeaderState

variable {h : HeaderState} {c d : List ℕ} {r r' : Bool × HeaderState}

/-- The header state over a backend that delivers all. -/
def fully (h : HeaderState) : HeaderState := { h with stream := h.stream.fully }

@[simp] theorem fully_record (h : HeaderState) : h.fully.record = h.record := rfl

/-- A part of the header makes reads of these sizes, and goes as on a backend that delivers all
when they get what they ask for. -/
structure Follows (h : HeaderState) (c : List ℕ) (r r' : Bool × HeaderState) : Prop where
  stream : r.1 = true → r.2.stream = h.stream.after c
  flags : r.1 = true → r.2.record.headFlags = h.record.headFlags
  fully : h.stream.Gets c → r = (true, r.2) ∧ r' = (true, r.2.fully)

theorem Follows.next {f : HeaderState → Bool × HeaderState} (hr : Follows h c r r')
    (hn : r.1 = true → Follows r.2 d (f r.2) (f r.2.fully)) :
    Follows h (c ++ d) (next f r) (next f r') := by
  obtain ⟨_ | _, h'⟩ := r
  · refine ⟨by rintro ⟨⟩, by rintro ⟨⟩, fun hg => ?_⟩
    have hc := (hr.fully (IOStream.gets_append.mp hg).1).1
    cases hc
  · have hn := hn rfl
    have hs : h'.stream = h.stream.after c := hr.stream rfl
    constructor
    · intro ho
      rw [IOStream.after_append, ← hs]
      exact hn.stream ho
    · intro ho
      exact (hn.flags ho).trans (hr.flags rfl)
    · intro hg
      obtain ⟨hc, hd⟩ := IOStream.gets_append.mp hg
      obtain ⟨hok, hfull⟩ := hn.fully (hs ▸ hd)
      refine ⟨hok, ?_⟩
      rw [(hr.fully hc).2]
      exact hfull

theorem fill_follows (h : HeaderState) (offset count : ℕ) :
    Follows h [count] (h.fill offset count) (h.fully.fill offset count) := by
  refine ⟨fun _ => rfl, fun _ => rfl, fun hg => ?_⟩
  have hr := IOStream.ioRead_fully hg.1
  have ho : (h.fill offset count).1 = true := by
    have h₀ : 0 ≤ (ioRead h.stream count).1 := by
      rw [hg.1]
      exact Int.natCast_nonneg count
    exact decide_eq_true h₀
  refine ⟨Prod.ext ho rfl, Prod.ext ?_ ?_⟩
  · rw [← ho]
    unfold fill fully
    dsimp only
    rw [hr]
  · unfold fill fully
    dsimp only
    rw [hr]

theorem Follows.skipped (h : HeaderState) : Follows h [] (true, h) (true, h.fully) :=
  ⟨fun _ => rfl, fun _ => rfl, fun _ => ⟨rfl, rfl⟩⟩

theorem fillAddedSizeLow_follows (h : HeaderState) :
    Follows h (if h.record.headFlags &&& KCF_HAS_ADDED_SIZE_4 ≠ 0 then [4] else [])
      h.fillAddedSizeLow h.fully.fillAddedSizeLow := by
  unfold fillAddedSizeLow
  rw [fully_record]
  split
  · exact fill_follows ..
  · exact .skipped h

theorem parseAddedSize8_follows (h : HeaderState) :
    Follows h [] h.parseAddedSize8 h.fully.parseAddedSize8 := by
  unfold parseAddedSize8 fully
  dsimp only
  rcases readU64LE 14 _ with ⟨addedSize, cursor⟩
  exact ⟨fun _ => rfl, fun _ => rfl, fun _ => ⟨rfl, rfl⟩⟩

theorem parseAddedSize4_follows (h : HeaderState) :
    Follows h [] h.parseAddedSize4 h.fully.parseAddedSize4 := by
  unfold parseAddedSize4 fully
  dsimp only
  rcases readU32LE 14 _ with ⟨addedSizeLow, cursor⟩
  exact ⟨fun _ => rfl, fun _ => rfl, fun _ => ⟨rfl, rfl⟩⟩

theorem readAddedSize_follows (h : HeaderState) :
    Follows h
      (if h.record.headFlags &&& KCF_HAS_ADDED_SIZE_8 = KCF_HAS_ADDED_SIZE_8 then [4] else [])
      h.readAddedSize h.fully.readAddedSize := by
  unfold readAddedSize
  rw [fully_record]
  split
  · exact (fill_follows ..).next fun _ => parseAddedSize8_follows _
  · split
    · exact parseAddedSize4_follows h
    · exact .skipped h

theorem parseAddedDataCRC_follows (h : HeaderState) :
    Follows h [] h.parseAddedDataCRC h.fully.parseAddedDataCRC := by
  unfold parseAddedDataCRC fully
  dsimp only
  rcases readU32LE 18 _ with ⟨crc, cursor⟩
  exact ⟨fun _ => rfl, fun _ => rfl, fun _ => ⟨rfl, rfl⟩⟩

theorem readAddedDataCRC_follows (h : HeaderState) :
    Follows h (if h.record.headFlags &&& KCF_HAS_ADDED_DATA_CRC32 ≠ 0 then [4] else [])
      h.readAddedDataCRC h.fully.readAddedDataCRC := by
  unfold readAddedDataCRC
  rw [fully_record]
  split
  · exact (fill_follows ..).next fun _ => parseAddedDataCRC_follows _
  · exact ⟨fun _ => rfl, fun _ => rfl, fun _ => ⟨rfl, rfl⟩⟩

/-- The sizes of the reads that the optional fields announced by the flags take. -/
def optionalCounts (flags : UInt8) : List ℕ :=
  (if flags &&& KCF_HAS_ADDED_SIZE_4 ≠ 0 then [4] else []) ++
    (if flags &&& KCF_HAS_ADDED_SIZE_8 = KCF_HAS_ADDED_SIZE_8 then [4] else []) ++
    (if flags &&& KCF_HAS_ADDED_DATA_CRC32 ≠ 0 then [4] else [])

theorem readOptional_follows (h : HeaderState) :
    Follows h (optionalCounts h.record.headFlags)
      (next readAddedDataCRC (next readAddedSize h.fillAddedSizeLow))
      (next readAddedDataCRC (next readAddedSize h.fully.fillAddedSizeLow)) := by
  have hlow := h.fillAddedSizeLow_follows
  have hsize := hlow.next (f := readAddedSize) fun ho => by
    have hn := readAddedSize_follows h.fillAddedSizeLow.2
    rwa [hlow.flags ho] at hn
  exact hsize.next fun ho => by
    have hn := readAddedDataCRC_follows (next readAddedSize h.fillAddedSizeLow).2
    rwa [hsize.flags ho] at hn

theorem sum_optionalCounts (flags : UInt8) :
    6 + (optionalCounts flags).sum = headerLength flags := by
  revert flags
  decide +kernel

theorem length_optionalCounts (flags : UInt8) :
    (optionalCounts flags).length = optionalReads flags := by
  revert flags
  decide +kernel

end HeaderState

namespace IOStream

variable {s : IOStream}

/-- The sizes of the reads that the header takes. -/
def headCounts (s : IOStream) : List ℕ := 6 :: HeaderState.optionalCounts s.headFlags

/-- The sizes of the reads that the record takes. -/
def recordCounts (s : IOStream) : List ℕ :=
  s.headCounts ++ [s.headSize.toNat - headerLength s.headFlags]

theorem sum_headCounts (s : IOStream) : s.headCounts.sum = headerLength s.headFlags :=
  HeaderState.sum_optionalCounts s.headFlags

theorem length_headCounts (s : IOStream) : s.headCounts.length = s.headReads := by
  rw [headCounts, List.length_cons, HeaderState.length_optionalCounts, headReads, Nat.add_comm]

theorem bytes_after (s : IOStream) (c : List ℕ) : (s.after c).bytes = s.bytes := by
  induction c generalizing s with
  | nil => rfl
  | cons n c ih => exact ih (ioRead s n).2.2

theorem ahead_of_gets {c : List ℕ} (h : s.Gets c) : (s.after c).ahead = s.ahead.drop c.sum := by
  rw [ahead, ahead, bytes_after, pos_of_gets h, List.drop_drop]

theorem sum_le_of_gets {c : List ℕ} (h : s.Gets c) : c.sum ≤ s.ahead.length := by
  induction c generalizing s with
  | nil => exact Nat.zero_le _
  | cons n c ih =>
    obtain ⟨hle, hr⟩ := ioRead_of_gets h.1
    have hrest := ih h.2
    rw [hr] at hrest
    change c.sum ≤ ((s.bytes.drop (s.pos + n))).length at hrest
    rw [List.length_drop] at hrest
    rw [ahead, List.length_drop] at hle ⊢
    rw [List.sum_cons]
    omega

theorem headFlags_of_gets (h : s.Gets s.headCounts) : s.headFlags = flagsAt s.ahead := by
  rw [headFlags, (ioRead_of_gets h.1).2, field_take (by omega), flagsAt]

theorem headSize_of_gets (h : s.Gets s.headCounts) : s.headSize.toNat = sizeAt s.ahead := by
  rw [headSize, (ioRead_of_gets h.1).2, field_take (by omega)]
  exact (UInt16.toNat_ofNat' ..).trans (Nat.mod_eq_of_lt (sizeAt_lt _))

end IOStream

namespace HeaderState

/-- A header is read by reads of its sizes, and where they get what they ask for it is the one that
stands ahead. -/
theorem readFields_follows (s : IOStream) (R : Record) :
    ((readFields ⟨s, padded [], 0, R⟩).1 = true →
        (readFields ⟨s, padded [], 0, R⟩).2.stream = s.after s.headCounts) ∧
      (s.Gets s.headCounts →
        (readFields ⟨s, padded [], 0, R⟩).2.record = R.parsed s.ahead) := by
  unfold readFields
  by_cases hf : (s.reads 0).Fails
  · have hr := readFixedFields_of_fails hf R
    rcases hx : readFixedFields ⟨s, padded [], 0, R⟩ with ⟨_ | _, h'⟩
    · constructor
      · rintro ⟨⟩
      intro hg
      have hneg : (ioRead s 6).1 < 0 := (Transfer.ret_neg_iff ..).mpr hf
      have hret := hg.1
      omega
    · rw [hx] at hr
      cases hr
  · rw [readFixedFields_of_not_fails hf]
    have ho := readOptional_follows
      ⟨(ioRead s 6).2.2, padded (ioRead s 6).2.1, 6, R.fixed (ioRead s 6).2.1⟩
    refine ⟨ho.stream, fun hg => ?_⟩
    have hfull := readFields_full (s := s.fully) (fun _ => rfl) R
    unfold readFields at hfull
    rw [readFixedFields_of_not_fails (show ¬ (s.fully.reads 0).Fails from id),
      IOStream.ioRead_fully hg.1] at hfull
    exact congrArg (fun r => r.2.record) ((ho.fully hg.2).2.symm.trans hfull)

end HeaderState

namespace KCF

variable {kcf k : KCF} {R R' : Record}

/-- What is known of a record's data once it was read with success. -/
theorem readRecordData_ok {n : ℕ} (h : kcf.readRecordData R n = (.ok, k, R')) :
    k.stream = (ioRead kcf.stream n).2.2 ∧ R'.headSize = R.headSize ∧
      ((ioRead kcf.stream n).1 = n → R' = R.withData (kcf.stream.ahead.take n)) := by
  unfold readRecordData at h
  rcases hm : malloc kcf.heap n with ⟨_ | block, heap⟩
  · rw [hm] at h
    cases h
  · have hl := length_of_malloc hm
    rw [hm] at h
    dsimp only at h
    split at h
    · cases h
    · cases h
      refine ⟨rfl, rfl, fun hg => ?_⟩
      obtain ⟨hle, hr⟩ := IOStream.ioRead_of_gets hg
      have hb : block.overwrite 0 (kcf.stream.ahead.take n) = kcf.stream.ahead.take n := by
        have ho := List.overwrite_block (p := []) (q := []) (e := block)
          (d := kcf.stream.ahead.take n) (by rw [hl, List.length_take, Nat.min_eq_left hle])
        simpa using ho
      rw [hr]
      exact congrArg R.withData hb

theorem readRecordData_returned {n : ℕ} (h : kcf.readRecordData R n = (.ok, k, R')) :
    ∃ d : List UInt8, d.length = n ∧ R' = R.withData d := by
  unfold readRecordData at h
  rcases hm : malloc kcf.heap n with ⟨_ | block, heap⟩
  · rw [hm] at h
    cases h
  · have hl := length_of_malloc hm
    have hb := HeaderState.length_ioRead_le kcf.stream n
    rw [hm] at h
    generalize ioRead kcf.stream n = x at h hb
    obtain ⟨ret, bytes, stream⟩ := x
    dsimp only at h hb
    split at h
    · cases h
    · cases h
      refine ⟨_, ?_, rfl⟩
      rw [List.length_overwrite_of_le (by omega), hl]

theorem readRecord_ok (h : kcf.readRecord (some R) = (.ok, k, some R')) :
    kcf.parserState = .readRecordHeader ∧ kcf.stream.DeliversHeader ∧ kcf.DeliversData := by
  have hc := kcf.readRecord_cases R
  rw [h] at hc
  cases hc with
  | noData _ _ _ he => rcases he with he | he <;> cases he
  | read hp hd hdata => exact ⟨hp, hd, hdata⟩

/-- A record that was read shows the flags and the size that the first read delivered, and its data
fills that size behind the header. -/
theorem readRecord_returned (h : kcf.readRecord (some R) = (.ok, k, some R')) :
    R'.headFlags = kcf.stream.headFlags ∧ R'.data.isSome = true ∧
      R'.headSize.toNat = headerLength R'.headFlags + R'.dataSize := by
  obtain ⟨hp, -, hle, -⟩ := readRecord_ok h
  have hc := kcf.cleared.readRecordHeader_cases R
  rw [readRecord_of_header hp] at h
  generalize kcf.cleared.readRecordHeader R = x at hc h
  cases hc with
  | failed => cases h
  | @delivered stream R₁ hd hf hs ha hr =>
    unfold afterHeader at h
    dsimp only at h
    rcases hy : readRecordData _ R₁ _ with ⟨e, k', R₂⟩
    rw [hy] at h
    cases h
    obtain ⟨d, hdata, rfl⟩ := readRecordData_returned hy
    have hflags : R₁.headFlags = kcf.stream.headFlags := hf
    have hsize : R₁.headSize = kcf.stream.headSize := hs
    refine ⟨hf, rfl, ?_⟩
    change R₁.headSize.toNat = headerLength R₁.headFlags + d.length
    rw [hdata, hflags, hsize]
    have hlt := kcf.stream.headSize.toNat_lt
    change _ = _ + toSize ((kcf.stream.headSize.toNat : ℤ) - headerLength kcf.stream.headFlags)
    unfold toSize UInt64.size
    omega

/-- A record is read with success by reads of its sizes, and where they get what they ask for it is
the one that stands ahead. -/
theorem readRecord_follows (h : kcf.readRecord (some R) = (.ok, k, some R')) :
    k.stream = kcf.stream.after kcf.stream.recordCounts ∧ R'.headSize = kcf.stream.headSize ∧
      (kcf.stream.Gets kcf.stream.recordCounts → R' = R.whole kcf.stream.ahead) := by
  obtain ⟨hp, -, hdata⟩ := readRecord_ok h
  obtain ⟨hstream, hrecord⟩ := HeaderState.readFields_follows kcf.stream R
  obtain ⟨-, hdel⟩ := HeaderState.readFields_delivers kcf.stream R
  rw [readRecord_of_header hp] at h
  unfold readRecordHeader at h
  rw [← padded_nil, show kcf.cleared.stream = kcf.stream from rfl] at h
  rcases hx : (HeaderState.mk kcf.stream (padded []) 0 R).readFields with ⟨_ | _, h'⟩
  · rw [hx] at h
    cases h
  · rw [hx] at hstream hrecord hdel h
    obtain ⟨-, hs, hn, -⟩ := hdel rfl
    have hst : h'.stream = kcf.stream.after kcf.stream.headCounts := hstream rfl
    have hdsize : toSize (h'.record.headSize.toNat - h'.size) =
        kcf.stream.headSize.toNat - headerLength kcf.stream.headFlags := by
      have hlt : kcf.stream.headSize.toNat < 65536 := kcf.stream.headSize.toNat_lt
      have hle := hdata.1
      rw [hs, hn]
      unfold toSize UInt64.size
      omega
    unfold afterHeader at h
    dsimp only at h
    rw [hdsize] at h
    rcases hy : readRecordData _ h'.record _ with ⟨e, k', R''⟩
    rw [hy] at h
    cases h
    obtain ⟨hk, hsize, hwhole⟩ := readRecordData_ok hy
    dsimp only at hk hwhole
    rw [hst] at hk hwhole
    refine ⟨?_, hsize.trans hs, fun hg => ?_⟩
    · rw [hk, IOStream.recordCounts, IOStream.after_append]
      rfl
    · obtain ⟨hg₁, hg₂⟩ := IOStream.gets_append.mp hg
      rw [hwhole hg₂.1, hrecord hg₁, IOStream.ahead_of_gets hg₁, IOStream.sum_headCounts,
        IOStream.headFlags_of_gets hg₁, IOStream.headSize_of_gets hg₁]
      rfl

theorem exists_readRecord (kcf : KCF) (R : Record) :
    ∃ e k R', kcf.readRecord (some R) = (e, k, some R') := by
  by_cases hp : kcf.parserState = .readRecordHeader
  · rw [readRecord_of_header hp]
    unfold afterHeader
    split
    · exact ⟨_, _, _, rfl⟩
    · exact ⟨_, _, _, rfl⟩
  · exact ⟨_, _, _, readRecord_of_ne hp R⟩

theorem readRecord_delivers (hp : kcf.parserState = .readRecordHeader)
    (hd : kcf.stream.DeliversHeader) (hdata : kcf.DeliversData) (R : Record) :
    ∃ k R', kcf.readRecord (some R) = (.ok, k, some R') := by
  have hc := kcf.readRecord_cases R
  obtain ⟨e, k, R', hr⟩ := kcf.exists_readRecord R
  rw [hr] at hc ⊢
  cases hc with
  | refused hne => exact absurd hp hne
  | noHeader _ hn => exact absurd hd hn
  | noData _ _ hn => exact absurd hdata hn
  | read => exact ⟨k, R', rfl⟩

theorem sum_recordCounts (h : kcf.DeliversData) :
    kcf.stream.recordCounts.sum = kcf.stream.headSize.toNat := by
  have hle := h.1
  rw [IOStream.recordCounts, List.sum_append, IOStream.sum_headCounts, List.sum_singleton]
  omega

/-- A record that is returned as read was consumed in full, and it is laid out as the bytes that
were consumed. -/
def NotTruncated (kcf : KCF) (R : Record) : Prop :=
  ∀ k R', kcf.readRecord (some R) = (.ok, k, some R') →
    kcf.stream.pos + R'.headSize.toNat ≤ k.stream.pos ∧
      R'.encode = kcf.stream.ahead.take R'.headSize.toNat

/-- Wherever a record would be returned, each of its reads returns what it was asked for. -/
def ReadsComplete (kcf : KCF) : Prop :=
  kcf.parserState = .readRecordHeader → kcf.stream.DeliversHeader → kcf.DeliversData →
    kcf.stream.Gets kcf.stream.recordCounts

instance (kcf : KCF) : Decidable kcf.ReadsComplete :=
  inferInstanceAs (Decidable (_ → _ → _ → _))

/-- A truncated record is never returned exactly when no read falls short where all go through. -/
theorem notTruncated_iff (kcf : KCF) (R : Record) : kcf.NotTruncated R ↔ kcf.ReadsComplete := by
  constructor
  · intro h hp hd hdata
    obtain ⟨k, R', hk⟩ := readRecord_delivers hp hd hdata R
    obtain ⟨hstream, hsize, -⟩ := readRecord_follows hk
    have hpos := (h k R' hk).1
    rw [hstream, hsize, ← sum_recordCounts hdata] at hpos
    apply IOStream.gets_of_pos _ hpos
    intro i hi
    rw [IOStream.recordCounts, List.length_append, IOStream.length_headCounts] at hi
    rcases Nat.lt_succ_iff_lt_or_eq.mp hi with hlt | rfl
    · exact hd i hlt
    · exact hdata.2.2
  · intro h k R' hk
    obtain ⟨hp, hd, hdata⟩ := readRecord_ok hk
    obtain ⟨hstream, hsize, hwhole⟩ := readRecord_follows hk
    have hg := h hp hd hdata
    obtain ⟨hg₁, -⟩ := IOStream.gets_append.mp hg
    have hsum := sum_recordCounts hdata
    have hheld : HoldsRecord kcf.stream.ahead := by
      have hle := hdata.1
      have hlen := IOStream.sum_le_of_gets hg
      rw [hsum] at hlen
      rw [IOStream.headFlags_of_gets hg₁] at hle
      rw [IOStream.headSize_of_gets hg₁] at hle hlen
      exact ⟨hle, hlen⟩
    constructor
    · rw [hstream, IOStream.pos_of_gets hg, hsum, hsize]
    · rw [hwhole hg, R.encode_whole hheld, R.toNat_whole_headSize]

/-- A record of eight bytes of which the stream holds the first seven. -/
theorem truncated_returned :
    ∃ k R, (reading (.ofBytes [0, 0, 0, 0, 8, 0, 7])).readRecord (some Record.zero) =
        (.ok, k, some R) ∧
      R.headSize = 8 ∧ R.bytes = [7, 0] ∧ k.stream.pos = 7 ∧
      ¬ (reading (.ofBytes [0, 0, 0, 0, 8, 0, 7])).NotTruncated Record.zero := by
  refine ⟨_, _, rfl, by decide +kernel, by decide +kernel, by decide +kernel, fun h => ?_⟩
  have hpos := (h _ _ rfl).1
  revert hpos
  decide +kernel

end KCF

end Kcf
