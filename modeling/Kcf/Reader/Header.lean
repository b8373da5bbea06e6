import Kcf.Reader.Basic
import Kcf.Record.Layout

/-! # Reading a header

Which reads a header takes, what it makes of the bytes delivered, and what it
returns on a stream that delivers all its bytes: the fields of the format at
their offsets, with zeros past the end of the stream.
-/

namespace Kcf

open LittleEndian

namespace HeaderState

variable {h : HeaderState} {r : Bool × HeaderState} {k k' w w' : ℕ}

/-- A part of the header takes so many reads and so many bytes and leaves flags and size alone. -/
structure Takes (h : HeaderState) (k w : ℕ) (r : Bool × HeaderState) : Prop where
  ok_iff : r.1 = true ↔ ∀ i < k, ¬ (h.stream.reads i).Fails
  reads : r.1 = true → ∀ i, r.2.stream.reads i = h.stream.reads (k + i)
  flags : r.1 = true → r.2.record.headFlags = h.record.headFlags
  headSize : r.1 = true → r.2.record.headSize = h.record.headSize
  size : r.1 = true → r.2.size = h.size + w

theorem Takes.next {f : HeaderState → Bool × HeaderState} (hr : Takes h k w r)
    (hn : r.1 = true → Takes r.2 k' w' (f r.2)) : Takes h (k + k') (w + w') (next f r) := by
  rcases r with ⟨_ | _, h'⟩
  · have hk := hr.ok_iff
    simp only [Bool.false_eq_true, false_iff, not_forall] at hk
    obtain ⟨i, hi, hf⟩ := hk
    have hfalse : ¬ ∀ i < k + k', ¬ (h.stream.reads i).Fails := fun ha => hf (ha i (by omega))
    exact ⟨by simpa [HeaderState.next] using hfalse, nofun, nofun, nofun, nofun⟩
  · have hn := hn rfl
    have hk := hr.ok_iff.mp rfl
    refine ⟨?_, ?_, ?_, ?_, ?_⟩
    · refine hn.ok_iff.trans ⟨fun ha i hi => ?_, fun ha i hi => ?_⟩
      · rcases Nat.lt_or_ge i k with hlt | hge
        · exact hk i hlt
        · have := ha (i - k) (by omega)
          rwa [hr.reads rfl, Nat.add_sub_cancel' hge] at this
      · rw [hr.reads rfl]
        exact ha _ (by omega)
    · intro ho i
      rw [show (HeaderState.next f (true, h')).2 = (f h').2 from rfl, hn.reads ho,
        hr.reads rfl, Nat.add_assoc]
    · exact fun ho => (hn.flags ho).trans (hr.flags rfl)
    · exact fun ho => (hn.headSize ho).trans (hr.headSize rfl)
    · intro ho
      rw [show (HeaderState.next f (true, h')).2 = (f h').2 from rfl, hn.size ho,
        hr.size rfl, Nat.add_assoc]

theorem fill_takes (h : HeaderState) (offset count : ℕ) : Takes h 1 0 (h.fill offset count) := by
  refine ⟨?_, fun _ i => ?_, fun _ => rfl, fun _ => rfl, fun _ => rfl⟩
  · have hf : (h.fill offset count).1 = true ↔ 0 ≤ (ioRead h.stream count).1 := decide_eq_true_iff
    rw [hf, ← not_lt, ioRead, Transfer.ret_neg_iff]
    simp
  · rw [Nat.add_comm]
    rfl

theorem Takes.parsed {R : Record} {size : ℕ} (hf : R.headFlags = h.record.headFlags)
    (hs : R.headSize = h.record.headSize) (hw : size = h.size + w) :
    Takes h 0 w (true, { h with size := size, record := R }) :=
  ⟨by simp, fun _ i => by rw [Nat.zero_add], fun _ => hf, fun _ => hs, fun _ => hw⟩

/-- The number of reads that the optional fields announced by the flags take. -/
def optionalReads (flags : UInt8) : ℕ :=
  (if flags &&& KCF_HAS_ADDED_SIZE_4 ≠ 0 then 1 else 0) +
    (if flags &&& KCF_HAS_ADDED_SIZE_8 = KCF_HAS_ADDED_SIZE_8 then 1 else 0) +
    (if flags &&& KCF_HAS_ADDED_DATA_CRC32 ≠ 0 then 1 else 0)

theorem fillAddedSizeLow_takes (h : HeaderState) :
    Takes h (if h.record.headFlags &&& KCF_HAS_ADDED_SIZE_4 ≠ 0 then 1 else 0) 0
      h.fillAddedSizeLow := by
  unfold fillAddedSizeLow
  split
  · exact fill_takes ..
  · exact .parsed rfl rfl rfl

theorem readAddedSize_takes (hs : h.size = 6) :
    Takes h (if h.record.headFlags &&& KCF_HAS_ADDED_SIZE_8 = KCF_HAS_ADDED_SIZE_8 then 1 else 0)
      (addedSizeWidth h.record.headFlags) h.readAddedSize := by
  unfold readAddedSize addedSizeWidth
  by_cases h₈ : h.record.headFlags &&& KCF_HAS_ADDED_SIZE_8 = KCF_HAS_ADDED_SIZE_8
  · have h₄ : ¬ h.record.headFlags &&& KCF_HAS_ADDED_SIZE_8 = KCF_HAS_ADDED_SIZE_4 := by
      rw [h₈]; decide
    rw [if_pos h₈, if_neg h₄, if_pos h₈, if_pos h₈]
    refine (fill_takes h (h.size + 4) 4).next fun _ => (?_ : Takes _ 0 8 _)
    unfold parseAddedSize8
    rw [readU64LE_of_le 14 (show h.size + 8 ≤ 14 by omega)]
    exact .parsed rfl rfl rfl
  · rw [if_neg h₈, if_neg h₈, if_neg h₈]
    split
    · unfold parseAddedSize4
      rw [readU32LE_of_le 14 (show h.size + 4 ≤ 14 by omega)]
      exact .parsed rfl rfl rfl
    · exact .parsed rfl rfl rfl

theorem readAddedDataCRC_takes (hs : h.size ≤ 14) :
    Takes h (if h.record.headFlags &&& KCF_HAS_ADDED_DATA_CRC32 ≠ 0 then 1 else 0)
      (addedDataCRCWidth h.record.headFlags) h.readAddedDataCRC := by
  unfold readAddedDataCRC addedDataCRCWidth
  by_cases hc : h.record.headFlags &&& KCF_HAS_ADDED_DATA_CRC32 ≠ 0
  · rw [if_pos hc, if_pos hc, if_pos hc]
    refine (fill_takes h h.size 4).next fun _ => (?_ : Takes _ 0 4 _)
    unfold parseAddedDataCRC
    rw [readU32LE_of_le 18 (show h.size + 4 ≤ 18 by omega)]
    exact .parsed rfl rfl rfl
  · rw [if_neg hc, if_neg hc, if_neg hc]
    exact .parsed rfl rfl rfl

theorem readOptional_takes (hs : h.size = 6) :
    Takes h (optionalReads h.record.headFlags)
      (addedSizeWidth h.record.headFlags + addedDataCRCWidth h.record.headFlags)
      (next readAddedDataCRC (next readAddedSize h.fillAddedSizeLow)) := by
  have hlow := h.fillAddedSizeLow_takes
  have hsize := hlow.next (f := readAddedSize) fun ho => by
    have := readAddedSize_takes (h := h.fillAddedSizeLow.2) (by rw [hlow.size ho, hs])
    rwa [hlow.flags ho] at this
  have hw := addedSizeWidth_le h.record.headFlags
  rw [Nat.zero_add] at hsize
  exact hsize.next fun ho => by
    have := readAddedDataCRC_takes (h := (next readAddedSize h.fillAddedSizeLow).2)
      (by rw [hsize.size ho]; omega)
    rwa [hsize.flags ho] at this

end HeaderState

/-- A byte string in a zeroed buffer of eighteen bytes. -/
def padded (d : List UInt8) : List UInt8 := d ++ List.replicate (18 - d.length) 0

theorem padded_nil : padded [] = List.replicate 18 0 := rfl

theorem field_padded (d : List UInt8) (v w : ℕ) : field (padded d) v w = field d v w :=
  field_append_zeros ..

theorem padded_overwrite (a : List UInt8) (n count : ℕ) :
    (padded (a.take n)).overwrite n ((a.drop n).take count) = padded (a.take (n + count)) := by
  rcases Nat.le_total n a.length with hn | hn
  · have hl : (a.take n).length = n := by rw [List.length_take, Nat.min_eq_left hn]
    have ho := List.overwrite_append (a.take n) (List.replicate (18 - (a.take n).length) 0)
      ((a.drop n).take count)
    rw [hl] at ho
    rw [padded, padded, hl, ho, List.drop_replicate, List.take_add, List.length_append, hl,
      Nat.sub_sub]
  · rw [List.drop_eq_nil_of_le hn, List.take_nil, List.overwrite_nil, List.take_of_length_le hn,
      List.take_of_length_le (by omega)]

namespace Record

/-- The record with the fixed fields of a header. -/
def fixed (R : Record) (d : List UInt8) : Record :=
  { R with
    headCRC := UInt16.ofNat (field d 0 2)
    headType := UInt8.ofNat (field d 2 1)
    headFlags := UInt8.ofNat (field d 3 1)
    headSize := UInt16.ofNat (field d 4 2)
    addedSize := 0 }

/-- The record with all the fields of a header. -/
def parsed (R : Record) (a : List UInt8) : Record :=
  { R.fixed a with
    addedSize := UInt64.ofNat (field a 6 (addedSizeWidth (R.fixed a).headFlags))
    addedDataCRC32 := UInt32.ofNat (field a (6 + addedSizeWidth (R.fixed a).headFlags)
      (addedDataCRCWidth (R.fixed a).headFlags)) }

theorem fixed_take (R : Record) (a : List UInt8) : R.fixed (a.take 6) = R.fixed a := by
  simp only [fixed, field_take (show 0 + 2 ≤ 6 by omega), field_take (show 2 + 1 ≤ 6 by omega),
    field_take (show 3 + 1 ≤ 6 by omega), field_take (show 4 + 2 ≤ 6 by omega)]

end Record

namespace HeaderState

theorem parseFixedFields_padded (s : IOStream) (d : List UInt8) (R : Record) :
    parseFixedFields ⟨s, padded d, 0, R⟩ = (true, ⟨s, padded d, 6, R.fixed d⟩) := by
  have h₁ := readU16LE_of_le 6 (c := ⟨padded d, 0⟩) (by simp)
  have h₂ := readU8_of_le 6 (c := ⟨padded d, 2⟩) (by simp)
  have h₃ := readU8_of_le 6 (c := ⟨padded d, 3⟩) (by simp)
  have h₄ := readU16LE_of_le 6 (c := ⟨padded d, 4⟩) (by simp)
  simp only [field_padded] at h₁ h₂ h₃ h₄
  simp only [parseFixedFields, Nat.zero_add, h₁, h₂, h₃, h₄]
  rfl

theorem readFixedFields_of_fails {s : IOStream} (hf : (s.reads 0).Fails) (R : Record) :
    (readFixedFields ⟨s, padded [], 0, R⟩).1 = false := by
  have hr : ((⟨s, padded [], 0, R⟩ : HeaderState).fill 0 6).1 = false :=
    decide_eq_false (not_le.mpr ((Transfer.ret_neg_iff ..).mpr hf))
  unfold readFixedFields
  rcases hx : (⟨s, padded [], 0, R⟩ : HeaderState).fill 0 6 with ⟨_ | _, h'⟩
  · rfl
  · rw [hx] at hr
    cases hr

theorem readFixedFields_of_not_fails {s : IOStream} (hf : ¬ (s.reads 0).Fails) (R : Record) :
    readFixedFields ⟨s, padded [], 0, R⟩ =
      (true, ⟨(ioRead s 6).2.2, padded (ioRead s 6).2.1, 6, R.fixed (ioRead s 6).2.1⟩) := by
  have hb := padded_overwrite (ioRead s 6).2.1 0 (ioRead s 6).2.1.length
  rw [List.drop_zero, Nat.zero_add, List.take_length, List.take_zero] at hb
  have hr : (⟨s, padded [], 0, R⟩ : HeaderState).fill 0 6 =
      (true, ⟨(ioRead s 6).2.2, padded (ioRead s 6).2.1, 0, R⟩) :=
    Prod.ext (decide_eq_true (not_lt.mp (mt (Transfer.ret_neg_iff ..).mp hf)))
      (by rw [← hb]; rfl)
  rw [readFixedFields, hr]
  exact parseFixedFields_padded ..

end HeaderState

namespace IOStream

/-- The flags in the header that the first read delivers. -/
def headFlags (s : IOStream) : UInt8 := UInt8.ofNat (field (ioRead s 6).2.1 3 1)

/-- The record size in the header that the first read delivers. -/
def headSize (s : IOStream) : UInt16 := UInt16.ofNat (field (ioRead s 6).2.1 4 2)

def headReads (s : IOStream) : ℕ := 1 + HeaderState.optionalReads s.headFlags

def DeliversHeader (s : IOStream) : Prop := ∀ i < s.headReads, ¬ (s.reads i).Fails

instance (s : IOStream) : Decidable s.DeliversHeader :=
  inferInstanceAs (Decidable (∀ i < s.headReads, ¬ (s.reads i).Fails))

end IOStream

namespace HeaderState

/-- A header is read exactly when none of its reads fails, and then it has the delivered flags
and size and takes the bytes that the flags announce. -/
theorem readFields_delivers (s : IOStream) (R : Record) :
    ((readFields ⟨s, padded [], 0, R⟩).1 = true ↔ s.DeliversHeader) ∧
      ((readFields ⟨s, padded [], 0, R⟩).1 = true →
        (readFields ⟨s, padded [], 0, R⟩).2.record.headFlags = s.headFlags ∧
        (readFields ⟨s, padded [], 0, R⟩).2.record.headSize = s.headSize ∧
        (readFields ⟨s, padded [], 0, R⟩).2.size = headerLength s.headFlags ∧
        ∀ i, (readFields ⟨s, padded [], 0, R⟩).2.stream.reads i = s.reads (s.headReads + i)) := by
  unfold readFields IOStream.DeliversHeader IOStream.headReads
  by_cases hf : (s.reads 0).Fails
  · have hr := readFixedFields_of_fails hf R
    rcases hx : readFixedFields ⟨s, padded [], 0, R⟩ with ⟨_ | _, h'⟩
    · have hn : ¬ ∀ i < 1 + optionalReads s.headFlags, ¬ (s.reads i).Fails :=
        fun ha => ha 0 (by omega) hf
      simp [HeaderState.next, hn]
    · rw [hx] at hr
      cases hr
  · rw [readFixedFields_of_not_fails hf]
    have ho : Takes _ (optionalReads s.headFlags)
        (addedSizeWidth s.headFlags + addedDataCRCWidth s.headFlags) _ :=
      readOptional_takes
        (h := ⟨(ioRead s 6).2.2, padded (ioRead s 6).2.1, 6, R.fixed (ioRead s 6).2.1⟩) rfl
    refine ⟨ho.ok_iff.trans ⟨fun ha i hi => ?_, fun ha i hi => ?_⟩, fun hk =>
      ⟨ho.flags hk, ho.headSize hk, ?_, fun i => ?_⟩⟩
    · cases i with
      | zero => exact hf
      | succ i => exact ha i (by omega)
    · exact ha (i + 1) (by omega)
    · rw [headerLength, Nat.add_assoc]
      exact ho.size hk
    · rw [Nat.add_assoc, Nat.add_comm]
      exact ho.reads hk i

end HeaderState

theorem field_overwrite_zeros {b e : List UInt8} {o n : ℕ} (ho : o ≤ b.length)
    (hb : b.drop o = List.replicate n 0) (w : ℕ) : field (b.overwrite o e) o w = field e 0 w := by
  have hz := field_append_zeros e (n - e.length) 0 w
  rw [field, List.drop_overwrite ho, ← List.drop_drop, hb, List.drop_replicate]
  exact hz

namespace IOStream

/-- The size of the added data that the stream delivers behind the fixed fields, in one read or
two as the flags say. -/
def addedSizeField (s : IOStream) (flags : UInt8) : ℕ :=
  if addedSizeWidth flags = 0 then 0
  else
    field (ioRead s 4).2.1 0 4 +
      if addedSizeWidth flags = 8 then 256 ^ 4 * field (ioRead (ioRead s 4).2.2 4).2.1 0 4 else 0

def headAddedSize (s : IOStream) : ℕ := (ioRead s 6).2.2.addedSizeField s.headFlags

theorem addedSizeField_lt (s : IOStream) (flags : UInt8) : s.addedSizeField flags < 256 ^ 8 := by
  have h₁ := field_lt (ioRead s 4).2.1 0 4
  have h₂ := field_lt (ioRead (ioRead s 4).2.2 4).2.1 0 4
  unfold addedSizeField
  split
  · norm_num
  · split <;> omega

theorem headAddedSize_lt (s : IOStream) : s.headAddedSize < 256 ^ 8 := addedSizeField_lt ..

end IOStream

namespace HeaderState

theorem next_eq {read : HeaderState → Bool × HeaderState} {r : Bool × HeaderState}
    (h : (next read r).1 = true) : r.1 = true ∧ next read r = read r.2 := by
  obtain ⟨_ | _, _⟩ := r
  · cases h
  · exact ⟨rfl, rfl⟩

theorem length_ioRead_le (s : IOStream) (n : ℕ) : (ioRead s n).2.1.length ≤ n := by
  change (s.ahead.take _).length ≤ n
  have := (s.reads 0).moved_le (min n (s.bytes.length - s.pos))
  simp only [List.length_take]
  omega

theorem readAddedSize_value {h : HeaderState} (hs : h.size = 6) (hl : h.buffer.length = 18)
    (hb : h.buffer.drop 10 = List.replicate 8 0) (hw : addedSizeWidth h.record.headFlags ≠ 0)
    (hk : h.readAddedSize.1 = true) :
    h.readAddedSize.2.record.addedSize = UInt64.ofNat (field h.buffer 6 4 +
      if addedSizeWidth h.record.headFlags = 8 then 256 ^ 4 * field (ioRead h.stream 4).2.1 0 4
      else 0) := by
  obtain ⟨s, b, size, R⟩ := h
  obtain rfl : size = 6 := hs
  dsimp only at hl hb hw
  unfold readAddedSize at hk ⊢
  dsimp only at hk ⊢
  by_cases h₈ : R.headFlags &&& KCF_HAS_ADDED_SIZE_8 = KCF_HAS_ADDED_SIZE_8
  · have hw : addedSizeWidth R.headFlags = 8 := by rw [addedSizeWidth, h₈]; decide
    rw [if_pos h₈] at hk ⊢
    obtain ⟨_, hn⟩ := next_eq hk
    have hr := readU64LE_of_le 14 (c := ⟨b.overwrite 10 (ioRead s 4).2.1, 6⟩) (by simp)
    have hlow : field (b.overwrite 10 (ioRead s 4).2.1) 6 4 = field b 6 4 := by
      rw [← field_take (n := 10) (by omega), List.take_overwrite_left (by omega),
        field_take (by omega)]
    rw [hn, if_pos hw]
    change (parseAddedSize8 _).2.record.addedSize = _
    unfold parseAddedSize8 fill
    dsimp only
    rw [hr, Option.getD_some, field_add _ 6 4 4, field_overwrite_zeros (by omega) hb, hlow]
  · have h₄ : R.headFlags &&& KCF_HAS_ADDED_SIZE_8 = KCF_HAS_ADDED_SIZE_4 := by
      by_contra h₄
      exact hw (by rw [addedSizeWidth, if_neg h₄, if_neg h₈])
    have hw : addedSizeWidth R.headFlags = 4 := if_pos h₄
    have hr := readU32LE_of_le 14 (c := ⟨b, 6⟩) (by simp)
    have hlt : field b 6 4 < 256 ^ 4 := field_lt ..
    rw [if_neg h₈, if_pos h₄, hw]
    unfold parseAddedSize4
    dsimp only
    rw [hr, Option.map_some, Option.getD_some]
    apply UInt64.toNat_inj.mp
    rw [UInt32.toNat_toUInt64, UInt32.toNat_ofNat', UInt64.toNat_ofNat', if_neg (by omega)]
    change field b 6 4 % _ = (field b 6 4 + 0) % _
    omega

/-- What is read of the size field into a buffer that holds nothing behind the fixed fields. -/
theorem readAddedSize_delivers {h : HeaderState} (hs : h.size = 6) (h₀ : h.record.addedSize = 0)
    (hl : h.buffer.length = 18) (hb : h.buffer.drop 6 = List.replicate 12 0)
    (hk : (next readAddedSize h.fillAddedSizeLow).1 = true) :
    (next readAddedSize h.fillAddedSizeLow).2.record.addedSize =
      UInt64.ofNat (h.stream.addedSizeField h.record.headFlags) := by
  have hz := addedSizeWidth_eq_zero_iff h.record.headFlags
  have hlow := length_ioRead_le h.stream 4
  obtain ⟨_, hn⟩ := next_eq hk
  rw [hn] at hk ⊢
  unfold IOStream.addedSizeField
  by_cases hw : addedSizeWidth h.record.headFlags = 0
  · have hf : h.fillAddedSizeLow = (true, h) := if_neg (not_not.mpr (hz.mp hw))
    have h₈ : ¬ h.record.headFlags &&& KCF_HAS_ADDED_SIZE_8 = KCF_HAS_ADDED_SIZE_8 := by
      intro h₈
      rw [addedSizeWidth, h₈] at hw
      revert hw
      decide
    have h₄ : ¬ h.record.headFlags &&& KCF_HAS_ADDED_SIZE_8 = KCF_HAS_ADDED_SIZE_4 := by
      intro h₄
      rw [addedSizeWidth, h₄] at hw
      revert hw
      decide
    have hr : h.readAddedSize = (true, h) := (if_neg h₈).trans (if_neg h₄)
    rw [hf, hr, if_pos hw]
    exact h₀
  · have hf : h.fillAddedSizeLow = h.fill 6 4 := (if_pos (mt hz.mpr hw)).trans (by rw [hs])
    have hl' : (h.buffer.overwrite 6 (ioRead h.stream 4).2.1).length = 18 :=
      (List.length_overwrite_of_le (by omega)).trans hl
    have hb' : (h.buffer.overwrite 6 (ioRead h.stream 4).2.1).drop 10 = List.replicate 8 0 := by
      have h₁₀ := congrArg (List.drop 4) hb
      rw [List.drop_drop, List.drop_replicate] at h₁₀
      rw [List.drop_overwrite_of_le (by omega) (by omega), h₁₀]
    have hv := readAddedSize_value (h := (h.fill 6 4).2) hs hl' hb' hw (hf ▸ hk)
    rw [hf, hv, if_neg hw]
    change UInt64.ofNat (field (h.buffer.overwrite 6 _) 6 4 + _) = _
    rw [field_overwrite_zeros (by omega) hb]
    rfl

theorem readAddedDataCRC_addedSize (h : HeaderState) :
    h.readAddedDataCRC.2.record.addedSize = h.record.addedSize := by
  have hp (h : HeaderState) : h.parseAddedDataCRC.2.record.addedSize = h.record.addedSize := by
    unfold parseAddedDataCRC
    rcases readU32LE 18 _ with ⟨crc, c⟩
    rfl
  have hn (r : Bool × HeaderState) :
      (next parseAddedDataCRC r).2.record.addedSize = r.2.record.addedSize := by
    obtain ⟨_ | _, h'⟩ := r
    · rfl
    · exact hp h'
  unfold readAddedDataCRC
  split
  · exact hn _
  · rfl

theorem readFields_addedSize (s : IOStream) (R : Record)
    (hk : (readFields ⟨s, padded [], 0, R⟩).1 = true) :
    (readFields ⟨s, padded [], 0, R⟩).2.record.addedSize = UInt64.ofNat s.headAddedSize := by
  have hf : ¬ (s.reads 0).Fails :=
    (readFields_delivers s R).1.mp hk 0 (Nat.add_pos_left one_pos _)
  have hl := length_ioRead_le s 6
  unfold readFields at hk ⊢
  rw [readFixedFields_of_not_fails hf] at hk ⊢
  obtain ⟨ho, hn⟩ := next_eq hk
  rw [hn, readAddedDataCRC_addedSize]
  refine readAddedSize_delivers rfl rfl ?_ ?_ ho
  · rw [padded, List.length_append, List.length_replicate]
    omega
  · rw [padded, List.drop_append, List.drop_eq_nil_of_le hl, List.nil_append, List.drop_replicate]
    congr 1
    omega

/-- So many bytes ahead of the stream are in the buffer, and so many of them are header. -/
def standing (s : IOStream) (n size : ℕ) (R : Record) : HeaderState :=
  ⟨s.advanced (min n s.ahead.length), padded (s.ahead.take n), size, R⟩

variable {s : IOStream}

theorem fill_standing (hs : s.ReadsFully) (n count size : ℕ) (R : Record) :
    (standing s n size R).fill n count = (true, standing s (n + count) size R) := by
  have hl : (s.advanced (min n s.ahead.length)).ahead = s.ahead.drop n := by
    rw [IOStream.ahead_advanced]
    rcases Nat.le_total n s.ahead.length with h | h
    · rw [Nat.min_eq_left h]
    · rw [Nat.min_eq_right h, List.drop_length, List.drop_eq_nil_of_le h]
  have hp : min n s.ahead.length + min count (s.ahead.length - n) =
      min (n + count) s.ahead.length := by omega
  have hr := ioRead_full (s := s.advanced (min n s.ahead.length)) (hs 0) count
  rw [hl, List.length_drop, (hs.advanced _).took_eq] at hr
  simp only [fill, standing, hr, padded_overwrite, Int.natCast_nonneg, decide_true,
    IOStream.advanced_advanced, hp]

theorem readFixedFields_full (hs : s.ReadsFully) (R : Record) :
    readFixedFields ⟨s, padded [], 0, R⟩ = (true, standing s 6 6 (R.fixed s.ahead)) := by
  have h₀ : (⟨s, padded [], 0, R⟩ : HeaderState) = standing s 0 0 R := by
    rw [standing, Nat.zero_min, IOStream.advanced_zero, List.take_zero]
  rw [readFixedFields, h₀, fill_standing hs, ← Record.fixed_take]
  exact parseFixedFields_padded ..

theorem field_padded_take (a : List UInt8) {v w n : ℕ} (h : v + w ≤ n) :
    field (padded (a.take n)) v w = field a v w := by
  rw [field_padded, field_take h]

theorem fillAddedSizeLow_full (hs : s.ReadsFully) (R : Record) :
    (standing s 6 6 R).fillAddedSizeLow =
      (true, standing s (if addedSizeWidth R.headFlags = 0 then 6 else 10) 6 R) := by
  have hz := addedSizeWidth_eq_zero_iff R.headFlags
  unfold fillAddedSizeLow
  by_cases hw : addedSizeWidth R.headFlags = 0
  · rw [if_pos hw]
    exact if_neg (not_not.mpr (hz.mp hw))
  · rw [if_neg hw]
    exact (if_pos (mt hz.mpr hw)).trans (fill_standing hs ..)

theorem readAddedSize_full (hs : s.ReadsFully) {R : Record} (h₀ : R.addedSize = 0) :
    next readAddedSize (standing s 6 6 R).fillAddedSizeLow =
      (true, standing s (6 + addedSizeWidth R.headFlags) (6 + addedSizeWidth R.headFlags)
        { R with addedSize := UInt64.ofNat (field s.ahead 6 (addedSizeWidth R.headFlags)) }) := by
  rw [fillAddedSizeLow_full hs]
  change readAddedSize _ = _
  unfold readAddedSize
  by_cases h₈ : R.headFlags &&& KCF_HAS_ADDED_SIZE_8 = KCF_HAS_ADDED_SIZE_8
  · have hw : addedSizeWidth R.headFlags = 8 := by
      rw [addedSizeWidth, h₈]
      decide
    have hr := readU64LE_of_le 14 (c := ⟨padded (s.ahead.take 14), 6⟩) (by simp)
    rw [field_padded_take _ (by simp)] at hr
    rw [hw]
    refine (if_pos h₈).trans ?_
    refine (congrArg (HeaderState.next _) (fill_standing hs 10 4 6 R)).trans ?_
    simp only [HeaderState.next, parseAddedSize8, standing, hr]
    rfl
  · refine (if_neg h₈).trans ?_
    by_cases h₄ : R.headFlags &&& KCF_HAS_ADDED_SIZE_8 = KCF_HAS_ADDED_SIZE_4
    · have hw : addedSizeWidth R.headFlags = 4 := if_pos h₄
      have hr := readU32LE_of_le 14 (c := ⟨padded (s.ahead.take 10), 6⟩) (by simp)
      rw [field_padded_take _ (by simp)] at hr
      have hv := toUInt64_ofNat_field s.ahead 6
      rw [hw]
      refine (if_pos h₄).trans ?_
      simp only [parseAddedSize4, standing]
      simp only [show (if (4 : ℕ) = 0 then 6 else 10) = 10 from rfl, hr, Option.map_some,
        Option.getD_some, hv]
    · have hw : addedSizeWidth R.headFlags = 0 := by rw [addedSizeWidth, if_neg h₄, if_neg h₈]
      rw [hw, field_zero]
      refine (if_neg h₄).trans ?_
      rw [← show R.addedSize = UInt64.ofNat 0 from h₀]
      rfl

theorem readAddedDataCRC_full (hs : s.ReadsFully) {n : ℕ} (hn : n ≤ 14) (R : Record) :
    readAddedDataCRC (standing s n n R) =
      (true, standing s (n + addedDataCRCWidth R.headFlags) (n + addedDataCRCWidth R.headFlags)
        { R with
          addedDataCRC32 := UInt32.ofNat (field s.ahead n (addedDataCRCWidth R.headFlags)) }) := by
  unfold readAddedDataCRC addedDataCRCWidth
  by_cases hc : R.headFlags &&& KCF_HAS_ADDED_DATA_CRC32 ≠ 0
  · have hr := readU32LE_of_le 18 (c := ⟨padded (s.ahead.take (n + 4)), n⟩)
      (show n + 4 ≤ 18 by omega)
    rw [field_padded_take _ (by simp)] at hr
    rw [if_pos hc]
    refine (if_pos hc).trans ?_
    refine (congrArg (HeaderState.next _) (fill_standing hs n 4 n R)).trans ?_
    simp only [HeaderState.next, parseAddedDataCRC, standing, hr]
    rfl
  · rw [if_neg hc, field_zero]
    exact if_neg hc

theorem readFields_full (hs : s.ReadsFully) (R : Record) :
    readFields ⟨s, padded [], 0, R⟩ =
      (true, standing s (headerLength (R.parsed s.ahead).headFlags)
        (headerLength (R.parsed s.ahead).headFlags) (R.parsed s.ahead)) := by
  have hw := addedSizeWidth_le (R.fixed s.ahead).headFlags
  unfold readFields
  rw [readFixedFields_full hs]
  change HeaderState.next readAddedDataCRC (HeaderState.next readAddedSize
    (standing s 6 6 (R.fixed s.ahead)).fillAddedSizeLow) = _
  rw [readAddedSize_full hs rfl]
  refine (readAddedDataCRC_full hs (by omega) _).trans ?_
  rfl

end HeaderState

end Kcf
