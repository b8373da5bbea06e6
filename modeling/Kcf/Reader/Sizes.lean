import Kcf.Reader.Cases

/-! # Declared sizes

The size of a record's data and the number of bytes to skip are computed from
the declared size of the record and the size of its header, and nothing checks
the one against the other. Where the record is declared smaller than its header,
or where the sum passes 64 bits, they wrap around.
-/

namespace Kcf

namespace IOStream

/-- The six fixed bytes of a header are delivered. -/
def GivesFixed (s : IOStream) : Prop := (ioRead s 6).2.1.length = 6

/-- The declared size is too small for the fields that the flags announce. -/
def TooSmall (s : IOStream) : Prop := s.headSize.toNat < headerLength s.headFlags

/-- What remains of a record behind its header. -/
def remaining (s : IOStream) : ℤ := s.headSize.toNat - headerLength s.headFlags + s.headAddedSize

instance (s : IOStream) : Decidable s.GivesFixed := inferInstanceAs (Decidable (_ = _))

instance (s : IOStream) : Decidable s.TooSmall := inferInstanceAs (Decidable (_ < _))

end IOStream

/-- A format or data error. -/
def KcfError.IsMalformed (e : KcfError) : Prop := e = .invalidFormat ∨ e = .invalidData

namespace KCF

/-- The size of the data of a record behind a header of this size. -/
def dataSize (R : Record) (headerSize : ℕ) : ℕ := toSize (R.headSize.toNat - headerSize)

/-- The number of bytes that remain to be skipped of a record behind a header of this size. -/
def skipSize (header : Record) (headerSize : ℕ) : UInt64 :=
  UInt64.ofNat (dataSize header headerSize) + header.addedSize

variable {kcf : KCF}

theorem skipAfterHeader_ok (fuel : ℕ) (kcf : KCF) (header : Record) (n : ℕ) :
    skipAfterHeader fuel (.ok, kcf, header, n) = kcf.skipBytes fuel (skipSize header n) := rfl

/-- A record whose declared size is too small is refused as malformed by both calls, the size of
the data stays within a record, and what is skipped is what remains of the record. -/
structure SizesSound (kcf : KCF) (R header : Record) : Prop where
  read_refused : kcf.stream.GivesFixed → kcf.stream.TooSmall →
    (kcf.readRecord (some R)).1.IsMalformed
  skip_refused : kcf.stream.GivesFixed → kcf.stream.TooSmall →
    ∃ fuel e k, kcf.skipRecord fuel header = .ok (e, k) ∧ e.IsMalformed
  read_size : ∀ k R' n, kcf.cleared.readRecordHeader R = (.ok, k, R', n) →
    dataSize R' n ≤ 65529
  skip_size : ∀ k header' n, kcf.readRecordHeader header = (.ok, k, header', n) →
    ((skipSize header' n).toNat : ℤ) = kcf.stream.remaining

/-- The loop that skips starts from what remains of the record, as a signed number. -/
def SkipsSigned (kcf : KCF) (header : Record) : Prop :=
  ∀ k header' n, kcf.readRecordHeader header = (.ok, k, header', n) →
    toInt64 (skipSize header' n).toNat = kcf.stream.remaining

theorem readRecord_not_malformed (hp : kcf.parserState = .readRecordHeader) (R : Record) :
    ¬ (kcf.readRecord (some R)).1.IsMalformed := by
  have h := kcf.readRecord_cases R
  generalize kcf.readRecord (some R) = x at h
  obtain ⟨e, k, R'⟩ := x
  dsimp only at h
  cases h with
  | refused hne => exact absurd hp hne
  | noHeader => rintro (h | h) <;> cases h
  | noData _ _ _ he => rcases he with rfl | rfl <;> rintro (h | h) <;> cases h
  | read => rintro (h | h) <;> cases h

theorem dataSize_eq {R : Record} {n : ℕ} (h : n ≤ R.headSize.toNat) :
    dataSize R n = R.headSize.toNat - n := by
  have hlt : R.headSize.toNat < 65536 := R.headSize.toNat_lt
  unfold dataSize toSize UInt64.size
  omega

theorem dataSize_le_iff {R : Record} {n : ℕ} (h₆ : 6 ≤ n) (h₁₈ : n ≤ 18) :
    dataSize R n ≤ 65529 ↔ n ≤ R.headSize.toNat := by
  have hlt : R.headSize.toNat < 65536 := R.headSize.toNat_lt
  constructor
  · intro h
    by_contra hn
    unfold dataSize toSize UInt64.size at h
    omega
  · intro h
    rw [dataSize_eq h]
    omega

theorem skipSize_eq_iff {R : Record} {n a : ℕ} (h₁₈ : n ≤ R.headSize.toNat)
    (ha : R.addedSize = UInt64.ofNat a) (hlt : a < 256 ^ 8) :
    ((skipSize R n).toNat : ℤ) = R.headSize.toNat - n + a ↔
      R.headSize.toNat - n + a < 2 ^ 64 := by
  have hs : R.headSize.toNat < 65536 := R.headSize.toNat_lt
  rw [skipSize, UInt64.toNat_add, UInt64.toNat_ofNat', dataSize_eq h₁₈, ha, UInt64.toNat_ofNat']
  omega

theorem readRecordHeader_ok {R R' : Record} {k : KCF} {n : ℕ}
    (h : kcf.readRecordHeader R = (.ok, k, R', n)) : kcf.stream.DeliversHeader ∧
      n = headerLength kcf.stream.headFlags ∧ R'.headSize = kcf.stream.headSize ∧
      R'.addedSize = UInt64.ofNat kcf.stream.headAddedSize := by
  have hc := kcf.readRecordHeader_cases R
  rw [h] at hc
  cases hc with
  | delivered hd _ hs ha _ => exact ⟨hd, rfl, hs, ha⟩

theorem readRecordHeader_of_delivers (hd : kcf.stream.DeliversHeader) (R : Record) :
    ∃ k R', kcf.readRecordHeader R = (.ok, k, R', headerLength kcf.stream.headFlags) := by
  have hc := kcf.readRecordHeader_cases R
  generalize kcf.readRecordHeader R = x at hc
  cases hc with
  | failed hn => exact absurd hd hn
  | delivered => exact ⟨_, _, rfl⟩

/-- Sizes are handled soundly exactly when no record ahead is declared too small and what remains
behind a header is a number of 64 bits. -/
theorem sizesSound_iff_of_header (hp : kcf.parserState = .readRecordHeader) (R header : Record) :
    kcf.SizesSound R header ↔
      (kcf.stream.GivesFixed ∨ kcf.stream.DeliversHeader → ¬ kcf.stream.TooSmall) ∧
        (kcf.stream.DeliversHeader → kcf.stream.remaining < 2 ^ 64) := by
  have h₆ := six_le_headerLength kcf.stream.headFlags
  have h₁₈ := headerLength_le kcf.stream.headFlags
  constructor
  · intro h
    have hsmall : kcf.stream.DeliversHeader → ¬ kcf.stream.TooSmall := by
      intro hd
      have hd' : kcf.cleared.stream.DeliversHeader := hd
      obtain ⟨k, R', hr⟩ := readRecordHeader_of_delivers hd' R
      have hle := (dataSize_le_iff h₆ h₁₈).mp (h.read_size k R' _ hr)
      rw [(readRecordHeader_ok hr).2.2.1] at hle
      exact not_lt.mpr hle
    constructor
    · rintro (hg | hd) ht
      · exact readRecord_not_malformed hp R (h.read_refused hg ht)
      · exact hsmall hd ht
    · intro hd
      obtain ⟨k, header', hr⟩ := readRecordHeader_of_delivers hd header
      rw [← h.skip_size k header' _ hr]
      exact mod_cast UInt64.toNat_lt _
  · rintro ⟨hsmall, hlt⟩
    refine ⟨fun hg ht => absurd ht (hsmall (.inl hg)), fun hg ht => absurd ht (hsmall (.inl hg)),
      fun k R' n hr => ?_, fun k header' n hr => ?_⟩
    · obtain ⟨hd, rfl, hs, -⟩ := readRecordHeader_ok hr
      apply (dataSize_le_iff h₆ h₁₈).mpr
      rw [hs]
      exact not_lt.mp (hsmall (.inr hd))
    · obtain ⟨hd, rfl, hs, ha⟩ := readRecordHeader_ok hr
      have hle : headerLength kcf.stream.headFlags ≤ header'.headSize.toNat := by
        rw [hs]
        exact not_lt.mp (hsmall (.inr hd))
      have hrem := hlt hd
      have hsum := (skipSize_eq_iff hle ha kcf.stream.headAddedSize_lt).mpr
      rw [IOStream.remaining, ← hs] at hrem ⊢
      exact hsum (by omega)

theorem skipsSigned_iff {R header : Record} (h : kcf.SizesSound R header) :
    kcf.SkipsSigned header ↔ (kcf.stream.DeliversHeader → kcf.stream.remaining < 2 ^ 63) := by
  constructor
  · intro hs hd
    obtain ⟨k, header', hr⟩ := readRecordHeader_of_delivers hd header
    have hrem := h.skip_size k header' _ hr
    have hlt := toInt64_eq_iff.mp ((hs k header' _ hr).trans hrem.symm)
    omega
  · intro hlt k header' n hr
    have hrem := h.skip_size k header' n hr
    have hlt := hlt (readRecordHeader_ok hr).1
    rw [← hrem]
    exact toInt64_of_lt (by omega)

/-- Sizes are handled soundly exactly when no record ahead is declared too small and what remains
behind a header is a number of 64 bits; of 63 bits for the loop that skips. -/
theorem sizesSound_iff (hp : kcf.parserState = .readRecordHeader) (R header : Record) :
    (kcf.SizesSound R header ↔
        (kcf.stream.GivesFixed ∨ kcf.stream.DeliversHeader → ¬ kcf.stream.TooSmall) ∧
          (kcf.stream.DeliversHeader → kcf.stream.remaining < 2 ^ 64)) ∧
      (kcf.SizesSound R header ∧ kcf.SkipsSigned header ↔
        (kcf.stream.GivesFixed ∨ kcf.stream.DeliversHeader → ¬ kcf.stream.TooSmall) ∧
          (kcf.stream.DeliversHeader → kcf.stream.remaining < 2 ^ 63)) := by
  have hiff := sizesSound_iff_of_header hp R header
  refine ⟨hiff, ?_⟩
  constructor
  · rintro ⟨h, hs⟩
    exact ⟨(hiff.mp h).1, (skipsSigned_iff h).mp hs⟩
  · rintro ⟨hsmall, hlt⟩
    have h := hiff.mpr ⟨hsmall, fun hd => lt_trans (hlt hd) (by norm_num)⟩
    exact ⟨h, (skipsSigned_iff h).mpr hlt⟩

theorem sizesSound_oneByte :
    ((reading (.ofBytes [0, 0, 0, 0x80, 11, 0, 1, 0, 0, 0, 0x61, 7])).readRecord
        (some Record.zero)).1 = .ok ∧
      (reading (.ofBytes [0, 0, 0, 0x80, 11, 0, 1, 0, 0, 0, 0x61, 7])).SizesSound Record.zero
        Record.zero ∧
      (reading (.ofBytes [0, 0, 0, 0x80, 11, 0, 1, 0, 0, 0, 0x61, 7])).SkipsSigned Record.zero := by
  refine ⟨by decide +kernel, (sizesSound_iff rfl Record.zero Record.zero).2.mpr ⟨?_, ?_⟩⟩
  · exact fun _ => by decide +kernel
  · exact fun _ => by decide +kernel

/-- A record that is declared one byte smaller than its header is read for 2 ^ 64 - 1 bytes of
data, which are out of memory; skipping it goes for as many. -/
theorem tooSmall_not_refused :
    (reading (.ofBytes [0, 0, 0, 0, 5, 0])).stream.GivesFixed ∧
      (reading (.ofBytes [0, 0, 0, 0, 5, 0])).stream.TooSmall ∧
      ((reading (.ofBytes [0, 0, 0, 0, 5, 0])).readRecord (some Record.zero)).1 = .outOfMemory ∧
      dataSize ((reading (.ofBytes [0, 0, 0, 0, 5, 0])).readRecordHeader Record.zero).2.2.1 6 =
        2 ^ 64 - 1 ∧
      ¬ (reading (.ofBytes [0, 0, 0, 0, 5, 0])).SizesSound Record.zero Record.zero := by
  refine ⟨by decide +kernel, by decide +kernel, by decide +kernel, by decide +kernel, fun h => ?_⟩
  exact readRecord_not_malformed rfl _ (h.read_refused (by decide +kernel) (by decide +kernel))

end KCF

end Kcf
