import Mathlib.Algebra.Order.Ring.Int

/-! # Offsets on Windows

The backend over a Windows handle moves the file pointer with a call that takes
and gives back an offset as two signed halves of 32 bits. An offset of which the
high half is zero is widened from the low half alone, with its sign, so that
the offsets from 2 ^ 31 to 2 ^ 32 are reported as negative.
-/

namespace Kcf

namespace Win32

/-- A file behind a handle, as far as its pointer goes. -/
structure File where
  pos : ℕ
  size : ℕ
  deriving DecidableEq, Repr

/-- `FILE_BEGIN`, `FILE_CURRENT` and `FILE_END`. -/
inductive MoveMethod
  | fileBegin
  | fileCurrent
  | fileEnd
  deriving DecidableEq, Repr

/-- `IO_SEEK_SET`, `IO_SEEK_CUR` and `IO_SEEK_END`. -/
inductive Whence
  | seekSet
  | seekCur
  | seekEnd
  deriving DecidableEq, Repr

/-- The method that the backend's switch chooses. -/
def Whence.method : Whence → MoveMethod
  | seekSet => .fileBegin
  | seekCur => .fileCurrent
  | seekEnd => .fileEnd

/-- Where a move starts from. -/
def File.base (f : File) : MoveMethod → ℤ
  | .fileBegin => 0
  | .fileCurrent => f.pos
  | .fileEnd => f.size

/-- What `SetFilePointer` leaves: the low half it returns, the high half it stores, the error that
`GetLastError` tells afterwards, and the file. -/
structure Moved where
  low : Int32
  high : Int32
  error : UInt32
  file : File

def NO_ERROR : UInt32 := 0

def INVALID_SET_FILE_POINTER : UInt32 := 0xFFFFFFFF

/-- `SetFilePointer`, given the low and the high half of a distance. -/
abbrev SetFilePointer := File → Int32 → Int32 → MoveMethod → Moved

def distance (low high : Int32) : ℤ := high.toInt * 2 ^ 32 + low.toUInt32.toNat

/-- What is documented of `SetFilePointer`: it moves to a position that is not negative, and gives
it back in two halves without an error; a negative position is an error and leaves the pointer. -/
structure Documented (setFilePointer : SetFilePointer) : Prop where
  moves : ∀ f low high method p, f.base method + distance low high = p → 0 ≤ p → p < 2 ^ 63 →
    setFilePointer f low high method =
      ⟨Int32.ofInt p, Int32.ofInt (p / 2 ^ 32), NO_ERROR, { f with pos := p.toNat }⟩
  refuses : ∀ f low high method, f.base method + distance low high < 0 →
    ∃ high' error, error ≠ NO_ERROR ∧ setFilePointer f low high method = ⟨-1, high', error, f⟩

/-- `_w32_seek`. -/
def w32Seek (setFilePointer : SetFilePointer) (f : File) (offset : Int64) (whence : Whence) :
    Int64 × File :=
  let offsetLow := (offset &&& 0xFFFFFFFF).toInt32
  let offsetHigh := ((offset >>> 32) &&& 0xFFFFFFFF).toInt32
  let m := setFilePointer f offsetLow offsetHigh whence.method
  if m.low.toUInt32 = INVALID_SET_FILE_POINTER ∧ m.error ≠ NO_ERROR then (-1, m.file)
  else if m.high = 0 then (m.low.toInt64, m.file)
  else ((m.low.toUInt32.toUInt64 ||| m.high.toInt64.toUInt64 <<< 32).toInt64, m.file)

/-- `_w32_tell`. -/
def w32Tell (setFilePointer : SetFilePointer) (f : File) : Int64 × File :=
  w32Seek setFilePointer f 0 .seekCur

theorem toInt32_low (x : Int64) : (x &&& 0xFFFFFFFF).toInt32 = x.toInt32 := by
  apply Int32.toBitVec_inj.mp
  simp only [Int64.toBitVec_toInt32, Int64.toBitVec_and]
  rw [BitVec.signExtend_and]
  exact BitVec.and_allOnes

theorem bmod_emod (a : ℤ) (k : ℕ) : a.bmod (2 ^ k) % 2 ^ k = a % 2 ^ k := by
  have h : a.bmod (2 ^ k) % ((2 ^ k : ℕ) : ℤ) = a % ((2 ^ k : ℕ) : ℤ) := Int.bmod_emod
  rw [Nat.cast_pow] at h
  exact h

theorem toNat_toInt {w : ℕ} (x : BitVec w) : (x.toNat : ℤ) = x.toInt % 2 ^ w := by
  rw [BitVec.toInt_eq_toNat_bmod, bmod_emod]
  exact (Int.emod_eq_of_lt (Int.natCast_nonneg _) (mod_cast x.isLt)).symm

theorem toNat_toUInt32 (x : Int32) : (x.toUInt32.toNat : ℤ) = x.toInt % 2 ^ 32 :=
  toNat_toInt x.toBitVec

theorem toNat_toUInt64 (x : Int64) : (x.toUInt64.toNat : ℤ) = x.toInt % 2 ^ 64 :=
  toNat_toInt x.toBitVec

theorem toInt_shiftRight (x : Int64) : (x >>> 32).toInt = x.toInt / 2 ^ 32 := by
  rw [← Int64.toInt_toBitVec, Int64.toBitVec_shiftRight, BitVec.toInt_sshiftRight',
    Int.shiftRight_eq_div_pow]
  rfl

theorem distance_halves (offset : Int64) :
    distance (offset &&& 0xFFFFFFFF).toInt32 ((offset >>> 32) &&& 0xFFFFFFFF).toInt32 =
      offset.toInt := by
  have hlo := offset.le_toInt
  have hhi := offset.toInt_lt
  have hhigh : (offset.toInt / 2 ^ 32).bmod (2 ^ 32) = offset.toInt / 2 ^ 32 := by
    apply Int.bmod_eq_of_le <;> omega
  have hlow := bmod_emod offset.toInt 32
  rw [distance, toInt32_low, toInt32_low, toNat_toUInt32, Int64.toInt_toInt32,
    Int64.toInt_toInt32, toInt_shiftRight, hhigh]
  omega

/-- Two halves put together are the offset they were taken from. -/
theorem toInt_halves {p : ℤ} (h₀ : 0 ≤ p) (h : p < 2 ^ 63) :
    ((Int32.ofInt p).toUInt32.toUInt64 |||
      (Int32.ofInt (p / 2 ^ 32)).toInt64.toUInt64 <<< 32).toInt64.toInt = p := by
  have hlow : (Int32.ofInt p).toUInt32.toUInt64.toNat = p.toNat % 2 ^ 32 := by
    have hn := toNat_toUInt32 (Int32.ofInt p)
    rw [Int32.toInt_ofInt, show Int32.size = 2 ^ 32 from rfl, bmod_emod] at hn
    rw [UInt32.toNat_toUInt64]
    omega
  have hhigh : (Int32.ofInt (p / 2 ^ 32)).toInt64.toUInt64.toNat = p.toNat / 2 ^ 32 := by
    have hn := toNat_toUInt64 (Int32.ofInt (p / 2 ^ 32)).toInt64
    have hb : (p / 2 ^ 32).bmod (2 ^ 32) = p / 2 ^ 32 := by
      apply Int.bmod_eq_of_le <;> omega
    rw [Int32.toInt_toInt64, Int32.toInt_ofInt] at hn
    change _ = ((p / 2 ^ 32).bmod (2 ^ 32)) % 2 ^ 64 at hn
    omega
  have hnat : ((Int32.ofInt p).toUInt32.toUInt64 |||
      (Int32.ofInt (p / 2 ^ 32)).toInt64.toUInt64 <<< 32).toNat = p.toNat := by
    have hor := Nat.shiftLeft_add_eq_or_of_lt
      (Nat.mod_lt p.toNat (show 0 < 2 ^ 32 by decide)) (p.toNat / 2 ^ 32)
    have hshift : p.toNat / 2 ^ 32 * 2 ^ 32 % 2 ^ 64 = p.toNat / 2 ^ 32 * 2 ^ 32 := by
      omega
    rw [UInt64.toNat_or, UInt64.toNat_shiftLeft, hlow, hhigh]
    change _ ||| (p.toNat / 2 ^ 32) <<< 32 % 2 ^ 64 = _
    rw [Nat.shiftLeft_eq, hshift, Nat.or_comm, ← Nat.shiftLeft_eq, ← hor, Nat.shiftLeft_eq]
    omega
  have hint := BitVec.toInt_eq_toNat_bmod ((Int32.ofInt p).toUInt32.toUInt64 |||
    (Int32.ofInt (p / 2 ^ 32)).toInt64.toUInt64 <<< 32).toBitVec
  rw [← Int64.toInt_toBitVec, UInt64.toBitVec_toInt64, hint, UInt64.toNat_toBitVec, hnat,
    Int.toNat_of_nonneg h₀]
  apply Int.bmod_eq_of_le <;> omega

/-- Positions of which the high half is zero and the low half is negative. -/
def InGap (p : ℤ) : Prop := 2 ^ 31 ≤ p ∧ p < 2 ^ 32

instance (p : ℤ) : Decidable (InGap p) := instDecidableAnd

def reported (p : ℤ) : ℤ := if InGap p then p - 2 ^ 32 else p

theorem reported_eq_iff {p : ℤ} : reported p = p ↔ ¬ InGap p := by
  unfold reported
  split
  · rename_i h
    simp only [h, not_true, iff_false]
    omega
  · simp_all

theorem reported_nonneg_iff {p : ℤ} (h₀ : 0 ≤ p) : 0 ≤ reported p ↔ ¬ InGap p := by
  unfold reported
  split
  · rename_i h
    simp only [h, not_true, iff_false]
    have := h.2
    omega
  · simp_all

theorem high_eq_zero_iff {p : ℤ} (h₀ : 0 ≤ p) (h : p < 2 ^ 63) :
    Int32.ofInt (p / 2 ^ 32) = 0 ↔ p < 2 ^ 32 := by
  have hb : (p / 2 ^ 32).bmod (2 ^ 32) = p / 2 ^ 32 := by
    apply Int.bmod_eq_of_le <;> omega
  rw [← Int32.toInt_inj, Int32.toInt_ofInt]
  change (p / 2 ^ 32).bmod (2 ^ 32) = 0 ↔ _
  omega

theorem bmod_low {p : ℤ} (h₀ : 0 ≤ p) (h : p < 2 ^ 32) : p.bmod (2 ^ 32) = reported p := by
  unfold reported
  split
  · rename_i hgap
    have hb : (p - 2 ^ 32).bmod (2 ^ 32) = p - 2 ^ 32 := by
      have := hgap.1
      apply Int.bmod_eq_of_le <;> omega
    rw [← hb]
    exact (Int.sub_bmod_right p (2 ^ 32)).symm
  · rename_i hgap
    have hlt : p < 2 ^ 31 := by
      by_contra hle
      exact hgap ⟨by omega, h⟩
    apply Int.bmod_eq_of_le <;> omega

section Documented

variable {setFilePointer : SetFilePointer}

theorem w32Seek_moves (hdoc : Documented setFilePointer) {f : File} {offset : Int64}
    {whence : Whence} {p : ℤ} (hp : f.base whence.method + offset.toInt = p) (h₀ : 0 ≤ p)
    (h : p < 2 ^ 63) :
    (w32Seek setFilePointer f offset whence).1.toInt = reported p ∧
      (w32Seek setFilePointer f offset whence).2 = { f with pos := p.toNat } := by
  have hmove := hdoc.moves f _ _ whence.method p (by rw [distance_halves, hp]) h₀ h
  simp only [w32Seek, hmove, ne_eq, not_true, and_false, if_false]
  split
  · rename_i hz
    refine ⟨?_, rfl⟩
    rw [Int32.toInt_toInt64, Int32.toInt_ofInt]
    exact bmod_low h₀ ((high_eq_zero_iff h₀ h).1 hz)
  · rename_i hz
    refine ⟨?_, rfl⟩
    rw [toInt_halves h₀ h, reported, if_neg]
    rintro ⟨-, hlt⟩
    exact hz ((high_eq_zero_iff h₀ h).2 hlt)

theorem w32Seek_refused (hdoc : Documented setFilePointer) {f : File} {offset : Int64}
    {whence : Whence} (h : f.base whence.method + offset.toInt < 0) :
    w32Seek setFilePointer f offset whence = (-1, f) := by
  obtain ⟨high, error, herror, hmove⟩ := hdoc.refuses f
    (offset &&& 0xFFFFFFFF).toInt32 ((offset >>> 32) &&& 0xFFFFFFFF).toInt32 whence.method
    (by rw [distance_halves]; exact h)
  have hlow : (-1 : Int32).toUInt32 = INVALID_SET_FILE_POINTER := rfl
  simp only [w32Seek, hmove, hlow, herror, ne_eq, not_false_eq_true, and_true, if_true]

theorem w32Tell_eq (hdoc : Documented setFilePointer) {f : File} (h : f.pos < 2 ^ 63) :
    (w32Tell setFilePointer f).1.toInt = reported f.pos ∧
      (w32Tell setFilePointer f).2 = f := by
  have hp : f.base Whence.seekCur.method + (0 : Int64).toInt = f.pos := Int.add_zero _
  obtain ⟨hret, hfile⟩ := w32Seek_moves hdoc hp (Int.natCast_nonneg _) (mod_cast h)
  exact ⟨hret, hfile⟩

/-- What `KCF_finish_added_data` does with the file where a record began and with the file where
its added data end: it finds the record's header, and is at the end again after writing it. -/
structure PatchesHeader (setFilePointer : SetFilePointer) (f g : File) : Prop where
  finds : 0 ≤ (w32Seek setFilePointer g (w32Tell setFilePointer f).1 .seekSet).1.toInt ∧
    (w32Seek setFilePointer g (w32Tell setFilePointer f).1 .seekSet).2.pos = f.pos
  returns : ∀ n, (w32Seek setFilePointer { g with pos := f.pos + n }
    (w32Tell setFilePointer g).1 .seekSet).2.pos = g.pos

theorem w32Seek_told (hdoc : Documented setFilePointer) {f : File} (g : File)
    (hf : f.pos < 2 ^ 63) (hgap : ¬ InGap f.pos) :
    (w32Seek setFilePointer g (w32Tell setFilePointer f).1 .seekSet).1.toInt = f.pos ∧
      (w32Seek setFilePointer g (w32Tell setFilePointer f).1 .seekSet).2.pos = f.pos := by
  have htold := reported_eq_iff.2 hgap
  have hp : g.base Whence.seekSet.method + (w32Tell setFilePointer f).1.toInt = f.pos := by
    rw [(w32Tell_eq hdoc hf).1, htold]
    exact Int.zero_add _
  obtain ⟨hret, hfile⟩ := w32Seek_moves hdoc hp (Int.natCast_nonneg _) (mod_cast hf)
  refine ⟨hret.trans htold, ?_⟩
  rw [hfile]
  exact Int.toNat_natCast _

theorem w32Seek_told_refused (hdoc : Documented setFilePointer) {f g : File}
    (hf : f.pos < 2 ^ 63) (hgap : InGap f.pos) :
    w32Seek setFilePointer g (w32Tell setFilePointer f).1 .seekSet = (-1, g) := by
  apply w32Seek_refused hdoc
  have hneg : ¬ 0 ≤ reported f.pos := fun h =>
    (reported_nonneg_iff (Int.natCast_nonneg _)).1 h hgap
  rw [(w32Tell_eq hdoc hf).1]
  change 0 + reported f.pos < 0
  omega

theorem patchesHeader_iff (hdoc : Documented setFilePointer) {f g : File}
    (hf : f.pos < 2 ^ 63) (hg : g.pos < 2 ^ 63) :
    PatchesHeader setFilePointer f g ↔ ¬ InGap f.pos ∧ ¬ InGap g.pos := by
  constructor
  · rintro ⟨⟨hfinds, -⟩, hreturns⟩
    constructor
    · intro hgap
      rw [w32Seek_told_refused hdoc hf hgap] at hfinds
      have hneg : ¬ 0 ≤ (-1 : Int64).toInt := by decide
      exact hneg hfinds
    · intro hgap
      -- two sizes of a header cannot both end where the added data do
      have h₀ := hreturns 0
      have h₁ := hreturns 1
      rw [w32Seek_told_refused hdoc hg hgap] at h₀ h₁
      simp only at h₀ h₁
      omega
  · rintro ⟨hfgap, hggap⟩
    constructor
    · obtain ⟨hret, hpos⟩ := w32Seek_told hdoc g hf hfgap
      exact ⟨by omega, hpos⟩
    · intro n
      exact (w32Seek_told hdoc _ hg hggap).2

/-- Offsets are reported as they are: the target of a seek and the current position, neither of
them negative, so that a header is patched where its record began. -/
structure ReportsOffsets (setFilePointer : SetFilePointer) (f g : File) (offset : Int64)
    (whence : Whence) (p : ℤ) : Prop where
  seeks : (w32Seek setFilePointer f offset whence).1.toInt = p
  seeks_nonneg : 0 ≤ (w32Seek setFilePointer f offset whence).1.toInt
  tells : (w32Tell setFilePointer f).1.toInt = f.pos
  tells_nonneg : 0 ≤ (w32Tell setFilePointer f).1.toInt
  patches : PatchesHeader setFilePointer f g

/-- The offsets outside the gap are the ones that are reported as they are. -/
theorem reportsOffsets_iff (setFilePointer : SetFilePointer)
    (hdoc : Documented setFilePointer) (f g : File) (hf : f.pos < 2 ^ 63) (hg : g.pos < 2 ^ 63)
    (offset : Int64) (whence : Whence) (p : ℤ)
    (hp : f.base whence.method + offset.toInt = p) (h₀ : 0 ≤ p) (h : p < 2 ^ 63) :
    ReportsOffsets setFilePointer f g offset whence p ↔
      ¬ InGap p ∧ ¬ InGap f.pos ∧ ¬ InGap g.pos := by
  have hseek := (w32Seek_moves hdoc hp h₀ h).1
  have htell := (w32Tell_eq hdoc hf).1
  have hpatch := patchesHeader_iff hdoc hf hg
  constructor
  · rintro ⟨hp', -, -, -, hpatches⟩
    exact ⟨reported_eq_iff.1 (hseek.symm.trans hp'), hpatch.1 hpatches⟩
  · rintro ⟨hpgap, hgaps⟩
    have hpos : (0 : ℤ) ≤ f.pos := Int.natCast_nonneg _
    constructor
    · exact hseek.trans (reported_eq_iff.2 hpgap)
    · rw [hseek]
      exact (reported_nonneg_iff h₀).2 hpgap
    · exact htell.trans (reported_eq_iff.2 hgaps.1)
    · rw [htell]
      exact (reported_nonneg_iff hpos).2 hgaps.1
    · exact hpatch.2 hgaps

end Documented

/-- A call that does what is documented, and stores nothing when it refuses. -/
def setFilePointer : SetFilePointer := fun f low high method =>
  let p := f.base method + distance low high
  if p < 0 then ⟨-1, high, 131, f⟩
  else ⟨Int32.ofInt p, Int32.ofInt (p / 2 ^ 32), NO_ERROR, { f with pos := p.toNat }⟩

theorem documented_setFilePointer : Documented setFilePointer := by
  constructor
  · rintro f low high method p rfl h₀ -
    exact if_neg (Int.not_lt.2 h₀)
  · intro f low high method hneg
    exact ⟨high, 131, by decide, if_pos hneg⟩

theorem reportsOffsets_iff_fiveGiB :
    ReportsOffsets setFilePointer ⟨100, 2 ^ 33⟩ ⟨300, 2 ^ 33⟩ 5368709120 .seekSet 5368709120 ↔
      ¬ InGap 5368709120 ∧ ¬ InGap 100 ∧ ¬ InGap 300 :=
  reportsOffsets_iff setFilePointer documented_setFilePointer ⟨100, 2 ^ 33⟩ ⟨300, 2 ^ 33⟩
    (by decide) (by decide) 5368709120 .seekSet 5368709120 (by decide) (by decide) (by decide)

/-- Two GiB into a file the position is told as a negative one, which cannot be sought again. -/
theorem twoGiB_negative :
    Documented setFilePointer ∧
      (w32Tell setFilePointer ⟨2 ^ 31, 2 ^ 32⟩).1.toInt = -2147483648 ∧
      w32Seek setFilePointer ⟨3000000000, 2 ^ 32⟩
        (w32Tell setFilePointer ⟨2 ^ 31, 2 ^ 32⟩).1 .seekSet = (-1, ⟨3000000000, 2 ^ 32⟩) :=
  ⟨documented_setFilePointer, by decide, by decide⟩

end Win32

end Kcf
