import Kcf.Archive.Basic
import Kcf.Reader.Short

/-! # The archive's version

The parser of the archive's header tests the size that the record declares, and
takes the version from the data that is left of it behind the fields of the
header. Where the flags announce fields, a record can pass the test with less
data than a version takes, and the version is put together from nothing.
-/

namespace Kcf

open LittleEndian

/-- The parser comes back with an error, or with the version that a valid record of an archive's
header holds in its data. -/
def VersionInside (R : Record) : Prop :=
  ∃ e version, recToArchiveHeader R = .ok (e, version) ∧
    (e = .ok → recValidate R = true ∧ R.headType = KCF_ARCHIVE_HEADER ∧ 2 ≤ R.dataSize ∧
      version = some (UInt16.ofNat (field R.bytes 0 2)))

/-- A valid record of an archive's header that declares size enough leaves too little data. -/
def VersionMissing (R : Record) : Prop :=
  recValidate R = true ∧ R.headType = KCF_ARCHIVE_HEADER ∧ 8 ≤ R.headSize.toNat ∧
    R.headSize.toNat < headerLength R.headFlags + 2

instance (R : Record) : Decidable (VersionMissing R) := inferInstanceAs (Decidable (_ ∧ _))

variable {R : Record} {d : List UInt8}

theorem recToArchiveHeader_refused
    (h : ¬ (recValidate R = true ∧ R.headType = KCF_ARCHIVE_HEADER ∧ 8 ≤ R.headSize.toNat)) :
    recToArchiveHeader R = .ok (.invalidData, none) := by
  unfold recToArchiveHeader
  by_cases hv : recValidate R = true
  · rw [if_neg (by simp [hv])]
    by_cases ht : R.headType = KCF_ARCHIVE_HEADER
    · have hs : R.headSize < 8 := not_le.mp fun hle => h ⟨hv, ht, hle⟩
      rw [if_neg (not_not.mpr ht), if_pos hs]
    · rw [if_pos ht]
  · rw [if_pos (by simp [hv])]

theorem recToArchiveHeader_passed (hv : recValidate R = true)
    (ht : R.headType = KCF_ARCHIVE_HEADER) (hs : 8 ≤ R.headSize.toNat) (hd : R.data = some d) :
    recToArchiveHeader R = .ok (.ok,
      if 2 ≤ R.dataSize then some (UInt16.ofNat (field R.bytes 0 2)) else none) := by
  have hsize : ¬ R.headSize < 8 := not_lt.mpr hs
  have hb : R.bytes = d := by rw [Record.bytes, hd, Option.getD_some]
  unfold recToArchiveHeader
  rw [if_neg (by simp [hv]), if_neg (not_not.mpr ht), if_neg hsize, hd, hb]
  dsimp only
  by_cases h₂ : 2 ≤ R.dataSize
  · rw [if_pos h₂, readU16LE_of_le R.dataSize (by simpa using h₂)]
  · rw [if_neg h₂, readU16LE_short (by simp only; omega)]

theorem not_versionInside (hr : recToArchiveHeader R = .ok (.ok, none)) : ¬ VersionInside R := by
  rintro ⟨e, version, hr', hinside⟩
  cases hr.symm.trans hr'
  obtain ⟨-, -, -, hversion⟩ := hinside rfl
  cases hversion

/-- The version of a record that was read is taken from inside it exactly where the flags of a
valid archive's header leave two bytes of the size it declares. -/
theorem versionInside_iff {kcf k : KCF} {R₀ : Record}
    (h : kcf.readRecord (some R₀) = (.ok, k, some R)) : VersionInside R ↔ ¬ VersionMissing R := by
  obtain ⟨-, hsome, hsize⟩ := KCF.readRecord_returned h
  obtain ⟨d, hd⟩ := Option.isSome_iff_exists.mp hsome
  constructor
  · rintro ⟨e, version, hr, hinside⟩ ⟨hv, ht, hs, hmissing⟩
    rw [recToArchiveHeader_passed hv ht hs hd, if_neg (by omega)] at hr
    cases hr
    have hlen := (hinside rfl).2.2.1
    omega
  · intro hmissing
    by_cases hp : recValidate R = true ∧ R.headType = KCF_ARCHIVE_HEADER ∧ 8 ≤ R.headSize.toNat
    · obtain ⟨hv, ht, hs⟩ := hp
      have hlen : 2 ≤ R.dataSize := by
        by_contra hlt
        exact hmissing ⟨hv, ht, hs, by omega⟩
      have hr := recToArchiveHeader_passed hv ht hs hd
      rw [if_pos hlen] at hr
      exact ⟨_, _, hr, fun _ => ⟨hv, ht, hlen, rfl⟩⟩
    · exact ⟨_, _, recToArchiveHeader_refused hp, fun he => by cases he⟩

theorem versionInside_iff_versionOne :
    ∃ k R, (KCF.reading (.ofBytes [233, 183, 65, 0, 8, 0, 1, 0])).readRecord (some Record.zero) =
        (.ok, k, some R) ∧ (VersionInside R ↔ ¬ VersionMissing R) := by
  have h : (KCF.reading (.ofBytes [233, 183, 65, 0, 8, 0, 1, 0])).readRecord (some Record.zero) =
      (.ok, _, some _) := rfl
  exact ⟨_, _, h, versionInside_iff h⟩

/-- A valid header that announces added data, in ten bytes, has no version left, and is taken for
one. -/
theorem versionMissing_accepted :
    ∃ k R, (KCF.reading (.ofBytes [183, 178, 65, 128, 10, 0, 0, 0, 0, 0])).readRecord
        (some Record.zero) = (.ok, k, some R) ∧
      R.dataSize = 0 ∧ recToArchiveHeader R = .ok (.ok, none) ∧ ¬ VersionInside R := by
  have h : (KCF.reading (.ofBytes [183, 178, 65, 128, 10, 0, 0, 0, 0, 0])).readRecord
      (some Record.zero) = (.ok, _, some _) := rfl
  exact ⟨_, _, h, rfl, by decide +kernel, not_versionInside (by decide +kernel)⟩

end Kcf
