import Kcf.Writer.Cases

/-! # Records of any size

A record is laid out in a buffer of the size that `rec_fix` computes for it,
in sixteen bits. Nothing checks that its header and its data fit them: a record
that is too large gets a buffer that is too small, and its data is copied past
the end of it.
-/

namespace Kcf

namespace Record

/-- A record with so many zeros for its data. -/
def zeros (n : ℕ) : Record := Record.zero.withData (List.replicate n 0)

/-- The size computed for the record is its true one, and every field and all the data go into a
buffer of that size. -/
structure LaidInside (R : Record) : Prop where
  headSize : (recFix R).headSize.toNat = headerLength R.headFlags + R.dataSize
  inside : ∀ buffer : List UInt8, buffer.length = (recFix R).headSize.toNat →
    ∃ laid, recToBuffer (recFix R) buffer (recFix R).headSize.toNat = .ok (true, laid)

theorem laidInside_iff {R : Record} (hd : R.data = none → R.dataSize = 0) :
    R.LaidInside ↔ headerLength R.headFlags + R.dataSize ≤ 65535 := by
  constructor
  · rintro ⟨hs, -⟩
    have hlt : (recFix R).headSize.toNat < 65536 := (recFix R).headSize.toNat_lt
    omega
  · intro hle
    have hf : R.Fits := ⟨hd, hle⟩
    have hs := recFix_headSize_of_fits hf
    exact ⟨hs, fun buffer hb => ⟨_, recToBuffer_of_fits (R := recFix R) hf hs hb⟩⟩

end Record

namespace KCF

/-- The call refuses the record with an error, or lays it out inside its buffer. -/
def WritesInside (call : Exec (KcfError × KCF × Record)) (R : Record) : Prop :=
  (∃ e k R', call = .ok (e, k, R') ∧ e ≠ .ok) ∨ R.LaidInside

/-- The number of blocks that are allocated before the one for the record: one where the record
before is patched. -/
def acceptBlocks (kcf : KCF) : ℕ := if kcf.Patches ∧ kcf.stream.seeks 0 = .done then 1 else 0

variable {kcf k : KCF} {R : Record}

theorem Finish.heap {e : KcfError} (h : kcf.Finish e k) : k.heap 0 = kcf.heap kcf.acceptBlocks := by
  unfold acceptBlocks
  cases h with
  | refused hp => rw [if_neg fun h => hp h.1.1]
  | kept hp hk => rw [if_neg fun h => by simpa [hk] using h.1.2]; rfl
  | seekFailed hp hs => rw [if_neg fun h => by simp [hs] at h]; rfl
  | noMemory hp hs hm => rw [if_pos ⟨hp, hs⟩]; rfl
  | writeFailed hp hs => rw [if_pos ⟨hp, hs⟩]; rfl
  | patched hp hs => rw [if_pos ⟨hp, hs⟩]; rfl

theorem Accept.heap {e : KcfError} (h : kcf.Accept e k) : k.heap 0 = kcf.heap kcf.acceptBlocks := by
  have hne (hp : kcf.parserState ≠ .writeAddedData) : kcf.acceptBlocks = 0 :=
    if_neg fun h => hp h.1.1
  cases h with
  | refused _ _ hp => rw [hne hp]
  | started hp => rw [hne (by simp [hp])]; rfl
  | idle hp => rw [hne (by simp [hp])]
  | finished _ hf => exact hf.heap

theorem writesInside_iff_of {call : Exec (KcfError × KCF × Record)} {answer : Option (ℕ → UInt8)}
    (hd : R.data = none → R.dataSize = 0)
    (hnone : answer = none → ∃ k R', call = .ok (.outOfMemory, k, R'))
    (hlarge : answer.isSome → ¬ R.Fits → call = .error .outOfBounds) :
    WritesInside call R ↔ headerLength R.headFlags + R.dataSize ≤ 65535 ∨ answer = none := by
  unfold WritesInside
  rw [Record.laidInside_iff hd]
  constructor
  · rintro (⟨e, k, R', hcall, -⟩ | hle)
    · by_contra h
      rw [not_or] at h
      have hsome : answer.isSome := Option.isSome_iff_ne_none.mpr h.2
      rw [hlarge hsome fun hf => h.1 hf.2] at hcall
      cases hcall
    · exact .inl hle
  · rintro (hle | hm)
    · exact .inr hle
    · obtain ⟨k, R', hcall⟩ := hnone hm
      exact .inl ⟨_, k, R', hcall, by decide⟩

theorem describeAddedData_data (R : Record) (D : List UInt8) :
    (describeAddedData R D).data = R.data ∧ (describeAddedData R D).dataSize = R.dataSize := by
  unfold describeAddedData
  split
  · split <;> exact ⟨rfl, rfl⟩
  · exact ⟨rfl, rfl⟩

/-- Both record writers lay out inside its buffer, or refuse, exactly a record whose size is one of
sixteen bits, or any when there is no memory for it. -/
theorem writesInside_iff (ha : kcf.acceptRecord = .ok (.ok, k))
    (hd : R.data = none → R.dataSize = 0) (D : List UInt8) :
    (WritesInside (kcf.writeRecord R) R ↔
        headerLength R.headFlags + R.dataSize ≤ 65535 ∨ kcf.heap kcf.acceptBlocks = none) ∧
      (WritesInside (kcf.writeRecordWithAddedData R D) (describeAddedData R D) ↔
        headerLength (describeAddedData R D).headFlags + R.dataSize ≤ 65535 ∨
          kcf.heap kcf.acceptBlocks = none) := by
  have hacc := accept_of_eq ha
  have hdata := describeAddedData_data R D
  rw [← hacc.heap]
  constructor
  · rw [writeRecord_of_accept hacc]
    exact writesInside_iff_of hd (fun hm => ⟨_, _, placeRecord_of_none hm R⟩)
      fun hm hf => placeRecord_of_not_fits hm hf
  · rw [writeRecordWithAddedData_of_accept hacc, ← hdata.2]
    exact writesInside_iff_of (by rw [hdata.1, hdata.2]; exact hd)
      (fun hm => ⟨_, _, placeRecordWithAddedData_of_none hm _ D⟩)
      fun hm hf => placeRecordWithAddedData_of_not_fits hm hf D

theorem writesInside_one :
    WritesInside ((writing (.ofBytes [])).writeRecord (Record.zero.withData [7]))
      (Record.zero.withData [7]) := by
  have hacc : (writing (.ofBytes [])).acceptRecord = .ok (.ok, writing (.ofBytes [])) := rfl
  exact (writesInside_iff (R := Record.zero.withData [7]) hacc (by rintro ⟨⟩) []).1.mpr
    (.inl (by decide))

/-- A record of 65537 bytes gets a buffer of one byte, and its data is copied past the end of it. -/
theorem largeRecord_outside :
    (recFix (Record.zeros 65531)).headSize.toNat = 1 ∧
      (writing (.ofBytes [])).writeRecord (Record.zeros 65531) = .error .outOfBounds ∧
      ¬ WritesInside ((writing (.ofBytes [])).writeRecord (Record.zeros 65531))
        (Record.zeros 65531) := by
  have hsize : (Record.zeros 65531).dataSize = 65531 := List.length_replicate
  have hf : ¬ (Record.zeros 65531).Fits := fun h => by
    have hle := h.2
    have h₆ := six_le_headerLength (Record.zeros 65531).headFlags
    omega
  have hcall : (writing (.ofBytes [])).writeRecord (Record.zeros 65531) = .error .outOfBounds := by
    rw [writeRecord_of_accept (.idle rfl)]
    exact placeRecord_of_not_fits rfl hf
  refine ⟨?_, hcall, ?_⟩
  · rw [recFix_headSize, hsize]
    rfl
  · rw [hcall]
    rintro (⟨e, k, R', h, -⟩ | h)
    · cases h
    · have hd : (Record.zeros 65531).data = none → (Record.zeros 65531).dataSize = 0 := by
        rintro ⟨⟩
      exact hf ⟨hd, (Record.laidInside_iff hd).mp h⟩

end KCF

end Kcf
