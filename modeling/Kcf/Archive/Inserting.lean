import Kcf.Archive.Beginning
import Kcf.Writer.Append

/-! # Inserting a file's data

Each round reads a block of the input and writes as many bytes of the buffer as
a variable says that no round sets. Where it is zero nothing is written and the
loop ends after its first round, else it goes round for ever.
-/

namespace Kcf

open KCF

variable {kcf k : KCF} {input : IOStream} {buffer : List UInt8} {bytesRead : ℕ}

/-- The data is inserted: with enough rounds the call succeeds, and what was written where the
stream stands is the input's content. -/
def CopiesInput (kcf : KCF) (input : IOStream) (buffer : List UInt8) (bytesRead : ℕ) : Prop :=
  ∃ rounds, ∀ fuel ≥ rounds, ∃ k input',
    kcf.insertFileData fuel input buffer bytesRead = .ok (.ok, k, input') ∧
      k.stream.behind = kcf.stream.behind ++ input.ahead

/-- A file's data is being inserted: added data of unknown size is accepted, every write goes
through and every read gets on. -/
structure Inserting (kcf : KCF) (input : IOStream) (buffer : List UInt8) : Prop where
  state : kcf.parserState = .writeAddedData
  unbounded : kcf.addedDataToBeWritten = 0
  writes : kcf.stream.WritesFully
  reads : input.ReadsOn
  buffer : buffer.length = INSERT_FILE_BUFFER_SIZE

namespace Inserting

/-- The buffer after a read of the input. -/
def filled (input : IOStream) (buffer : List UInt8) : List UInt8 :=
  buffer.overwrite 0 (ioRead input INSERT_FILE_BUFFER_SIZE).2.1

/-- The handle after one round. -/
def inserted (kcf : KCF) (input : IOStream) (buffer : List UInt8) (bytesRead : ℕ) : KCF :=
  (kcf.wrote ((filled input buffer).take bytesRead)).counted
    ((filled input buffer).take bytesRead)

theorem length_filled (h : Inserting kcf input buffer) :
    (filled input buffer).length = INSERT_FILE_BUFFER_SIZE := by
  obtain ⟨n, hn, -, -, hr⟩ := ioRead_on h.reads INSERT_FILE_BUFFER_SIZE
  have hlen : (input.ahead.take n).length ≤ n := List.length_take_le ..
  have hbuffer := h.buffer
  unfold filled
  rw [hr, List.length_overwrite_of_le (by simp only; omega), hbuffer]

theorem next (h : Inserting kcf input buffer) (bytesRead : ℕ) :
    Inserting (inserted kcf input buffer bytesRead)
      (ioRead input INSERT_FILE_BUFFER_SIZE).2.2 (filled input buffer) where
  state := h.state
  unbounded := h.unbounded
  writes := fun i => h.writes (i + 1)
  reads := h.reads.ioRead _
  buffer := h.length_filled

theorem behind_inserted (h : Inserting kcf input buffer) (bytesRead : ℕ) :
    (inserted kcf input buffer bytesRead).stream.behind =
      kcf.stream.behind ++ (filled input buffer).take bytesRead :=
  IOStream.behind_ioWrite h.writes _

theorem writeAddedData_eq (h : Inserting kcf input buffer) (bytesRead : ℕ) :
    kcf.writeAddedData (filled input buffer) bytesRead =
      if bytesRead ≤ INSERT_FILE_BUFFER_SIZE then .ok (.ok, inserted kcf input buffer bytesRead)
      else .error .outOfBounds := by
  have hr : kcf.writeRemaining = none := by
    unfold writeRemaining
    rw [h.unbounded]
    rfl
  have ha : kcf.acceptedSize bytesRead = bytesRead := by
    unfold acceptedSize
    rw [hr]
  have hw := h.writes.not_fails 0
  rw [writeAddedData_of_open h.state, hr, ha, if_neg (by decide), if_neg hw, h.length_filled]
  by_cases hle : bytesRead ≤ INSERT_FILE_BUFFER_SIZE
  · rw [if_neg (not_lt.mpr hle), if_pos hle]
    rfl
  · rw [if_pos (not_le.mp hle), if_neg hle]

/-- A round writes the bytes that the variable counts, and the next one is due unless it is zero. -/
theorem round (h : Inserting kcf input buffer) (bytesRead fuel : ℕ) :
    insertFileDataLoop (fuel + 1) kcf input buffer bytesRead =
      if bytesRead ≤ INSERT_FILE_BUFFER_SIZE then
        if 0 < bytesRead then
          insertFileDataLoop fuel (inserted kcf input buffer bytesRead)
            (ioRead input INSERT_FILE_BUFFER_SIZE).2.2 (filled input buffer) bytesRead
        else
          .ok (.ok, { inserted kcf input buffer bytesRead with packerState := .afterFileData },
            (ioRead input INSERT_FILE_BUFFER_SIZE).2.2)
      else .error .outOfBounds := by
  obtain ⟨n, -, -, -, hr⟩ := ioRead_on h.reads INSERT_FILE_BUFFER_SIZE
  have hret : ¬ (ioRead input INSERT_FILE_BUFFER_SIZE).1 < 0 := by
    rw [hr]
    exact not_lt.mpr (Int.natCast_nonneg n)
  have hdata := h.writeAddedData_eq bytesRead
  unfold filled at hdata
  rw [insertFileDataLoop]
  dsimp only
  rw [if_neg hret, hdata]
  split
  · rfl
  · rfl

theorem endless (h : Inserting kcf input buffer) (hpos : 0 < bytesRead)
    (hle : bytesRead ≤ INSERT_FILE_BUFFER_SIZE) (fuel : ℕ) :
    insertFileDataLoop fuel kcf input buffer bytesRead = .error .outOfFuel := by
  induction fuel generalizing kcf input buffer with
  | zero => rfl
  | succ fuel ih =>
    rw [h.round, if_pos hle, if_pos hpos]
    exact ih (h.next bytesRead)

end Inserting

theorem insertFileData_eq (hw : kcf.isWriting = true) (hk : kcf.packerState = .fileData)
    (fuel : ℕ) : kcf.insertFileData fuel input buffer bytesRead =
      insertFileDataLoop fuel kcf input buffer bytesRead := by
  simp [insertFileData, hw, hk]

theorem not_copiesInput (hw : kcf.isWriting = true) (hk : kcf.packerState = .fileData)
    (h : Inserting kcf input buffer) (hpos : 0 < bytesRead) :
    ¬ CopiesInput kcf input buffer bytesRead := by
  rintro ⟨rounds, hrun⟩
  obtain ⟨k, input', hcall, -⟩ := hrun (rounds + 1) (Nat.le_succ rounds)
  rw [insertFileData_eq hw hk] at hcall
  by_cases hle : bytesRead ≤ INSERT_FILE_BUFFER_SIZE
  · rw [h.endless hpos hle] at hcall
    cases hcall
  · rw [h.round, if_neg hle] at hcall
    cases hcall

theorem copiesInput_zero_iff (hw : kcf.isWriting = true) (hk : kcf.packerState = .fileData)
    (h : Inserting kcf input buffer) : CopiesInput kcf input buffer 0 ↔ input.ahead = [] := by
  have hnone := h.behind_inserted 0
  rw [List.take_zero, List.append_nil] at hnone
  have hcall (fuel : ℕ) : kcf.insertFileData (fuel + 1) input buffer 0 =
      .ok (.ok, { Inserting.inserted kcf input buffer 0 with packerState := .afterFileData },
        (ioRead input INSERT_FILE_BUFFER_SIZE).2.2) := by
    rw [insertFileData_eq hw hk, h.round, if_pos (Nat.zero_le _), if_neg (lt_irrefl 0)]
  constructor
  · rintro ⟨rounds, hrun⟩
    obtain ⟨k, input', hk', hbehind⟩ := hrun (rounds + 1) (Nat.le_succ rounds)
    rw [hcall] at hk'
    cases hk'
    exact List.self_eq_append_right.mp (hnone.symm.trans hbehind)
  · intro hend
    refine ⟨1, fun fuel hfuel => ?_⟩
    obtain ⟨fuel, rfl⟩ := Nat.exists_eq_add_of_le' hfuel
    refine ⟨_, _, hcall fuel, ?_⟩
    rw [hend, List.append_nil]
    exact hnone

/-- The input is copied exactly where the count happens to be zero and there is nothing to copy. -/
theorem copiesInput_iff (hw : kcf.isWriting = true) (hk : kcf.packerState = .fileData)
    (h : Inserting kcf input buffer) (bytesRead : ℕ) :
    CopiesInput kcf input buffer bytesRead ↔ bytesRead = 0 ∧ input.ahead = [] := by
  rcases Nat.eq_zero_or_pos bytesRead with rfl | hpos
  · rw [copiesInput_zero_iff hw hk h]
    exact (and_iff_right rfl).symm
  · apply iff_of_false (not_copiesInput hw hk h hpos)
    rintro ⟨rfl, -⟩
    exact lt_irrefl 0 hpos

/-- A handle that accepts a file's data on a stream. -/
def packingData (stream : IOStream) : KCF :=
  { (KCF.packing stream).openedUnsized with packerState := .fileData }

def zeroBuffer : List UInt8 := List.replicate INSERT_FILE_BUFFER_SIZE 0

theorem inserting_packingData (input : List UInt8) :
    Inserting (packingData (.ofBytes [])) (.ofBytes input) zeroBuffer where
  state := rfl
  unbounded := rfl
  writes := fun _ => rfl
  reads := IOStream.ReadsFully.readsOn fun _ => rfl
  buffer := List.length_replicate

theorem copiesInput_iff_nothing :
    CopiesInput (packingData (.ofBytes [])) (.ofBytes []) zeroBuffer 0 ↔
      0 = 0 ∧ (IOStream.ofBytes []).ahead = [] :=
  copiesInput_iff rfl rfl (inserting_packingData []) 0

/-- An input of one byte is not copied: with a count of zero it is left out, and with a count of one
the buffer is written for ever. -/
theorem oneByte_not_copied :
    ¬ CopiesInput (packingData (.ofBytes [])) (.ofBytes [7]) zeroBuffer 0 ∧
      ¬ CopiesInput (packingData (.ofBytes [])) (.ofBytes [7]) zeroBuffer 1 ∧
      ∀ fuel, (packingData (.ofBytes [])).insertFileData fuel (.ofBytes [7]) zeroBuffer 1 =
        .error .outOfFuel := by
  have h := inserting_packingData [7]
  refine ⟨?_, not_copiesInput rfl rfl h Nat.one_pos, fun fuel => ?_⟩
  · rw [copiesInput_zero_iff rfl rfl h]
    exact List.cons_ne_nil _ _
  · rw [insertFileData_eq rfl rfl]
    exact h.endless Nat.one_pos (by decide) fuel

end Kcf
