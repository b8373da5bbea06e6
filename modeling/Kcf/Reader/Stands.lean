import Kcf.Reader.Account
import Kcf.Reader.Short

/-! # What stands on the stream is what is read

Whatever the memory holds: a record that stands whole on a stream that delivers
all its bytes is the one that a successful read returns, and a successful read
of added data delivers the next bytes in full.
-/

namespace Kcf

open LittleEndian

namespace IOStream

variable {s : IOStream} {a b c : List UInt8}

theorem ReadsFully.after (h : s.ReadsFully) (counts : List ℕ) : (s.after counts).ReadsFully := by
  induction counts generalizing s with
  | nil => exact h
  | cons n counts ih => exact ih (h.took _)

theorem ReadsFully.gets (h : s.ReadsFully) {counts : List ℕ} (hc : counts.sum ≤ s.ahead.length) :
    s.Gets counts := by
  induction counts generalizing s with
  | nil => trivial
  | cons n counts ih =>
    rw [List.sum_cons] at hc
    have hr := ioRead_full (h 0) n
    rw [Nat.min_eq_left (by omega)] at hr
    change (ioRead s n).1 = n ∧ (ioRead s n).2.2.Gets counts
    rw [hr]
    refine ⟨rfl, ih (h.took n) ?_⟩
    rw [ahead_took, List.length_drop]
    omega

theorem At.after (h : s.At a (b ++ c)) {counts : List ℕ} (hg : s.Gets counts)
    (hc : counts.sum = b.length) : (s.after counts).At (a ++ b) c := by
  constructor
  · rw [bytes_after, h.bytes, List.append_assoc]
  · rw [pos_of_gets hg, h.pos, hc, List.length_append]

theorem ReadsFully.head (h : s.ReadsFully) {F : Record} (hat : s.At a (F.encode ++ c)) :
    s.headFlags = F.headFlags ∧ s.headSize = F.headSize := by
  have hr := ioRead_full (h 0) 6
  constructor
  · rw [headFlags, hr, field_take (by omega), hat.ahead_eq, F.field_headFlags, UInt8.ofNat_toNat]
  · rw [headSize, hr, field_take (by omega), hat.ahead_eq, F.field_headSize, UInt16.ofNat_toNat]

end IOStream

namespace Record

theorem whole_encode {F : Record} (hf : F.Fits)
    (hs : F.headSize.toNat = headerLength F.headFlags + F.dataSize) (R : Record)
    (cs : List UInt8) : R.whole (F.encode ++ cs) = F.shown := by
  have hflags : flagsAt (F.encode ++ cs) = F.headFlags := by
    rw [flagsAt, field_headFlags, UInt8.ofNat_toNat]
  have hsize : sizeAt (F.encode ++ cs) = F.headSize.toNat := F.field_headSize cs
  have hdata : ((F.encode ++ cs).drop (headerLength F.headFlags)).take F.dataSize = F.bytes := by
    rw [encode, List.append_assoc, ← F.length_header, List.drop_left, ← F.length_bytes hf.1,
      List.take_left]
  rw [whole, hflags, hsize, hs, Nat.add_sub_cancel_left, hdata, parsed_encode]

end Record

namespace KCF

variable {kcf k : KCF} {R R' : Record} {a c : List UInt8}

/-- What a successful read of a record leaves in the handle. -/
structure Announces (kcf : KCF) (R : Record) (k : KCF) : Prop where
  available : k.availableAddedData = R.addedSize
  actual : k.actualAddedDataCRC32 = 0
  state : k.parserState = if recHasAddedSize R then .readAddedData else .readRecordHeader
  heap : k.heap = kcf.heap.next

theorem readRecordData_announces {n : ℕ} (h : kcf.readRecordData R n = (.ok, k, R'))
    (h₀ : kcf.actualAddedDataCRC32 = 0) : kcf.Announces R' k := by
  unfold readRecordData at h
  rcases hm : malloc kcf.heap n with ⟨_ | block, heap⟩
  · rw [hm] at h
    cases h
  · have hheap : heap = kcf.heap.next := (congrArg Prod.snd hm).symm
    rw [hm] at h
    dsimp only at h
    split at h
    · cases h
    · cases h
      exact ⟨rfl, h₀, rfl, hheap⟩

theorem readRecord_announces (h : kcf.readRecord (some R) = (.ok, k, some R')) :
    kcf.Announces R' k := by
  obtain ⟨hp, -, -⟩ := readRecord_ok h
  have hc := kcf.cleared.readRecordHeader_cases R
  rw [readRecord_of_header hp] at h
  generalize kcf.cleared.readRecordHeader R = x at hc h
  cases hc with
  | failed => cases h
  | @delivered stream R₁ _ _ _ _ _ =>
    unfold afterHeader at h
    dsimp only at h
    rcases hy : readRecordData _ R₁ _ with ⟨e, k', R''⟩
    rw [hy] at h
    cases h
    have ha := readRecordData_announces hy rfl
    exact ⟨ha.available, ha.actual, ha.state, ha.heap⟩

theorem readRecord_standing {F : Record} (h : kcf.readRecord (some R) = (.ok, k, some R'))
    (hs : kcf.stream.ReadsFully) (hat : kcf.stream.At a (F.encode ++ c)) (hf : F.Fits)
    (hsize : F.headSize.toNat = headerLength F.headFlags + F.dataSize) :
    R' = F.shown ∧ k.stream.At (a ++ F.encode) c ∧ k.stream.ReadsFully := by
  obtain ⟨-, -, hdata⟩ := readRecord_ok h
  obtain ⟨hstream, -, hwhole⟩ := readRecord_follows h
  have hlen : F.encode.length = F.headSize.toNat := by rw [Record.length_encode hf, hsize]
  have hsum : kcf.stream.recordCounts.sum = F.encode.length := by
    rw [sum_recordCounts hdata, (hs.head hat).2, hlen]
  have hgets : kcf.stream.Gets kcf.stream.recordCounts := by
    apply hs.gets
    rw [hsum, hat.ahead_eq, List.length_append]
    omega
  refine ⟨?_, hstream ▸ hat.after hgets hsum, hstream ▸ hs.after _⟩
  rw [hwhole hgets, hat.ahead_eq, F.whole_encode hf hsize]

theorem readRecord_stands {F : Record} (hp : kcf.parserState = .readRecordHeader)
    (hm : (kcf.heap 0).isSome) (hs : kcf.stream.ReadsFully)
    (hat : kcf.stream.At a (F.encode ++ c)) (hf : F.Fits)
    (hsize : F.headSize.toNat = headerLength F.headFlags + F.dataSize) (R : Record) :
    ∃ k, kcf.readRecord (some R) = (.ok, k, some F.shown) := by
  have hnever (i : ℕ) : ¬ (kcf.stream.reads i).Fails := by
    rw [hs i]
    exact Transfer.not_fails_full
  obtain ⟨hflags, hhead⟩ := hs.head hat
  have hdata : kcf.DeliversData := by
    refine ⟨?_, hm, hnever _⟩
    rw [hflags, hhead, hsize]
    exact Nat.le_add_right ..
  obtain ⟨k, R', hk⟩ := readRecord_delivers hp (fun i _ => hnever i) hdata R
  obtain ⟨rfl, -, -⟩ := readRecord_standing hk hs hat hf hsize
  exact ⟨k, hk⟩

variable {n : ℕ} {bytes : List UInt8} {bytesRead : Option ℕ}

/-- What a call that delivers so many bytes of added data does. -/
structure Takes (kcf : KCF) (n : ℕ) (k : KCF) : Prop where
  stream : k.stream = kcf.stream.took n
  available : k.availableAddedData.toNat + n = kcf.availableAddedData.toNat
  actual : k.actualAddedDataCRC32 = crc32c kcf.actualAddedDataCRC32 (kcf.stream.ahead.take n)
  state : k.parserState =
    if k.availableAddedData = 0 then .readRecordHeader else .readAddedData
  within : n ≤ kcf.stream.ahead.length

theorem Takes.ahead (h : kcf.Takes n k) : k.stream.ahead = kcf.stream.ahead.drop n := by
  rw [h.stream, IOStream.ahead_took]

theorem Takes.reads (h : kcf.Takes n k) (hs : kcf.stream.ReadsFully) : k.stream.ReadsFully := by
  rw [h.stream]
  exact hs.took n

/-- The handle once so many bytes of added data were read and counted. -/
def tookAdded (kcf : KCF) (n : ℕ) : KCF :=
  { kcf with stream := kcf.stream.took n }.consumed n (kcf.stream.ahead.take n) n

theorem tookAdded_takes (hp : kcf.parserState = .readAddedData)
    (hle : n ≤ kcf.availableAddedData.toNat) (hn : n ≤ kcf.stream.ahead.length) :
    kcf.Takes n (kcf.tookAdded n) := by
  refine ⟨?_, consumed_available { kcf with stream := kcf.stream.took n } hle _ _,
    consumed_actual .., consumed_parserState _ (by exact hp) .., hn⟩
  unfold tookAdded consumed
  dsimp only
  split <;> rfl

theorem readAddedData_gets (hp : kcf.parserState = .readAddedData)
    (h₀ : kcf.availableAddedData ≠ 0)
    (hg : (ioRead kcf.stream (kcf.asked n)).1 = kcf.asked n) :
    kcf.readAddedData (some n) = .ok (.ok, kcf.tookAdded (kcf.asked n),
      kcf.stream.ahead.take (kcf.asked n), some (kcf.asked n)) := by
  have hle : kcf.asked n ≤ kcf.availableAddedData.toNat := Nat.min_le_right ..
  have hlt := kcf.availableAddedData.toNat_lt
  have hsize : toSize (kcf.asked n) = kcf.asked n := by
    rw [toSize_natCast, Nat.mod_eq_of_lt]
    exact lt_of_le_of_lt hle hlt
  rw [readAddedData_of_added hp, if_neg h₀]
  change kcf.readAvailable (kcf.asked n) = _
  unfold readAvailable
  rw [(IOStream.ioRead_of_gets hg).2]
  dsimp only
  rw [hsize, if_neg (lt_irrefl _), if_neg (by omega), Int.toNat_natCast]
  rfl

/-- A success with added data left is a read that got what it asked for. -/
theorem gets_of_readAddedData (h₀ : kcf.availableAddedData ≠ 0)
    (h : kcf.readAddedData (some n) = .ok (.ok, k, bytes, bytesRead)) :
    kcf.parserState = .readAddedData ∧
      (ioRead kcf.stream (kcf.asked n)).1 = kcf.asked n := by
  have hc := readAddedData_cases h
  have hp : kcf.parserState = .readAddedData := by
    cases hc with
    | nothing hp => exact hp
    | read hp => exact hp
  refine ⟨hp, ?_⟩
  rw [readAddedData_of_added hp, if_neg h₀] at h
  change kcf.readAvailable (kcf.asked n) = _ at h
  unfold readAvailable at h
  rcases hr : ioRead kcf.stream (kcf.asked n) with ⟨ret, delivered, stream⟩
  have hret : ret = (kcf.stream.reads 0).ret
      (min (kcf.asked n) (kcf.stream.bytes.length - kcf.stream.pos)) :=
    (congrArg Prod.fst hr).symm
  rw [hr] at h
  dsimp only at h
  split at h
  · cases h
  · split at h
    · cases h
    · have hle : ret ≤ kcf.asked n := by
        rw [hret]
        cases kcf.stream.reads 0 with
        | full => exact Int.ofNat_le.mpr (Nat.min_le_left ..)
        | short count =>
          exact Int.ofNat_le.mpr ((Nat.min_le_right ..).trans (Nat.min_le_left ..))
        | failed code => exact (Int.negSucc_lt_zero code).le.trans (Int.natCast_nonneg _)
      rename_i hnot _
      unfold toSize UInt64.size at hnot
      dsimp only
      omega

theorem readAddedData_streams (h₀ : kcf.availableAddedData ≠ 0)
    (h : kcf.readAddedData (some n) = .ok (.ok, k, bytes, bytesRead)) :
    k.stream = (ioRead kcf.stream (kcf.asked n)).2.2 ∧ k.heap = kcf.heap := by
  obtain ⟨hp, hg⟩ := gets_of_readAddedData h₀ h
  rw [readAddedData_gets hp h₀ hg] at h
  cases h
  rw [(IOStream.ioRead_of_gets hg).2]
  unfold tookAdded consumed
  dsimp only
  split
  · exact ⟨rfl, rfl⟩
  · exact ⟨rfl, rfl⟩

theorem readAddedData_ok (h₀ : kcf.availableAddedData ≠ 0)
    (h : kcf.readAddedData (some n) = .ok (.ok, k, bytes, bytesRead)) :
    kcf.Takes (kcf.asked n) k ∧ bytes = kcf.stream.ahead.take (kcf.asked n) ∧
      bytesRead = some (kcf.asked n) := by
  obtain ⟨hp, hg⟩ := gets_of_readAddedData h₀ h
  obtain ⟨hle, -⟩ := IOStream.ioRead_of_gets hg
  rw [readAddedData_gets hp h₀ hg] at h
  cases h
  exact ⟨tookAdded_takes hp (Nat.min_le_right ..) hle, rfl, rfl⟩

end KCF

end Kcf
