import Kcf.Reader.Calls

/-! # Accounting for added data

A call that reads added data counts what it delivers and continues the checksum
over it, and a call that delivers less than asked for counts nothing. The result
of the read is compared with the size asked for as an unsigned number, and a
negative one passes for a long delivery.
-/

namespace Kcf

open CallMachine

def IsAddedRead (c : ReaderCall) (_ : KCF) : Prop := ∃ bufferSize, c = .readAddedData bufferSize

/-- The bytes of added data that a call returns with success. -/
def ReaderResult.delivered : ReaderResult → List UInt8
  | addedData .ok bytes _ => bytes
  | _ => []

/-- The bytes of added data that a run of calls returns with success. -/
def deliveredBy (tr : List (ReaderCall × ReaderResult)) : List UInt8 :=
  tr.flatMap fun x => x.2.delivered

namespace KCF

variable {kcf k : KCF}

/-- The counters and the checksums are the same. -/
structure SameCounters (kcf k : KCF) : Prop where
  available : k.availableAddedData = kcf.availableAddedData
  read : k.addedDataAlreadyRead = kcf.addedDataAlreadyRead
  crc : k.addedDataCRC32 = kcf.addedDataCRC32
  actual : k.actualAddedDataCRC32 = kcf.actualAddedDataCRC32

/-- A call delivers and counts so many bytes behind the ones delivered before. -/
structure CountsFor (kcf : KCF) (n : ℕ) (delivered : List UInt8) (k : KCF) (bytes : List UInt8)
    (bytesRead : Option ℕ) : Prop where
  taken : bytes = kcf.stream.ahead.take n
  length : bytes.length = n
  stored : bytesRead = some n
  available : k.availableAddedData.toNat + n = kcf.availableAddedData.toNat
  read : k.addedDataAlreadyRead = kcf.addedDataAlreadyRead + UInt64.ofNat n
  actual : k.actualAddedDataCRC32 = crc32c 0 (delivered ++ bytes)

/-- The number of bytes asked for on behalf of a buffer of this size. -/
def asked (kcf : KCF) (bufferSize : ℕ) : ℕ := min bufferSize kcf.availableAddedData.toNat

/-- A call with a buffer of this size comes back; a success delivers and counts all that is asked
for, and a read that does not deliver it makes for an error and counts nothing. -/
def Accounts (delivered : List UInt8) (kcf : KCF) (bufferSize : ℕ) : Prop :=
  ∃ e k bytes bytesRead, kcf.readAddedData (some bufferSize) = .ok (e, k, bytes, bytesRead) ∧
    (e = .ok → kcf.CountsFor (kcf.asked bufferSize) delivered k bytes bytesRead) ∧
    ((ioRead kcf.stream (kcf.asked bufferSize)).1 ≠ (kcf.asked bufferSize : ℤ) →
      e = .read ∧ kcf.SameCounters k)

/-- The read of the call does not fail, or its negative result as a `size_t` is less than what is
asked for. -/
def FailureSeen (kcf : KCF) (bufferSize : ℕ) : Prop :=
  (kcf.stream.reads 0).Fails →
    toSize (ioRead kcf.stream (kcf.asked bufferSize)).1 < kcf.asked bufferSize

instance (kcf : KCF) (bufferSize : ℕ) : Decidable (kcf.FailureSeen bufferSize) :=
  inferInstanceAs (Decidable (_ → _))

theorem consumed_actual (kcf : KCF) (bufferSize : ℕ) (bytes : List UInt8) (nRead : ℕ) :
    (kcf.consumed bufferSize bytes nRead).actualAddedDataCRC32 =
      crc32c kcf.actualAddedDataCRC32 bytes := by
  unfold consumed
  dsimp only
  split <;> rfl

theorem consumed_read (kcf : KCF) (bufferSize : ℕ) (bytes : List UInt8) (nRead : ℕ) :
    (kcf.consumed bufferSize bytes nRead).addedDataAlreadyRead =
      kcf.addedDataAlreadyRead + UInt64.ofNat nRead := by
  unfold consumed
  dsimp only
  split <;> rfl

theorem consumed_available (kcf : KCF) {bufferSize : ℕ}
    (h : bufferSize ≤ kcf.availableAddedData.toNat) (bytes : List UInt8) (nRead : ℕ) :
    (kcf.consumed bufferSize bytes nRead).availableAddedData.toNat + bufferSize =
      kcf.availableAddedData.toNat := by
  have hlt := kcf.availableAddedData.toNat_lt
  have hn : (UInt64.ofNat bufferSize).toNat = bufferSize :=
    (UInt64.toNat_ofNat' ..).trans (Nat.mod_eq_of_lt (by omega))
  have hk : (kcf.consumed bufferSize bytes nRead).availableAddedData =
      kcf.availableAddedData - UInt64.ofNat bufferSize := by
    unfold consumed
    dsimp only
    split <;> rfl
  rw [hk, UInt64.toNat_sub_of_le _ _ (UInt64.le_iff_toNat_le.mpr (by omega)), hn]
  omega

/-- A read that does not fail is accounted for, however much it delivers. -/
theorem accounts_of_not_fails {delivered : List UInt8} {bufferSize : ℕ}
    (hp : kcf.parserState = .readAddedData) (h₀ : kcf.availableAddedData ≠ 0)
    (hc : kcf.actualAddedDataCRC32 = crc32c 0 delivered) (hf : ¬ (kcf.stream.reads 0).Fails) :
    kcf.Accounts delivered bufferSize := by
  obtain ⟨n, hn, hl, hr⟩ := ioRead_delivered hf (kcf.asked bufferSize)
  have hle : kcf.asked bufferSize ≤ kcf.availableAddedData.toNat := Nat.min_le_right ..
  have hlt := kcf.availableAddedData.toNat_lt
  have hsize : toSize n = n := by
    rw [toSize_natCast, Nat.mod_eq_of_lt]
    exact lt_of_le_of_lt (hn.trans hle) hlt
  have hcall : kcf.readAddedData (some bufferSize) = kcf.readAvailable (kcf.asked bufferSize) := by
    rw [readAddedData_of_added hp, if_neg h₀]
    rfl
  unfold Accounts
  rw [hcall, readAvailable, hr]
  dsimp only
  rw [hsize]
  by_cases hshort : n < kcf.asked bufferSize
  · rw [if_pos hshort]
    exact ⟨_, _, _, _, rfl, (by rintro ⟨⟩), fun _ => ⟨rfl, rfl, rfl, rfl, rfl⟩⟩
  · obtain rfl : n = kcf.asked bufferSize := le_antisymm hn (not_lt.mp hshort)
    rw [if_neg hshort, if_neg (by omega), Int.toNat_natCast]
    refine ⟨_, _, _, _, rfl, fun _ => ⟨rfl, ?_, rfl, ?_, ?_, ?_⟩, fun h => absurd rfl h⟩
    · rw [List.length_take, Nat.min_eq_left hl]
    · exact consumed_available { kcf with stream := kcf.stream.took _ } hle _ _
    · exact consumed_read ..
    · rw [consumed_actual, crc32c_append, ← hc]

theorem accounts_of_fails {delivered : List UInt8} {bufferSize : ℕ}
    (hp : kcf.parserState = .readAddedData) (h₀ : kcf.availableAddedData ≠ 0)
    (hf : (kcf.stream.reads 0).Fails) : kcf.Accounts delivered bufferSize ↔
      toSize (ioRead kcf.stream (kcf.asked bufferSize)).1 < kcf.asked bufferSize := by
  have hneg : (ioRead kcf.stream (kcf.asked bufferSize)).1 < 0 := (Transfer.ret_neg_iff ..).mpr hf
  have hcall : kcf.readAddedData (some bufferSize) = kcf.readAvailable (kcf.asked bufferSize) := by
    rw [readAddedData_of_added hp, if_neg h₀]
    rfl
  unfold Accounts
  rw [hcall, readAvailable]
  generalize ioRead kcf.stream (kcf.asked bufferSize) = x at hneg
  obtain ⟨ret, bytes, stream⟩ := x
  dsimp only at hneg ⊢
  by_cases hshort : toSize ret < kcf.asked bufferSize
  · rw [if_pos hshort]
    refine iff_of_true ⟨_, _, _, _, rfl, (by rintro ⟨⟩), fun _ => ⟨rfl, rfl, rfl, rfl, rfl⟩⟩ hshort
  · rw [if_neg hshort, if_pos hneg]
    refine iff_of_false ?_ hshort
    rintro ⟨e, k, bytes, bytesRead, h, -⟩
    cases h

theorem readAddedData_actual {bufferSize : Option ℕ} {a : ReaderResult}
    (h : readerStep (.readAddedData bufferSize) kcf = .ok (a, k)) :
    k.actualAddedDataCRC32 = crc32c kcf.actualAddedDataCRC32 a.delivered := by
  obtain ⟨r, hx, hr⟩ := Exec.map_ok h
  cases hr
  cases bufferSize with
  | none =>
    cases hx
    exact (crc32c_nil _).symm
  | some bufferSize =>
    by_cases hp : kcf.parserState = .readAddedData
    · rw [readAddedData_of_added hp] at hx
      split at hx
      · cases hx
        exact (crc32c_nil _).symm
      · unfold readAvailable at hx
        generalize ioRead kcf.stream _ = x at hx
        obtain ⟨ret, bytes, stream⟩ := x
        dsimp only at hx
        split at hx
        · cases hx
          exact (crc32c_nil _).symm
        · split at hx
          · cases hx
          · cases hx
            exact consumed_actual ..
    · rw [readAddedData_of_ne hp] at hx
      cases hx
      exact (crc32c_nil _).symm

theorem actual_of_run {s t : KCF} {tr : List (ReaderCall × ReaderResult)}
    (hr : Run readerStep IsAddedRead s tr t) :
    t.actualAddedDataCRC32 = crc32c s.actualAddedDataCRC32 (deliveredBy tr) := by
  induction hr with
  | nil => exact (crc32c_nil _).symm
  | cons hg hc _ ih =>
    obtain ⟨bufferSize, rfl⟩ := hg
    rw [ih, readAddedData_actual hc, ← crc32c_append]
    rfl

/-- After any run of calls, the next one accounts exactly for what it delivers if and only if its
read does not fail or the failure is seen. -/
theorem accounts_iff {s t : KCF} {tr : List (ReaderCall × ReaderResult)}
    (hs : s.actualAddedDataCRC32 = 0) (hr : Run readerStep IsAddedRead s tr t)
    (hp : t.parserState = .readAddedData) (ha : 0 < t.availableAddedData) (bufferSize : ℕ) :
    t.Accounts (deliveredBy tr) bufferSize ↔ t.FailureSeen bufferSize := by
  have h₀ : t.availableAddedData ≠ 0 := (UInt64.ne_of_lt ha).symm
  have hc := actual_of_run hr
  rw [hs] at hc
  by_cases hf : (t.stream.reads 0).Fails
  · exact (accounts_of_fails hp h₀ hf).trans ⟨fun h _ => h, fun h => h hf⟩
  · exact iff_of_true (accounts_of_not_fails hp h₀ hc hf) fun h => absurd h hf

/-- A reader with these bytes of added data to read, from a backend with these outcomes. -/
def readingAdded (added : List UInt8) (reads : ℕ → Transfer) : KCF :=
  { reading { IOStream.ofBytes added with reads := reads } with
    parserState := .readAddedData
    availableAddedData := UInt64.ofNat added.length }

theorem accounts_second_call :
    ∃ tr t, Run readerStep IsAddedRead (.readingAdded [7, 8, 9] fun _ => .full) tr t ∧
      deliveredBy tr = [7, 8] ∧ t.Accounts [7, 8] 2 := by
  have hr : Run readerStep IsAddedRead (.readingAdded [7, 8, 9] fun _ => .full)
      [(.readAddedData (some 2), _)] _ := .cons ⟨_, rfl⟩ rfl (.nil _)
  exact ⟨_, _, hr, by decide +kernel,
    (accounts_iff rfl hr (by decide +kernel) (by decide +kernel) 2).mpr (by decide +kernel)⟩

/-- A read that fails is taken for one that delivered all, and the checksum runs over as many bytes
as the negative result stands for. -/
theorem failure_not_seen :
    (readingAdded [7] fun _ => .failed 0).parserState = .readAddedData ∧
      (readingAdded [7] fun _ => .failed 0).availableAddedData = 1 ∧
      (ioRead (readingAdded [7] fun _ => .failed 0).stream 1).1 = -1 ∧
      (readingAdded [7] fun _ => .failed 0).readAddedData (some 1) = .error .outOfBounds ∧
      ¬ (readingAdded [7] fun _ => .failed 0).Accounts [] 1 := by
  refine ⟨rfl, by decide, rfl, rfl, ?_⟩
  rintro ⟨e, k, bytes, bytesRead, h, -⟩
  cases h

end KCF

end Kcf
