import Kcf.Reader.Drain
import Kcf.Reader.States

/-! # Skipping a record

A skip goes past the record as far as reading and draining it would, but the
function that passes the bytes always returns 0, which its caller takes for a
failure. No record is skipped with success, and the parser stays where the
skip found it.
-/

namespace Kcf

theorem ioSkip_round {s : IOStream} (hs : s.ReadsOn) (n : ℕ) :
    ∃ m ≤ n, m ≤ s.ahead.length ∧ (0 < n → s.ahead ≠ [] → 0 < m) ∧
      ∀ fuel, ioSkip (fuel + 1) s n =
        if m < n then ioSkip fuel (s.took m) (n - m : ℕ) else .ok (0, s.took m) := by
  have hm : min 4096 (n : ℤ) = ((min 4096 n : ℕ) : ℤ) := by omega
  obtain ⟨m, hle, hl, hpos, hr⟩ := ioRead_on hs (min 4096 n)
  refine ⟨m, by omega, hl, fun hn => hpos (by omega), fun fuel => ?_⟩
  conv_lhs => unfold ioSkip
  dsimp only
  rw [hm, if_neg (by omega), Int.toNat_natCast, hr]
  dsimp only
  rw [if_neg (by omega)]
  by_cases hlt : m < n
  · rw [if_pos (by omega), if_pos hlt, Nat.cast_sub (by omega)]
  · rw [if_neg (by omega), if_neg hlt]

/-- The skip function stops behind the bytes it was asked to pass. -/
theorem ioSkip_on {s : IOStream} (hs : s.ReadsOn) {n : ℕ} (hn : n ≤ s.ahead.length) :
    ∃ k, ∀ fuel, n < fuel → ioSkip fuel s n =
      .ok (0, { s with pos := s.pos + n, reads := fun i => s.reads (i + k) }) := by
  induction n using Nat.strong_induction_on generalizing s with
  | h n ih =>
    obtain ⟨m, hle, hl, hpos, hround⟩ := ioSkip_round hs n
    by_cases hlt : m < n
    · have hm : 0 < m := by
        apply hpos (by omega)
        rw [← List.length_pos_iff]
        omega
      obtain ⟨k, hk⟩ := ih (n - m) (by omega) (hs.took m)
        (by rw [IOStream.ahead_took, List.length_drop]; omega)
      refine ⟨k + 1, fun fuel hf => ?_⟩
      obtain ⟨fuel, rfl⟩ := Nat.exists_eq_add_one_of_ne_zero (Nat.ne_zero_of_lt hf)
      rw [hround, if_pos hlt, hk fuel (by omega)]
      simp only [IOStream.took, Nat.add_assoc, Nat.add_sub_cancel' hle]
    · refine ⟨1, fun fuel hf => ?_⟩
      obtain ⟨fuel, rfl⟩ := Nat.exists_eq_add_one_of_ne_zero (Nat.ne_zero_of_lt hf)
      rw [hround, if_neg hlt, Nat.le_antisymm hle (not_lt.mp hlt)]
      rfl

theorem ioSkip_neg {remaining : ℤ} (h : remaining < 0) (fuel : ℕ) (s : IOStream) :
    ioSkip (fuel + 1) s remaining = .error .outOfBounds := by
  unfold ioSkip
  dsimp only
  rw [if_pos (by omega)]

theorem ioSkip_full {fuel : ℕ} {s : IOStream} (hs : s.ReadsFully) {n : ℕ}
    (hn : n ≤ s.ahead.length) (hf : n < fuel) : ioSkip fuel s n = .ok (0, s.advanced n) := by
  obtain ⟨k, hk⟩ := ioSkip_on hs.readsOn hn
  have hr : (fun i => s.reads (i + k)) = s.reads := funext fun i => (hs (i + k)).trans (hs i).symm
  rw [hk fuel hf, hr]
  rfl

namespace KCF

variable {a b added : List UInt8} {kcf : KCF}

/-- Read the record if a header is expected, and drain its added data. -/
def readAndDrain (fuel : ℕ) (sizes : ℕ → ℕ) (kcf : KCF) (R : Record) :
    Exec (KcfError × KCF × List UInt8) :=
  if kcf.parserState = .readRecordHeader then
    match kcf.readRecord (some R) with
    | (.ok, kcf, _) => kcf.drain fuel sizes
    | (error, kcf, _) => .ok (error, kcf, [])
  else kcf.drain fuel sizes

/-- The stream at this position, no added data left and the next header expected. -/
def DoneAt (kcf : KCF) (pos : ℕ) : Prop :=
  kcf.stream.pos = pos ∧ kcf.parserState = .readRecordHeader ∧ kcf.isAddedDataAvailable = false

instance (kcf : KCF) (pos : ℕ) : Decidable (kcf.DoneAt pos) :=
  inferInstanceAs (Decidable (_ ∧ _ ∧ _))

/-- Skipping succeeds and gets where reading and draining gets. -/
def SkipsAsRead (fuel : ℕ) (sizes : ℕ → ℕ) (kcf : KCF) (header R : Record) : Prop :=
  ∃ k k' bytes, kcf.skipRecord fuel header = .ok (.ok, k) ∧
    kcf.readAndDrain fuel sizes R = .ok (.ok, k', bytes) ∧ k.DoneAt k'.stream.pos ∧
    k'.DoneAt k'.stream.pos

/-- The handle once so many bytes of the stream were passed. -/
def passed (kcf : KCF) (n : ℕ) : KCF := { kcf with stream := kcf.stream.advanced n }

theorem skipBytes_full (hs : kcf.stream.ReadsFully) {size : UInt64}
    (hle : size.toNat ≤ kcf.stream.ahead.length) (hl : size.toNat < 2 ^ 63) {fuel : ℕ}
    (hf : size.toNat < fuel) :
    kcf.skipBytes fuel size = .ok (.read, kcf.passed size.toNat) := by
  unfold skipBytes
  rw [toInt64_of_lt hl, ioSkip_full hs hle hf]
  rfl

theorem skipBytes_ok {fuel : ℕ} {size : UInt64} {r : KcfError × KCF}
    (h : kcf.skipBytes fuel size = .ok r) : size.toNat < 2 ^ 63 := by
  obtain ⟨r', hskip, -⟩ := Exec.bind_ok h
  apply lt_of_toInt64 size.toNat_lt
  by_contra hneg
  cases fuel with
  | zero => cases hskip
  | succ fuel =>
    rw [ioSkip_neg (not_le.mp hneg)] at hskip
    cases hskip

theorem skipBytes_laid (h : ReaderAt a (added ++ b) kcf) {size : UInt64}
    (hs : size.toNat = added.length) (hl : added.length < 2 ^ 63) {fuel : ℕ}
    (hf : added.length < fuel) :
    kcf.skipBytes fuel size = .ok (.read, kcf.passed added.length) := by
  have ha : added.length ≤ kcf.stream.ahead.length := by
    rw [h.stream.ahead_eq, List.length_append]
    omega
  rw [← hs] at ha hl hf ⊢
  exact skipBytes_full h.reads ha hl hf

/-- From a header the skip goes past the record, its added data included, and leaves the parser
waiting for the record's data. -/
theorem skipRecord_laid {F : Record} (hp : kcf.parserState = .readRecordHeader)
    (h : ReaderAt a (F.encode ++ (added ++ b)) kcf) (hf : F.Fits)
    (hs : F.headSize.toNat = headerLength F.headFlags + F.dataSize)
    (ha : F.shown.addedSize.toNat = added.length) (hl : F.dataSize + added.length < 2 ^ 63)
    {fuel : ℕ} (hfuel : F.dataSize + added.length < fuel) (header : Record) :
    ∃ k, kcf.skipRecord fuel header = .ok (.read, k) ∧ ReaderAt (a ++ F.encode ++ added) b k ∧
      k.parserState = .readRecordData := by
  have hr := h
  rw [Record.encode, List.append_assoc] at h
  have hk := h.advanced (k := kcf.tookHeader F.header.length
    (header.parsed (F.encode ++ (added ++ b))).addedDataCRC32) rfl h.grants
  have hb := F.length_bytes hf.1
  have hd : (header.parsed (F.encode ++ (added ++ b))).headSize = F.headSize := by
    have hp := congrArg Record.headSize (header.parsed_encode F (added ++ b))
    exact hp
  have had : (header.parsed (F.encode ++ (added ++ b))).addedSize = F.shown.addedSize := by
    have hp := congrArg Record.addedSize (header.parsed_encode F (added ++ b))
    exact hp
  have hsize : (UInt64.ofNat (toSize (F.headSize.toNat - F.header.length)) +
      F.shown.addedSize).toNat = (F.bytes ++ added).length := by
    have := hf.2
    rw [hs, F.length_header, UInt64.toNat_add, UInt64.toNat_ofNat', ha, List.length_append, hb]
    unfold toSize UInt64.size
    omega
  rw [← List.append_assoc] at hk
  have hlen : (F.bytes ++ added).length = F.dataSize + added.length := by
    rw [List.length_append, hb]
  have hle := hf.2
  have hfuel' : (F.bytes ++ added).length < fuel := by omega
  have hskip := skipBytes_laid hk hsize (by omega) hfuel'
  have hend : ReaderAt (a ++ F.header ++ (F.bytes ++ added)) b
      ((kcf.tookHeader F.header.length
        (header.parsed (F.encode ++ (added ++ b))).addedDataCRC32).passed
          (F.bytes ++ added).length) := hk.advanced rfl h.grants
  refine ⟨_, ?_, by rwa [Record.encode, ← List.append_assoc, List.append_assoc], rfl⟩
  rw [skipRecord_of_header hp, hr.readRecordHeader]
  unfold skipAfterHeader
  dsimp only
  rw [hd, had, hskip]

theorem skipRecord_ne_ok (fuel : ℕ) (kcf : KCF) (header : Record) (k : KCF) :
    kcf.skipRecord fuel header ≠ .ok (.ok, k) := by
  intro h
  cases skipRecord_cases h

end KCF

theorem Delivering.skipRecord {a b added : List UInt8} {crc : UInt32} {kcf : KCF}
    (h : Delivering a added b crc kcf) (hp : kcf.parserState = .readAddedData)
    (hl : added.length < 2 ^ 63) {fuel : ℕ} (hf : added.length < fuel) (header : Record) :
    kcf.skipRecord fuel header = .ok (.read, kcf.passed added.length) := by
  rw [KCF.skipRecord_of_added hp]
  exact KCF.skipBytes_laid h.reader h.left hl hf

namespace KCF

/-- Skipping never does what reading and draining the record would do. -/
theorem not_skipsAsRead (fuel : ℕ) (sizes : ℕ → ℕ) (kcf : KCF) (header R : Record) :
    ¬ kcf.SkipsAsRead fuel sizes header R := by
  rintro ⟨k, k', bytes, hskip, -⟩
  exact skipRecord_ne_ok fuel kcf header k hskip

/-- A record with one byte of added data is read and drained up to its end; skipping it gets as
far, with an error, and in a state in which nothing more is read. -/
theorem oneByte_not_skipped :
    (∃ k, (readingRecord (.adding 1) [7]).readAndDrain 1 (fun _ => 1) Record.zero =
        .ok (.ok, k, [7]) ∧ k.DoneAt 11) ∧
      ((readingRecord (.adding 1) [7]).skipRecord 2 Record.zero).map
          (fun r => (r.1, r.2.stream.pos, r.2.parserState)) = .ok (.read, 11, .readRecordData) ∧
      ¬ (readingRecord (.adding 1) [7]).SkipsAsRead 2 (fun _ => 1) Record.zero Record.zero :=
  ⟨⟨_, rfl, by decide +kernel⟩, by decide +kernel,
    fun ⟨k, _, _, hskip, _⟩ => skipRecord_ne_ok 2 _ _ k hskip⟩

end KCF

end Kcf
