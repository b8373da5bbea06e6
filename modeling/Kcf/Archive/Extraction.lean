import Kcf.Archive.Metadata
import Kcf.Archive.Unpacking
import Kcf.Reader.Received

/-! # What extraction takes for good

A run of the extraction over a file consumes its records one after the other and
gives their added data to the output. It looks at no checksum, and of several
records it gives nothing of the last one. What it took for good is good exactly
when what stood on the stream was, with no data for the checksum of the last.
-/

namespace Kcf

namespace IOStream

variable {s : IOStream}

/-- The stream once it was given these pieces to store. -/
def given (s : IOStream) (pieces : List (List UInt8)) : IOStream :=
  pieces.foldl (fun s piece => (ioWrite s piece).2) s

theorem behind_given (h : s.WritesFully) (pieces : List (List UInt8)) :
    (s.given pieces).WritesFully ∧ (s.given pieces).behind = s.behind ++ pieces.flatten := by
  induction pieces generalizing s with
  | nil => exact ⟨h, (List.append_nil _).symm⟩
  | cons d pieces ih =>
    obtain ⟨hall, hb⟩ := ih (h.ioWrite d)
    refine ⟨hall, hb.trans ?_⟩
    rw [behind_ioWrite h, List.flatten_cons, List.append_assoc]

end IOStream

namespace KCF

variable {kcf k : KCF} {output out : IOStream} {d : List UInt8}

/-- The sizes of the reads by which so many bytes of added data are copied. -/
def copyCounts (n : ℕ) : List ℕ :=
  List.replicate (n / EXTRACT_BUFFER_SIZE) EXTRACT_BUFFER_SIZE ++
    if n % EXTRACT_BUFFER_SIZE = 0 then [] else [n % EXTRACT_BUFFER_SIZE]

theorem copyCounts_pos {n : ℕ} (h : 0 < n) :
    copyCounts n =
      min EXTRACT_BUFFER_SIZE n :: copyCounts (n - min EXTRACT_BUFFER_SIZE n) := by
  unfold copyCounts EXTRACT_BUFFER_SIZE
  rcases Nat.lt_or_ge n 4096 with hlt | hge
  · rw [Nat.min_eq_right hlt.le, Nat.div_eq_of_lt hlt, Nat.mod_eq_of_lt hlt, if_neg (by omega),
      Nat.sub_self, Nat.zero_div, Nat.zero_mod, if_pos rfl]
    rfl
  · have hdiv : n / 4096 = (n - 4096) / 4096 + 1 := by omega
    have hmod : n % 4096 = (n - 4096) % 4096 := by omega
    rw [Nat.min_eq_left hge, hdiv, hmod, List.replicate_succ, List.cons_append]

/-- The added data that was left is given to the output, all of it. -/
structure Copied (kcf : KCF) (output : IOStream) (d : List UInt8) (k : KCF) (out : IOStream) :
    Prop where
  taken : d = kcf.stream.ahead.take kcf.availableAddedData.toNat
  length : d.length = kcf.availableAddedData.toNat
  given : ∃ pieces : List (List UInt8), pieces.flatten = d ∧ out = output.given pieces
  actual : k.actualAddedDataCRC32 = crc32c kcf.actualAddedDataCRC32 d
  bytes : k.stream.bytes = kcf.stream.bytes
  pos : k.stream.pos = kcf.stream.pos + d.length
  reads : kcf.stream.ReadsFully → k.stream.ReadsFully
  stream : k.stream = kcf.stream.after (copyCounts kcf.availableAddedData.toNat)
  heap : k.heap = kcf.heap
  same : kcf.SameFile k

theorem copyAddedData_nothing (h : kcf.availableAddedData = 0) (remaining fuel toRead : ℕ)
    (output : IOStream) :
    copyAddedData remaining fuel kcf output toRead = .ok (.ok, kcf, output) := by
  cases fuel with
  | zero => exact if_neg (fun ha => isAddedDataAvailable_iff.mp ha h)
  | succ fuel => exact if_neg (fun ha => isAddedDataAvailable_iff.mp ha h)

theorem availableAddedData_pos (h₀ : kcf.availableAddedData ≠ 0) :
    0 < kcf.availableAddedData.toNat :=
  Nat.pos_of_ne_zero fun hz => h₀ (UInt64.toNat_inj.mp hz)

theorem toRead_pos {remaining toRead : ℕ} (h₀ : kcf.availableAddedData ≠ 0)
    (hr : kcf.availableAddedData.toNat ≤ remaining) (ht : 0 < toRead) :
    0 < if remaining < toRead then remaining else toRead := by
  have hpos := availableAddedData_pos h₀
  split <;> omega

theorem copyAddedData_round {remaining toRead : ℕ} {e : KcfError} {bytes : List UInt8}
    {m : Option ℕ} {ret : ℤ} (h₀ : kcf.availableAddedData ≠ 0)
    (hr : kcf.readAddedData (some (if remaining < toRead then remaining else toRead)) =
      .ok (e, k, bytes, m))
    (hw : ioWrite output (bytes.take (m.getD 0)) = (ret, out)) (fuel : ℕ) :
    copyAddedData remaining (fuel + 1) kcf output toRead =
      if e ≠ .ok then .ok (e, k, output)
      else if ret < 0 then .ok (.write, k, out)
      else
        copyAddedData remaining fuel k out (if remaining < toRead then remaining else toRead) := by
  conv_lhs => unfold copyAddedData
  rw [if_pos (isAddedDataAvailable_iff.mpr h₀)]
  dsimp only
  rw [hr, Exec.ok_bind]
  dsimp only
  rw [hw]
  rfl

theorem copied_nothing (h : ¬ kcf.isAddedDataAvailable = true) (output : IOStream) :
    kcf.Copied output [] kcf output := by
  have h₀ : kcf.availableAddedData = 0 := not_not.mp (mt isAddedDataAvailable_iff.mpr h)
  refine ⟨?_, ?_, ⟨[], rfl, rfl⟩, (crc32c_nil _).symm, rfl, rfl, id, ?_, rfl, .refl kcf⟩
  · rw [h₀]
    rfl
  · rw [h₀]
    rfl
  · rw [h₀]
    rfl

theorem Copied.cons {n : ℕ} {k' : KCF} (ht : kcf.Takes n k) (hs : kcf.SameFile k)
    (h₀ : 0 < kcf.availableAddedData.toNat)
    (hn : n = min EXTRACT_BUFFER_SIZE kcf.availableAddedData.toNat)
    (hstream : k.stream = (ioRead kcf.stream n).2.2) (hheap : k.heap = kcf.heap)
    (h : k.Copied (ioWrite output (kcf.stream.ahead.take n)).2 d k' out) :
    kcf.Copied output (kcf.stream.ahead.take n ++ d) k' out := by
  have hlen : (kcf.stream.ahead.take n).length = n := by
    rw [List.length_take, Nat.min_eq_left ht.within]
  obtain ⟨pieces, hp, ho⟩ := h.given
  refine ⟨?_, ?_, ⟨kcf.stream.ahead.take n :: pieces, ?_, ho⟩, ?_, ?_, ?_,
    fun hr => h.reads (ht.reads hr), ?_, h.heap.trans hheap, hs.trans h.same⟩
  · rw [h.taken, ht.ahead, ← ht.available, Nat.add_comm, List.take_add]
  · rw [List.length_append, hlen, h.length, ← ht.available, Nat.add_comm]
  · rw [List.flatten_cons, hp]
  · rw [h.actual, ht.actual, crc32c_append]
  · rw [h.bytes, ht.stream]
    rfl
  · rw [h.pos, ht.stream, List.length_append, hlen, ← Nat.add_assoc]
    rfl
  · have hleft : k.availableAddedData.toNat = kcf.availableAddedData.toNat - n := by
      have hsum := ht.available
      omega
    rw [h.stream, hleft, hstream, copyCounts_pos h₀, ← hn]
    rfl

/-- A copy that ends well, in pieces that are cut to the size of the buffer, gives all that was
left. -/
theorem copyAddedData_ok {remaining fuel toRead : ℕ}
    (hr : kcf.availableAddedData.toNat ≤ remaining)
    (hb : ∀ m ≤ remaining, min toRead m = min EXTRACT_BUFFER_SIZE m)
    (h : copyAddedData remaining fuel kcf output toRead = .ok (.ok, k, out)) :
    ∃ d, kcf.Copied output d k out := by
  induction fuel generalizing kcf output toRead with
  | zero =>
    unfold copyAddedData at h
    split at h
    · cases h
    · cases h
      exact ⟨[], copied_nothing ‹_› _⟩
  | succ fuel ih =>
    unfold copyAddedData at h
    split at h
    · obtain ⟨⟨e, k₁, bytes, bytesRead⟩, hread, h⟩ := Exec.bind_ok h
      have h₀ := isAddedDataAvailable_iff.mp ‹kcf.isAddedDataAvailable = true›
      cases e with
      | ok =>
        obtain ⟨ht, rfl, rfl⟩ := readAddedData_ok h₀ hread
        obtain ⟨hstream, hheap⟩ := readAddedData_streams h₀ hread
        have hsum := ht.available
        -- what is asked for next is cut to the buffer as well
        have hb' : ∀ m ≤ remaining,
            min (if remaining < toRead then remaining else toRead) m =
              min EXTRACT_BUFFER_SIZE m := by
          intro m hm
          rw [← hb m hm]
          split <;> omega
        dsimp only at h
        rw [if_neg (by simp), Option.getD_some, List.take_take, Nat.min_self] at h
        rcases hw : ioWrite output (kcf.stream.ahead.take (kcf.asked _)) with ⟨ret, output'⟩
        rw [hw] at h
        dsimp only at h
        split at h
        · cases h
        · obtain ⟨d, hd⟩ := ih (by omega) hb' h
          have ho : output' = (ioWrite output (kcf.stream.ahead.take (kcf.asked _))).2 :=
            (congrArg Prod.snd hw).symm
          rw [ho] at hd
          exact ⟨_, hd.cons ht (readAddedData_sameFile hread) (availableAddedData_pos h₀)
            (hb' _ hr) hstream hheap⟩
      | _ => cases h
    · cases h
      exact ⟨[], copied_nothing ‹_› _⟩

end KCF

/-- A record that was read: the handle and the caller's record before, and both afterwards. -/
structure Consumed where
  before : KCF
  into : Record
  after : KCF
  record : Record
  read : before.readRecord (some into) = (.ok, after, some record)

namespace Consumed

variable {x y : Consumed}

/-- The added data that the record announces, as far as it stands on the stream. -/
def standing (x : Consumed) : List UInt8 := x.after.stream.ahead.take x.record.addedSize.toNat

/-- The handle with the record for its own. -/
def loaded (x : Consumed) : KCF := { x.after with lastRecord := x.record }

@[simp] theorem loaded_lastRecord (x : Consumed) : x.loaded.lastRecord = x.record := rfl

theorem after_heap (x : Consumed) : x.after.heap = x.before.heap.next :=
  (KCF.readRecord_announces x.read).heap

theorem after_currentFile (x : Consumed) : x.after.currentFile = x.before.currentFile := by
  have hsame := x.before.readRecord_sameFile x.into
  rw [x.read] at hsame
  exact hsame.currentFile

end Consumed

/-- The handle is as the read left it, and its own record still shows the flags and the size. -/
structure KCF.Entered (kcf : KCF) (x : Consumed) : Prop where
  stream : kcf.stream = x.after.stream
  state : kcf.parserState = x.after.parserState
  available : kcf.availableAddedData = x.after.availableAddedData
  actual : kcf.actualAddedDataCRC32 = x.after.actualAddedDataCRC32
  headFlags : kcf.lastRecord.headFlags = x.record.headFlags
  addedSize : kcf.lastRecord.addedSize = x.record.addedSize

/-- The next record of the file was read from this handle into its own record. -/
structure KCF.Continued (kcf : KCF) (y : Consumed) : Prop where
  before : y.before = kcf
  into : y.into = kcf.lastRecord
  headType : y.record.headType = KCF_DATA_FRAGMENT

/-- A run of the extraction from a record on that ends well: the records it consumes, each with
the added data that it gives to the output. -/
inductive Extracts :
    Consumed → KCF → IOStream → List (Consumed × List UInt8) → KCF → IOStream → Prop where
  | last {x : Consumed} {kcf k : KCF} {output out : IOStream} {d : List UInt8} :
      kcf.Copied output d k out → ¬ x.record.Continues → Extracts x kcf output [(x, d)] k out
  | stop {x y : Consumed} {kcf k : KCF} {output out : IOStream} {d : List UInt8} :
      kcf.Copied output d k out → x.record.Continues → k.Continued y → ¬ y.record.Continues →
      Extracts x kcf output [(x, d), (y, [])] y.loaded out
  | next {x y : Consumed} {kcf k k' : KCF} {output out out' : IOStream} {d : List UInt8}
      {tr : List (Consumed × List UInt8)} :
      kcf.Copied output d k out → x.record.Continues → k.Continued y → y.record.Continues →
      Extracts y y.loaded out tr k' out' → Extracts x kcf output ((x, d) :: tr) k' out'

namespace KCF

variable {kcf k : KCF} {output out : IOStream} {d : List UInt8} {x y : Consumed}

theorem entered_loaded (y : Consumed) : y.loaded.Entered y := ⟨rfl, rfl, rfl, rfl, rfl, rfl⟩

theorem Entered.continues_iff (h : kcf.Entered x) :
    kcf.lastRecord.Continues ↔ x.record.Continues := by
  unfold Record.Continues
  rw [h.headFlags]

theorem Copied.eq_standing (h : kcf.Copied output d k out) (hx : kcf.Entered x) :
    d = x.standing := by
  rw [h.taken, hx.stream, hx.available, (readRecord_announces x.read).available]
  rfl

theorem readLastRecord_ok (h : kcf.readLastRecord = (.ok, k)) :
    ∃ y : Consumed, y.before = kcf ∧ y.into = kcf.lastRecord ∧ k = y.loaded := by
  obtain ⟨e, k', R, hr⟩ := kcf.exists_readRecord kcf.lastRecord
  unfold readLastRecord at h
  rw [hr] at h
  obtain rfl : e = .ok := congrArg Prod.fst h
  exact ⟨⟨kcf, kcf.lastRecord, k', R, hr⟩, rfl, rfl, (congrArg Prod.snd h).symm⟩

/-- Going on to the next fragment reads one, where the record is continued. -/
theorem nextFragment_ok (h : kcf.nextFragment = (.ok, k)) :
    (¬ kcf.lastRecord.Continues ∧ k = kcf) ∨
      (kcf.lastRecord.Continues ∧ ∃ y : Consumed, kcf.Continued y ∧ k = y.loaded) := by
  unfold nextFragment at h
  by_cases hc : kcf.lastRecord.Continues
  · rw [if_pos hc] at h
    rcases hr : kcf.readLastRecord with ⟨e, k'⟩
    rw [hr] at h
    cases e with
    | ok =>
      dsimp only at h
      by_cases ht : k'.lastRecord.headType ≠ KCF_DATA_FRAGMENT
      · rw [if_pos ht] at h
        cases h
      · rw [if_neg ht] at h
        cases h
        obtain ⟨y, hb, hi, rfl⟩ := readLastRecord_ok hr
        exact .inr ⟨hc, y, ⟨hb, hi, not_not.mp ht⟩, rfl⟩
    | _ => cases h
  · rw [if_neg hc] at h
    cases h
    exact .inl ⟨hc, rfl⟩

theorem Entered.available_eq (h : kcf.Entered x) :
    kcf.availableAddedData = kcf.lastRecord.addedSize := by
  rw [h.available, h.addedSize, (readRecord_announces x.read).available]

theorem Entered.copied {fuel : ℕ} (hx : kcf.Entered x)
    (h : copyAddedData kcf.lastRecord.addedSize.toNat fuel kcf output EXTRACT_BUFFER_SIZE =
      .ok (.ok, k, out)) : ∃ d, kcf.Copied output d k out :=
  copyAddedData_ok (by rw [hx.available_eq]) (fun _ _ => rfl) h

/-- Every run of the loop that ends well consumes records one after the other, a record and then a
fragment a round at most. -/
theorem extracts_of_loop {rounds fuel : ℕ} (hx : kcf.Entered x)
    (h : extractLoop fuel rounds kcf output = .ok (.ok, k, out)) :
    ∃ tr, Extracts x kcf output tr k out ∧ tr.length ≤ rounds + 1 := by
  induction rounds generalizing x kcf output with
  | zero => cases h
  | succ rounds ih =>
    unfold extractLoop at h
    obtain ⟨⟨e, k₁, out₁⟩, hcopy, h⟩ := Exec.bind_ok h
    dsimp only at h
    cases e with
    | ok =>
      obtain ⟨d, hd⟩ := hx.copied hcopy
      have hcont : k₁.lastRecord.Continues ↔ x.record.Continues := by
        rw [hd.same.lastRecord]
        exact hx.continues_iff
      rw [if_neg (by simp)] at h
      rcases hn : k₁.nextFragment with ⟨e, k₂⟩
      rw [hn] at h
      cases e with
      | ok =>
        dsimp only at h
        rcases nextFragment_ok hn with ⟨hc, rfl⟩ | ⟨hc, y, hy, rfl⟩
        · rw [if_neg hc] at h
          cases h
          exact ⟨_, .last hd (mt hcont.mpr hc), Nat.le_add_left ..⟩
        · by_cases hcy : y.record.Continues
          · rw [y.loaded_lastRecord, if_pos hcy] at h
            obtain ⟨tr, htr, hlen⟩ := ih (entered_loaded y) h
            exact ⟨_, .next hd (hcont.mp hc) hy hcy htr, Nat.succ_le_succ hlen⟩
          · rw [y.loaded_lastRecord, if_neg hcy] at h
            cases h
            exact ⟨_, .stop hd (hcont.mp hc) hy hcy, Nat.le_add_left ..⟩
      | _ => cases h
    | _ => cases h

theorem entered_laidOut {x : Consumed} {info : FileInfo} {heap heap' : Heap} {R : Record}
    (h : recordToFileInfo x.record info heap = .ok (.ok, R, heap')) :
    KCF.Entered { x.loaded with lastRecord := R, heap := heap' } x := by
  obtain ⟨-, -, -, hflags, hsize⟩ := recordToFileInfo_ok h
  exact ⟨rfl, rfl, rfl, rfl, hflags, hsize⟩

/-- An extraction that ends well enters the loop with a file record that was read, once the
metadata is laid out. -/
theorem extract_ok {rounds fuel : ℕ} (h : kcf.extract rounds fuel output = .ok (.ok, k, out)) :
    kcf.isWriting = false ∧ ∃ x : Consumed, x.before = kcf ∧ x.into = kcf.lastRecord ∧
      x.record.headType = KCF_FILE_HEADER ∧
      ∃ R heap k', recordToFileInfo x.record x.after.currentFile x.after.heap =
          .ok (.ok, R, heap) ∧
        extractLoop fuel rounds { x.loaded with lastRecord := R, heap := heap } output =
          .ok (.ok, k', out) ∧
        k.stream = k'.stream ∧ k.unpackerState = k'.unpackerState := by
  unfold extract at h
  split at h
  · cases h
  · rename_i hstart
    rcases hr : kcf.readLastRecord with ⟨e, k₁⟩
    rw [hr] at h
    cases e with
    | ok =>
      obtain ⟨x, hb, hi, rfl⟩ := readLastRecord_ok hr
      dsimp only at h
      split at h
      · cases h
      · obtain ⟨⟨e, R, heap⟩, hinfo, h⟩ := Exec.bind_ok h
        cases e with
        | ok =>
          dsimp only at h
          rw [if_neg (by simp)] at h
          obtain ⟨⟨e, k', out'⟩, hloop, h⟩ := Exec.bind_ok h
          cases h
          exact ⟨Bool.eq_false_iff.mpr (mt .inl hstart), x, hb, hi, not_not.mp ‹_›, R, heap, k',
            hinfo, hloop, rfl, rfl⟩
        | _ => cases h
    | _ => cases h

end KCF

/-- The record passes its check, and what was given of its added data has the checksum that it
announces. -/
def Trusted (p : Consumed × List UInt8) : Prop :=
  recValidate p.1.record = true ∧
    (recHasAddedDataCRC p.1.record = true → crc32c 0 p.2 = p.1.record.addedDataCRC32)

/-- The checksum in front of a record is that of its other bytes. -/
def ValidBytes (a : List UInt8) : Prop :=
  LittleEndian.field a 0 2 = (crc32c 0 (a.drop 2)).toNat % 2 ^ 16

/-- The checksum of the added data, if a record announces one, is that of these bytes. -/
def SumsTo (a added : List UInt8) : Prop :=
  addedDataCRCWidth (flagsAt a) ≠ 0 →
    LittleEndian.field a (6 + addedSizeWidth (flagsAt a)) 4 = (crc32c 0 added).toNat

/-- The flags of a record announce a fragment behind it. -/
def ContinuesAt (a : List UInt8) : Prop := flagsAt a &&& 0x01 ≠ 0

instance (a : List UInt8) : Decidable (ValidBytes a) := inferInstanceAs (Decidable (_ = _))

instance (a : List UInt8) : Decidable (ContinuesAt a) := inferInstanceAs (Decidable (_ ≠ _))

namespace IOStream

/-- The added data of a record that starts here, as far as it stands on the stream. -/
def addedAhead (s : IOStream) (a : List UInt8) : List UInt8 :=
  (s.after s.recordCounts).ahead.take (addedSizeAt a)

/-- The stream behind a record that starts here and its added data. -/
def nextRecord (s : IOStream) (a : List UInt8) : IOStream :=
  (s.after s.recordCounts).after (KCF.copyCounts (addedSizeAt a))

end IOStream

/-- The record at this place of the stream passes its check, and the data behind it that of the
added data; and so it is with the fragments that continue it, so many at most, with no data for
the check of the last one. -/
def SoundFile : ℕ → IOStream → Heap → Heap → Prop
  | 0, s, first, _ =>
    ValidBytes (s.received first) ∧ SumsTo (s.received first) (s.addedAhead (s.received first))
  | n + 1, s, first, heap =>
    ValidBytes (s.received first) ∧ SumsTo (s.received first) (s.addedAhead (s.received first)) ∧
      (ContinuesAt (s.received first) →
        if ContinuesAt ((s.nextRecord (s.received first)).received heap) then
          SoundFile n (s.nextRecord (s.received first)) heap heap.next
        else
          ValidBytes ((s.nextRecord (s.received first)).received heap) ∧
            SumsTo ((s.nextRecord (s.received first)).received heap) [])

theorem soundFile_succ {n : ℕ} {s t : IOStream} {first heap : Heap} {a b : List UInt8}
    (ha : s.received first = a) (ht : s.nextRecord a = t) (hb : t.received heap = b) :
    SoundFile (n + 1) s first heap ↔
      ValidBytes a ∧ SumsTo a (s.addedAhead a) ∧ (ContinuesAt a →
        if ContinuesAt b then SoundFile n t heap heap.next else ValidBytes b ∧ SumsTo b []) := by
  subst ha ht hb
  rfl

namespace Consumed

variable {x y : Consumed} {kcf k : KCF} {output out : IOStream} {d : List UInt8}

/-- The bytes that the stream handed over for the record. -/
def handed (x : Consumed) : List UInt8 := x.before.stream.received x.before.heap

theorem record_eq (x : Consumed) : x.record = x.into.whole x.handed ∧ HoldsRecord x.handed ∧
    sizeAt x.handed = x.handed.length := KCF.readRecord_received x.read

theorem continues_iff (x : Consumed) : x.record.Continues ↔ ContinuesAt x.handed := by
  rw [x.record_eq.1]
  rfl

theorem toNat_addedSize (x : Consumed) : x.record.addedSize.toNat = addedSizeAt x.handed := by
  rw [x.record_eq.1]
  exact x.into.toNat_parsed_addedSize x.handed

theorem standing_eq (x : Consumed) : x.standing = x.before.stream.addedAhead x.handed := by
  rw [standing, toNat_addedSize, (KCF.readRecord_follows x.read).1]
  rfl

theorem addedDataCRC_iff (x : Consumed) (d : List UInt8) :
    (recHasAddedDataCRC x.record = true → crc32c 0 d = x.record.addedDataCRC32) ↔
      SumsTo x.handed d := by
  obtain ⟨hrec, -, -⟩ := x.record_eq
  have hflags : x.record.headFlags = flagsAt x.handed := by rw [hrec, Record.whole_headFlags]
  have hwidth : addedDataCRCWidth (flagsAt x.handed) ≠ 0 ↔
      flagsAt x.handed &&& KCF_HAS_ADDED_DATA_CRC32 ≠ 0 := by
    unfold addedDataCRCWidth
    split <;> simp_all
  rw [recHasAddedDataCRC_iff, hflags, SumsTo, hwidth]
  refine forall_congr' fun hc => ?_
  have hfour : addedDataCRCWidth (flagsAt x.handed) = 4 := if_pos hc
  have hfield : x.record.addedDataCRC32.toNat =
      LittleEndian.field x.handed (6 + addedSizeWidth (flagsAt x.handed)) 4 := by
    have hlt := LittleEndian.field_lt x.handed (6 + addedSizeWidth (flagsAt x.handed)) 4
    rw [hrec]
    rw [← hfour] at hlt ⊢
    exact (UInt32.toNat_ofNat' ..).trans (Nat.mod_eq_of_lt (hlt.trans_eq (by rw [hfour]; rfl)))
  rw [← UInt32.toNat_inj, hfield]
  exact eq_comm

theorem trusted_iff (x : Consumed) (d : List UInt8) :
    Trusted (x, d) ↔ ValidBytes x.handed ∧ SumsTo x.handed d := by
  obtain ⟨hrec, hholds, hsize⟩ := x.record_eq
  have hvalid : recValidate x.record = true ↔ ValidBytes x.handed := by
    rw [hrec, x.into.recValidate_whole hholds, hsize, List.take_length]
    rfl
  exact and_congr hvalid (x.addedDataCRC_iff d)

theorem nextRecord_eq (hx : kcf.Entered x) (hd : kcf.Copied output d k out) :
    k.stream = x.before.stream.nextRecord x.handed := by
  rw [hd.stream, hx.stream, hx.available, (KCF.readRecord_announces x.read).available,
    toNat_addedSize, (KCF.readRecord_follows x.read).1]
  rfl

theorem handed_continued (hx : kcf.Entered x) (hd : kcf.Copied output d k out)
    (hy : k.Continued y) :
    x.before.stream.nextRecord x.handed = y.before.stream ∧ y.before.heap = kcf.heap ∧
      y.before.stream.received kcf.heap = y.handed := by
  have hheap : y.before.heap = kcf.heap := by rw [hy.before, hd.heap]
  refine ⟨?_, hheap, by rw [handed, hheap]⟩
  rw [hy.before, nextRecord_eq hx hd]

end Consumed

/-- What a run gives can be trusted exactly when what stands on the stream is sound. -/
theorem Extracts.trusted_iff {x : Consumed} {kcf k : KCF} {output out : IOStream}
    {tr : List (Consumed × List UInt8)} (h : Extracts x kcf output tr k out)
    (hx : kcf.Entered x) {n : ℕ} (hn : tr.length ≤ n + 1) :
    (∀ p ∈ tr, Trusted p) ↔ SoundFile n x.before.stream x.before.heap kcf.heap := by
  induction h generalizing n with
  | @last x _ _ _ _ _ hd hc =>
    obtain rfl := hd.eq_standing hx
    rw [List.forall_mem_singleton, x.trusted_iff, x.standing_eq]
    cases n with
    | zero => exact Iff.rfl
    | succ n =>
      refine ⟨fun h => ⟨h.1, h.2, fun hcont => ?_⟩, fun h => ⟨h.1, h.2.1⟩⟩
      exact absurd (x.continues_iff.mpr hcont) hc
  | @stop x y _ _ _ _ _ hd hc hy hcy =>
    obtain rfl := hd.eq_standing hx
    obtain ⟨n, rfl⟩ := Nat.exists_eq_add_of_le' (show 1 ≤ n from Nat.le_of_succ_le_succ hn)
    obtain ⟨hstream, -, hbytes⟩ := Consumed.handed_continued hx hd hy
    have hsound := soundFile_succ (n := n) (a := x.handed) rfl hstream hbytes
    rw [hsound, List.forall_mem_cons, List.forall_mem_singleton, x.trusted_iff, y.trusted_iff,
      x.standing_eq, if_neg (mt y.continues_iff.mpr hcy), and_assoc,
      forall_prop_of_true (x.continues_iff.mp hc)]
  | @next x y _ _ _ _ _ _ _ tr hd hc hy hcy htr ih =>
    obtain rfl := hd.eq_standing hx
    have hpos : 0 < tr.length := by cases htr <;> exact Nat.succ_pos _
    obtain ⟨n, rfl⟩ := Nat.exists_eq_add_of_le' (show 1 ≤ n by rw [List.length_cons] at hn; omega)
    obtain ⟨hstream, hheap, hbytes⟩ := Consumed.handed_continued hx hd hy
    have hrest := ih (KCF.entered_loaded y) (Nat.le_of_succ_le_succ hn)
    rw [show y.loaded.heap = y.before.heap.next from y.after_heap, hheap] at hrest
    have hsound := soundFile_succ (n := n) (a := x.handed) rfl hstream hbytes
    rw [hsound, List.forall_mem_cons, x.trusted_iff, x.standing_eq, hrest,
      if_pos (y.continues_iff.mp hcy), and_assoc, forall_prop_of_true (x.continues_iff.mp hc)]

namespace KCF

/-- A run of the loop that ends well can be trusted exactly when the bytes that stand on the stream
are sound, from the first record on. -/
theorem extractLoop_trusted_iff {kcf k : KCF} {output out : IOStream} {x : Consumed}
    {rounds fuel : ℕ} (hx : kcf.Entered x)
    (h : extractLoop fuel rounds kcf output = .ok (.ok, k, out)) :
    ∃ tr, Extracts x kcf output tr k out ∧
      ((∀ p ∈ tr, Trusted p) ↔ SoundFile rounds x.before.stream x.before.heap kcf.heap) := by
  obtain ⟨tr, htr, hlen⟩ := extracts_of_loop hx h
  exact ⟨tr, htr, htr.trusted_iff hx hlen⟩

/-- A record with a byte added to it, both with the right checksums, and the fragment that continues
it. -/
def intact : List UInt8 :=
  [0xAB, 0xF7, 0x46, 0xA1, 14, 0, 1, 0, 0, 0, 0xBA, 0x37, 0xB7, 0x86, 7, 0xE1, 0x74, 0x44, 0, 6, 0]

def intactRecord : Consumed where
  before := unpacking (.ofBytes intact)
  into := Record.zero
  after := ((unpacking (.ofBytes intact)).readRecord (some Record.zero)).2.1
  record := Record.zero.whole (intact.take 14)
  read := rfl

theorem extractLoop_trusted_iff_intact :
    ∃ k out tr, extractLoop 1 1 intactRecord.loaded (.ofBytes []) = .ok (.ok, k, out) ∧
      Extracts intactRecord intactRecord.loaded (.ofBytes []) tr k out ∧ ∀ p ∈ tr, Trusted p := by
  have hrun : ∃ k out, extractLoop 1 1 intactRecord.loaded (.ofBytes []) = .ok (.ok, k, out) :=
    ⟨_, _, rfl⟩
  obtain ⟨k, out, hrun⟩ := hrun
  obtain ⟨tr, htr, hiff⟩ := extractLoop_trusted_iff (entered_loaded intactRecord) hrun
  refine ⟨k, out, tr, hrun, htr, hiff.mpr ⟨by decide +kernel, fun _ => by decide +kernel, ?_⟩⟩
  intro hcont
  rw [if_neg (by decide +kernel)]
  exact ⟨by decide +kernel, fun _ => by decide +kernel⟩

/-- A record with a wrong checksum, and a byte added to it that has another one than announced. -/
def corrupted : List UInt8 := [0, 0, 0x46, 0xA0, 14, 0, 1, 0, 0, 0, 0, 0, 0, 0, 7]

def corruptedRecord : Consumed where
  before := unpacking (.ofBytes corrupted)
  into := Record.zero
  after := ((unpacking (.ofBytes corrupted)).readRecord (some Record.zero)).2.1
  record := Record.zero.whole corrupted
  read := rfl

/-- The corrupted byte is extracted, and the run ends well. -/
theorem corrupted_extracted :
    ((unpacking (.ofBytes corrupted)).extract 1 1 (.ofBytes [])).map
        (fun r => (r.1, r.2.2.bytes)) = .ok (.ok, [7]) ∧
      ∃ k out tr, extractLoop 1 1 corruptedRecord.loaded (.ofBytes []) = .ok (.ok, k, out) ∧
        Extracts corruptedRecord corruptedRecord.loaded (.ofBytes []) tr k out ∧
        ∃ p ∈ tr, ¬ Trusted p := by
  have hrun : ∃ k out, extractLoop 1 1 corruptedRecord.loaded (.ofBytes []) = .ok (.ok, k, out) :=
    ⟨_, _, rfl⟩
  have hvalid : ¬ ValidBytes corruptedRecord.handed := by decide +kernel
  obtain ⟨k, out, hrun⟩ := hrun
  obtain ⟨tr, htr, hlen⟩ := extracts_of_loop (entered_loaded corruptedRecord) hrun
  refine ⟨by decide +kernel, k, out, tr, hrun, htr, ?_⟩
  by_contra hall
  push Not at hall
  exact hvalid ((htr.trusted_iff (entered_loaded corruptedRecord) hlen).mp hall).1

end KCF

end Kcf
