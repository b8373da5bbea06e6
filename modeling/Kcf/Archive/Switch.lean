import Kcf.Archive.Basic
import Kcf.Reader.Frame
import Kcf.Reader.States
import Kcf.Writer.Append

/-! # From reading to writing

The reader and the writer share their counters and the checksum of the added
data, and going over to writing clears none of them. What the reader leaves in
them is added to what the first open record counts, so that its header tells
the truth exactly when nothing is left over that the header can show.
-/

namespace Kcf

open CallMachine LittleEndian

/-- The header at an offset tells the size of the added data and, when the flags announce it, its
checksum. -/
def HeaderTells (bytes : List UInt8) (offset : ℕ) (flags : UInt8) (added : List UInt8) : Prop :=
  field bytes (offset + 6) (addedSizeWidth flags) = added.length ∧
    (flags &&& KCF_HAS_ADDED_DATA_CRC32 ≠ 0 →
      field bytes (offset + 6 + addedSizeWidth flags) 4 = (crc32c 0 added).toNat)

instance (bytes : List UInt8) (offset : ℕ) (flags : UInt8) (added : List UInt8) :
    Decidable (HeaderTells bytes offset flags added) :=
  inferInstanceAs (Decidable (_ ∧ (_ → _)))

/-- The bytes that a call adds to the open record. -/
def addedByCall : WriterCall × KcfError → List UInt8
  | (.data addedData size, .ok) => addedData.take size
  | _ => []

/-- The bytes that a run of calls adds to the open record. -/
def addedBy (tr : List (WriterCall × KcfError)) : List UInt8 := tr.flatMap addedByCall

/-- Only added data is written. -/
def IsData (c : WriterCall) (_ : KCF) : Prop := ∃ addedData size, c = .data addedData size

variable {pre tail added : List UInt8} {R : Record} {w₀ : UInt64} {c₀ : UInt32} {kcf k : KCF}
  {tr : List (WriterCall × KcfError)}

namespace Streaming

theorem data_step (h : Streaming pre tail R w₀ c₀ added kcf) (h₀ : R.addedSize = 0)
    (hn : kcf.stream.NoneShort) {data : List UInt8} {size : ℕ} {e : KcfError}
    (hc : kcf.WriteData data size e k) :
    Streaming pre tail R w₀ c₀ (added ++ addedByCall (.data data size, e)) k ∧
      k.stream.NoneShort := by
  have hr : kcf.writeRemaining = none := by
    rw [KCF.writeRemaining, h.bound, h₀]
    exact if_neg (by simp)
  have ha : kcf.acceptedSize size = size := by rw [KCF.acceptedSize, hr]
  cases hc with
  | refused hp => exact absurd h.state hp
  | exhausted _ hz => rw [hr] at hz; cases hz
  | failed _ _ _ hw =>
    rw [show addedByCall (.data data size, .write) = [] from rfl, List.append_nil]
    exact ⟨h.failed hw _, hn.ioWrite _⟩
  | added _ _ _ hw =>
    rw [ha, show addedByCall (.data data size, .ok) = data.take size from rfl]
    exact ⟨h.counted (hn.full hw) _, hn.ioWrite _⟩

theorem data_run (hr : Run writerStep IsData kcf tr k) (h₀ : R.addedSize = 0)
    (h : Streaming pre tail R w₀ c₀ added kcf) (hn : kcf.stream.NoneShort) :
    Streaming pre tail R w₀ c₀ (added ++ addedBy tr) k ∧ k.stream.NoneShort := by
  induction hr generalizing added with
  | nil => exact ⟨(List.append_nil added).symm ▸ h, hn⟩
  | cons hg hc _ ih =>
    obtain ⟨data, size, rfl⟩ := hg
    obtain ⟨hs, hns⟩ := h.data_step h₀ hn (KCF.writeData_of_eq hc)
    rw [addedBy, List.flatMap_cons, ← List.append_assoc]
    exact ih hs hns

theorem finished_bytes (h : Streaming pre tail R w₀ c₀ added kcf) (h₀ : R.addedSize = 0)
    (hn : kcf.stream.NoneShort) (hf : kcf.finishAddedData = .ok (.ok, k)) :
    k.stream.bytes = pre ++ ((recFix (R.counted w₀ c₀ added)).encode ++
      (added ++ tail.drop added.length)) := by
  cases KCF.finish_of_eq hf with
  | kept _ hk => exact absurd h₀ (h.keepsHeader_iff.mp hk).1
  | patched _ _ _ _ hw =>
    rw [← List.append_assoc, ← (h.patched_at (hn.full hw)).bytes]
    exact ioSeek_bytes ..

end Streaming

/-- The header that a record of unknown size ends up with tells the truth exactly when the
counter and the checksum started from zero, as far as the header shows them. -/
theorem headerTells_counted (pre cs : List UInt8) (w₀ : UInt64) (c₀ : UInt32)
    (ha : recHasAddedSize R = true) (hlt : added.length < 2 ^ 32) :
    HeaderTells (pre ++ ((recFix (R.counted w₀ c₀ added)).encode ++ cs)) pre.length R.headFlags
        added ↔
      w₀.toNat % 256 ^ addedSizeWidth R.headFlags = 0 ∧
        (recHasAddedDataCRC R = true → c₀ = 0) := by
  have hs := (recFix (R.counted w₀ c₀ added)).field_addedSize cs
  have hc := (recFix (R.counted w₀ c₀ added)).field_addedDataCRC cs
  have hflag := recHasAddedDataCRC_iff (R := R)
  have hw := recHasAddedSize_iff.mp ha
  rw [HeaderTells, Nat.add_assoc, field_append_add, field_append_add, ← hflag]
  refine and_congr ?_ (imp_congr_right fun hcrc => ?_)
  · change field _ 6 (addedSizeWidth R.headFlags) =
      (w₀ + UInt64.ofNat added.length).toNat % 256 ^ addedSizeWidth R.headFlags at hs
    rw [hs, UInt64.toNat_add, UInt64.toNat_ofNat']
    have hlt₀ := w₀.toNat_lt
    rcases addedSizeWidth_cases hw with hw | hw <;> rw [hw] <;> omega
  · have hw₄ : addedDataCRCWidth R.headFlags = 4 := if_pos (hflag.mp hcrc)
    change field _ (6 + addedSizeWidth R.headFlags) (addedDataCRCWidth R.headFlags) =
      (if recHasAddedDataCRC R then crc32c c₀ added else c₀).toNat %
        256 ^ addedDataCRCWidth R.headFlags at hc
    rw [hw₄, if_pos hcrc, Nat.mod_eq_of_lt (show _ < 256 ^ 4 from UInt32.toNat_lt _)] at hc
    rw [hc, UInt32.toNat_inj]
    exact ⟨crc32c_inj, fun h => h ▸ rfl⟩

/-- Added data is written with nothing counted yet. -/
def KCF.StartsClean (kcf : KCF) : Prop :=
  kcf.parserState = .writeAddedData ∧ kcf.writtenAddedData = 0 ∧ kcf.addedDataCRC32 = 0

instance (kcf : KCF) : Decidable kcf.StartsClean := inferInstanceAs (Decidable (_ ∧ _ ∧ _))

theorem Streaming.of_reading {t w : KCF} {R' : Record} (hm : t.heap.Grants)
    (hn : t.stream.NoneShort) (ht : t.parserState = .readRecordHeader)
    (hw : t.startWriting = (.ok, w)) (ha : recHasAddedSize R = true)
    (hk : w.writeRecord R = .ok (.ok, k, R')) :
    Streaming t.stream.behind (t.stream.ahead.drop (recFix R).encode.length) R
        t.addedDataAlreadyRead t.addedDataCRC32 [] k ∧ k.stream.NoneShort := by
  have hstart : t.startWriting = (.ok, t.setState .writeRecord) := by
    unfold KCF.startWriting
    rw [ht]
  obtain rfl : t.setState .writeRecord = w := congrArg Prod.snd (hstart.symm.trans hw)
  cases KCF.writeRecord_of_eq hk with
  | written hacc _ hf hwr =>
    cases hacc with
    | started hp => cases hp
    | finished hp => cases hp
    | idle =>
      have hm' : (t.setState .writeRecord).heap.Grants := hm
      refine ⟨.of_placed hm' (hn.full hwr) hf ha, ?_⟩
      rw [KCF.saveRecord_stream]
      exact hn.ioWrite _

/-- After any run of read calls, the header of the first record of unknown size tells what was
added to it, and its added data starts with nothing counted, exactly when the reader left its
counter and its checksum at zero; for the header alone, as far as it shows them. -/
theorem headerTells_after_reading_iff {s t w u v : KCF} {R' : Record}
    {tr : List (ReaderCall × ReaderResult)} {tw : List (WriterCall × KcfError)}
    (hm : s.heap.Grants) (hn : s.stream.NoneShort)
    (hr : Run readerStep (fun c _ => c ≠ .startReading) s tr t)
    (ht : t.parserState = .readRecordHeader) (hw : t.startWriting = (.ok, w))
    (ha : recHasAddedSize R = true) (h₀ : R.addedSize = 0)
    (hk : w.writeRecord R = .ok (.ok, k, R')) (hd : Run writerStep IsData k tw u)
    (hlt : (addedBy tw).length < 2 ^ 32) (hf : u.finishAddedData = .ok (.ok, v)) :
    (HeaderTells v.stream.bytes t.stream.pos R.headFlags (addedBy tw) ∧ k.StartsClean ↔
        t.addedDataAlreadyRead = 0 ∧ t.addedDataCRC32 = 0) ∧
      (HeaderTells v.stream.bytes t.stream.pos R.headFlags (addedBy tw) ↔
        t.addedDataAlreadyRead.toNat % 256 ^ addedSizeWidth R.headFlags = 0 ∧
          (recHasAddedDataCRC R = true → t.addedDataCRC32 = 0)) := by
  have hread := readOn_of_run hr
  have hnt : t.stream.NoneShort := by
    intro i count
    rw [hread.stream.writes]
    exact hn i count
  obtain ⟨hopen, hnk⟩ := Streaming.of_reading (hread.grants hm) hnt ht hw ha hk
  obtain ⟨hdata, hnu⟩ := Streaming.data_run hd h₀ hopen hnk
  rw [List.nil_append] at hdata
  have hb := hdata.finished_bytes h₀ hnu hf
  have htells := headerTells_counted t.stream.behind
    (addedBy tw ++ (t.stream.ahead.drop (recFix R).encode.length).drop (addedBy tw).length)
    t.addedDataAlreadyRead t.addedDataCRC32 ha hlt
  rw [← hb, t.stream.length_behind] at htells
  refine ⟨?_, htells⟩
  have hwritten : k.writtenAddedData = t.addedDataAlreadyRead :=
    hopen.written.trans (UInt64.add_zero _)
  have hcrc : k.addedDataCRC32 = t.addedDataCRC32 := by
    rw [hopen.crc, crc32c_nil, ite_self]
  rw [htells, KCF.StartsClean, hwritten, hcrc]
  constructor
  · exact fun h => h.2.2
  · exact fun h => ⟨⟨by rw [h.1]; exact Nat.zero_mod _, fun _ => h.2⟩, hopen.state, h⟩

theorem run_oneByte (kcf : KCF) (hw : ¬ (kcf.stream.writes 1).Fails) :
    Run writerStep IsData kcf.openedUnsized [(.data [7] 1, .ok)] kcf.oneByteIn :=
  .cons ⟨[7], 1, rfl⟩ (writeData_oneByte kcf hw).eq (.nil _)

/-- A reader reads a record, its one byte of added data and the record behind it, which has none,
and goes over to writing. -/
theorem headerTells_after_reading_two :
    ∃ tr t w k u v R' tw,
      Run readerStep (fun c _ => c ≠ .startReading)
        (.readingRecord (.adding 1) [7, 0, 0, 0, 0, 6, 0]) tr t ∧
      t.stream.pos = 17 ∧ t.startWriting = (.ok, w) ∧
      w.writeRecord Record.unsized = .ok (.ok, k, R') ∧ Run writerStep IsData k tw u ∧
      addedBy tw = [7] ∧ u.finishAddedData = .ok (.ok, v) ∧
      HeaderTells v.stream.bytes t.stream.pos Record.unsized.headFlags (addedBy tw) ∧
      k.StartsClean := by
  have hr : Run readerStep (fun c _ => c ≠ .startReading)
      (.readingRecord (.adding 1) [7, 0, 0, 0, 0, 6, 0])
      [(.readRecord (some Record.zero), _), (.readAddedData (some 4), _),
        (.readRecord (some Record.zero), _)] _ :=
    .cons nofun rfl (.cons nofun rfl (.cons nofun rfl (.nil _)))
  refine ⟨_, _, _, _, _, _, _, _, hr, by decide +kernel, rfl,
    (writeRecord_unsized _ (by decide +kernel) (by decide +kernel) (by decide +kernel)).eq,
    run_oneByte _ (by decide +kernel), rfl,
    (finish_oneByte _ (by decide +kernel) (by decide +kernel) (by decide +kernel)).eq, ?_⟩
  have hn : (KCF.readingRecord (.adding 1) [7, 0, 0, 0, 0, 6, 0]).stream.NoneShort := nofun
  refine (headerTells_after_reading_iff Heap.grants_zeros hn hr (by decide +kernel) rfl rfl rfl
    (writeRecord_unsized _ ?_ ?_ ?_).eq (run_oneByte _ ?_) (by decide +kernel)
    (finish_oneByte _ ?_ ?_ ?_).eq).1.mpr ⟨?_, ?_⟩
  all_goals decide +kernel

/-- A reader reads a record with one byte of added data and goes over to writing; the record
written then has one byte of added data, and its header tells of two. -/
theorem headerTells_two_of_one :
    ∃ tr t w k u v R' tw,
      Run readerStep (fun _ _ => True) (.readingRecord (.adding 1) [7]) tr t ∧
      t.parserState = .readRecordHeader ∧ t.startWriting = (.ok, w) ∧
      w.writeRecord Record.unsized = .ok (.ok, k, R') ∧ Run writerStep IsData k tw u ∧
      (addedBy tw).length = 1 ∧ u.finishAddedData = .ok (.ok, v) ∧
      ¬ HeaderTells v.stream.bytes t.stream.pos Record.unsized.headFlags (addedBy tw) ∧
      field v.stream.bytes (t.stream.pos + 6) 4 = 2 ∧ ¬ k.StartsClean := by
  have hr : Run readerStep (fun _ _ => True) (.readingRecord (.adding 1) [7])
      [(.readRecord (some Record.zero), _), (.readAddedData (some 4), _)] _ :=
    .cons trivial rfl (.cons trivial rfl (.nil _))
  refine ⟨_, _, _, _, _, _, _, _, hr, by decide +kernel, rfl,
    (writeRecord_unsized _ (by decide +kernel) (by decide +kernel) (by decide +kernel)).eq,
    run_oneByte _ (by decide +kernel), rfl,
    (finish_oneByte _ (by decide +kernel) (by decide +kernel) (by decide +kernel)).eq,
    by decide +kernel, by decide +kernel, by decide +kernel⟩

end Kcf
