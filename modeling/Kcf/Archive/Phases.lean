import Kcf.Archive.Beginning
import Kcf.Archive.Packing
import Kcf.Archive.Unpacking
import Kcf.Reader.Frame
import Kcf.Writer.Append

/-! # The phases of a handle

A handle stands at the marker of an archive or among its records, and no call leads
from one of the two to the other. One that is not marked as writing, and no call ever
marks one, stores nothing at the marker, and among the records it only does so once it
has started to write.
-/

namespace Kcf

namespace ParserState

/-- The states of a handle before an archive is opened or started. -/
def AtMarker (x : ParserState) : Prop :=
  x = .neutral ∨ x = .reading ∨ x = .readMarker ∨ x = .writeMarker

/-- The states of a handle that reads or writes records. -/
def AmongRecords (x : ParserState) : Prop :=
  x = .readRecordHeader ∨ x = .readRecordData ∨ x = .readAddedData ∨ x = .writeRecord ∨
    x = .writeAddedData

/-- The states in which records or added data are written. -/
def Writes (x : ParserState) : Prop := x = .writing ∨ x = .writeRecord ∨ x = .writeAddedData

instance (x : ParserState) : Decidable x.AtMarker := inferInstanceAs (Decidable (_ ∨ _ ∨ _ ∨ _))

instance (x : ParserState) : Decidable x.AmongRecords :=
  inferInstanceAs (Decidable (_ ∨ _ ∨ _ ∨ _ ∨ _))

instance (x : ParserState) : Decidable x.Writes := inferInstanceAs (Decidable (_ ∨ _ ∨ _))

theorem not_atMarker_of_writes {x : ParserState} (h : x.Writes) : ¬ x.AtMarker := by
  rcases h with rfl | rfl | rfl <;> decide

theorem not_atMarker_of_records {x : ParserState} (h : x.AmongRecords) : ¬ x.AtMarker := by
  rcases h with rfl | rfl | rfl | rfl | rfl <;> decide

theorem writes_of_ready {x : ParserState} (h : x = .writeRecord ∨ x = .writeAddedData) :
    x.Writes ∧ x.AmongRecords := by
  rcases h with rfl | rfl <;> decide

end ParserState

namespace KCF

/-- The handle is not marked as writing and is in no state in which something is written. -/
structure Silent (kcf : KCF) : Prop where
  isWriting : kcf.isWriting = false
  state : ¬ kcf.parserState.Writes

/-- Two handles are in one phase. -/
structure SamePhase (u v : KCF) : Prop where
  isWriting : v.isWriting = u.isWriting
  atMarker : u.parserState.AtMarker → v.parserState.AtMarker
  amongRecords : u.parserState.AmongRecords → v.parserState.AmongRecords

/-- Two handles are in one phase, and the first one, if it is silent, only reads until it is the
second. -/
structure Moves (u v : KCF) : Prop extends SamePhase u v where
  silent : u.Silent → v.Silent ∧ u.stream.ReadOn v.stream

/-- The packer, the unpacker and their current file are left alone besides. -/
structure MovesOn (u v : KCF) : Prop extends Moves u v where
  currentFile : v.currentFile = u.currentFile
  packerState : v.packerState = u.packerState

variable {u v w kcf : KCF} {e : KcfError}

theorem SamePhase.trans (h : SamePhase u v) (h' : SamePhase v w) : SamePhase u w :=
  ⟨h'.isWriting.trans h.isWriting, h'.atMarker ∘ h.atMarker, h'.amongRecords ∘ h.amongRecords⟩

theorem Moves.trans (h : Moves u v) (h' : Moves v w) : Moves u w where
  toSamePhase := h.toSamePhase.trans h'.toSamePhase
  silent hu := by
    obtain ⟨hv, hr⟩ := h.silent hu
    obtain ⟨hw, hr'⟩ := h'.silent hv
    exact ⟨hw, hr.trans hr'⟩

theorem MovesOn.trans (h : MovesOn u v) (h' : MovesOn v w) : MovesOn u w :=
  ⟨h.toMoves.trans h'.toMoves, h'.currentFile.trans h.currentFile,
    h'.packerState.trans h.packerState⟩

theorem Moves.same (hw : v.isWriting = u.isWriting) (hp : v.parserState = u.parserState)
    (hs : u.stream.ReadOn v.stream) : Moves u v := by
  refine ⟨⟨hw, fun h => hp ▸ h, fun h => hp ▸ h⟩, fun h => ⟨⟨hw.trans h.isWriting, ?_⟩, hs⟩⟩
  rw [hp]
  exact h.state

theorem Moves.refl (u : KCF) : Moves u u := .same rfl rfl (.refl _)

theorem MovesOn.refl (u : KCF) : MovesOn u u := ⟨.refl u, rfl, rfl⟩

theorem MovesOn.of_marker (hu : u.parserState.AtMarker) (hv : v.parserState.AtMarker)
    (hf : u.SameFile v) (hs : v.stream = u.stream) : MovesOn u v := by
  refine ⟨⟨⟨hf.isWriting, fun _ => hv, fun h => ?_⟩, fun h => ⟨⟨?_, fun h => ?_⟩, ?_⟩⟩,
    hf.currentFile, hf.packerState⟩
  · exact absurd hu (ParserState.not_atMarker_of_records h)
  · exact hf.isWriting.trans h.isWriting
  · exact absurd hv (ParserState.not_atMarker_of_writes h)
  · rw [hs]
    exact .refl _

theorem MovesOn.of_reading (hu : u.parserState.AmongRecords) (hv : v.parserState.AmongRecords)
    (hn : ¬ v.parserState.Writes) (hf : u.SameFile v) (hs : u.ReadOn v) : MovesOn u v :=
  ⟨⟨⟨hf.isWriting, fun h => absurd h (ParserState.not_atMarker_of_records hu), fun _ => hv⟩,
    fun h => ⟨⟨hf.isWriting.trans h.isWriting, hn⟩, hs.stream⟩⟩, hf.currentFile, hf.packerState⟩

theorem MovesOn.of_writing (hu : u.parserState.Writes) (hv : v.parserState.AmongRecords)
    (hw : v.isWriting = u.isWriting) (hc : v.currentFile = u.currentFile)
    (hp : v.packerState = u.packerState) : MovesOn u v :=
  ⟨⟨⟨hw, fun h => absurd h (ParserState.not_atMarker_of_writes hu), fun _ => hv⟩,
    fun h => absurd hu h.state⟩, hc, hp⟩

theorem Finish.movesOn (h : kcf.Finish e v) : kcf.MovesOn v := by
  have hopen (hp : kcf.Patches) : kcf.parserState.Writes := .inr (.inr hp.1)
  have hstay (hp : kcf.Patches) : kcf.parserState.AmongRecords := .inr (.inr (.inr (.inr hp.1)))
  have hclosed : ParserState.AmongRecords .writeRecord := .inr (.inr (.inr (.inl rfl)))
  cases h with
  | refused => exact .refl _
  | kept hp => exact .of_writing (.inr (.inr hp)) hclosed rfl rfl rfl
  | seekFailed hp => exact .of_writing (hopen hp) (hstay hp) rfl rfl rfl
  | noMemory hp => exact .of_writing (hopen hp) (hstay hp) rfl rfl rfl
  | writeFailed hp => exact .of_writing (hopen hp) (hstay hp) rfl rfl rfl
  | patched hp => exact .of_writing (hopen hp) hclosed rfl rfl rfl

theorem Finish.parserState (h : kcf.Finish .ok v) : v.parserState = .writeRecord := by
  cases h <;> rfl

theorem Accept.movesOn (h : kcf.Accept e v) : kcf.MovesOn v := by
  cases h with
  | refused => exact .refl _
  | started hp => exact .of_writing (.inl hp) (.inr (.inr (.inr (.inl rfl)))) rfl rfl rfl
  | idle => exact .refl _
  | finished _ hf => exact hf.movesOn

theorem Accept.ready (h : kcf.Accept .ok v) :
    v.parserState = .writeRecord ∨ v.parserState = .writeAddedData := by
  cases h with
  | started => exact .inl rfl
  | idle hp => exact .inl hp
  | finished hp hf =>
    cases hf with
    | refused hne => exact absurd hp hne
    | kept => exact .inl rfl
    | patched => exact .inl rfl
    | _ => exact .inr hp

theorem saveRecord_movesOn (h : kcf.parserState.Writes ∧ kcf.parserState.AmongRecords)
    (R : Record) : kcf.MovesOn (kcf.saveRecord R) := by
  have hs := kcf.saveRecord_parserState R
  have hv : (kcf.saveRecord R).parserState.AmongRecords := by
    rw [hs]
    split
    · decide
    · exact h.2
  refine .of_writing h.1 hv ?_ ?_ ?_ <;> cases hz : recHasAddedSize R <;> simp [saveRecord, hz]

theorem WriteRecord.movesOn {R R' : Record} (h : kcf.WriteRecord R e v R') : kcf.MovesOn v := by
  cases h with
  | refused ha => exact ha.movesOn
  | noMemory ha => exact ha.movesOn.trans ⟨.same rfl rfl (.refl _), rfl, rfl⟩
  | failed ha =>
    obtain ⟨hw, hr⟩ := ParserState.writes_of_ready ha.ready
    exact ha.movesOn.trans (.of_writing hw hr rfl rfl rfl)
  | @written k ha =>
    obtain ⟨hw, hr⟩ := ParserState.writes_of_ready ha.ready
    have hplaced : k.MovesOn (k.placed (recFix R)) := .of_writing hw hr rfl rfl rfl
    have hready : (k.placed (recFix R)).parserState.Writes ∧
      (k.placed (recFix R)).parserState.AmongRecords := ⟨hw, hr⟩
    exact ha.movesOn.trans (hplaced.trans (saveRecord_movesOn hready (recFix R)))

theorem WriteWhole.movesOn {R R' : Record} {D : List UInt8} (h : kcf.WriteWhole R D e v R') :
    kcf.MovesOn v := by
  cases h with
  | refused ha => exact ha.movesOn
  | noMemory ha => exact ha.movesOn.trans ⟨.same rfl rfl (.refl _), rfl, rfl⟩
  | headerFailed ha =>
    obtain ⟨hw, hr⟩ := ParserState.writes_of_ready ha.ready
    exact ha.movesOn.trans (.of_writing hw hr rfl rfl rfl)
  | dataFailed ha =>
    obtain ⟨hw, hr⟩ := ParserState.writes_of_ready ha.ready
    exact ha.movesOn.trans (.of_writing hw hr rfl rfl rfl)
  | written ha =>
    obtain ⟨hw, hr⟩ := ParserState.writes_of_ready ha.ready
    exact ha.movesOn.trans (.of_writing hw hr rfl rfl rfl)

theorem WriteData.movesOn {data : List UInt8} {size : ℕ} (h : kcf.WriteData data size e v) :
    kcf.MovesOn v := by
  have hstay (hp : kcf.parserState = .writeAddedData) := ParserState.writes_of_ready (.inr hp)
  cases h with
  | refused => exact .refl _
  | exhausted => exact .refl _
  | failed hp => exact .of_writing (hstay hp).1 (hstay hp).2 rfl rfl rfl
  | added hp => exact .of_writing (hstay hp).1 (hstay hp).2 rfl rfl rfl

theorem writerStep_movesOn {c : WriterCall} (h : writerStep c u = .ok (e, v)) : u.MovesOn v := by
  cases c with
  | record R =>
    obtain ⟨⟨e', k, R'⟩, hr, hk⟩ := Exec.bind_ok h
    cases hk
    exact (writeRecord_of_eq hr).movesOn
  | whole R D =>
    obtain ⟨⟨e', k, R'⟩, hr, hk⟩ := Exec.bind_ok h
    cases hk
    exact (writeWhole_of_eq hr).movesOn
  | data addedData size => exact (writeData_of_eq h).movesOn
  | finish => exact (finish_of_eq h).movesOn

theorem readRecord_movesOn (kcf : KCF) (R : Option Record) :
    kcf.MovesOn (kcf.readRecord R).2.1 := by
  cases R with
  | none => exact .refl _
  | some R =>
    have hc := kcf.readRecord_cases R
    have hf := kcf.readRecord_sameFile R
    have hr := kcf.readRecord_readOn (some R)
    generalize kcf.readRecord (some R) = x at hc hf hr
    obtain ⟨e, k, R'⟩ := x
    cases hc with
    | refused => exact .refl _
    | noHeader hp _ hk => exact .of_reading (.inl hp) (.inl hk) (by rw [hk]; decide) hf hr
    | noData hp _ _ _ hk => exact .of_reading (.inl hp) (.inr (.inl hk)) (by rw [hk]; decide) hf hr
    | read hp _ _ hk =>
      have hbehind : k.parserState.AmongRecords ∧ ¬ k.parserState.Writes := by
        rw [hk]
        split <;> decide
      exact .of_reading (.inl hp) hbehind.1 hbehind.2 hf hr

theorem readAddedData_movesOn {n : Option ℕ} {r : KcfError × KCF × List UInt8 × Option ℕ}
    (h : kcf.readAddedData n = .ok r) : kcf.MovesOn r.2.1 := by
  cases n with
  | none =>
    cases h
    exact .refl _
  | some n =>
    have hf := readAddedData_sameFile h
    have hr := readAddedData_readOn h
    have hdata : kcf.parserState = .readAddedData → kcf.parserState.AmongRecords :=
      fun hp => .inr (.inr (.inl hp))
    have hc := readAddedData_cases h
    obtain ⟨e, k, bytes, m⟩ := r
    cases hc with
    | refused => exact .refl _
    | nothing hp _ hk =>
      exact .of_reading (hdata hp) (.inr (.inr (.inl hk))) (by rw [hk]; decide) hf hr
    | short hp _ hk =>
      exact .of_reading (hdata hp) (.inr (.inr (.inl hk))) (by rw [hk]; decide) hf hr
    | read hp _ hk =>
      have hbehind : k.parserState.AmongRecords ∧ ¬ k.parserState.Writes := by
        rw [hk]
        split <;> decide
      exact .of_reading (hdata hp) hbehind.1 hbehind.2 hf hr

theorem skipBytes_sameFile {fuel : ℕ} {size : UInt64} {r : KcfError × KCF}
    (h : kcf.skipBytes fuel size = .ok r) : kcf.SameFile r.2 := by
  obtain ⟨stream, rfl⟩ := skipBytes_cases h
  exact ⟨rfl, rfl, rfl, rfl⟩

theorem skipRecord_sameFile {fuel : ℕ} {header : Record} {r : KcfError × KCF}
    (h : kcf.skipRecord fuel header = .ok r) : kcf.SameFile r.2 := by
  by_cases hh : kcf.parserState = .readRecordHeader
  · have hf := kcf.readRecordHeader_sameFile header
    rw [skipRecord_of_header hh] at h
    generalize kcf.readRecordHeader header = x at h hf
    obtain ⟨e, k, R', n⟩ := x
    cases e with
    | ok => exact hf.trans (skipBytes_sameFile h)
    | _ =>
      cases h
      exact hf
  · by_cases ha : kcf.parserState = .readAddedData
    · rw [skipRecord_of_added ha] at h
      exact skipBytes_sameFile h
    · rw [skipRecord_of_ne hh ha] at h
      cases h
      exact .refl _

theorem skipRecord_movesOn {fuel : ℕ} {header : Record} {r : KcfError × KCF}
    (h : kcf.skipRecord fuel header = .ok r) : kcf.MovesOn r.2 := by
  have hf := skipRecord_sameFile h
  have hr := skipRecord_readOn h
  have hc := skipRecord_cases h
  obtain ⟨e, k⟩ := r
  cases hc with
  | refused => exact .refl _
  | noHeader hp _ hk => exact .of_reading (.inl hp) (.inl hk) (by rw [hk]; decide) hf hr
  | header hp _ hk => exact .of_reading (.inl hp) (.inr (.inl hk)) (by rw [hk]; decide) hf hr
  | added hp hk =>
    exact .of_reading (.inr (.inr (.inl hp))) (.inr (.inr (.inl hk))) (by rw [hk]; decide) hf hr

theorem flushed_movesOn (hu : u.parserState.Writes) (h : u.MovesOn v)
    (hv : v.parserState = .writeRecord) : u.MovesOn (startReading.flushed v).2 := by
  have hend : (startReading.flushed v).2.parserState.AmongRecords := by
    unfold startReading.flushed
    dsimp only
    split
    · rw [hv]
      decide
    · exact .inl rfl
  have hsame : v.SameFile (startReading.flushed v).2 := by
    unfold startReading.flushed
    dsimp only
    split <;> exact ⟨rfl, rfl, rfl, rfl⟩
  exact .of_writing hu hend (hsame.isWriting.trans h.isWriting)
    (hsame.currentFile.trans h.currentFile) (hsame.packerState.trans h.packerState)

theorem startReading_movesOn (h : kcf.startReading = .ok (e, v)) : kcf.MovesOn v := by
  unfold startReading at h
  split at h
  case h_1 hp | h_2 hp =>
    cases h
    exact .of_marker (by rw [hp]; decide) (.inr (.inr (.inl rfl))) ⟨rfl, rfl, rfl, rfl⟩ rfl
  case h_3 hp =>
    cases h
    exact .of_marker (by rw [hp]; decide) (.inr (.inl rfl)) ⟨rfl, rfl, rfl, rfl⟩ rfl
  case h_4 hp =>
    obtain ⟨⟨e', k⟩, hf, h⟩ := Exec.bind_ok h
    have hf := finish_of_eq hf
    dsimp only at h
    split at h
    · cases h
      exact hf.movesOn
    · rename_i he
      obtain rfl : e' = .ok := not_not.mp he
      obtain rfl : (startReading.flushed k).2 = v := congrArg Prod.snd (Except.ok.inj h)
      exact flushed_movesOn (.inr (.inr hp)) hf.movesOn hf.parserState
  case h_5 hp =>
    obtain rfl : (startReading.flushed kcf).2 = v := congrArg Prod.snd (Except.ok.inj h)
    exact flushed_movesOn (.inr (.inl hp)) (.refl _) hp
  case h_6 =>
    cases h
    exact .refl _

theorem readerStep_movesOn {c : ReaderCall} {a : ReaderResult}
    (h : readerStep c u = .ok (a, v)) : u.MovesOn v := by
  cases c with
  | readRecord R =>
    have hm := u.readRecord_movesOn R
    change Except.ok (ofRecord (u.readRecord R)) = _ at h
    generalize u.readRecord R = x at h hm
    cases h
    exact hm
  | readAddedData bufferSize =>
    obtain ⟨r, hx, hr⟩ := Exec.map_ok h
    cases hr
    exact readAddedData_movesOn hx
  | isAddedDataAvailable =>
    cases h
    exact .refl _
  | skipRecord fuel header =>
    obtain ⟨r, hx, hr⟩ := Exec.map_ok h
    cases hr
    exact skipRecord_movesOn hx
  | startReading =>
    obtain ⟨r, hx, hr⟩ := Exec.map_ok h
    cases hr
    exact startReading_movesOn hx

theorem findMarkerLoop_readOn {fuel : ℕ} {s : IOStream} {buf : List UInt8}
    {r : Bool × ℤ × IOStream} (h : findMarkerLoop fuel s buf = .ok r) : s.ReadOn r.2.2 := by
  induction fuel generalizing s buf with
  | zero => cases h
  | succ fuel ih =>
    have hr := IOStream.ReadOn.ioRead s 1
    unfold findMarkerLoop at h
    split at h
    · cases h
      exact .refl _
    · generalize ioRead s 1 = x at h hr
      obtain ⟨ret, bytes, s'⟩ := x
      dsimp only at h
      split at h
      · exact hr.trans (ih h)
      · cases h
        exact hr

theorem findMarker_movesOn (h : kcf.findMarker = .ok (e, v)) : kcf.MovesOn v := by
  unfold findMarker at h
  split at h
  · cases h
    exact .refl _
  · obtain ⟨⟨found, ret, stream⟩, hl, h⟩ := Exec.bind_ok h
    have hr := findMarkerLoop_readOn hl
    dsimp only at h
    split at h
    · cases h
      exact ⟨.same rfl rfl hr, rfl, rfl⟩
    · split at h <;>
      · cases h
        exact ⟨.same rfl rfl hr, rfl, rfl⟩

theorem writeMarker_movesOn (kcf : KCF) : kcf.MovesOn kcf.writeMarker.2 := by
  cases hw : kcf.isWriting with
  | false =>
    rw [writeMarker_of_not_writing hw]
    exact .refl _
  | true =>
    have hsilent {v : KCF} (h : kcf.Silent) : v.Silent ∧ kcf.stream.ReadOn v.stream :=
      absurd (hw.symm.trans h.isWriting) (by decide)
    unfold writeMarker
    split
    · exact .refl _
    · dsimp only
      split
      · exact ⟨⟨⟨rfl, id, id⟩, hsilent⟩, rfl, rfl⟩
      · exact ⟨⟨⟨rfl, id, id⟩, hsilent⟩, rfl, rfl⟩

theorem startWriting_of_header (h : kcf.parserState = .readRecordHeader) :
    kcf.startWriting = (.ok, kcf.setState .writeRecord) := by
  unfold startWriting
  rw [h]

theorem startWriting_movesOn (h : kcf.parserState ≠ .readRecordHeader) :
    kcf.MovesOn kcf.startWriting.2 := by
  have hmarker : (kcf.setState .writeMarker).MovesOn (kcf.setState .writeMarker).writeMarker.2 :=
    writeMarker_movesOn _
  have hset (hp : kcf.parserState.AtMarker) : kcf.MovesOn (kcf.setState .writeMarker) :=
    .of_marker hp (.inr (.inr (.inr rfl))) ⟨rfl, rfl, rfl, rfl⟩ rfl
  unfold startWriting
  split
  case h_1 hp => exact (hset (.inl hp)).trans hmarker
  case h_2 hp => exact (hset (.inr (.inl hp))).trans hmarker
  case h_3 hp =>
    -- a state that is neither of the marker nor of the records, and one that writes
    have hstart : kcf.MovesOn (kcf.setState .writeMarker) :=
      ⟨⟨⟨rfl, fun h => absurd h (by rw [hp]; decide), fun h => absurd h (by rw [hp]; decide)⟩,
        fun h => absurd (.inl hp) h.state⟩, rfl, rfl⟩
    exact hstart.trans hmarker
  case h_4 hp => exact (hset (.inr (.inr (.inl hp)))).trans hmarker
  case h_5 hp => exact absurd hp h
  all_goals exact .refl _

theorem startWriting_samePhase (kcf : KCF) : kcf.SamePhase kcf.startWriting.2 := by
  by_cases h : kcf.parserState = .readRecordHeader
  · rw [startWriting_of_header h]
    refine ⟨rfl, fun hm => ?_, fun _ => .inr (.inr (.inr (.inl rfl)))⟩
    rw [h] at hm
    exact absurd hm (by decide)
  · exact (startWriting_movesOn h).toSamePhase

theorem writeArchiveHeader_movesOn {local₀ : Record}
    (h : kcf.writeArchiveHeader local₀ = .ok (e, v)) : kcf.MovesOn v := by
  obtain ⟨⟨R, heap⟩, -, h⟩ := Exec.bind_ok h
  obtain ⟨⟨e', k, R'⟩, hw, h⟩ := Exec.bind_ok h
  cases h
  have hstart : kcf.MovesOn { kcf with heap := heap } := ⟨.same rfl rfl (.refl _), rfl, rfl⟩
  exact hstart.trans (writeRecord_of_eq hw).movesOn

theorem initArchive_cases {local₀ : Record} (h : kcf.initArchive local₀ = .ok (e, v)) :
    v = kcf.startWriting.2 ∨ kcf.startWriting.2.MovesOn v := by
  unfold initArchive at h
  rcases hs : kcf.startWriting with ⟨e', k⟩
  rw [hs] at h
  cases e' with
  | ok => exact .inr (writeArchiveHeader_movesOn h)
  | _ =>
    cases h
    exact .inl rfl

theorem initArchive_samePhase {local₀ : Record} (h : kcf.initArchive local₀ = .ok (e, v)) :
    kcf.SamePhase v := by
  rcases initArchive_cases h with rfl | hm
  · exact kcf.startWriting_samePhase
  · exact kcf.startWriting_samePhase.trans hm.toSamePhase

theorem initArchive_movesOn {local₀ : Record} (hp : kcf.parserState ≠ .readRecordHeader)
    (h : kcf.initArchive local₀ = .ok (e, v)) : kcf.MovesOn v := by
  rcases initArchive_cases h with rfl | hm
  · exact startWriting_movesOn hp
  · exact (startWriting_movesOn hp).trans hm

theorem startWriting_sameFile (kcf : KCF) : kcf.SameFile kcf.startWriting.2 := by
  have hmarker (k : KCF) : k.SameFile k.writeMarker.2 := by
    unfold writeMarker
    split
    · exact .refl _
    · dsimp only
      split <;> exact ⟨rfl, rfl, rfl, rfl⟩
  have hset : kcf.SameFile (kcf.setState .writeMarker) := ⟨rfl, rfl, rfl, rfl⟩
  unfold startWriting
  split
  case h_1 | h_2 | h_3 | h_4 => exact hset.trans (hmarker _)
  case h_5 => exact ⟨rfl, rfl, rfl, rfl⟩
  all_goals exact .refl _

end KCF

end Kcf
