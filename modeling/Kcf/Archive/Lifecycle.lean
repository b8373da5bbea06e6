import Kcf.Archive.Calls
import Kcf.Archive.Marker

/-! # The life of a handle

What holds of a handle through every run of calls, in any order and whatever stream and
heap answer: it stays in its phase; a silent one that does not start to write never
writes; a new one never gets to a record; and one that does not write extracts each file
under a name that it was told since the last one.
-/

namespace Kcf

open CallMachine

variable {s t u v kcf : KCF} {e : KcfError} {c : ArchiveCall} {tr : List (ArchiveCall × KcfError)}

abbrev ArchiveRun := Run archiveStep fun _ _ => True

/-- No run of calls marks a handle as writing or leads it from the marker to the records, or
back. -/
theorem archive_stays_in_phase (h : ArchiveRun s tr t) : s.SamePhase t :=
  h.invariant (I := s.SamePhase)
    (fun _ _ _ _ hs _ hc => hs.trans (KCF.archiveStep_samePhase hc)) ⟨rfl, id, id⟩

/-- A silent handle that never starts to write leaves what is stored alone, whatever else it is
called for. -/
theorem archive_silent_reads (hs : s.Silent)
    (h : Run archiveStep (fun c _ => ¬ c.StartsWriting) s tr t) : s.stream.ReadOn t.stream := by
  have hrun : t.Silent ∧ s.stream.ReadOn t.stream :=
    h.invariant (I := fun k => k.Silent ∧ s.stream.ReadOn k.stream)
      (fun c k e k' ⟨hk, hr⟩ hc hstep => by
        obtain ⟨hk', hr'⟩ := KCF.archiveStep_silent hk (fun h => absurd h hc) hstep
        exact ⟨hk', hr.trans hr'⟩)
      ⟨hs, .refl _⟩
  exact hrun.2

/-- A record of nothing but its fixed fields. -/
def bareRecord (headType : UInt8) : List UInt8 := [0, 0, headType, 0, 6, 0]

theorem archive_stays_in_phase_switching :
    ∃ t, (KCF.reading (.ofBytes (bareRecord KCF_FILE_HEADER))).SamePhase t ∧
      t.parserState = .writeRecord :=
  ⟨_, archive_stays_in_phase (.cons trivial rfl (.cons trivial rfl (.nil _)) :
    ArchiveRun _ [(.reader (.readRecord (some .zero)), .ok), (.startWriting, .ok)] _), rfl⟩

theorem archive_silent_reads_bare :
    ∃ t : KCF, (IOStream.ofBytes (bareRecord KCF_FILE_HEADER)).ReadOn t.stream ∧
      t.stream.pos = 6 :=
  ⟨_, archive_silent_reads (s := KCF.reading (.ofBytes (bareRecord KCF_FILE_HEADER)))
    ⟨rfl, by decide⟩ (.cons nofun rfl (.cons nofun rfl (.nil _)) : Run _ _ _
      [(.reader (.readRecord (some .zero)), .ok), (.writer .finish, .invalidState)] _), rfl⟩

namespace KCF

/-- The handle is not marked as writing, and its packer has not started. -/
structure Dormant (kcf : KCF) : Prop where
  isWriting : kcf.isWriting = false
  idle : kcf.packerState = .idle

theorem Dormant.unpackerState (h : u.Dormant) : u.unpackerState = .validatingFormat :=
  congrArg PackerState.toUnpacker h.idle

theorem MovesOn.dormant (h : u.MovesOn v) (hu : u.Dormant) : v.Dormant :=
  ⟨h.isWriting.trans hu.isWriting, h.packerState.trans hu.idle⟩

theorem AsksFile.dormant (h : u.AsksFile e v) (hu : u.Dormant) : v.Dormant := by
  refine ⟨h.isWriting.trans hu.isWriting, ?_⟩
  rcases h.told with ⟨hp, -⟩ | ⟨hp, -⟩
  · exact hp.trans hu.idle
  · rw [hu.unpackerState] at hp
    cases hp

theorem SkipsFile.dormant (h : u.SkipsFile e v) (hu : u.Dormant) : e ≠ .ok ∧ v.Dormant := by
  have he : e ≠ .ok := fun he => h.ok he hu.unpackerState
  refine ⟨he, h.isWriting.trans hu.isWriting, ?_⟩
  rcases h.failed he with hp | ⟨hp, -⟩
  · exact hp.trans hu.idle
  · exact absurd hu.unpackerState hp

theorem ExtractsFile.dormant (h : u.ExtractsFile e v) (hu : u.Dormant) : e ≠ .ok ∧ v.Dormant := by
  refine ⟨fun he => ?_, h.isWriting.trans hu.isWriting, h.packerState.trans hu.idle⟩
  have hp := (h.ok he).1
  rw [hu.unpackerState] at hp
  cases hp

/-- The packer does not start, and no call for a whole file succeeds. -/
theorem Dormant.step (hu : u.Dormant) (h : archiveStep c u = .ok (e, v)) :
    v.Dormant ∧ (c.HandlesFile → e ≠ .ok) := by
  obtain ⟨hbegin, hinsert, hend⟩ := packing_refused hu.isWriting
  cases c with
  | reader c =>
    obtain ⟨⟨a, k⟩, hr, h⟩ := Exec.map_ok h
    cases h
    exact ⟨(readerStep_movesOn hr).dormant hu, nofun⟩
  | writer c => exact ⟨(writerStep_movesOn h).dormant hu, nofun⟩
  | startWriting =>
    obtain rfl : u.startWriting.2 = v := congrArg Prod.snd (Except.ok.inj h)
    have hs := u.startWriting_sameFile
    exact ⟨⟨hs.isWriting.trans hu.isWriting, hs.packerState.trans hu.idle⟩, nofun⟩
  | initArchive local₀ =>
    have hs := u.startWriting_sameFile
    have hstart : u.startWriting.2.Dormant :=
      ⟨hs.isWriting.trans hu.isWriting, hs.packerState.trans hu.idle⟩
    refine ⟨?_, nofun⟩
    rcases initArchive_cases h with rfl | hm
    · exact hstart
    · exact hm.dormant hstart
  | findMarker => exact ⟨(findMarker_movesOn h).dormant hu, nofun⟩
  | writeMarker =>
    obtain rfl : u.writeMarker.2 = v := congrArg Prod.snd (Except.ok.inj h)
    exact ⟨u.writeMarker_movesOn.dormant hu, nofun⟩
  | writeArchiveHeader => exact ⟨(writeArchiveHeader_movesOn h).dormant hu, nofun⟩
  | beginFile info local₀ =>
    rw [archiveStep, hbegin] at h
    cases h
    exact ⟨hu, fun _ => by decide⟩
  | insertFileData fuel input buffer bytesRead =>
    rw [archiveStep, hinsert] at h
    cases h
    exact ⟨hu, fun _ => by decide⟩
  | endFile =>
    rw [archiveStep, hend] at h
    cases h
    exact ⟨hu, fun _ => by decide⟩
  | getCurrentFileInfo info =>
    obtain ⟨⟨e', k, i⟩, hg, h⟩ := Exec.map_ok h
    cases h
    have ha := getCurrentFileInfo_asks hg
    exact ⟨ha.dormant hu, fun _ he => ha.ok he hu.unpackerState⟩
  | skipFile rounds fuel header =>
    obtain ⟨he, hv⟩ := (skipFile_skipsFile h).dormant hu
    exact ⟨hv, fun _ => he⟩
  | extract rounds fuel output =>
    obtain ⟨⟨e', k, out⟩, hx, h⟩ := Exec.map_ok h
    cases h
    obtain ⟨he, hv⟩ := (extract_extracts hx).dormant hu
    exact ⟨hv, fun _ => he⟩

end KCF

/-- Until it is marked as writing, a handle whose packer has not started, as in a new one, packs and
unpacks no file: no call for a whole file ever succeeds. -/
theorem archive_handles_no_file (hs : s.Dormant) (h : ArchiveRun s tr t) :
    ∀ x ∈ tr, x.1.HandlesFile → x.2 ≠ .ok := by
  induction h with
  | nil => exact fun x hx => absurd hx List.not_mem_nil
  | cons _ hc _ ih =>
    obtain ⟨hk, he⟩ := hs.step hc
    rintro x (- | ⟨-, hx⟩)
    · exact he
    · exact ih hk x hx

theorem archive_handles_no_file_reading :
    ∃ t, ArchiveRun (.reading (.ofBytes (bareRecord KCF_FILE_HEADER)))
        [(.extract 1 1 (.ofBytes []), .invalidState),
          (.skipFile 1 1 Record.zero, .invalidState)] t ∧
      ∀ x ∈ [(ArchiveCall.extract 1 1 (.ofBytes []), KcfError.invalidState),
        (.skipFile 1 1 Record.zero, .invalidState)], x.1.HandlesFile → x.2 ≠ .ok := by
  have hs : (KCF.reading (.ofBytes (bareRecord KCF_FILE_HEADER))).Dormant := ⟨rfl, rfl⟩
  have hrun : ArchiveRun (.reading (.ofBytes (bareRecord KCF_FILE_HEADER)))
      [(.extract 1 1 (.ofBytes []), .invalidState), (.skipFile 1 1 Record.zero, .invalidState)] _ :=
    .cons trivial rfl (.cons trivial rfl (.nil _))
  exact ⟨_, hrun, archive_handles_no_file hs hrun⟩

/-- The calls that can succeed on a new handle. -/
inductive ArchiveCall.Switches : ArchiveCall → Prop
  | startReading : Switches (.reader .startReading)
  | isAddedDataAvailable : Switches (.reader .isAddedDataAvailable)
  | findMarker : Switches .findMarker
  | startWriting : Switches .startWriting

namespace KCF

theorem accept_refused (hu : ¬ u.parserState.Writes) : u.Accept .invalidState u :=
  .refused (fun hp => hu (.inl hp)) (fun hp => hu (.inr (.inl hp))) fun hp => hu (.inr (.inr hp))

theorem writeRecord_of_not_writes (hu : ¬ u.parserState.Writes) (R : Record) :
    u.writeRecord R = .ok (.invalidState, u, R) :=
  writeRecord_of_refused (accept_refused hu) R

theorem writerStep_of_not_writes (hu : ¬ u.parserState.Writes) (c : WriterCall) :
    writerStep c u = .ok (.invalidState, u) := by
  have hopen : u.parserState ≠ .writeAddedData := fun hp => hu (.inr (.inr hp))
  cases c with
  | record R => rw [writerStep, writeRecord_of_not_writes hu, Exec.ok_bind]; rfl
  | whole R D =>
    rw [writerStep, writeRecordWithAddedData_of_refused (accept_refused hu), Exec.ok_bind]
    rfl
  | data addedData size => exact writeAddedData_of_ne hopen addedData size
  | finish => exact finishAddedData_of_ne hopen

theorem writeArchiveHeader_refused {local₀ : Record} (hu : ¬ u.parserState.Writes)
    (h : u.writeArchiveHeader local₀ = .ok (e, v)) :
    (∃ heap, v = { u with heap := heap }) ∧ e = .invalidState := by
  obtain ⟨⟨R, heap⟩, -, h⟩ := Exec.bind_ok h
  obtain ⟨⟨e', k, R'⟩, hw, h⟩ := Exec.bind_ok h
  have hrefused := writeRecord_of_not_writes (u := { u with heap := heap }) hu R
  cases hrefused.symm.trans hw
  cases h
  exact ⟨⟨heap, rfl⟩, rfl⟩

/-- A handle that expects neither a record nor added data reads neither. -/
theorem readerStep_switches {c : ReaderCall} {a : ReaderResult}
    (hrecord : u.parserState ≠ .readRecordHeader) (hadded : u.parserState ≠ .readAddedData)
    (h : readerStep c u = .ok (a, v)) (ha : a.error = .ok) : (ArchiveCall.reader c).Switches := by
  cases c with
  | readRecord R =>
    cases R with
    | none =>
      cases h
      cases ha
    | some R =>
      have hc := readRecord_of_step h
      rw [ha] at hc
      exact absurd hc.parserState hrecord
  | readAddedData n =>
    cases n with
    | none =>
      cases h
      cases ha
    | some n =>
      obtain ⟨r, hr, h⟩ := Exec.map_ok h
      rw [readAddedData_of_ne hadded] at hr
      cases hr
      cases h
      cases ha
  | isAddedDataAvailable => exact .isAddedDataAvailable
  | skipRecord fuel header =>
    obtain ⟨r, hr, h⟩ := Exec.map_ok h
    rw [skipRecord_of_ne hrecord hadded] at hr
    cases hr
    cases h
    cases ha
  | startReading => exact .startReading

theorem initArchive_atMarker {local₀ : Record} (hu : u.parserState.AtMarker)
    (h : u.initArchive local₀ = .ok (e, v)) : e ≠ .ok := by
  have hs := u.startWriting_samePhase.atMarker hu
  unfold initArchive at h
  rcases hx : u.startWriting with ⟨e', k⟩
  rw [hx] at h hs
  cases e' with
  | ok =>
    obtain ⟨-, rfl⟩ :=
      writeArchiveHeader_refused (fun hw => ParserState.not_atMarker_of_writes hw hs) h
    decide
  | _ =>
    cases h
    decide

/-- At the marker no call but these succeeds on a dormant handle. -/
theorem Dormant.switches (hu : u.Dormant) (hm : u.parserState.AtMarker)
    (h : archiveStep c u = .ok (e, v)) (he : e = .ok) : c.Switches := by
  have hfile := (hu.step h).2
  have hrecords {x : ParserState} (hx : x.AmongRecords) : u.parserState ≠ x := fun hp =>
    ParserState.not_atMarker_of_records hx (hp ▸ hm)
  have hwrites : ¬ u.parserState.Writes := fun hw => ParserState.not_atMarker_of_writes hw hm
  cases c with
  | reader c =>
    obtain ⟨⟨a, k⟩, hr, h⟩ := Exec.map_ok h
    cases h
    exact readerStep_switches (hrecords (.inl rfl)) (hrecords (.inr (.inr (.inl rfl)))) hr he
  | writer c =>
    cases (writerStep_of_not_writes hwrites c).symm.trans h
    cases he
  | startWriting => exact .startWriting
  | initArchive local₀ => exact absurd he (initArchive_atMarker hm h)
  | findMarker => exact .findMarker
  | writeMarker =>
    rw [archiveStep, writeMarker_of_not_writing hu.isWriting] at h
    cases h
    cases he
  | writeArchiveHeader local₀ => cases he.symm.trans (writeArchiveHeader_refused hwrites h).2
  | beginFile info local₀ => exact absurd he (hfile (.beginFile ..))
  | insertFileData fuel input buffer n => exact absurd he (hfile (.insertFileData ..))
  | endFile => exact absurd he (hfile .endFile)
  | getCurrentFileInfo info => exact absurd he (hfile (.getCurrentFileInfo ..))
  | skipFile rounds fuel header => exact absurd he (hfile (.skipFile ..))
  | extract rounds fuel output => exact absurd he (hfile (.extract ..))

theorem eq_zero_of_create {stream : IOStream} {heap : Heap}
    (h : create (some stream) heap = (.ok, some kcf)) : kcf = zero stream heap.next := by
  unfold create at h
  dsimp only at h
  cases h₀ : heap 0 with
  | none =>
    rw [h₀] at h
    cases h
  | some fresh =>
    rw [h₀] at h
    cases h
    rfl

theorem Dormant.run (hu : u.Dormant) (hm : u.parserState.AtMarker) (h : ArchiveRun u tr t) :
    (∀ x ∈ tr, x.2 = .ok → x.1.Switches) ∧ u.stream.ReadOn t.stream ∧
      t.parserState.AtMarker := by
  induction h with
  | nil => exact ⟨fun x hx => absurd hx List.not_mem_nil, .refl _, hm⟩
  | cons _ hc _ ih =>
    have hsilent : KCF.Silent _ :=
      ⟨hu.isWriting, fun hw => ParserState.not_atMarker_of_writes hw hm⟩
    obtain ⟨-, hread⟩ := archiveStep_silent hsilent
      (fun _ hp => ParserState.not_atMarker_of_records (.inl hp) hm) hc
    obtain ⟨hall, hrest, hend⟩ := ih (hu.step hc).1 ((archiveStep_samePhase hc).atMarker hm)
    refine ⟨?_, hread.trans hrest, hend⟩
    rintro x (- | ⟨-, hx⟩)
    · exact hu.switches hm hc
    · exact hall x hx

end KCF

/-- A new handle never gets to a record, whatever it is called for: only a few calls that read or
write none succeed, and nothing is stored. -/
theorem archive_never_starts {stream : IOStream} {heap : Heap}
    (hk : KCF.create (some stream) heap = (.ok, some kcf)) (h : ArchiveRun kcf tr t) :
    (∀ x ∈ tr, x.2 = .ok → x.1.Switches) ∧ stream.ReadOn t.stream ∧
      t.parserState.AtMarker := by
  obtain rfl := KCF.eq_zero_of_create hk
  have hnew : (KCF.zero stream heap.next).Dormant := ⟨rfl, rfl⟩
  exact hnew.run (.inl rfl) h

theorem archive_never_starts_nothing :
    ∃ t : KCF, (IOStream.ofBytes []).ReadOn t.stream ∧ t.parserState.AtMarker := by
  have h : ArchiveRun (KCF.zero (.ofBytes []) Heap.zeros.next)
      [(.reader .startReading, .ok), (.startWriting, .invalidState), (.startWriting, .ok)] _ :=
    .cons trivial rfl (.cons trivial rfl (.cons trivial rfl (.nil _)))
  have hnew : KCF.create (some (.ofBytes [])) Heap.zeros = (.ok, some (.zero (.ofBytes [])
    Heap.zeros.next)) := rfl
  exact ⟨_, (archive_never_starts hnew h).2⟩

namespace KCF

/-- What a call does to the unpacker of a handle that is not marked as writing. -/
inductive Turns (u : KCF) : ArchiveCall → KcfError → KCF → Prop
  | stays {c : ArchiveCall} {e : KcfError} {v : KCF} : v.packerState = u.packerState →
      v.currentFile = u.currentFile ∨ v.currentFile.fileName = none → Turns u c e v
  | told {info : Option FileInfo} {e : KcfError} {v : KCF} : v.unpackerState = .fileData →
      (v.currentFile.fileName ≠ none → e = .unknown) → Turns u (.getCurrentFileInfo info) e v
  | skipped {rounds fuel : ℕ} {header : Record} {v : KCF} : v.currentFile = u.currentFile →
      Turns u (.skipFile rounds fuel header) .ok v
  | interrupted {rounds fuel : ℕ} {header : Record} {e : KcfError} {v : KCF} :
      v.currentFile = u.currentFile → v.unpackerState = .fileData →
      Turns u (.skipFile rounds fuel header) e v

theorem MovesOn.turns (h : u.MovesOn v) : u.Turns c e v := .stays h.packerState (.inl h.currentFile)

theorem archiveStep_turns (hu : u.isWriting = false) (h : archiveStep c u = .ok (e, v)) :
    u.Turns c e v := by
  obtain ⟨hbegin, hinsert, hend⟩ := packing_refused hu
  cases c with
  | reader c =>
    obtain ⟨⟨a, k⟩, hr, h⟩ := Exec.map_ok h
    cases h
    exact (readerStep_movesOn hr).turns
  | writer c => exact (writerStep_movesOn h).turns
  | startWriting =>
    obtain rfl : u.startWriting.2 = v := congrArg Prod.snd (Except.ok.inj h)
    exact .stays u.startWriting_sameFile.packerState (.inl u.startWriting_sameFile.currentFile)
  | initArchive local₀ =>
    have hs := u.startWriting_sameFile
    rcases initArchive_cases h with rfl | hm
    · exact .stays hs.packerState (.inl hs.currentFile)
    · exact .stays (hm.packerState.trans hs.packerState)
        (.inl (hm.currentFile.trans hs.currentFile))
  | findMarker => exact (findMarker_movesOn h).turns
  | writeMarker =>
    obtain rfl : u.writeMarker.2 = v := congrArg Prod.snd (Except.ok.inj h)
    exact u.writeMarker_movesOn.turns
  | writeArchiveHeader => exact (writeArchiveHeader_movesOn h).turns
  | beginFile info local₀ =>
    rw [archiveStep, hbegin] at h
    cases h
    exact (MovesOn.refl u).turns
  | insertFileData fuel input buffer bytesRead =>
    rw [archiveStep, hinsert] at h
    cases h
    exact (MovesOn.refl u).turns
  | endFile =>
    rw [archiveStep, hend] at h
    cases h
    exact (MovesOn.refl u).turns
  | getCurrentFileInfo info =>
    obtain ⟨⟨e', k, i⟩, hg, h⟩ := Exec.map_ok h
    cases h
    rcases (getCurrentFileInfo_asks hg).told with ⟨hp, hc⟩ | ⟨-, hd, hn⟩
    · exact .stays hp (.inl hc)
    · exact .told hd hn
  | skipFile rounds fuel header =>
    have hs := skipFile_skipsFile h
    by_cases he : e = .ok
    · subst he
      exact .skipped hs.currentFile
    · rcases hs.failed he with hp | ⟨-, hd⟩
      · exact .stays hp (.inl hs.currentFile)
      · exact .interrupted hs.currentFile hd
  | extract rounds fuel output =>
    obtain ⟨⟨e', k, out⟩, hx, h⟩ := Exec.map_ok h
    cases h
    have hx := extract_extracts hx
    exact .stays hx.packerState hx.failed

end KCF

theorem exists_skipFile (hs : s.isWriting = false) (hu : s.unpackerState ≠ .fileHeader)
    (ht : t.unpackerState = .fileHeader) (h : ArchiveRun s tr t) :
    ∃ rounds fuel header, (ArchiveCall.skipFile rounds fuel header, KcfError.ok) ∈ tr := by
  induction h with
  | nil => exact absurd ht hu
  | @cons c e s k t tr _ hc _ ih =>
    have hk := (KCF.archiveStep_samePhase hc).isWriting.trans hs
    have hrest (hv : k.unpackerState ≠ .fileHeader) :
        ∃ rounds fuel header,
          (ArchiveCall.skipFile rounds fuel header, KcfError.ok) ∈ (c, e) :: tr := by
      obtain ⟨rounds, fuel, header, hx⟩ := ih hk hv ht
      exact ⟨rounds, fuel, header, .tail _ hx⟩
    cases KCF.archiveStep_turns hs hc with
    | stays hp =>
      exact hrest (fun hv => hu ((congrArg PackerState.toUnpacker hp).symm.trans hv))
    | told hd => exact hrest (by rw [hd]; decide)
    | skipped => exact ⟨_, _, _, .head _⟩
    | interrupted _ hd => exact hrest (by rw [hd]; decide)

/-- Where a handle without a current file comes to wait for a file under a name, it was told the
name and skipped what the name was read from. -/
theorem exists_told (hs : s.isWriting = false) (hname : s.currentFile.fileName = none)
    (ht : t.currentFile.fileName ≠ none) (hu : t.unpackerState = .fileHeader)
    (h : ArchiveRun s tr t) :
    ∃ info rounds fuel header, List.Sublist
      [(ArchiveCall.getCurrentFileInfo info, KcfError.unknown),
        (.skipFile rounds fuel header, .ok)] tr := by
  induction h with
  | nil => exact absurd hname ht
  | @cons c e s k t tr _ hc hrun ih =>
    have hk := (KCF.archiveStep_samePhase hc).isWriting.trans hs
    have hturn := KCF.archiveStep_turns hs hc
    by_cases hv : k.currentFile.fileName = none
    · obtain ⟨info, rounds, fuel, header, hx⟩ := ih hk hv ht hu
      exact ⟨info, rounds, fuel, header, hx.cons _⟩
    cases hturn with
    | stays _ hfile =>
      rcases hfile with hfile | hfile
      · exact absurd (hfile ▸ hname) hv
      · exact absurd hfile hv
    | @told info _ _ hd he =>
      obtain rfl := he hv
      obtain ⟨rounds, fuel, header, hx⟩ := exists_skipFile hk (by rw [hd]; decide) hu hrun
      exact ⟨info, rounds, fuel, header, (List.singleton_sublist.mpr hx).cons_cons _⟩
    | skipped hfile => exact absurd (hfile ▸ hname) hv
    | interrupted hfile => exact absurd (hfile ▸ hname) hv

/-- Between two files that are extracted with success from a handle that is not marked as writing,
the handle is asked for a file's metadata, which it reports as an error of no name, and skips a
file. Extracting a file right behind another one never succeeds. -/
theorem archive_extracts_named {rounds fuel rounds' fuel' : ℕ} {output output' : IOStream}
    (hs : s.isWriting = false)
    (hfirst : archiveStep (.extract rounds fuel output) s = .ok (.ok, u))
    (h : ArchiveRun u tr v)
    (hsecond : archiveStep (.extract rounds' fuel' output') v = .ok (.ok, t)) :
    ∃ info rounds fuel header, List.Sublist
      [(ArchiveCall.getCurrentFileInfo info, KcfError.unknown),
        (.skipFile rounds fuel header, .ok)] tr := by
  obtain ⟨⟨e, k, out⟩, hx, hk⟩ := Exec.map_ok hfirst
  cases hk
  obtain ⟨⟨e, k, out⟩, hy, hk⟩ := Exec.map_ok hsecond
  cases hk
  have hfirst := KCF.extract_extracts hx
  have hsecond := KCF.extract_extracts hy
  exact exists_told (hfirst.isWriting.trans hs) (hfirst.ok rfl).2.2 (hsecond.ok rfl).2.1
    (hsecond.ok rfl).1 h

theorem archive_extracts_named_third :
    ∃ info rounds fuel header, List.Sublist
      [(ArchiveCall.getCurrentFileInfo info, KcfError.unknown),
        (.skipFile rounds fuel header, .ok)]
      [(.getCurrentFileInfo (some { FileInfo.zero with fileName := some [0x61] }), .unknown),
        (.skipFile 1 1 Record.zero, .ok)] := by
  have hfirst : archiveStep (.extract 1 1 (.ofBytes []))
      (KCF.unpacking (.ofBytes (bareRecord KCF_FILE_HEADER ++ bareRecord KCF_FILE_HEADER ++
        bareRecord KCF_DATA_FRAGMENT ++ bareRecord KCF_FILE_HEADER))) = .ok (.ok, _) := rfl
  exact archive_extracts_named rfl hfirst (.cons trivial rfl (.cons trivial rfl (.nil _)))
    (show archiveStep (.extract 1 1 (.ofBytes [])) _ = .ok (.ok, _) from rfl)

/-- The calls that do not ask where among the records the handle stands. -/
inductive ArchiveCall.PassesBy : ArchiveCall → Prop
  | switches {c : ArchiveCall} : c.Switches → c ≠ .startWriting → PassesBy c
  | writeMarker : PassesBy .writeMarker
  | getCurrentFileInfo (info : Option FileInfo) : PassesBy (.getCurrentFileInfo info)

def ArchiveCall.Marks (c : ArchiveCall) : Prop := c = .findMarker ∨ c = .writeMarker

namespace KCF

/-- The handle waits for a record's data, as the other one does, and its stream is where it was. -/
structure StaysBehind (u v : KCF) : Prop where
  parserState : v.parserState = .readRecordData
  stream : v.stream = u.stream

theorem beginFile_behind {info i : FileInfo} {local₀ : Record}
    (hu : u.parserState = .readRecordData) (h : u.beginFile info local₀ = .ok (e, v, i)) :
    u.StaysBehind v ∧ e ≠ .ok := by
  unfold beginFile at h
  split at h
  · cases h
    exact ⟨⟨hu, rfl⟩, by decide⟩
  split at h
  · cases h
    exact ⟨⟨hu, rfl⟩, by decide⟩
  obtain ⟨⟨copied, currentFile, heap⟩, -, h⟩ := Exec.bind_ok h
  obtain ⟨⟨e', i', heap'⟩, -, h⟩ := Exec.bind_ok h
  have hwrites : ¬ ParserState.Writes u.parserState := by
    rw [hu]
    decide
  obtain ⟨⟨e', k, R⟩, hw, h⟩ := Exec.bind_ok h
  cases (writeRecord_of_not_writes (by exact hwrites) local₀).symm.trans hw
  cases h
  exact ⟨⟨hu, rfl⟩, by decide⟩

theorem insertFileData_behind {fuel bytesRead : ℕ} {input out : IOStream} {buffer : List UInt8}
    (hu : u.parserState = .readRecordData)
    (h : u.insertFileData fuel input buffer bytesRead = .ok (e, v, out)) : v = u ∧ e ≠ .ok := by
  unfold insertFileData at h
  split at h
  · cases h
    exact ⟨rfl, by decide⟩
  split at h
  · cases h
    exact ⟨rfl, by decide⟩
  cases fuel with
  | zero => cases h
  | succ fuel =>
    unfold insertFileDataLoop at h
    rcases ioRead input INSERT_FILE_BUFFER_SIZE with ⟨ret, bytes, input'⟩
    dsimp only at h
    rw [writeAddedData_of_ne (by rw [hu]; decide)] at h
    split at h
    · cases h
      exact ⟨rfl, by decide⟩
    · cases h
      exact ⟨rfl, by simp⟩

theorem endFile_behind (hu : u.parserState = .readRecordData) (h : u.endFile = .ok (e, v)) :
    v = u ∧ e ≠ .ok := by
  unfold endFile at h
  rw [finishAddedData_of_ne (by rw [hu]; decide)] at h
  split at h
  · cases h
    exact ⟨rfl, by decide⟩
  split at h
  · cases h
    exact ⟨rfl, by decide⟩
  cases h
  exact ⟨rfl, by decide⟩

theorem getCurrentFileInfo_behind {info i : Option FileInfo} (hu : u.parserState = .readRecordData)
    (h : u.getCurrentFileInfo info = .ok (e, v, i)) : u.StaysBehind v := by
  cases info with
  | none =>
    cases h
    exact ⟨hu, rfl⟩
  | some info =>
    unfold getCurrentFileInfo readFileInfo at h
    rw [readRecord_of_ne (by rw [hu]; decide)] at h
    dsimp only at h
    split at h
    · cases h
      exact ⟨hu, rfl⟩
    · obtain ⟨⟨copied, copy, heap⟩, -, h⟩ := Exec.bind_ok h
      cases h
      exact ⟨hu, rfl⟩
    · obtain ⟨⟨copied, copy, heap⟩, -, h⟩ := Exec.bind_ok h
      cases h
      exact ⟨hu, rfl⟩
    · cases h
      exact ⟨hu, rfl⟩

theorem skipFile_behind {rounds fuel : ℕ} {header : Record} (hu : u.parserState = .readRecordData)
    (h : u.skipFile rounds fuel header = .ok (e, v)) : v = u ∧ e ≠ .ok := by
  unfold skipFile at h
  split at h
  · cases h
    exact ⟨rfl, by decide⟩
  cases rounds with
  | zero => cases h
  | succ rounds =>
    unfold skipFileLoop at h
    rw [readRecord_of_ne (by rw [hu]; decide)] at h
    cases h
    exact ⟨rfl, by decide⟩

theorem extract_behind {rounds fuel : ℕ} {output out : IOStream}
    (hu : u.parserState = .readRecordData)
    (h : u.extract rounds fuel output = .ok (e, v, out)) : u.StaysBehind v ∧ e ≠ .ok := by
  unfold extract readLastRecord at h
  rw [readRecord_of_ne (by rw [hu]; decide)] at h
  split at h
  · cases h
    exact ⟨⟨hu, rfl⟩, by decide⟩
  · cases h
    exact ⟨⟨hu, rfl⟩, by decide⟩

theorem writeMarker_parserState (kcf : KCF) :
    kcf.writeMarker.2.parserState = kcf.parserState := by
  unfold writeMarker
  split
  · rfl
  · dsimp only
    split <;> rfl

/-- Behind a header no call gets on. -/
theorem archiveStep_behind (hu : u.parserState = .readRecordData)
    (h : archiveStep c u = .ok (e, v)) :
    v.parserState = .readRecordData ∧ (e = .ok → c.PassesBy) ∧
      (¬ c.Marks → v.stream = u.stream) := by
  have hwrites : ¬ u.parserState.Writes := by
    rw [hu]
    decide
  have hstart : u.startWriting = (.invalidState, u) := by rw [startWriting, hu]
  cases c with
  | reader c =>
    obtain ⟨⟨a, k⟩, hr, h⟩ := Exec.map_ok h
    cases h
    obtain rfl := stuck_step hu hr
    exact ⟨hu, fun he => .switches (readerStep_switches (by rw [hu]; decide) (by rw [hu]; decide)
      hr he) (by simp), fun _ => rfl⟩
  | writer c =>
    cases (writerStep_of_not_writes hwrites c).symm.trans h
    exact ⟨hu, nofun, fun _ => rfl⟩
  | startWriting =>
    rw [archiveStep, hstart] at h
    cases h
    exact ⟨hu, nofun, fun _ => rfl⟩
  | initArchive local₀ =>
    rw [archiveStep, initArchive, hstart] at h
    cases h
    exact ⟨hu, nofun, fun _ => rfl⟩
  | findMarker =>
    exact ⟨(findMarker_parserState h).trans hu, fun _ => .switches .findMarker (by simp),
      fun hm => absurd (.inl rfl) hm⟩
  | writeMarker =>
    obtain rfl : u.writeMarker.2 = v := congrArg Prod.snd (Except.ok.inj h)
    exact ⟨u.writeMarker_parserState.trans hu, fun _ => .writeMarker,
      fun hm => absurd (.inr rfl) hm⟩
  | writeArchiveHeader local₀ =>
    obtain ⟨⟨heap, rfl⟩, rfl⟩ := writeArchiveHeader_refused hwrites h
    exact ⟨hu, nofun, fun _ => rfl⟩
  | beginFile info local₀ =>
    obtain ⟨⟨e', k, i⟩, hb, h⟩ := Exec.map_ok h
    cases h
    obtain ⟨hk, hne⟩ := beginFile_behind hu hb
    exact ⟨hk.parserState, fun he => absurd he hne, fun _ => hk.stream⟩
  | insertFileData fuel input buffer bytesRead =>
    obtain ⟨⟨e', k, out⟩, hi, h⟩ := Exec.map_ok h
    cases h
    obtain ⟨rfl, hne⟩ := insertFileData_behind hu hi
    exact ⟨hu, fun he => absurd he hne, fun _ => rfl⟩
  | endFile =>
    obtain ⟨rfl, hne⟩ := endFile_behind hu h
    exact ⟨hu, fun he => absurd he hne, fun _ => rfl⟩
  | getCurrentFileInfo info =>
    obtain ⟨⟨e', k, i⟩, hg, h⟩ := Exec.map_ok h
    cases h
    have hk := getCurrentFileInfo_behind hu hg
    exact ⟨hk.parserState, fun _ => .getCurrentFileInfo info, fun _ => hk.stream⟩
  | skipFile rounds fuel header =>
    obtain ⟨rfl, hne⟩ := skipFile_behind hu h
    exact ⟨hu, fun he => absurd he hne, fun _ => rfl⟩
  | extract rounds fuel output =>
    obtain ⟨⟨e', k, out⟩, hx, h⟩ := Exec.map_ok h
    cases h
    obtain ⟨hk, hne⟩ := extract_behind hu hx
    exact ⟨hk.parserState, fun he => absurd he hne, fun _ => hk.stream⟩

end KCF

/-- A handle that waits for a record's data, as it does when there was no memory for them, waits for
ever. Whatever it is called for, no record or added data is read or written with success any more,
and but for the marker the stream is left alone. -/
theorem archive_stuck (hs : s.parserState = .readRecordData) (h : ArchiveRun s tr t) :
    t.parserState = .readRecordData ∧ (∀ x ∈ tr, x.2 = .ok → x.1.PassesBy) ∧
      ((∀ x ∈ tr, ¬ x.1.Marks) → t.stream = s.stream) := by
  induction h with
  | nil => exact ⟨hs, fun x hx => absurd hx List.not_mem_nil, fun _ => rfl⟩
  | cons _ hc _ ih =>
    obtain ⟨hk, hok, hstream⟩ := KCF.archiveStep_behind hs hc
    obtain ⟨hend, hall, hrest⟩ := ih hk
    rw [List.forall_mem_cons, List.forall_mem_cons]
    exact ⟨hend, ⟨hok, hall⟩, fun hm => (hrest hm.2).trans (hstream hm.1)⟩

/-- There is no memory for a record; reading is started again, the record is asked for again, and
writing is started. -/
theorem archive_stuck_reading :
    ∃ s t : KCF,
      archiveStep (.reader (.readRecord (some Record.zero))) .readingWithoutMemory =
        .ok (.outOfMemory, s) ∧
      ArchiveRun s [(.reader .startReading, .ok),
        (.reader (.readRecord (some Record.zero)), .invalidState),
        (.startWriting, .invalidState)] t ∧
      t.stream = s.stream := by
  have hrun : ArchiveRun (KCF.readingWithoutMemory.readRecord (some Record.zero)).2.1
      [(.reader .startReading, .ok), (.reader (.readRecord (some Record.zero)), .invalidState),
        (.startWriting, .invalidState)] _ :=
    .cons trivial rfl (.cons trivial rfl (.cons trivial rfl (.nil _)))
  refine ⟨_, _, rfl, hrun, (archive_stuck rfl hrun).2.2 ?_⟩
  simp [ArchiveCall.Marks]

end Kcf
