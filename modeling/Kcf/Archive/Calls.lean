import Kcf.Archive.Metadata
import Kcf.Archive.Phases

/-! # All the calls on a handle

The calls of the library as one machine. What a handle may become by any of them, in
any order and whatever its stream and its heap answer, holds of every run.
-/

namespace Kcf

open CallMachine

/-- The calls of the library; what their local variables hold before they are set, and the rounds
granted to their loops, are given with them. -/
inductive ArchiveCall
  | reader (c : ReaderCall)
  | writer (c : WriterCall)
  | startWriting
  | initArchive (local₀ : Record)
  | findMarker
  | writeMarker
  | writeArchiveHeader (local₀ : Record)
  | beginFile (info : FileInfo) (local₀ : Record)
  | insertFileData (fuel : ℕ) (input : IOStream) (buffer : List UInt8) (bytesRead : ℕ)
  | endFile
  | getCurrentFileInfo (info : Option FileInfo)
  | skipFile (rounds fuel : ℕ) (header : Record)
  | extract (rounds fuel : ℕ) (output : IOStream)

/-- Make a call: the error it returns and the handle it leaves. -/
def archiveStep : ArchiveCall → KCF → Exec (KcfError × KCF)
  | .reader c, kcf => (readerStep c kcf).map fun (result, kcf) => (result.error, kcf)
  | .writer c, kcf => writerStep c kcf
  | .startWriting, kcf => .ok kcf.startWriting
  | .initArchive local₀, kcf => kcf.initArchive local₀
  | .findMarker, kcf => kcf.findMarker
  | .writeMarker, kcf => .ok kcf.writeMarker
  | .writeArchiveHeader local₀, kcf => kcf.writeArchiveHeader local₀
  | .beginFile info local₀, kcf =>
    (kcf.beginFile info local₀).map fun (error, kcf, _) => (error, kcf)
  | .insertFileData fuel input buffer bytesRead, kcf =>
    (kcf.insertFileData fuel input buffer bytesRead).map fun (error, kcf, _) => (error, kcf)
  | .endFile, kcf => kcf.endFile
  | .getCurrentFileInfo info, kcf =>
    (kcf.getCurrentFileInfo info).map fun (error, kcf, _) => (error, kcf)
  | .skipFile rounds fuel header, kcf => kcf.skipFile rounds fuel header
  | .extract rounds fuel output, kcf =>
    (kcf.extract rounds fuel output).map fun (error, kcf, _) => (error, kcf)

/-- The calls by which a handle starts to write. -/
inductive ArchiveCall.StartsWriting : ArchiveCall → Prop
  | startWriting : StartsWriting .startWriting
  | initArchive (local₀ : Record) : StartsWriting (.initArchive local₀)

/-- The calls that pack or unpack whole files. -/
inductive ArchiveCall.HandlesFile : ArchiveCall → Prop
  | beginFile (info : FileInfo) (local₀ : Record) : HandlesFile (.beginFile info local₀)
  | insertFileData (fuel : ℕ) (input : IOStream) (buffer : List UInt8) (bytesRead : ℕ) :
      HandlesFile (.insertFileData fuel input buffer bytesRead)
  | endFile : HandlesFile .endFile
  | getCurrentFileInfo (info : Option FileInfo) : HandlesFile (.getCurrentFileInfo info)
  | skipFile (rounds fuel : ℕ) (header : Record) : HandlesFile (.skipFile rounds fuel header)
  | extract (rounds fuel : ℕ) (output : IOStream) : HandlesFile (.extract rounds fuel output)

namespace KCF

variable {u v w kcf : KCF} {e : KcfError}

theorem beginFile_samePhase {info i : FileInfo} {local₀ : Record}
    (h : kcf.beginFile info local₀ = .ok (e, v, i)) : kcf.SamePhase v := by
  unfold beginFile at h
  split at h
  · cases h
    exact ⟨rfl, id, id⟩
  split at h
  · cases h
    exact ⟨rfl, id, id⟩
  obtain ⟨⟨copied, currentFile, heap⟩, -, h⟩ := Exec.bind_ok h
  obtain ⟨⟨e', i', heap'⟩, -, h⟩ := Exec.bind_ok h
  obtain ⟨⟨e', k, R⟩, hw, h⟩ := Exec.bind_ok h
  have hcopied (currentFile : FileInfo) (heap : Heap) :
      kcf.SamePhase { kcf with currentFile := currentFile, heap := heap } := ⟨rfl, id, id⟩
  have hk : kcf.SamePhase k := (hcopied _ _).trans (writeRecord_of_eq hw).movesOn.toSamePhase
  dsimp only at h
  split at h
  · cases h
    exact hk
  · cases h
    exact hk.trans ⟨rfl, id, id⟩

theorem insertFileDataLoop_samePhase {fuel bytesRead : ℕ} {input out : IOStream}
    {buffer : List UInt8}
    (h : insertFileDataLoop fuel kcf input buffer bytesRead = .ok (e, v, out)) :
    kcf.SamePhase v := by
  induction fuel generalizing kcf input buffer with
  | zero => cases h
  | succ fuel ih =>
    unfold insertFileDataLoop at h
    rcases ioRead input INSERT_FILE_BUFFER_SIZE with ⟨ret, bytes, input'⟩
    dsimp only at h
    split at h
    · cases h
      exact ⟨rfl, id, id⟩
    · obtain ⟨⟨e', k⟩, hw, h⟩ := Exec.bind_ok h
      have hk : kcf.SamePhase k := (writeData_of_eq hw).movesOn.toSamePhase
      dsimp only at h
      split at h
      · cases h
        exact hk
      · split at h
        · exact hk.trans (ih h)
        · cases h
          exact hk.trans ⟨rfl, id, id⟩

theorem insertFileData_samePhase {fuel bytesRead : ℕ} {input out : IOStream} {buffer : List UInt8}
    (h : kcf.insertFileData fuel input buffer bytesRead = .ok (e, v, out)) : kcf.SamePhase v := by
  unfold insertFileData at h
  split at h
  · cases h
    exact ⟨rfl, id, id⟩
  split at h
  · cases h
    exact ⟨rfl, id, id⟩
  exact insertFileDataLoop_samePhase h

theorem endFile_samePhase (h : kcf.endFile = .ok (e, v)) : kcf.SamePhase v := by
  unfold endFile at h
  split at h
  · cases h
    exact ⟨rfl, id, id⟩
  split at h
  · cases h
    exact ⟨rfl, id, id⟩
  obtain ⟨⟨e', k⟩, hf, h⟩ := Exec.bind_ok h
  have hk : kcf.SamePhase k := (finish_of_eq hf).movesOn.toSamePhase
  dsimp only at h
  split at h
  · cases h
    exact hk
  · cases h
    exact hk.trans ⟨rfl, id, id⟩

theorem packing_refused (h : kcf.isWriting = false) :
    (∀ info local₀, kcf.beginFile info local₀ = .ok (.invalidState, kcf, info)) ∧
      (∀ fuel input buffer bytesRead,
        kcf.insertFileData fuel input buffer bytesRead = .ok (.invalidState, kcf, input)) ∧
      kcf.endFile = .ok (.invalidState, kcf) := by
  refine ⟨fun info local₀ => ?_, fun fuel input buffer bytesRead => ?_, ?_⟩
  · simp [beginFile, h]
  · simp [insertFileData, h]
  · simp [endFile, h]

/-- What asking for the metadata of a file does: nothing to the unpacker, or the next record is
read and its metadata kept, which is reported as an error of no name. -/
structure AsksFile (u : KCF) (e : KcfError) (v : KCF) : Prop extends Moves u v where
  told : (v.packerState = u.packerState ∧ v.currentFile = u.currentFile) ∨
    (u.unpackerState = .fileHeader ∧ v.unpackerState = .fileData ∧
      (v.currentFile.fileName ≠ none → e = .unknown))
  ok : e = .ok → u.unpackerState ≠ .validatingFormat

theorem fileInfoCopy_unknown {dest src copy : FileInfo} {copied : Bool} {heap heap' : Heap}
    (h : fileInfoCopy dest src heap = .ok (copied, copy, heap')) (hn : copy.fileName ≠ none) :
    KcfError.ofBool copied = .unknown := by
  cases copied with
  | true => rfl
  | false => exact absurd (fileInfoCopy_failed h) hn

theorem readFileInfo_asks {info i : FileInfo} (hu : u.unpackerState = .fileHeader)
    (h : u.readFileInfo info = .ok (e, v, i)) : u.AsksFile e v := by
  have hm := u.readRecord_movesOn (some Record.zero)
  have hok : e = .ok → u.unpackerState ≠ .validatingFormat := fun _ => by
    rw [hu]
    decide
  unfold readFileInfo at h
  obtain ⟨e', k, R, hr⟩ := u.exists_readRecord Record.zero
  rw [hr] at h hm
  cases e' with
  | ok =>
    obtain ⟨⟨e', R', heap⟩, hinfo, h⟩ := Exec.bind_ok h
    have hk : u.MovesOn { k with heap := heap } := hm.trans ⟨.same rfl rfl (.refl _), rfl, rfl⟩
    dsimp only at h
    split at h
    · cases h
      exact ⟨hk.toMoves, .inl ⟨hk.packerState, hk.currentFile⟩, hok⟩
    · rename_i he
      obtain rfl : e' = .ok := not_not.mp he
      obtain ⟨⟨copied, currentFile, heap'⟩, hcopy, h⟩ := Exec.bind_ok h
      cases h
      exact ⟨hk.toMoves.trans (.same rfl rfl (.refl _)),
        .inr ⟨hu, unpackerState_set .., fileInfoCopy_unknown hcopy⟩, hok⟩
  | _ =>
    cases h
    exact ⟨hm.toMoves, .inl ⟨hm.packerState, hm.currentFile⟩, fun he => by cases he⟩

theorem getCurrentFileInfo_asks {info i : Option FileInfo}
    (h : u.getCurrentFileInfo info = .ok (e, v, i)) : u.AsksFile e v := by
  cases info with
  | none =>
    cases h
    exact ⟨.refl _, .inl ⟨rfl, rfl⟩, fun he => by cases he⟩
  | some info =>
    unfold getCurrentFileInfo at h
    dsimp only at h
    cases hu : u.unpackerState with
    | fileHeader =>
      rw [hu] at h
      obtain ⟨⟨e', k, i'⟩, hr, h⟩ := Exec.bind_ok h
      cases h
      exact readFileInfo_asks hu hr
    | fileData | afterFileData =>
      rw [hu] at h
      obtain ⟨⟨copied, copy, heap⟩, -, h⟩ := Exec.bind_ok h
      cases h
      exact ⟨.same rfl rfl (.refl _), .inl ⟨rfl, rfl⟩, fun _ => by rw [hu]; decide⟩
    | validatingFormat =>
      rw [hu] at h
      cases h
      exact ⟨.refl _, .inl ⟨rfl, rfl⟩, fun he => by cases he⟩

theorem skipAddedData_movesOn {fuel : ℕ} {R header : Record}
    (h : u.skipAddedData fuel R header = .ok v) : u.MovesOn v := by
  unfold skipAddedData at h
  split at h
  · obtain ⟨r, hs, h⟩ := Exec.map_ok h
    cases h
    exact skipRecord_movesOn hs
  · cases h
    exact .refl _

/-- What skipping does: the current file stays, the unpacker waits for data, or for a file once the
call succeeds. -/
structure SkipsFile (u : KCF) (e : KcfError) (v : KCF) : Prop extends Moves u v where
  currentFile : v.currentFile = u.currentFile
  ok : e = .ok → u.unpackerState ≠ .validatingFormat
  failed : e ≠ .ok → v.packerState = u.packerState ∨
    (u.unpackerState ≠ .validatingFormat ∧ v.unpackerState = .fileData)

theorem skipFileRecord_skips {fuel : ℕ} {R header : Record}
    (h : u.skipFileRecord fuel R header = .ok (e, v)) :
    u.Moves v ∧ v.currentFile = u.currentFile ∧
      (e = .ok → u.unpackerState ≠ .validatingFormat ∧ v.unpackerState = .fileData) ∧
      (e ≠ .ok → v = u) := by
  unfold skipFileRecord at h
  cases hu : u.unpackerState with
  | fileHeader =>
    rw [hu] at h
    obtain ⟨k, hs, h⟩ := Exec.bind_ok h
    cases h
    have hk := skipAddedData_movesOn hs
    have hset : u.Moves (u.setUnpackerState .fileData) := .same rfl rfl (.refl _)
    refine ⟨hset.trans hk.toMoves, hk.currentFile, fun _ => ⟨by decide, ?_⟩,
      fun he => absurd rfl he⟩
    exact (congrArg PackerState.toUnpacker hk.packerState).trans (unpackerState_set ..)
  | fileData =>
    rw [hu] at h
    dsimp only at h
    split at h
    · cases h
      exact ⟨.refl _, rfl, fun he => (by cases he), fun _ => rfl⟩
    · obtain ⟨k, hs, h⟩ := Exec.bind_ok h
      cases h
      have hk := skipAddedData_movesOn hs
      refine ⟨hk.toMoves, hk.currentFile, fun _ => ⟨by decide, ?_⟩, fun he => absurd rfl he⟩
      exact (congrArg PackerState.toUnpacker hk.packerState).trans hu
  | afterFileData | validatingFormat =>
    rw [hu] at h
    cases h
    exact ⟨.refl _, rfl, fun he => (by cases he), fun _ => rfl⟩

theorem skipFileLoop_skipsFile {fuel rounds : ℕ} {R header : Record}
    (h : skipFileLoop fuel header rounds u R = .ok (e, v)) : u.SkipsFile e v := by
  induction rounds generalizing u R with
  | zero => cases h
  | succ rounds ih =>
    have hm := u.readRecord_movesOn (some R)
    unfold skipFileLoop at h
    obtain ⟨e', k, R', hr⟩ := u.exists_readRecord R
    rw [hr] at h hm
    cases e' with
    | ok =>
      obtain ⟨⟨e', k'⟩, hs, h⟩ := Exec.bind_ok h
      obtain ⟨hmoves, hfile, hok, hfailed⟩ := skipFileRecord_skips hs
      have hstart (hk : k.unpackerState ≠ .validatingFormat) :
          u.unpackerState ≠ .validatingFormat :=
        fun hu => hk ((congrArg PackerState.toUnpacker hm.packerState).trans hu)
      dsimp only at h
      split at h
      · rename_i he
        cases h
        obtain rfl := hfailed he
        exact ⟨hm.toMoves, hm.currentFile, fun h => absurd h he, fun _ => .inl hm.packerState⟩
      · rename_i he
        obtain ⟨hk, hdata⟩ := hok (not_not.mp he)
        split at h
        · obtain ⟨hmoves', hfile', -, hfailed'⟩ := ih h
          refine ⟨(hm.toMoves.trans hmoves).trans hmoves',
            (hfile'.trans hfile).trans hm.currentFile, fun _ => hstart hk,
            fun he => .inr ⟨hstart hk, ?_⟩⟩
          rcases hfailed' he with hp | ⟨-, hp⟩
          · exact (congrArg PackerState.toUnpacker hp).trans hdata
          · exact hp
        · cases h
          exact ⟨(hm.toMoves.trans hmoves).trans (.same rfl rfl (.refl _)),
            hfile.trans hm.currentFile, fun _ => hstart hk, fun he => absurd rfl he⟩
    | _ =>
      cases h
      exact ⟨hm.toMoves, hm.currentFile, fun he => (by cases he), fun _ => .inl hm.packerState⟩

theorem skipFile_skipsFile {rounds fuel : ℕ} {header : Record}
    (h : u.skipFile rounds fuel header = .ok (e, v)) : u.SkipsFile e v := by
  unfold skipFile at h
  split at h
  · cases h
    exact ⟨.refl _, rfl, fun he => (by cases he), fun _ => .inl rfl⟩
  · exact skipFileLoop_skipsFile h

theorem copyAddedData_movesOn {remaining fuel toRead : ℕ} {output out : IOStream}
    (h : copyAddedData remaining fuel u output toRead = .ok (e, v, out)) : u.MovesOn v := by
  induction fuel generalizing u output toRead with
  | zero =>
    unfold copyAddedData at h
    split at h
    · cases h
    · cases h
      exact .refl _
  | succ fuel ih =>
    unfold copyAddedData at h
    split at h
    · obtain ⟨⟨e', k, bytes, n⟩, hr, h⟩ := Exec.bind_ok h
      have hk : u.MovesOn k := readAddedData_movesOn hr
      dsimp only at h
      split at h
      · cases h
        exact hk
      · split at h
        · cases h
          exact hk
        · exact hk.trans (ih h)
    · cases h
      exact .refl _

theorem readLastRecord_movesOn (kcf : KCF) : kcf.MovesOn kcf.readLastRecord.2 := by
  have hm := kcf.readRecord_movesOn (some kcf.lastRecord)
  unfold readLastRecord
  generalize kcf.readRecord (some kcf.lastRecord) = x at hm
  exact hm.trans ⟨.same rfl rfl (.refl _), rfl, rfl⟩

theorem nextFragment_movesOn (kcf : KCF) : kcf.MovesOn kcf.nextFragment.2 := by
  have hm := kcf.readLastRecord_movesOn
  unfold nextFragment
  generalize kcf.readLastRecord = x at hm
  obtain ⟨e, k⟩ := x
  split
  · cases e with
    | ok =>
      dsimp only
      split <;> exact hm
    | _ => exact hm
  · exact .refl _

theorem extractLoop_movesOn {fuel rounds : ℕ} {output out : IOStream}
    (h : extractLoop fuel rounds u output = .ok (e, v, out)) : u.MovesOn v := by
  induction rounds generalizing u output with
  | zero => cases h
  | succ rounds ih =>
    unfold extractLoop at h
    obtain ⟨⟨e', k, output'⟩, hc, h⟩ := Exec.bind_ok h
    have hk := copyAddedData_movesOn hc
    dsimp only at h
    split at h
    · cases h
      exact hk
    · have hn := k.nextFragment_movesOn
      generalize k.nextFragment = x at h hn
      obtain ⟨e', k'⟩ := x
      cases e' with
      | ok =>
        dsimp only at h
        split at h
        · exact (hk.trans hn).trans (ih h)
        · cases h
          exact hk.trans hn
      | _ =>
        cases h
        exact hk.trans hn

/-- What extracting does: the unpacker stays where it is. A file is extracted under the name that is
kept of it, and that is gone afterwards. -/
structure ExtractsFile (u : KCF) (e : KcfError) (v : KCF) : Prop extends Moves u v where
  packerState : v.packerState = u.packerState
  ok : e = .ok → u.unpackerState = .fileHeader ∧ u.currentFile.fileName ≠ none ∧
    v.currentFile.fileName = none
  failed : v.currentFile = u.currentFile ∨ v.currentFile.fileName = none

theorem extract_extracts {rounds fuel : ℕ} {output out : IOStream}
    (h : u.extract rounds fuel output = .ok (e, v, out)) : u.ExtractsFile e v := by
  unfold extract at h
  split at h
  · cases h
    exact ⟨.refl _, rfl, fun he => (by cases he), .inl rfl⟩
  · rename_i hstart
    have hu : u.unpackerState = .fileHeader := not_not.mp fun hu => hstart (.inr hu)
    have hm := u.readLastRecord_movesOn
    generalize u.readLastRecord = x at h hm
    obtain ⟨e', k⟩ := x
    cases e' with
    | ok =>
      have hset (R : Record) (heap : Heap) : u.MovesOn { k with lastRecord := R, heap := heap } :=
        hm.trans ⟨.same rfl rfl (.refl _), rfl, rfl⟩
      dsimp only at h
      split at h
      · cases h
        have hk := hset (recClear k.lastRecord) k.heap
        exact ⟨hk.toMoves, hk.packerState, fun he => (by cases he), .inl hk.currentFile⟩
      · obtain ⟨⟨e', R, heap⟩, hinfo, h⟩ := Exec.bind_ok h
        dsimp only at h
        split at h
        · rename_i he
          cases h
          have hk := hset (recClear R) heap
          exact ⟨hk.toMoves, hk.packerState, fun h => absurd h he, .inl hk.currentFile⟩
        · rename_i he
          obtain rfl : e' = .ok := not_not.mp he
          obtain ⟨⟨⟨name, hname, -⟩, -⟩, -⟩ := recordToFileInfo_ok hinfo
          obtain ⟨⟨e', k', output'⟩, hl, h⟩ := Exec.bind_ok h
          cases h
          have hk := (hset R heap).trans (extractLoop_movesOn hl)
          refine ⟨hk.toMoves.trans (.same rfl rfl (.refl _)), hk.packerState,
            fun _ => ⟨hu, ?_, rfl⟩, .inr rfl⟩
          rw [← hm.currentFile, hname]
          exact Option.some_ne_none name
    | _ =>
      cases h
      exact ⟨hm.toMoves, hm.packerState, fun he => (by cases he), .inl hm.currentFile⟩

theorem archiveStep_samePhase {c : ArchiveCall} (h : archiveStep c u = .ok (e, v)) :
    u.SamePhase v := by
  cases c with
  | reader c =>
    obtain ⟨⟨a, k⟩, hr, h⟩ := Exec.map_ok h
    cases h
    exact (readerStep_movesOn hr).toSamePhase
  | writer c => exact (writerStep_movesOn h).toSamePhase
  | startWriting =>
    obtain rfl : u.startWriting.2 = v := congrArg Prod.snd (Except.ok.inj h)
    exact u.startWriting_samePhase
  | initArchive => exact initArchive_samePhase h
  | findMarker => exact (findMarker_movesOn h).toSamePhase
  | writeMarker =>
    obtain rfl : u.writeMarker.2 = v := congrArg Prod.snd (Except.ok.inj h)
    exact u.writeMarker_movesOn.toSamePhase
  | writeArchiveHeader => exact (writeArchiveHeader_movesOn h).toSamePhase
  | beginFile =>
    obtain ⟨⟨e', k, i⟩, hb, h⟩ := Exec.map_ok h
    cases h
    exact beginFile_samePhase hb
  | insertFileData =>
    obtain ⟨⟨e', k, out⟩, hi, h⟩ := Exec.map_ok h
    cases h
    exact insertFileData_samePhase hi
  | endFile => exact endFile_samePhase h
  | getCurrentFileInfo =>
    obtain ⟨⟨e', k, i⟩, hg, h⟩ := Exec.map_ok h
    cases h
    exact (getCurrentFileInfo_asks hg).toSamePhase
  | skipFile => exact (skipFile_skipsFile h).toSamePhase
  | extract =>
    obtain ⟨⟨e', k, out⟩, hx, h⟩ := Exec.map_ok h
    cases h
    exact (extract_extracts hx).toSamePhase

/-- A silent handle that does not start to write stays silent and only reads. -/
theorem archiveStep_silent {c : ArchiveCall} (hu : u.Silent)
    (hc : c.StartsWriting → u.parserState ≠ .readRecordHeader)
    (h : archiveStep c u = .ok (e, v)) : v.Silent ∧ u.stream.ReadOn v.stream := by
  obtain ⟨hbegin, hinsert, hend⟩ := packing_refused hu.isWriting
  cases c with
  | reader c =>
    obtain ⟨⟨a, k⟩, hr, h⟩ := Exec.map_ok h
    cases h
    exact (readerStep_movesOn hr).silent hu
  | writer c => exact (writerStep_movesOn h).silent hu
  | startWriting =>
    obtain rfl : u.startWriting.2 = v := congrArg Prod.snd (Except.ok.inj h)
    exact (startWriting_movesOn (hc .startWriting)).silent hu
  | initArchive local₀ => exact (initArchive_movesOn (hc (.initArchive local₀)) h).silent hu
  | findMarker => exact (findMarker_movesOn h).silent hu
  | writeMarker =>
    obtain rfl : u.writeMarker.2 = v := congrArg Prod.snd (Except.ok.inj h)
    exact u.writeMarker_movesOn.silent hu
  | writeArchiveHeader => exact (writeArchiveHeader_movesOn h).silent hu
  | beginFile info local₀ =>
    rw [archiveStep, hbegin] at h
    cases h
    exact ⟨hu, .refl _⟩
  | insertFileData fuel input buffer bytesRead =>
    rw [archiveStep, hinsert] at h
    cases h
    exact ⟨hu, .refl _⟩
  | endFile =>
    rw [archiveStep, hend] at h
    cases h
    exact ⟨hu, .refl _⟩
  | getCurrentFileInfo =>
    obtain ⟨⟨e', k, i⟩, hg, h⟩ := Exec.map_ok h
    cases h
    exact (getCurrentFileInfo_asks hg).silent hu
  | skipFile => exact (skipFile_skipsFile h).silent hu
  | extract =>
    obtain ⟨⟨e', k, out⟩, hx, h⟩ := Exec.map_ok h
    cases h
    exact (extract_extracts hx).silent hu

end KCF

end Kcf
