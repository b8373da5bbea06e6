import Kcf.Archive.Calls
import Kcf.Archive.Marker
import Kcf.Writer.Draft

/-! # Where the calls leave their memory

Whatever the stream and the heap answer, and in whatever order a client reads, writes and
turns from one to the other, there are two ways out of bounds. A read of added data fails
with a result that passes for enough bytes, or a header is patched whose data was lost
when the record was copied.
-/

namespace Kcf

open CallMachine

namespace KCF

/-- Added data is asked for, the read fails, and its result passes for enough. -/
structure ReadsWild (kcf : KCF) (bufferSize : ℕ) : Prop where
  state : kcf.parserState = .readAddedData
  available : kcf.availableAddedData ≠ 0
  fails : (kcf.stream.reads 0).Fails
  passes : kcf.asked bufferSize ≤ toSize (ioRead kcf.stream (kcf.asked bufferSize)).1

/-- The open record is to be patched, there is memory to do it, and the record is without the data
that it is said to have. -/
structure PatchesLost (kcf : KCF) : Prop where
  patches : kcf.Patches
  seeks : kcf.stream.seeks 0 = .done
  memory : (kcf.heap 0).isSome
  data : kcf.lastRecord.data = none
  dataSize : kcf.lastRecord.dataSize ≠ 0

/-- There is no memory for the data of the archive header, or what is left of it goes to finish the
open record. -/
def HeaderFails (kcf : KCF) : Prop :=
  kcf.heap 0 = none ∨ { kcf with heap := kcf.heap.next }.PatchesLost

/-- A record that is open has room for its size. -/
def Room (kcf : KCF) : Prop :=
  kcf.parserState = .writeAddedData →
    headerLength kcf.lastRecord.headFlags + kcf.lastRecord.dataSize ≤ 65535

end KCF

/-- The calls that read and write records, but not past them, with what the interface asks for,
and those that turn from one to the other or look for a marker. -/
inductive ArchiveCall.Plain : ArchiveCall → Prop
  | reader {c : ReaderCall} : (∀ fuel header, c ≠ .skipRecord fuel header) → Plain (.reader c)
  | writer {c : WriterCall} : c.Proper → Plain (.writer c)
  | startWriting : Plain .startWriting
  | findMarker : Plain .findMarker
  | writeMarker : Plain .writeMarker
  | initArchive (local₀ : Record) : Plain (.initArchive local₀)
  | writeArchiveHeader (local₀ : Record) : Plain (.writeArchiveHeader local₀)

/-- The call leaves its memory in this state. -/
def ArchiveCall.Hazard (kcf : KCF) : ArchiveCall → Prop
  | .reader (.readAddedData (some bufferSize)) => kcf.ReadsWild bufferSize
  | .reader .startReading => kcf.PatchesLost
  | .writer (.record _) => kcf.PatchesLost
  | .writer (.whole _ _) => kcf.PatchesLost
  | .writer .finish => kcf.PatchesLost
  | .initArchive _ => kcf.startWriting.1 = .ok ∧ kcf.startWriting.2.HeaderFails
  | .writeArchiveHeader _ => kcf.HeaderFails
  | _ => False

theorem Exec.bind_error_iff {α β : Type} {x : Exec α} {g : α → Exec β} {f : Fault}
    (h : ∀ a, x = .ok a → ∃ b, g a = .ok b) : (x >>= g) = .error f ↔ x = .error f := by
  cases x with
  | error fault =>
    constructor <;>
    · rintro ⟨⟩
      rfl
  | ok a =>
    obtain ⟨b, hb⟩ := h a rfl
    exact iff_of_false (fun herr => absurd (hb.symm.trans herr) nofun) nofun

theorem Exec.map_error_iff {α β : Type} {x : Exec α} {g : α → β} {f : Fault} :
    x.map g = .error f ↔ x = .error f := by
  cases x with
  | error fault =>
    constructor <;>
    · rintro ⟨⟩
      rfl
  | ok a => exact iff_of_false nofun nofun

theorem Exec.error_of_map {α : Type} {x : Exec α} {f : Fault}
    (h : x.map (fun _ => ()) = .error f) : x = .error f := Exec.map_error_iff.mp h

namespace KCF

variable {kcf k u v : KCF} {R R' : Record} {e : KcfError} {f : Fault}

theorem readAddedData_error_iff {bufferSize : ℕ} :
    kcf.readAddedData (some bufferSize) = .error f ↔
      f = .outOfBounds ∧ kcf.ReadsWild bufferSize := by
  by_cases hp : kcf.parserState = .readAddedData
  swap
  · rw [readAddedData_of_ne hp]
    exact iff_of_false nofun fun h => hp h.2.state
  by_cases h₀ : kcf.availableAddedData = 0
  · rw [readAddedData_of_added hp, if_pos h₀]
    exact iff_of_false nofun fun h => h.2.available h₀
  have hneg : (ioRead kcf.stream (kcf.asked bufferSize)).1 < 0 ↔ (kcf.stream.reads 0).Fails :=
    Transfer.ret_neg_iff ..
  have hwild : kcf.ReadsWild bufferSize ↔ (ioRead kcf.stream (kcf.asked bufferSize)).1 < 0 ∧
      kcf.asked bufferSize ≤ toSize (ioRead kcf.stream (kcf.asked bufferSize)).1 :=
    ⟨fun h => ⟨hneg.mpr h.fails, h.passes⟩, fun h => ⟨hp, h₀, hneg.mp h.1, h.2⟩⟩
  rw [readAddedData_of_added hp, if_neg h₀, hwild]
  change kcf.readAvailable (kcf.asked bufferSize) = _ ↔ _
  unfold readAvailable
  generalize ioRead kcf.stream (kcf.asked bufferSize) = x
  obtain ⟨ret, bytes, stream⟩ := x
  dsimp only
  split
  · exact iff_of_false nofun fun h => by omega
  · rename_i hshort
    split
    · rename_i hret
      constructor
      · rintro ⟨⟩
        exact ⟨rfl, hret, Nat.not_lt.mp hshort⟩
      · rintro ⟨rfl, -⟩
        rfl
    · rename_i hret
      exact iff_of_false nofun fun h => hret h.2.1

/-- Finishing a record leaves its memory where the record to be patched does not fit. -/
theorem finishAddedData_error_iff (h : kcf.Room) :
    kcf.finishAddedData = .error f ↔ f = .outOfBounds ∧ kcf.PatchesLost := by
  by_cases hpatch : kcf.Patches
  swap
  · refine iff_of_false ?_ fun h => hpatch h.2.patches
    intro herr
    by_cases hp : kcf.parserState = .writeAddedData
    · have hk : kcf.keepsHeader = true := by
        rw [← Bool.not_eq_false]
        exact fun hk => hpatch ⟨hp, hk⟩
      rw [finishAddedData_of_keeps hp hk] at herr
      cases herr
    · rw [finishAddedData_of_ne hp] at herr
      cases herr
  rw [finishAddedData_of_patches hpatch]
  cases hs : kcf.stream.seeks 0 with
  | failed code => exact iff_of_false nofun fun h => absurd (hs.symm.trans h.2.seeks) nofun
  | done =>
    dsimp only
    rcases hm : kcf.heap 0 with _ | fresh
    · rw [patchHeader_of_none (kcf.sought kcf.recordOffset) hm]
      exact iff_of_false nofun fun h => absurd h.2.memory (by simp [hm])
    · have hm' : (kcf.heap 0).isSome := by simp [hm]
      by_cases hf : kcf.lastRecord.Fits
      · rw [patchHeader_of_fits (kcf.sought kcf.recordOffset) hm' hf]
        refine iff_of_false ?_ fun h => h.2.dataSize (hf.1 h.2.data)
        split <;> nofun
      · rw [patchHeader_of_not_fits (kcf.sought kcf.recordOffset) hm' hf]
        have hlost : kcf.lastRecord.data = none ∧ kcf.lastRecord.dataSize ≠ 0 := by
          by_contra hkept
          exact hf ⟨fun hd => not_not.mp fun hn => hkept ⟨hd, hn⟩, h hpatch.1⟩
        constructor
        · rintro ⟨⟩
          exact ⟨rfl, hpatch, hs, hm', hlost.1, hlost.2⟩
        · rintro ⟨rfl, -⟩
          rfl

theorem acceptRecord_error_iff (h : kcf.Room) :
    kcf.acceptRecord = .error f ↔ f = .outOfBounds ∧ kcf.PatchesLost := by
  by_cases hp : kcf.parserState = .writeAddedData
  · rw [acceptRecord_of_writeAddedData hp, Exec.bind_error_iff fun a _ => ⟨_, rfl⟩]
    exact finishAddedData_error_iff h
  · refine iff_of_false (fun herr => ?_) fun h => hp h.2.patches.1
    have hcome : ∃ e k, kcf.acceptRecord = .ok (e, k) := by
      by_cases hw : kcf.parserState = .writing
      · exact ⟨_, _, (Accept.started hw).eq⟩
      by_cases hr : kcf.parserState = .writeRecord
      · exact ⟨_, _, (Accept.idle hr).eq⟩
      · exact ⟨_, _, (Accept.refused hw hr hp).eq⟩
    obtain ⟨e, k, hok⟩ := hcome
    exact absurd (hok.symm.trans herr) nofun

theorem placeRecord_comes (hf : R.Fits) (k : KCF) : ∃ r, k.placeRecord (recFix R) = .ok r := by
  cases hm : k.heap 0 with
  | none => exact ⟨_, placeRecord_of_none hm R⟩
  | some fresh =>
    rw [placeRecord_of_fits (by simp [hm]) hf]
    split <;> exact ⟨_, rfl⟩

theorem placeRecordWithAddedData_comes (hf : R.Fits) (k : KCF) (D : List UInt8) :
    ∃ r, k.placeRecordWithAddedData (recFix R) D = .ok r := by
  cases hm : k.heap 0 with
  | none => exact ⟨_, placeRecordWithAddedData_of_none hm R D⟩
  | some fresh =>
    rw [placeRecordWithAddedData_of_fits (by simp [hm]) hf]
    split
    · exact ⟨_, rfl⟩
    · split <;> exact ⟨_, rfl⟩

theorem writeRecord_error_iff (h : kcf.Room) (hf : R.Fits) :
    kcf.writeRecord R = .error f ↔ f = .outOfBounds ∧ kcf.PatchesLost := by
  unfold writeRecord
  rw [Exec.bind_error_iff, acceptRecord_error_iff h]
  rintro ⟨e, k⟩ -
  dsimp only
  split
  · exact ⟨_, rfl⟩
  · exact placeRecord_comes hf k

theorem writeRecordWithAddedData_error_iff {D : List UInt8} (h : kcf.Room)
    (hf : (describeAddedData R D).Fits) :
    kcf.writeRecordWithAddedData R D = .error f ↔ f = .outOfBounds ∧ kcf.PatchesLost := by
  unfold writeRecordWithAddedData
  rw [Exec.bind_error_iff, acceptRecord_error_iff h]
  rintro ⟨e, k⟩ -
  dsimp only
  split
  · exact ⟨_, rfl⟩
  · exact placeRecordWithAddedData_comes hf k D

theorem writeAddedData_comes {data : List UInt8} {size : ℕ} (h : size ≤ data.length) (kcf : KCF) :
    ∃ r, kcf.writeAddedData data size = .ok r := by
  have ha := kcf.acceptedSize_le size
  by_cases hp : kcf.parserState = .writeAddedData
  · rw [writeAddedData_of_open hp, if_neg (by omega : ¬ data.length < kcf.acceptedSize size)]
    split
    · exact ⟨_, rfl⟩
    · split <;> exact ⟨_, rfl⟩
  · exact ⟨_, writeAddedData_of_ne hp data size⟩

theorem writerStep_error_iff {c : WriterCall} (h : kcf.Room) (hc : c.Proper) :
    writerStep c kcf = .error f ↔ f = .outOfBounds ∧ (ArchiveCall.writer c).Hazard kcf := by
  cases c with
  | record R => exact (Exec.bind_error_iff fun a _ => ⟨_, rfl⟩).trans (writeRecord_error_iff h hc)
  | whole R D =>
    exact (Exec.bind_error_iff fun a _ => ⟨_, rfl⟩).trans (writeRecordWithAddedData_error_iff h hc)
  | data addedData size =>
    obtain ⟨r, hr⟩ := writeAddedData_comes hc kcf
    exact iff_of_false (fun herr => absurd (hr.symm.trans herr) nofun) And.right
  | finish => exact finishAddedData_error_iff h

theorem startReading_error_iff (h : kcf.Room) :
    kcf.startReading = .error f ↔ f = .outOfBounds ∧ kcf.PatchesLost := by
  by_cases hp : kcf.parserState = .writeAddedData
  · unfold startReading
    rw [hp]
    refine Iff.trans (Exec.bind_error_iff ?_) (finishAddedData_error_iff h)
    rintro ⟨e, k⟩ -
    dsimp only
    split <;> exact ⟨_, rfl⟩
  · refine iff_of_false ?_ fun h => hp h.2.patches.1
    unfold startReading
    split
    case h_4 hp' => exact absurd hp' hp
    all_goals nofun

theorem readerStep_error_iff {c : ReaderCall} (h : kcf.Room)
    (hc : ∀ fuel header, c ≠ .skipRecord fuel header) :
    readerStep c kcf = .error f ↔ f = .outOfBounds ∧ (ArchiveCall.reader c).Hazard kcf := by
  cases c with
  | readRecord R => exact iff_of_false nofun And.right
  | readAddedData bufferSize =>
    cases bufferSize with
    | none => exact iff_of_false nofun And.right
    | some n => exact Exec.map_error_iff.trans readAddedData_error_iff
  | isAddedDataAvailable => exact iff_of_false nofun And.right
  | skipRecord fuel header => exact absurd rfl (hc fuel header)
  | startReading => exact Exec.map_error_iff.trans (startReading_error_iff h)

theorem length_ahead_ioRead {s : IOStream} {size : ℕ} (h : 0 < (ioRead s size).1) :
    (ioRead s size).2.2.ahead.length < s.ahead.length := by
  have hmoved : 0 < (s.reads 0).moved (min size (s.bytes.length - s.pos)) := by
    unfold ioRead at h
    cases hr : s.reads 0 <;> simp only [hr, Transfer.ret, Transfer.moved] at h ⊢ <;> omega
  have hle := (s.reads 0).moved_le (min size (s.bytes.length - s.pos))
  have hahead : s.ahead.length = s.bytes.length - s.pos := List.length_drop ..
  have hrest : (ioRead s size).2.2.ahead.length =
      s.ahead.length - (s.reads 0).moved (min size (s.bytes.length - s.pos)) := by
    rw [ioRead, IOStream.ahead_took, List.length_drop]
  omega

theorem findMarkerLoop_comes {fuel : ℕ} {s : IOStream} (h : s.ahead.length < fuel)
    (buf : List UInt8) : ∃ r, findMarkerLoop fuel s buf = .ok r := by
  induction fuel generalizing s buf with
  | zero => omega
  | succ fuel ih =>
    unfold findMarkerLoop
    split
    · exact ⟨_, rfl⟩
    · dsimp only
      split
      · rename_i hret
        exact ih (Nat.lt_of_lt_of_le (length_ahead_ioRead hret) (Nat.le_of_lt_succ h)) _
      · exact ⟨_, rfl⟩

theorem findMarker_comes (kcf : KCF) : ∃ r, kcf.findMarker = .ok r := by
  unfold findMarker
  split
  · exact ⟨_, rfl⟩
  · obtain ⟨⟨found, ret, stream⟩, hr⟩ :=
      findMarkerLoop_comes (Nat.lt_succ_self kcf.stream.ahead.length) (List.replicate 6 0)
    change ∃ r, (findMarkerLoop (kcf.stream.ahead.length + 1) kcf.stream _ >>= _) = Except.ok r
    rw [hr, Exec.ok_bind]
    dsimp only
    split
    · exact ⟨_, rfl⟩
    · split <;> exact ⟨_, rfl⟩

/-- A record changed in nothing that its layout needs room for. -/
structure SameShape (R S : Record) : Prop where
  headFlags : S.headFlags = R.headFlags
  dataSize : S.dataSize = R.dataSize
  data : S.data = R.data

theorem SameShape.trans {S T : Record} (h : SameShape R S) (h' : SameShape S T) :
    SameShape R T :=
  ⟨h'.headFlags.trans h.headFlags, h'.dataSize.trans h.dataSize, h'.data.trans h.data⟩

theorem SameShape.fits {S : Record} (h : SameShape R S) (hf : R.Fits) : S.Fits := by
  unfold Record.Fits at hf ⊢
  rwa [h.headFlags, h.dataSize, h.data]

theorem writeMarker_opened (hv : kcf.writeMarker.2.parserState = .writeAddedData) :
    kcf.parserState = .writeAddedData ∧ SameShape kcf.lastRecord kcf.writeMarker.2.lastRecord := by
  unfold writeMarker at hv ⊢
  split at hv
  · rename_i h
    rw [if_pos h]
    exact ⟨hv, rfl, rfl, rfl⟩
  · rename_i h
    rw [if_neg h]
    dsimp only at hv ⊢
    split at hv <;> rename_i hret
    · rw [if_pos hret]
      exact ⟨hv, rfl, rfl, rfl⟩
    · rw [if_neg hret]
      exact ⟨hv, rfl, rfl, rfl⟩

theorem startWriting_opened (hv : kcf.startWriting.2.parserState = .writeAddedData) :
    kcf.parserState = .writeAddedData ∧
      SameShape kcf.lastRecord kcf.startWriting.2.lastRecord := by
  by_cases hp : kcf.parserState = .writeAddedData
  · have hstart : kcf.startWriting = (.ok, kcf) := by
      unfold startWriting
      rw [hp]
    rw [hstart]
    exact ⟨hp, rfl, rfl, rfl⟩
  · exfalso
    unfold startWriting at hv
    split at hv
    case h_5 => cases hv
    case h_6 | h_7 | h_8 => exact hp hv
    all_goals exact absurd (writeMarker_opened hv).1 nofun

theorem writeMarker_heap (kcf : KCF) : kcf.writeMarker.2.heap = kcf.heap := by
  unfold writeMarker
  split
  · rfl
  · dsimp only
    split <;> rfl

theorem startWriting_heap (kcf : KCF) : kcf.startWriting.2.heap = kcf.heap := by
  unfold startWriting
  split
  case h_5 | h_6 | h_7 | h_8 => rfl
  all_goals exact writeMarker_heap _

theorem Room.startWriting (h : kcf.Room) : kcf.startWriting.2.Room := by
  intro hv
  obtain ⟨hu, hshape⟩ := startWriting_opened hv
  rw [hshape.headFlags, hshape.dataSize]
  exact h hu

theorem recFromArchiveHeader_of_some {heap : Heap} (hm : heap 0 ≠ none) (version : UInt16)
    (R : Record) :
    ∃ R', recFromArchiveHeader version R heap = .ok (recFix R', heap.next) ∧ R'.Fits := by
  obtain ⟨block, hblock, hlen⟩ :=
    malloc_granted (Option.isSome_iff_ne_none.mpr hm) (show 2 ≤ PTRDIFF_MAX by decide)
  have hfits : writeBytes 2 ⟨block, 0⟩ (LittleEndian.encode 2 version.toNat) = _ :=
    writeBytes_fits (by simp) hlen.ge
  unfold recFromArchiveHeader
  rw [hblock]
  dsimp only
  rw [writeU16LE_eq, hfits]
  refine ⟨_, rfl, nofun, ?_⟩
  have hle := headerLength_le 0
  change headerLength 0 + (block.overwrite 0 _).length ≤ 65535
  rw [List.length_overwrite_of_le (by simp [hlen]), hlen]
  omega

theorem recFromArchiveHeader_of_none {heap : Heap} (hm : heap 0 = none) (version : UInt16)
    (R : Record) : recFromArchiveHeader version R heap = .error .outOfBounds := by
  have hnull : (malloc heap 2).1 = none := malloc_eq_none hm
  unfold recFromArchiveHeader
  split
  · rfl
  · rename_i heq
    rw [heq] at hnull
    cases hnull

theorem writeArchiveHeader_error_iff (h : kcf.Room) (local₀ : Record) :
    kcf.writeArchiveHeader local₀ = .error f ↔ f = .outOfBounds ∧ kcf.HeaderFails := by
  unfold writeArchiveHeader
  rcases hm : kcf.heap 0 with _ | fresh
  · rw [recFromArchiveHeader_of_none hm]
    constructor
    · rintro ⟨⟩
      exact ⟨rfl, .inl hm⟩
    · rintro ⟨rfl, -⟩
      rfl
  · have hrest : KCF.Room { kcf with heap := kcf.heap.next } := h
    have hsome : kcf.heap 0 ≠ none := by simp [hm]
    obtain ⟨R, hR, hf⟩ := recFromArchiveHeader_of_some hsome 1 local₀
    rw [hR, Exec.ok_bind]
    calc _ ↔ KCF.writeRecord { kcf with heap := kcf.heap.next } (recFix R) = .error f :=
          Exec.bind_error_iff fun a _ => ⟨_, rfl⟩
      _ ↔ _ := writeRecord_error_iff hrest hf
      _ ↔ f = .outOfBounds ∧ kcf.HeaderFails :=
          and_congr_right fun _ => (or_iff_right hsome).symm

/-- A plain call leaves its memory exactly in these states. -/
theorem archiveStep_error_iff {c : ArchiveCall} (h : kcf.Room) (hc : c.Plain) :
    archiveStep c kcf = .error f ↔ f = .outOfBounds ∧ c.Hazard kcf := by
  cases hc with
  | reader hc => exact Exec.map_error_iff.trans (readerStep_error_iff h hc)
  | writer hc => exact writerStep_error_iff h hc
  | startWriting => exact iff_of_false nofun And.right
  | findMarker =>
    obtain ⟨r, hr⟩ := kcf.findMarker_comes
    exact iff_of_false (fun herr => absurd (hr.symm.trans herr) nofun) And.right
  | writeMarker => exact iff_of_false nofun And.right
  | initArchive local₀ =>
    have hroom := h.startWriting
    change kcf.initArchive local₀ = _ ↔ _ ∧ kcf.startWriting.1 = .ok ∧
      kcf.startWriting.2.HeaderFails
    unfold initArchive
    generalize kcf.startWriting = x at hroom
    obtain ⟨e, k⟩ := x
    cases e with
    | ok => exact (writeArchiveHeader_error_iff hroom local₀).trans (by simp)
    | _ => exact iff_of_false nofun fun h => absurd h.2.1 nofun
  | writeArchiveHeader local₀ => exact writeArchiveHeader_error_iff h local₀

theorem Finish.opened (h : kcf.Finish e v) (hv : v.parserState = .writeAddedData) :
    kcf.parserState = .writeAddedData ∧ SameShape kcf.lastRecord v.lastRecord := by
  cases h with
  | refused hp => exact absurd hv hp
  | kept => cases hv
  | seekFailed hp => exact ⟨hp.1, rfl, rfl, rfl⟩
  | noMemory hp => exact ⟨hp.1, rfl, rfl, rfl⟩
  | writeFailed hp => exact ⟨hp.1, rfl, rfl, rfl⟩
  | patched => cases hv

theorem Accept.opened (h : kcf.Accept e v) (hv : v.parserState = .writeAddedData) :
    kcf.parserState = .writeAddedData ∧ SameShape kcf.lastRecord v.lastRecord := by
  cases h with
  | refused => exact ⟨hv, rfl, rfl, rfl⟩
  | started => cases hv
  | idle => exact ⟨hv, rfl, rfl, rfl⟩
  | finished _ hf => exact hf.opened hv

theorem Finish.grants (h : kcf.Finish e v) (hg : kcf.heap.Grants) : v.heap.Grants := by
  cases h with
  | noMemory => exact hg.next
  | writeFailed => exact hg.next
  | patched => exact hg.next
  | _ => exact hg

theorem Accept.grants (h : kcf.Accept e v) (hg : kcf.heap.Grants) : v.heap.Grants := by
  cases h with
  | finished _ hf => exact hf.grants hg
  | _ => exact hg

/-- What is open after a call was open before it, or is the copy of a record that fits. -/
def Opens (u v : KCF) : Prop :=
  (u.parserState = .writeAddedData ∧ SameShape u.lastRecord v.lastRecord) ∨
    ∃ R heap, R.Fits ∧ (u.heap.Grants → heap.Grants) ∧
      v.lastRecord = (recCopy (recFix R) heap).2.1

theorem WriteRecord.opened (h : kcf.WriteRecord R e v R') (hf : R.Fits)
    (hv : v.parserState = .writeAddedData) : Opens kcf v := by
  cases h with
  | refused ha => exact .inl (ha.opened hv)
  | noMemory ha => exact .inl (ha.opened hv)
  | failed ha => exact .inl (ha.opened hv)
  | @written k ha =>
    cases hz : recHasAddedSize (recFix R) with
    | true =>
      refine .inr ⟨R, k.heap.next, hf, fun hg => (ha.grants hg).next, ?_⟩
      simp only [saveRecord, hz, if_true]
      rfl
    | false =>
      have hsame : (k.placed (recFix R)).saveRecord (recFix R) =
          { k.placed (recFix R) with
            hasAddedSize := false
            hasAddedDataCRC32 := recHasAddedDataCRC (recFix R) } := by
        simp [saveRecord, hz]
      rw [hsame] at hv ⊢
      exact .inl (ha.opened hv)

theorem WriteWhole.opened {D : List UInt8} (h : kcf.WriteWhole R D e v R')
    (hv : v.parserState = .writeAddedData) :
    kcf.parserState = .writeAddedData ∧ SameShape kcf.lastRecord v.lastRecord := by
  cases h with
  | refused ha => exact ha.opened hv
  | noMemory ha => exact ha.opened hv
  | headerFailed ha => exact ha.opened hv
  | dataFailed ha => exact ha.opened hv
  | written ha => exact ha.opened hv

theorem WriteData.opened {data : List UInt8} {size : ℕ} (h : kcf.WriteData data size e v)
    (hv : v.parserState = .writeAddedData) :
    kcf.parserState = .writeAddedData ∧ SameShape kcf.lastRecord v.lastRecord := by
  cases h <;> exact ⟨hv, rfl, rfl, rfl⟩

theorem startReading_opened (h : kcf.startReading = .ok (e, v))
    (hv : v.parserState = .writeAddedData) :
    kcf.parserState = .writeAddedData ∧ SameShape kcf.lastRecord v.lastRecord := by
  have hflushed {k : KCF} (hk : k.parserState = .writeRecord) :
      (startReading.flushed k).2.parserState ≠ .writeAddedData := by
    unfold startReading.flushed
    dsimp only
    split
    · rw [hk]
      nofun
    · nofun
  unfold startReading at h
  split at h
  case h_1 | h_2 | h_3 =>
    cases h
    cases hv
  case h_4 hp =>
    obtain ⟨⟨e', k⟩, hf, h⟩ := Exec.bind_ok h
    have hf := finish_of_eq hf
    dsimp only at h
    split at h
    · cases h
      exact hf.opened hv
    · rename_i he
      obtain rfl : e' = .ok := not_not.mp he
      obtain rfl : (startReading.flushed k).2 = v := congrArg Prod.snd (Except.ok.inj h)
      exact absurd hv (hflushed hf.parserState)
  case h_5 hp =>
    obtain rfl : (startReading.flushed kcf).2 = v := congrArg Prod.snd (Except.ok.inj h)
    exact absurd hv (hflushed hp)
  case h_6 =>
    cases h
    exact ⟨hv, rfl, rfl, rfl⟩

theorem readerStep_opened {c : ReaderCall} {a : ReaderResult} (h : readerStep c kcf = .ok (a, v))
    (hv : v.parserState = .writeAddedData) :
    kcf.parserState = .writeAddedData ∧ SameShape kcf.lastRecord v.lastRecord := by
  have hs := stepped_of_step h
  generalize a.error = e at hs
  cases hs with
  | nullRecord => exact ⟨hv, rfl, rfl, rfl⟩
  | record hr =>
    cases hr with
    | refused => exact ⟨hv, rfl, rfl, rfl⟩
    | noHeader _ _ hk => exact absurd (hk.symm.trans hv) nofun
    | noData _ _ _ _ hk => exact absurd (hk.symm.trans hv) nofun
    | read _ _ _ hk =>
      rw [hk] at hv
      split at hv <;> cases hv
  | nullBuffer => exact ⟨hv, rfl, rfl, rfl⟩
  | added ha =>
    cases ha with
    | refused => exact ⟨hv, rfl, rfl, rfl⟩
    | nothing _ _ hk => exact absurd (hk.symm.trans hv) nofun
    | short _ _ hk => exact absurd (hk.symm.trans hv) nofun
    | read _ _ hk =>
      rw [hk] at hv
      split at hv <;> cases hv
  | asked => exact ⟨hv, rfl, rfl, rfl⟩
  | skipped hs =>
    cases hs with
    | refused => exact ⟨hv, rfl, rfl, rfl⟩
    | noHeader _ _ hk => exact absurd (hk.symm.trans hv) nofun
    | header _ _ hk => exact absurd (hk.symm.trans hv) nofun
    | added _ hk => exact absurd (hk.symm.trans hv) nofun
  | started hst => exact startReading_opened hst hv

theorem findMarker_opened (h : kcf.findMarker = .ok (e, v))
    (hv : v.parserState = .writeAddedData) :
    kcf.parserState = .writeAddedData ∧ SameShape kcf.lastRecord v.lastRecord := by
  unfold findMarker at h
  split at h
  · cases h
    exact ⟨hv, rfl, rfl, rfl⟩
  · obtain ⟨⟨found, ret, stream⟩, -, h⟩ := Exec.bind_ok h
    dsimp only at h
    split at h
    · cases h
      exact ⟨hv, rfl, rfl, rfl⟩
    · split at h <;>
      · cases h
        exact ⟨hv, rfl, rfl, rfl⟩

theorem writeArchiveHeader_opened {local₀ : Record}
    (h : kcf.writeArchiveHeader local₀ = .ok (e, v)) (hv : v.parserState = .writeAddedData) :
    Opens kcf v := by
  obtain ⟨⟨R, heap⟩, hR, h⟩ := Exec.bind_ok h
  obtain ⟨⟨e', k, R'⟩, hw, h⟩ := Exec.bind_ok h
  cases h
  by_cases hm : kcf.heap 0 = none
  · exact absurd ((recFromArchiveHeader_of_none hm 1 local₀).symm.trans hR) nofun
  · obtain ⟨S, hS, hf⟩ := recFromArchiveHeader_of_some hm 1 local₀
    cases hS.symm.trans hR
    rcases (writeRecord_of_eq hw).opened hf hv with hopen | ⟨S', heap', hf', hg, hlast⟩
    · exact .inl hopen
    · exact .inr ⟨S', heap', hf', fun hk => hg hk.next, hlast⟩

theorem initArchive_opened {local₀ : Record} (h : kcf.initArchive local₀ = .ok (e, v))
    (hv : v.parserState = .writeAddedData) : Opens kcf v := by
  have hopened := kcf.startWriting_opened
  have hheap := kcf.startWriting_heap
  unfold initArchive at h
  generalize kcf.startWriting = x at h hopened hheap
  obtain ⟨e', k⟩ := x
  cases e' with
  | ok =>
    rcases writeArchiveHeader_opened h hv with ⟨hk, hshape⟩ | ⟨R, heap, hf, hg, hlast⟩
    · obtain ⟨hu, hshape'⟩ := hopened hk
      exact .inl ⟨hu, hshape'.trans hshape⟩
    · exact .inr ⟨R, heap, hf, fun hu => hg (hheap ▸ hu), hlast⟩
  | _ =>
    cases h
    exact .inl (hopened hv)

/-- What is open after a plain call was open before it, or is the copy of a record just written. -/
theorem archiveStep_opened {c : ArchiveCall} (hc : c.Plain) (h : archiveStep c kcf = .ok (e, v))
    (hv : v.parserState = .writeAddedData) : Opens kcf v := by
  cases hc with
  | @reader c hc =>
    obtain ⟨⟨a, k⟩, hr, hk⟩ := Exec.map_ok h
    cases hk
    exact .inl (readerStep_opened hr hv)
  | @writer c hc =>
    cases c with
    | record R =>
      obtain ⟨⟨e', k, R'⟩, hr, hk⟩ := Exec.bind_ok h
      cases hk
      exact (writeRecord_of_eq hr).opened hc hv
    | whole R D =>
      obtain ⟨⟨e', k, R'⟩, hr, hk⟩ := Exec.bind_ok h
      cases hk
      exact .inl ((writeWhole_of_eq hr).opened hv)
    | data addedData size => exact .inl ((writeData_of_eq h).opened hv)
    | finish => exact .inl ((finish_of_eq h).opened hv)
  | startWriting =>
    obtain rfl : kcf.startWriting.2 = v := congrArg Prod.snd (Except.ok.inj h)
    exact .inl (startWriting_opened hv)
  | findMarker => exact .inl (findMarker_opened h hv)
  | writeMarker =>
    obtain rfl : kcf.writeMarker.2 = v := congrArg Prod.snd (Except.ok.inj h)
    exact .inl (writeMarker_opened hv)
  | initArchive local₀ => exact initArchive_opened h hv
  | writeArchiveHeader local₀ => exact writeArchiveHeader_opened h hv

theorem recCopy_shape (R : Record) (heap : Heap) :
    (recCopy R heap).2.1.headFlags = R.headFlags ∧ (recCopy R heap).2.1.dataSize = R.dataSize := by
  unfold recCopy
  split
  · split <;> exact ⟨rfl, rfl⟩
  · exact ⟨rfl, rfl⟩

theorem archiveStep_room {c : ArchiveCall} (hc : c.Plain) (h : kcf.Room)
    (hstep : archiveStep c kcf = .ok (e, v)) : v.Room := by
  intro hv
  rcases archiveStep_opened hc hstep hv with ⟨hu, hshape⟩ | ⟨R, heap, hf, -, hlast⟩
  · rw [hshape.headFlags, hshape.dataSize]
    exact h hu
  · obtain ⟨hflags, hsize⟩ := recCopy_shape (recFix R) heap
    rw [hlast, hflags, hsize]
    exact hf.2

theorem recCopy_grants {heap : Heap} (hg : heap.Grants) (R : Record) :
    (recCopy R heap).2.2.Grants := by
  unfold recCopy
  split
  · have hm := malloc_snd heap R.dataSize
    generalize malloc heap R.dataSize = m at hm
    obtain ⟨_ | block, heap'⟩ := m <;> exact hm ▸ hg.next
  · exact hg

theorem saveRecord_grants (hg : kcf.heap.Grants) (R : Record) :
    (kcf.saveRecord R).heap.Grants := by
  cases hz : recHasAddedSize R with
  | true =>
    have hcopy := recCopy_grants hg R
    simp only [saveRecord, hz, if_true]
    exact hcopy
  | false =>
    simp only [saveRecord, hz]
    exact hg

theorem WriteRecord.grants (h : kcf.WriteRecord R e v R') (hg : kcf.heap.Grants) :
    v.heap.Grants := by
  cases h with
  | refused ha => exact ha.grants hg
  | noMemory ha => exact (ha.grants hg).next
  | failed ha => exact (ha.grants hg).next
  | written ha => exact saveRecord_grants (ha.grants hg).next _

theorem WriteWhole.grants {D : List UInt8} (h : kcf.WriteWhole R D e v R')
    (hg : kcf.heap.Grants) : v.heap.Grants := by
  cases h with
  | refused ha => exact ha.grants hg
  | noMemory ha => exact (ha.grants hg).next
  | headerFailed ha => exact (ha.grants hg).next
  | dataFailed ha => exact (ha.grants hg).next
  | written ha => exact (ha.grants hg).next

theorem startReading_grants (h : kcf.startReading = .ok (e, v)) (hg : kcf.heap.Grants) :
    v.heap.Grants := by
  have hflushed (k : KCF) : (startReading.flushed k).2.heap = k.heap := by
    unfold startReading.flushed
    dsimp only
    split <;> rfl
  unfold startReading at h
  split at h
  case h_4 =>
    obtain ⟨⟨e', k⟩, hf, h⟩ := Exec.bind_ok h
    have hk := (finish_of_eq hf).grants hg
    dsimp only at h
    split at h
    · cases h
      exact hk
    · obtain rfl : (startReading.flushed k).2 = v := congrArg Prod.snd (Except.ok.inj h)
      rwa [hflushed]
  case h_5 =>
    obtain rfl : (startReading.flushed kcf).2 = v := congrArg Prod.snd (Except.ok.inj h)
    rwa [hflushed]
  all_goals
    cases h
    exact hg

theorem readerStep_grants {c : ReaderCall} {a : ReaderResult} (h : readerStep c kcf = .ok (a, v))
    (hg : kcf.heap.Grants) : v.heap.Grants := by
  cases c with
  | startReading =>
    obtain ⟨r, hr, hk⟩ := Exec.map_ok h
    cases hk
    exact startReading_grants hr hg
  | _ => exact (readOn_of_step (by rintro ⟨⟩) h).grants hg

theorem writeArchiveHeader_grants {local₀ : Record}
    (h : kcf.writeArchiveHeader local₀ = .ok (e, v)) (hg : kcf.heap.Grants) :
    v.heap.Grants := by
  obtain ⟨⟨R, heap⟩, hR, h⟩ := Exec.bind_ok h
  obtain ⟨⟨e', k, R'⟩, hw, h⟩ := Exec.bind_ok h
  cases h
  obtain ⟨S, hS, hf⟩ := recFromArchiveHeader_of_some (Option.isSome_iff_ne_none.mp (hg 0)) 1 local₀
  cases hS.symm.trans hR
  exact (writeRecord_of_eq hw).grants hg.next

theorem findMarker_grants (h : kcf.findMarker = .ok (e, v)) (hg : kcf.heap.Grants) :
    v.heap.Grants := by
  unfold findMarker at h
  split at h
  · cases h
    exact hg
  · obtain ⟨⟨found, ret, stream⟩, -, h⟩ := Exec.bind_ok h
    dsimp only at h
    split at h
    · cases h
      exact hg
    · split at h <;>
      · cases h
        exact hg

theorem archiveStep_grants {c : ArchiveCall} (hc : c.Plain) (h : archiveStep c kcf = .ok (e, v))
    (hg : kcf.heap.Grants) : v.heap.Grants := by
  cases hc with
  | reader =>
    obtain ⟨⟨a, k⟩, hr, hk⟩ := Exec.map_ok h
    cases hk
    exact readerStep_grants hr hg
  | @writer c =>
    cases c with
    | record R =>
      obtain ⟨⟨e', k, R'⟩, hr, hk⟩ := Exec.bind_ok h
      cases hk
      exact (writeRecord_of_eq hr).grants hg
    | whole R D =>
      obtain ⟨⟨e', k, R'⟩, hr, hk⟩ := Exec.bind_ok h
      cases hk
      exact (writeWhole_of_eq hr).grants hg
    | data addedData size => cases writeData_of_eq h <;> exact hg
    | finish => exact (finish_of_eq h).grants hg
  | startWriting =>
    obtain rfl : kcf.startWriting.2 = v := congrArg Prod.snd (Except.ok.inj h)
    rwa [startWriting_heap]
  | findMarker => exact findMarker_grants h hg
  | writeMarker =>
    obtain rfl : kcf.writeMarker.2 = v := congrArg Prod.snd (Except.ok.inj h)
    rwa [writeMarker_heap]
  | initArchive local₀ =>
    have hheap := kcf.startWriting_heap
    change kcf.initArchive local₀ = _ at h
    unfold initArchive at h
    generalize kcf.startWriting = x at h hheap
    obtain ⟨e', k⟩ := x
    cases e' with
    | ok => exact writeArchiveHeader_grants h (hheap ▸ hg)
    | _ =>
      cases h
      exact hheap ▸ hg
  | writeArchiveHeader local₀ => exact writeArchiveHeader_grants h hg

/-- There is memory, and the record that is open is whole. -/
structure Sound (kcf : KCF) : Prop where
  grants : kcf.heap.Grants
  fits : kcf.parserState = .writeAddedData → kcf.lastRecord.Fits

theorem Sound.room (h : kcf.Sound) : kcf.Room := fun hp => (h.fits hp).2

theorem Sound.not_patchesLost (h : kcf.Sound) : ¬ kcf.PatchesLost :=
  fun hlost => hlost.dataSize ((h.fits hlost.patches.1).1 hlost.data)

theorem Sound.startWriting (h : kcf.Sound) : kcf.startWriting.2.Sound := by
  refine ⟨kcf.startWriting_heap ▸ h.grants, fun hv => ?_⟩
  obtain ⟨hu, hshape⟩ := startWriting_opened hv
  exact hshape.fits (h.fits hu)

theorem Sound.not_headerFails (h : kcf.Sound) : ¬ kcf.HeaderFails := by
  have hrest : KCF.Sound { kcf with heap := kcf.heap.next } := ⟨h.grants.next, h.fits⟩
  rintro (hnone | hlost)
  · exact absurd (h.grants 0) (by simp [hnone])
  · exact hrest.not_patchesLost hlost

theorem Sound.hazard_iff {c : ArchiveCall} (h : kcf.Sound) :
    c.Hazard kcf ↔ ∃ n, c = .reader (.readAddedData (some n)) ∧ kcf.ReadsWild n := by
  have hno {p : Prop} (hc : ¬ p) (hr : ∀ n, c ≠ .reader (.readAddedData (some n))) :
      p ↔ ∃ n, c = .reader (.readAddedData (some n)) ∧ kcf.ReadsWild n :=
    iff_of_false hc fun ⟨n, hn, _⟩ => hr n hn
  cases c with
  | reader c =>
    cases c with
    | readAddedData bufferSize =>
      cases bufferSize with
      | none => exact hno id (by simp)
      | some n =>
        constructor
        · exact fun hw => ⟨n, rfl, hw⟩
        · rintro ⟨m, ⟨⟩, hw⟩
          exact hw
    | startReading => exact hno h.not_patchesLost (by simp)
    | _ => exact hno id (by simp)
  | writer c =>
    cases c with
    | data addedData size => exact hno id (by simp)
    | _ => exact hno h.not_patchesLost (by simp)
  | initArchive local₀ =>
    exact hno (fun hf => h.startWriting.not_headerFails hf.2) (by simp)
  | writeArchiveHeader local₀ => exact hno h.not_headerFails (by simp)
  | _ => exact hno id (by simp)

theorem archiveStep_sound {c : ArchiveCall} (hc : c.Plain) (h : kcf.Sound)
    (hstep : archiveStep c kcf = .ok (e, v)) : v.Sound := by
  refine ⟨archiveStep_grants hc hstep h.grants, fun hv => ?_⟩
  rcases archiveStep_opened hc hstep hv with ⟨hu, hshape⟩ | ⟨R, heap, hf, hg, hlast⟩
  · exact hshape.fits (h.fits hu)
  · obtain ⟨heap', -, hcopy⟩ := recCopy_granted (hg h.grants) ((recFix_fits R).mpr hf)
    rw [hlast, hcopy]
    exact hf

end KCF

variable {kcf : KCF} {cs : List ArchiveCall} {f : Fault}

/-- A list of plain calls leaves its memory exactly where one of them meets a state that is a hazard
for it. -/
theorem archive_faults_iff (h : kcf.Room) (hcs : ∀ c ∈ cs, c.Plain) :
    (answers archiveStep cs kcf).2 = .error f ↔
      ∃ ds c es k, cs = ds ++ c :: es ∧ (answers archiveStep ds kcf).2 = .ok k ∧
        f = .outOfBounds ∧ c.Hazard k := by
  apply answers_error_iff_of_step (I := KCF.Room) (P := ArchiveCall.Plain) _ _ hcs h
  · rintro c u e v hc hu hv
    exact KCF.archiveStep_room hc hu hv
  · rintro c u hc hu
    exact KCF.archiveStep_error_iff hu hc

/-- A handle ready to write, whose heap has no block for the second request. -/
def KCF.writingShort : KCF :=
  { KCF.writing (.ofBytes []) with heap := fun i => if i = 1 then none else some fun _ => 0 }

theorem archive_faults_copy :
    (answers archiveStep [.writer (.record (Record.unsized.withData [7])), .writer .finish]
        .writingShort).2 = .error .outOfBounds ∧
      ∃ ds c es k, [ArchiveCall.writer (.record (Record.unsized.withData [7])), .writer .finish] =
        ds ++ c :: es ∧ (answers archiveStep ds .writingShort).2 = .ok k ∧
          Fault.outOfBounds = .outOfBounds ∧ c.Hazard k := by
  have hfault : (answers archiveStep
      [.writer (.record (Record.unsized.withData [7])), .writer .finish]
      .writingShort).2 = .error .outOfBounds :=
    Exec.error_of_map (by decide +kernel)
  refine ⟨hfault, (archive_faults_iff (by rintro ⟨⟩) ?_).mp hfault⟩
  simp only [List.mem_cons, List.not_mem_nil, or_false]
  rintro c (rfl | rfl)
  · exact .writer ⟨nofun, by decide⟩
  · exact .writer trivial

/-- As long as memory is granted, plain calls only leave theirs when added data is read, and the
stream answers with a failure that passes for enough bytes. -/
theorem archive_faults_reading (h : kcf.Sound) (hcs : ∀ c ∈ cs, c.Plain) :
    (answers archiveStep cs kcf).2 = .error f ↔
      ∃ ds c es k, cs = ds ++ c :: es ∧ (answers archiveStep ds kcf).2 = .ok k ∧
        f = .outOfBounds ∧ ∃ n, c = .reader (.readAddedData (some n)) ∧ k.ReadsWild n := by
  apply answers_error_iff_of_step (I := KCF.Sound) (P := ArchiveCall.Plain) _ _ hcs h
  · rintro c u e v hc hu hv
    exact KCF.archiveStep_sound hc hu hv
  · rintro c u hc hu
    exact (KCF.archiveStep_error_iff hu.room hc).trans (and_congr_right fun _ => hu.hazard_iff)

theorem archive_faults_second :
    ∃ ds c es k, [ArchiveCall.reader (.readAddedData (some 2)), .startWriting,
        .reader (.readAddedData (some 1))] = ds ++ c :: es ∧
      (answers archiveStep ds
        (.readingAdded [7, 8] fun i => if i = 0 then .short 1 else .failed 0)).2 = .ok k ∧
        Fault.outOfBounds = .outOfBounds ∧
          ∃ n, c = .reader (.readAddedData (some n)) ∧ k.ReadsWild n := by
  have hsound : (KCF.readingAdded [7, 8] fun i => if i = 0 then .short 1 else .failed 0).Sound :=
    ⟨fun _ => rfl, fun hp => absurd hp (by decide)⟩
  refine (archive_faults_reading hsound ?_).mp ?_
  · simp only [List.mem_cons, List.not_mem_nil, or_false]
    rintro c (rfl | rfl | rfl)
    · exact .reader nofun
    · exact .startWriting
    · exact .reader nofun
  · exact Exec.error_of_map (by decide +kernel)

end Kcf
