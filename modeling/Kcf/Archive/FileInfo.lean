import Kcf.Archive.Consuming
import Kcf.Library.CallMachine

/-! # Asking for a file's metadata

The first question consumes the file's record and leaves the unpacker in a state
in which no extraction starts. It is answered with success only when there was
no memory for a copy of the name. So the question cannot be asked once and the
file be extracted afterwards.
-/

namespace Kcf

open CallMachine

/-- Ask for the metadata of the current file; a null pointer is `none`. -/
def infoStep (info : Option FileInfo) (kcf : KCF) : Exec ((KcfError × Option FileInfo) × KCF) :=
  (kcf.getCurrentFileInfo info).map fun (error, kcf, info) => ((error, info), kcf)

abbrev InfoRun := Run infoStep fun _ _ => True

namespace KCF

variable {kcf k : KCF} {info i : FileInfo} {c : Option FileInfo} {cs : List (Option FileInfo)}

/-- The questions are answered with success and all alike, only the first one moves the stream, and
afterwards the file is extracted or skipped as it would have been before. -/
def Repeatable (kcf : KCF) (infos : List (Option FileInfo)) : Prop :=
  ∃ tr k, InfoRun kcf tr k ∧ tr.map Prod.fst = infos ∧
    (∃ info, ∀ x ∈ tr, x.2 = (.ok, some info)) ∧
    (∀ tr₁ tr₂ m, tr = tr₁ ++ tr₂ → tr₁ ≠ [] → InfoRun kcf tr₁ m →
      m.stream.pos = k.stream.pos) ∧
    kcf.ConsumesAs k

theorem readFileInfo_ok (h : kcf.readFileInfo info = .ok (.ok, k, i)) :
    k.unpackerState = .fileData ∧ k.currentFile.fileName = none := by
  obtain ⟨e, k', R, hr⟩ := kcf.exists_readRecord Record.zero
  unfold readFileInfo at h
  rw [hr] at h
  cases e with
  | ok =>
    obtain ⟨⟨e, R', heap⟩, hinfo, h⟩ := Exec.bind_ok h
    dsimp only at h
    cases e with
    | ok =>
      rw [if_neg (by simp)] at h
      obtain ⟨⟨copied, currentFile, heap'⟩, hcopy, h⟩ := Exec.bind_ok h
      cases copied with
      | true => cases h
      | false =>
        cases h
        exact ⟨unpackerState_set .., fileInfoCopy_failed hcopy⟩
    | _ => cases h
  | _ => cases h

theorem getCurrentFileInfo_ok (hu : kcf.unpackerState = .fileHeader)
    {c' : Option FileInfo} (h : kcf.getCurrentFileInfo c = .ok (.ok, k, c')) :
    k.unpackerState = .fileData ∧ k.currentFile.fileName = none := by
  cases c with
  | none => cases h
  | some info =>
    unfold getCurrentFileInfo at h
    dsimp only at h
    rw [hu] at h
    obtain ⟨⟨e, k', i⟩, hr, h⟩ := Exec.bind_ok h
    cases h
    exact readFileInfo_ok hr

theorem infoStep_fileData {a : KcfError × Option FileInfo} (hu : kcf.unpackerState = .fileData)
    (h : infoStep c kcf = .ok (a, k)) : k.unpackerState = .fileData := by
  obtain ⟨⟨e, k', c'⟩, hr, h⟩ := Exec.map_ok h
  cases h
  cases c with
  | none =>
    cases hr
    exact hu
  | some info =>
    unfold getCurrentFileInfo at hr
    dsimp only at hr
    rw [hu] at hr
    obtain ⟨⟨copied, copy, heap⟩, -, hr⟩ := Exec.bind_ok hr
    cases hr
    exact hu

theorem not_repeatable (hu : kcf.unpackerState = .fileHeader) (c : Option FileInfo)
    (cs : List (Option FileInfo)) : ¬ kcf.Repeatable (c :: cs) := by
  rintro ⟨tr, k, hrun, hcalls, ⟨info, hall⟩, -, hsame⟩
  cases hrun with
  | nil => cases hcalls
  | @cons c' a _ m _ tr _ hstep hrest =>
    obtain rfl : a = (.ok, some info) := hall _ (.head _)
    obtain ⟨⟨e, k', i⟩, hr, ha⟩ := Exec.map_ok hstep
    cases ha
    have hm := (getCurrentFileInfo_ok hu hr).1
    have hk : k.unpackerState = .fileData :=
      hrest.invariant (I := fun s => s.unpackerState = .fileData)
        (fun _ _ _ _ hs _ hc => infoStep_fileData hs hc) hm
    obtain ⟨N, hN⟩ := hsame.extracts (.ofBytes []) fun _ => rfl
    obtain ⟨k₁, k₂, out, -, hextract, -⟩ := hN N le_rfl N le_rfl
    unfold extract at hextract
    rw [if_pos (.inr (by rw [hk]; decide))] at hextract
    cases hextract

/-- Where a file is ahead, the query is repeatable exactly when it is not made, and the file can be
extracted and skipped at all. -/
theorem repeatable_iff {file : StoredFile} {a b : List UInt8}
    (hp : kcf.parserState = .readRecordHeader)
    (hu : kcf.unpackerState = .fileHeader) (hs : kcf.stream.ReadsFully)
    (hat : kcf.stream.At a (file.bytes ++ b)) (infos : List (Option FileInfo)) :
    kcf.Repeatable infos ↔ infos = [] ∧ kcf.Consumable file := by
  rw [← consumesAs_self_iff hp hu hs hat]
  constructor
  · intro h
    cases infos with
    | nil =>
      obtain ⟨tr, k, hrun, hcalls, -, -, hsame⟩ := h
      cases hrun with
      | nil => exact ⟨rfl, hsame⟩
      | cons => cases hcalls
    | cons info infos => exact absurd h (not_repeatable hu info infos)
  · rintro ⟨rfl, hsame⟩
    refine ⟨[], kcf, .nil kcf, rfl, ⟨FileInfo.zero, by rintro _ ⟨⟩⟩, ?_, hsame⟩
    intro tr₁ tr₂ m h hne
    exact absurd (List.append_eq_nil_iff.mp h.symm).1 hne

def oneLetter : FileInfo := { FileInfo.zero with fileName := some [0x62] }

theorem unpackingFiles_oneByte (b : UInt8) :
    (unpackingFiles [.oneByte b]).stream.At [] ((StoredFile.oneByte b).bytes ++ []) := by
  have hat := unpackingFiles_at [.oneByte b]
  rwa [StoredFile.layout_cons, StoredFile.layout, List.flatMap_nil, List.append_nil] at hat

theorem repeatable_iff_once :
    (unpackingFiles [.oneByte 7]).Repeatable [] ∧
      ¬ (unpackingFiles [.oneByte 7]).Repeatable [some oneLetter] := by
  have hiff (infos : List (Option FileInfo)) := repeatable_iff (by rfl) (by rfl) (fun _ => rfl)
    (unpackingFiles_oneByte 7) infos
  constructor
  · apply (hiff []).mpr ⟨rfl, rfl, by rintro _ ⟨⟩, by decide, ?_, fun _ _ => rfl⟩
    exact ⟨⟨[0x61], rfl, by decide⟩, by decide⟩
  · intro h
    cases ((hiff _).mp h).1

/-- A file that can be extracted is asked for, the answer is an error and it cannot be extracted any
more. -/
theorem asked_once :
    ((unpackingFiles [.oneByte 7]).extract 1 1 (.ofBytes [])).map
        (fun r => (r.1, r.2.2.bytes)) = .ok (.ok, [7]) ∧
      ((unpackingFiles [.oneByte 7]).getCurrentFileInfo (some oneLetter)).map
        (fun r => (r.1, r.2.2)) = .ok (.unknown, some oneLetter) ∧
      ((unpackingFiles [.oneByte 7]).getCurrentFileInfo (some oneLetter) >>= fun r =>
        (r.2.1.extract 1 1 (.ofBytes [])).map fun r => r.1) = .ok .invalidState ∧
      ¬ (unpackingFiles [.oneByte 7]).Repeatable [some oneLetter] :=
  ⟨by decide +kernel, by decide +kernel, by decide +kernel, not_repeatable (by rfl) _ _⟩

end KCF

end Kcf
