import Kcf.Archive.Reparsing
import Kcf.Writer.Session

/-! # Beginning a file

Beginning a file parses its local record into the caller's metadata instead of
laying the metadata out in the record, and writes the record as its memory
happens to be. So the metadata gets into the archive where it was in that memory
already.
-/

namespace Kcf

variable {info : FileInfo} {name : List UInt8} {R S local₀ : Record} {heap : Heap} {kcf : KCF}

/-- Parsing the layout of the metadata gives the metadata. -/
structure FileInfo.ReadsBack (info : FileInfo) (name : List UInt8) : Prop where
  consistent : info.Consistent
  size : info.hasUnpackedSize = true → info.hasUnpackedSize8 = false →
    info.unpackedSize.toNat < 2 ^ 32
  name : 0 ∉ name

theorem take_strlen_eq_iff : name.take (strlen name) = name ↔ 0 ∉ name := by
  constructor
  · intro h hz
    rw [take_strlen, List.takeWhile_eq_self_iff] at h
    exact of_decide_eq_true (h 0 hz) rfl
  · intro h
    rw [strlen_eq_length h, List.take_length]

theorem recovered_self_iff (hname : info.fileName = some name) (h : info.Consistent) :
    info.recovered info name = info ↔ info.ReadsBack name := by
  constructor
  · intro heq
    have hn : some (name.take (strlen name)) = some name :=
      (congrArg FileInfo.fileName heq).trans hname
    exact ⟨h, fun hu => (unpackedSize_recovered_iff hu info name).mp
      (congrArg FileInfo.unpackedSize heq), take_strlen_eq_iff.mp (Option.some.inj hn)⟩
  · rintro ⟨-, hsize, hz⟩
    have hn : some (name.take (strlen name)) = info.fileName :=
      (congrArg some (take_strlen_eq_iff.mpr hz)).trans hname.symm
    have hu : (info.recovered info name).unpackedSize = info.unpackedSize := by
      cases hp : info.hasUnpackedSize with
      | true => exact (unpackedSize_recovered_iff hp info name).mpr (hsize hp)
      | false =>
        have hw : info.unpackedSizeWidth = 0 := by
          rw [FileInfo.unpackedSizeWidth, hp]
          rfl
        exact if_pos hw
    calc info.recovered info name
        = { info.recovered info name with
            unpackedSize := (info.recovered info name).unpackedSize } := rfl
      _ = info := by
        rw [hu]
        unfold FileInfo.recovered
        rw [hn, ite_self, ite_self]

theorem consistent_of_parsed (h : info.parsed (info.laidOut name) = info) : info.Consistent := by
  intro h₈
  have hu : (fileFlagsAt (info.laidOut name) &&& KCF_FILE_HAS_UNPACKED_4 != 0) =
      info.hasUnpackedSize := congrArg FileInfo.hasUnpackedSize h
  rw [← hu, info.fileFlagsAt_laidOut]
  unfold fileFlags
  rw [h₈]
  cases info.hasTimeStamp <;> cases info.hasFileCRC32 <;> cases info.hasUnpackedSize <;> rfl

theorem parsed_laidOut_self_iff (hname : info.fileName = some name) (hlt : strlen name < 65536) :
    info.parsed (info.laidOut name) = info ↔ info.ReadsBack name := by
  constructor
  · intro h
    have hc := consistent_of_parsed h
    rw [parsed_laidOut hc hlt] at h
    exact (recovered_self_iff hname hc).mp h
  · intro h
    rw [parsed_laidOut h.consistent hlt]
    exact (recovered_self_iff hname h.consistent).mpr h

/-- Beginning a file succeeds and leaves the caller's metadata alone. What it writes, where the
stream stands, is one valid file record with the metadata's layout for its data, and the calls
that add data are accepted then. -/
def BeginsFile (kcf : KCF) (info : FileInfo) (name : List UInt8) (local₀ : Record) : Prop :=
  ∃ k R, kcf.beginFile info local₀ = .ok (.ok, k, info) ∧ R.headType = KCF_FILE_HEADER ∧
    R.data = some (info.laidOut name) ∧ recValidate R = true ∧
    R.headSize.toNat = headerLength R.headFlags + R.dataSize ∧
    k.stream.At (kcf.stream.behind ++ R.encode) (kcf.stream.ahead.drop R.encode.length) ∧
    k.parserState = .writeAddedData

/-- The memory of the local record happens to hold the record that is to be written: one that
announces added data, and that changes nothing when it is parsed. -/
structure Prepared (info : FileInfo) (name : List UInt8) (local₀ : Record) : Prop where
  headType : local₀.headType = KCF_FILE_HEADER
  sized : recHasAddedSize local₀ = true
  data : local₀.data = some (info.laidOut name)
  fits : local₀.Fits
  readsBack : recValidate local₀ = true → info.ReadsBack name

theorem Record.eq_of_encode (h : R.encode = S.encode) :
    R.headType = S.headType ∧ R.headFlags = S.headFlags ∧ R.bytes = S.bytes := by
  have ht : R.headType = S.headType := by
    apply UInt8.toNat_inj.mp
    rw [← R.field_headType [], h, S.field_headType]
  have hf : R.headFlags = S.headFlags := by
    apply UInt8.toNat_inj.mp
    rw [← R.field_headFlags [], h, S.field_headFlags]
  refine ⟨ht, hf, ?_⟩
  have hl : R.header.length = S.header.length := by rw [length_header, length_header, hf]
  exact (List.append_inj h hl).2

theorem Record.data_of_bytes {d : List UInt8} (h : R.bytes = d) (hne : d ≠ []) :
    R.data = some d := by
  cases hd : R.data with
  | none =>
    rw [Record.bytes, hd] at h
    exact absurd h.symm hne
  | some block =>
    rw [Record.bytes, hd] at h
    exact congrArg some h

theorem FileInfo.laidOut_ne_nil (info : FileInfo) (name : List UInt8) : info.laidOut name ≠ [] := by
  apply List.ne_nil_of_length_pos
  rw [info.length_laidOut]
  omega

theorem fileInfoToRecord_invalid (h : recValidate R = false) (info : FileInfo) (heap : Heap) :
    fileInfoToRecord info R heap = .ok (.invalidData, info, heap) := by
  unfold fileInfoToRecord
  rw [h]
  rfl

namespace KCF

variable {k u : KCF}

/-- The handle with a copy of the metadata, and what is left of its heap. -/
def remembering (kcf : KCF) (currentFile : FileInfo) (heap : Heap) : KCF :=
  { kcf with currentFile := currentFile, heap := heap }

theorem beginFile_eq (hw : kcf.isWriting = true)
    (hk : kcf.packerState = .idle ∨ kcf.packerState = .fileHeader) (info : FileInfo)
    (local₀ : Record) :
    kcf.beginFile info local₀ =
      fileInfoCopy (fileInfoClear kcf.currentFile) info kcf.heap >>= fun c =>
        fileInfoToRecord info local₀ c.2.2 >>= fun r =>
          (kcf.remembering c.2.1 r.2.2).writeRecord local₀ >>= fun w =>
            if w.1 ≠ .ok then .ok (w.1, w.2.1, r.2.1)
            else .ok (.ok, { w.2.1 with packerState := .fileData }, r.2.1) := by
  have hstate : ¬ (kcf.packerState ≠ .idle ∧ kcf.packerState ≠ .fileHeader) := by
    rintro ⟨h₁, h₂⟩
    exact hk.elim h₁ h₂
  have hwriting : ¬ (!kcf.isWriting) = true := by
    rw [hw]
    decide
  unfold beginFile
  rw [if_neg hwriting, if_neg hstate]
  rfl

theorem saveRecord_parserState (kcf : KCF) (R : Record) :
    (kcf.saveRecord R).parserState =
      if recHasAddedSize R then .writeAddedData else kcf.parserState := by
  cases ha : recHasAddedSize R <;> simp [saveRecord, ha]

/-- A handle that is ready for a record stays as it is. -/
theorem Accept.of_idle {e : KcfError} (hp : kcf.parserState = .writeRecord)
    (h : kcf.Accept e k) : k = kcf := by
  cases h.eq.symm.trans (Accept.idle hp).eq
  rfl

theorem writeRecord_at (hp : kcf.parserState = .writeRecord) (hm : (kcf.heap 0).isSome)
    (hs : kcf.stream.WritesFully) (hf : R.Fits) :
    ∃ k, kcf.writeRecord R = .ok (.ok, k, recFix R) ∧
      k.stream.At (kcf.stream.behind ++ (recFix R).encode)
        (kcf.stream.ahead.drop (recFix R).encode.length) ∧
      k.parserState = if recHasAddedSize R then .writeAddedData else .writeRecord := by
  refine ⟨_, (Accept.idle hp).writeRecord hm hs hf, ?_, ?_⟩
  · rw [saveRecord_stream]
    change (ioWrite kcf.stream (recFix R).encode).2.At _ _
    rw [ioWrite_full (hs 0)]
    exact kcf.stream.at_stored (Record.encode_ne_nil (recFix R))
  · rw [saveRecord_parserState]
    change (if recHasAddedSize R then _ else kcf.parserState) = _
    rw [hp]

end KCF

theorem readsBack_of_parse {e : KcfError} {heap' : Heap} (hname : info.fileName = some name)
    (hv : recValidate R = true) (ht : R.headType = KCF_FILE_HEADER)
    (hd : R.data = some (info.laidOut name)) (hlt : strlen name < 65536) (hm : (heap 0).isSome)
    (h : fileInfoToRecord info R heap = .ok (e, info, heap')) : info.ReadsBack name := by
  apply (parsed_laidOut_self_iff hname hlt).mp
  rw [fileInfoToRecord_eq hv ht hd] at h
  by_cases hfields : nameOffset (info.laidOut name) ≤ (info.laidOut name).length
  swap
  · rw [if_neg hfields] at h
    cases h
  rw [if_pos hfields, nameResult_some hm] at h
  split at h
  · exact congrArg (fun r => r.2.1) (Except.ok.inj h)
  · cases h

theorem Prepared.strlen_lt (h : Prepared info name local₀) : strlen name < 65536 := by
  have hlen := local₀.data_length _ h.data
  have hfit := h.fits.2
  rw [info.length_laidOut] at hlen
  omega

theorem Prepared.parse (h : Prepared info name local₀) (hname : info.fileName = some name)
    (hg : heap.Grants) : ∃ e heap', heap'.Grants ∧
      fileInfoToRecord info local₀ heap = .ok (e, info, heap') := by
  cases hv : recValidate local₀ with
  | false => exact ⟨_, heap, hg, fileInfoToRecord_invalid hv info heap⟩
  | true =>
    have hback := h.readsBack hv
    have hparse := fileInfoToRecord_laidOut hv h.headType h.data hback.consistent h.strlen_lt
      (hg 0) info
    rw [(recovered_self_iff hname hback.consistent).mpr hback] at hparse
    exact ⟨_, heap.next, hg.next, hparse⟩

variable {k : KCF}

theorem beginsFile_iff_prepared (hname : info.fileName = some name) (hw : kcf.isWriting = true)
    (hk : kcf.packerState = .idle ∨ kcf.packerState = .fileHeader)
    (hp : kcf.parserState = .writeRecord) (ho : kcf.Obliging) (local₀ : Record) :
    BeginsFile kcf info name local₀ ↔ Prepared info name local₀ := by
  have hbegin := KCF.beginFile_eq hw hk info local₀
  constructor
  · rintro ⟨k, R, hcall, ht, hd, hv, hs, hat, hstate⟩
    rw [hbegin] at hcall
    obtain ⟨⟨copied, currentFile, heap₁⟩, hcopy, hcall⟩ := Exec.bind_ok hcall
    obtain rfl := fileInfoCopy_heap hname hcopy
    obtain ⟨⟨e, info', heap'⟩, hparse, hcall⟩ := Exec.bind_ok hcall
    obtain ⟨⟨e', k', R'⟩, hwrite, hcall⟩ := Exec.bind_ok hcall
    dsimp only at hwrite hcall
    obtain rfl : e' = .ok := by
      by_contra hne
      rw [if_pos hne] at hcall
      exact hne (congrArg Prod.fst (Except.ok.inj hcall))
    cases hcall
    have hu : (kcf.remembering currentFile heap').parserState = .writeRecord := hp
    obtain ⟨hf, hm⟩ : local₀.Fits ∧ (heap' 0).isSome := by
      cases KCF.writeRecord_of_eq hwrite with
      | written hacc hm hf _ =>
        rw [hacc.of_idle hu] at hm
        exact ⟨hf, hm⟩
    obtain ⟨k'', hwrite', hat', hstate'⟩ := KCF.writeRecord_at hu hm ho.writes hf
    rw [hwrite'] at hwrite
    cases hwrite
    have henc : R.encode = (recFix local₀).encode :=
      List.append_cancel_left (hat.behind_eq.symm.trans hat'.behind_eq)
    obtain ⟨hsame, -, hbytes⟩ := Record.eq_of_encode henc
    have hlaid : local₀.bytes = info.laidOut name := by
      rw [← recFix_bytes, ← hbytes, Record.bytes, hd]
      rfl
    have hdata := Record.data_of_bytes hlaid (info.laidOut_ne_nil name)
    have hlt : strlen name < 65536 := by
      have hlen := local₀.data_length _ hdata
      have hfit := hf.2
      rw [info.length_laidOut] at hlen
      omega
    refine ⟨hsame.symm.trans ht, ?_, hdata, hf, fun hv₀ => ?_⟩
    · by_contra ha
      rw [if_neg ha] at hstate'
      exact absurd (hstate'.symm.trans hstate) (by decide)
    · exact readsBack_of_parse hname hv₀ (hsame.symm.trans ht) hdata hlt (ho.grants 1) hparse
  · intro h
    have hlt : strlen name < INT_MAX := h.strlen_lt.trans (by decide)
    obtain ⟨copied, currentFile, hcopy⟩ :=
      fileInfoCopy_comes hname hlt (fileInfoClear kcf.currentFile) kcf.heap
    obtain ⟨e, heap', hg, hparse⟩ := h.parse hname ho.grants.next
    have hu : (kcf.remembering currentFile heap').parserState = .writeRecord := hp
    obtain ⟨k, hwrite, hat, hstate⟩ := KCF.writeRecord_at hu (hg 0) ho.writes h.fits
    refine ⟨{ k with packerState := .fileData }, recFix local₀, ?_, h.headType, h.data,
      recValidate_recFix local₀, recFix_headSize_of_fits h.fits, hat, ?_⟩
    · rw [hbegin, hcopy, Exec.ok_bind, hparse]
      change KCF.writeRecord _ local₀ >>= _ = _
      rw [hwrite]
      rfl
    · exact hstate.trans (if_pos h.sized)

/-- A file is begun as its metadata asks for exactly with a local record whose memory happens to be
prepared, so not with every memory. -/
theorem beginsFile_iff (hname : info.fileName = some name) (hw : kcf.isWriting = true)
    (hk : kcf.packerState = .idle ∨ kcf.packerState = .fileHeader)
    (hp : kcf.parserState = .writeRecord) (ho : kcf.Obliging) :
    (∀ local₀, BeginsFile kcf info name local₀ ↔ Prepared info name local₀) ∧
      ¬ ∀ local₀, BeginsFile kcf info name local₀ := by
  have hiff := beginsFile_iff_prepared hname hw hk hp ho
  refine ⟨hiff, fun h => ?_⟩
  have hzero := (hiff Record.zero).mp (h Record.zero)
  exact absurd hzero.headType (by decide)

/-- A handle that packs files on a stream. -/
def KCF.packing (stream : IOStream) : KCF := { KCF.writing stream with isWriting := true }

theorem KCF.obliging_ofBytes (bytes : List UInt8) : (KCF.packing (.ofBytes bytes)).Obliging :=
  ⟨Heap.grants_zeros, fun _ => rfl, fun _ => rfl⟩

theorem beginsFile_iff_allFields :
    BeginsFile (KCF.packing (.ofBytes [])) (allFields KCF_FILE_REGULAR) [0x61]
        ({ Record.zero with headType := KCF_FILE_HEADER, headFlags := 0x80 }.withData
          ((allFields KCF_FILE_REGULAR).laidOut [0x61])) ∧
      ¬ ∀ local₀, BeginsFile (KCF.packing (.ofBytes [])) (allFields KCF_FILE_REGULAR) [0x61]
        local₀ := by
  have hname : (allFields KCF_FILE_REGULAR).fileName = some [0x61] := rfl
  obtain ⟨hiff, hnot⟩ := beginsFile_iff hname rfl (.inl rfl) rfl (KCF.obliging_ofBytes [])
  refine ⟨(hiff _).mpr ⟨rfl, by decide, rfl, by decide, fun _ => ?_⟩, hnot⟩
  exact ⟨fun _ => rfl, fun _ h => (nomatch h), by decide⟩

/-- With a local record of zeros a record without type and data is written, and no added data is
accepted. -/
theorem zeroRecord_begun :
    ((KCF.packing (.ofBytes [])).beginFile (allFields KCF_FILE_REGULAR) Record.zero).map
        (fun r => (r.1, r.2.1.stream.bytes, r.2.1.parserState)) =
      .ok (.ok, [0xF5, 0x1A, 0, 0, 6, 0], .writeRecord) ∧
      ¬ BeginsFile (KCF.packing (.ofBytes [])) (allFields KCF_FILE_REGULAR) [0x61]
        Record.zero := by
  have hrun : ((KCF.packing (.ofBytes [])).beginFile (allFields KCF_FILE_REGULAR) Record.zero).map
      (fun r => (r.1, r.2.1.stream.bytes, r.2.1.parserState)) =
        .ok (.ok, [0xF5, 0x1A, 0, 0, 6, 0], .writeRecord) := by decide +kernel
  refine ⟨hrun, ?_⟩
  rintro ⟨k, R, hcall, -, -, -, -, -, hstate⟩
  rw [hcall] at hrun
  have hsame := congrArg (fun r => r.2.2) (Except.ok.inj hrun)
  exact absurd (hsame.symm.trans hstate) (by decide)

end Kcf
