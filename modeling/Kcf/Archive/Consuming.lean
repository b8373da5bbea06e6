import Kcf.Archive.Fragments
import Kcf.Archive.Skipping

/-! # Consuming a file

When a file that stands on the stream can be extracted, and when it can be
skipped. Both go on from one record to the next only behind bare records, and an
extraction takes one block of memory more than the file has records, in which it
lays out the metadata that the handle holds.
-/

namespace Kcf

namespace KCF

variable {kcf k : KCF} {output out : IOStream} {x : Consumed} {p : Piece} {qs : List Piece}
  {file : StoredFile} {a c : List UInt8} {rounds fuel : ℕ}

theorem extractLoop_bare (hx : StandsIn x p a c kcf) (hb : p.Bare) :
    extractLoop fuel (rounds + 1) kcf output =
      match kcf.nextFragment with
      | (.ok, kcf) =>
        if kcf.lastRecord.Continues then extractLoop fuel rounds kcf output
        else .ok (.ok, kcf, output)
      | (error, kcf) => .ok (error, kcf, output) := by
  have h₀ : kcf.availableAddedData = 0 := by
    have hav := hx.available
    rw [Piece.added_of_not hb, List.length_nil] at hav
    exact UInt64.toNat_inj.mp hav
  conv_lhs => unfold extractLoop
  rw [copyAddedData_nothing h₀, Exec.ok_bind]
  rfl

theorem StandsIn.nextFragment {q : Piece} (hx : StandsIn x p a (Piece.layout (q :: qs) ++ c) kcf)
    (hc : Chained p (q :: qs)) (hb : p.Bare) (hm : (kcf.heap 0).isSome) :
    ∃ y : Consumed, kcf.nextFragment = (.ok, y.loaded) ∧ y.loaded.heap = kcf.heap.next ∧
      StandsIn y q (a ++ q.record.encode) (Piece.layout qs ++ c) y.loaded := by
  have hp : kcf.parserState = .readRecordHeader := by
    rw [hx.state, if_neg hb]
  have hat := hx.stream
  rw [Piece.added_of_not hb, List.nil_append, Piece.layout_cons, List.append_assoc] at hat
  obtain ⟨y, hy, hbefore, hstands⟩ := readLastRecord_standsIn hp hm hx.reads hat
  have hcont : kcf.lastRecord.Continues := hx.entered.continues_iff.mpr (hx.continues_iff.mpr hc.1)
  have htype : y.loaded.lastRecord.headType = KCF_DATA_FRAGMENT := by
    rw [y.loaded_lastRecord, hstands.record]
    exact hc.2.1
  refine ⟨y, ?_, y.after_heap.trans (congrArg (fun k : KCF => k.heap.next) hbefore), hstands⟩
  unfold KCF.nextFragment
  rw [if_pos hcont, hy]
  exact if_neg (not_not.mpr htype)

/-- Behind bare records the loop ends well exactly when there is memory for each fragment. -/
theorem extractLoop_iff (hx : StandsIn x p a (Piece.layout qs ++ c) kcf) (hc : Chained p qs)
    (hb : ∀ q ∈ (p :: qs).dropLast, q.Bare) (hw : output.WritesFully)
    (hr : qs.length < rounds) (hf : p.added.length ≤ fuel) :
    (∃ k out, extractLoop fuel rounds kcf output = .ok (.ok, k, out)) ↔
      ∀ i < qs.length, (kcf.heap i).isSome := by
  induction qs generalizing kcf x p a rounds with
  | nil =>
    obtain ⟨k, out, hcopy⟩ := hx.copies hw hf
    obtain ⟨d, hd⟩ := hx.entered.copied hcopy
    have hstop : ¬ k.lastRecord.Continues := mt (hx.copied_continues_iff hd).mp hc
    obtain ⟨rounds, rfl⟩ := Nat.exists_eq_add_of_le' hr
    exact iff_of_true ⟨k, out, extractLoop_last hcopy hstop⟩ (by rintro _ ⟨⟩)
  | cons q qs ih =>
    rw [List.dropLast_cons_of_ne_nil (by simp), List.forall_mem_cons] at hb
    obtain ⟨rounds, rfl⟩ := Nat.exists_eq_add_of_le' (Nat.one_le_of_lt hr)
    rw [extractLoop_bare hx hb.1, List.length_cons, Nat.forall_lt_succ_left]
    by_cases hm : (kcf.heap 0).isSome
    · obtain ⟨y, hy, hheap, hq⟩ := hx.nextFragment hc hb.1 hm
      rw [hy]
      dsimp only
      cases qs with
      | nil =>
        have hstop : ¬ y.record.Continues := mt hq.continues_iff.mp hc.2.2
        rw [y.loaded_lastRecord, if_neg hstop]
        exact iff_of_true ⟨_, _, rfl⟩ ⟨hm, by rintro _ ⟨⟩⟩
      | cons r rs =>
        have hcont : y.record.Continues := hq.continues_iff.mpr hc.2.2.1
        have hqb : q.added.length ≤ fuel := by
          rw [Piece.added_of_not (hb.2 q (by simp))]
          exact Nat.zero_le _
        rw [y.loaded_lastRecord, if_pos hcont, ih hq hc.2.2 hb.2 (Nat.lt_of_succ_lt_succ hr) hqb,
          hheap, and_iff_right hm]
        rfl
    · refine iff_of_false ?_ (fun h => hm h.1)
      rintro ⟨k, out, h⟩
      rcases hn : kcf.nextFragment with ⟨e, k'⟩
      rw [hn] at h
      cases e with
      | ok =>
        rcases nextFragment_ok hn with ⟨hstop, -⟩ | ⟨-, y, hy, -⟩
        · exact hstop (hx.entered.continues_iff.mpr (hx.continues_iff.mpr hc.1))
        · obtain ⟨-, -, -, hgrants, -⟩ := readRecord_ok y.read
          rw [hy.before] at hgrants
          exact hm hgrants
      | _ => cases h

theorem StandsIn.laidOut {info : FileInfo} {R : Record} {heap heap' : Heap}
    (hx : StandsIn x p a c x.loaded)
    (h : recordToFileInfo x.record info heap = .ok (.ok, R, heap')) :
    StandsIn x p a c { x.loaded with lastRecord := R, heap := heap' } :=
  ⟨entered_laidOut h, hx.record, hx.reads, hx.stream⟩

theorem extract_of_loop {R : Record} {heap : Heap} (hreading : kcf.isWriting = false)
    (hu : kcf.unpackerState = .fileHeader) (hx : kcf.readLastRecord = (.ok, x.loaded))
    (ht : x.record.headType = KCF_FILE_HEADER)
    (hinfo : recordToFileInfo x.record x.after.currentFile x.after.heap = .ok (.ok, R, heap))
    (hloop : extractLoop fuel rounds { x.loaded with lastRecord := R, heap := heap } output =
      .ok (.ok, k, out)) :
    ∃ k', kcf.extract rounds fuel output = .ok (.ok, k', out) := by
  have hstart : ¬ (kcf.isWriting = true ∨ kcf.unpackerState ≠ .fileHeader) := by
    simp [hreading, hu]
  refine ⟨{ k with
    currentFile := fileInfoClear k.currentFile
    lastRecord := recClear k.lastRecord }, ?_⟩
  unfold extract
  rw [if_neg hstart, hx]
  dsimp only
  rw [x.loaded_lastRecord, if_neg (not_not.mpr ht)]
  change (recordToFileInfo x.record x.after.currentFile x.after.heap >>= _) = _
  rw [hinfo, Exec.ok_bind]
  dsimp only
  rw [if_neg (by simp), hloop]
  rfl

/-- A file with bare records but for the last one is extracted exactly when the handle is not
writing, the metadata that it holds fits a record, and there is memory for that and for each
record. -/
theorem extract_iff (hp : kcf.parserState = .readRecordHeader)
    (hu : kcf.unpackerState = .fileHeader) (hs : kcf.stream.ReadsFully)
    (hat : kcf.stream.At a (file.bytes ++ c)) (hb : ∀ q ∈ file.pieces.dropLast, q.Bare)
    (hw : output.WritesFully) (hr : file.pieces.length ≤ rounds)
    (hf : file.head.added.length ≤ fuel) :
    (∃ k out, kcf.extract rounds fuel output = .ok (.ok, k, out)) ↔
      kcf.isWriting = false ∧ kcf.currentFile.Fits ∧
        ∀ i ≤ file.pieces.length, (kcf.heap i).isSome := by
  rw [StoredFile.bytes, StoredFile.pieces, Piece.layout_cons, List.append_assoc] at hat
  constructor
  · rintro ⟨k, out, h⟩
    obtain ⟨hreading, x, rfl, -, -, R, heap, k', hinfo, hloop, -⟩ := extract_ok h
    obtain ⟨-, -, -, h₀, -⟩ := readRecord_ok x.read
    obtain ⟨hfits, h₁, rfl, -⟩ := recordToFileInfo_ok hinfo
    have hx := (standsIn_loaded hs hat).laidOut hinfo
    have hrest := (extractLoop_iff hx file.chained hb hw hr hf).mp ⟨k', out, hloop⟩
    rw [x.after_heap] at h₁
    rw [x.after_currentFile] at hfits
    refine ⟨hreading, hfits, fun i hi => ?_⟩
    cases i with
    | zero => exact h₀
    | succ i =>
      cases i with
      | zero => exact h₁
      | succ i =>
        have hgrants := hrest i (Nat.lt_of_succ_lt_succ hi)
        dsimp only at hgrants
        rwa [x.after_heap] at hgrants
  · rintro ⟨hreading, hfits, hm⟩
    obtain ⟨x, hx, rfl, hstands⟩ := readLastRecord_standsIn hp (hm 0 (Nat.zero_le _)) hs hat
    have hgrants (i : ℕ) (hi : i < file.pieces.length) : (x.after.heap i).isSome := by
      rw [x.after_heap]
      exact hm (i + 1) hi
    rw [← x.after_currentFile] at hfits
    obtain ⟨R, hinfo⟩ := recordToFileInfo_fits hfits (hgrants 0 (Nat.succ_pos _)) x.record
    obtain ⟨k, out, hloop⟩ := (extractLoop_iff (hstands.laidOut hinfo) file.chained hb hw hr hf).mpr
      fun i hi => hgrants (i + 1) (Nat.succ_lt_succ hi)
    have ht : x.record.headType = KCF_FILE_HEADER := by
      rw [hstands.record]
      exact file.isFile
    obtain ⟨k', hk'⟩ := extract_of_loop hreading hu hx ht hinfo hloop
    exact ⟨k', out, hk'⟩

theorem skipFile_iff (hp : kcf.parserState = .readRecordHeader)
    (hu : kcf.unpackerState = .fileHeader) (hs : kcf.stream.ReadsFully)
    (hat : kcf.stream.At a (file.bytes ++ c)) (hr : file.pieces.length ≤ rounds)
    (hf : ∀ q ∈ file.pieces, q.added.length < fuel) (header : Record) :
    (∃ k, kcf.skipFile rounds fuel header = .ok (.ok, k)) ↔
      kcf.isWriting = false ∧ (∀ q ∈ file.pieces.dropLast, q.Bare) ∧
        (∀ q ∈ file.pieces, q.added.length < 2 ^ 63) ∧
        ∀ i < file.pieces.length, (kcf.heap i).isSome := by
  constructor
  · rintro ⟨k, h⟩
    obtain ⟨hreading, hloop⟩ := skipFile_loop h
    have hthrough := skipFileLoop_ok hloop hs hat file.chained
    exact ⟨hreading, hthrough.bare, hthrough.sized, hthrough.memory⟩
  · rintro ⟨hreading, hb, hl, hm⟩
    obtain ⟨k, hloop, -⟩ := skipFileLoop_skips (R := Record.zero) hp hs hat file.chained hb hl hm
      (.inl hu) hr (fun q hq _ => hf q hq)
    refine ⟨k, ?_⟩
    unfold skipFile
    rw [hreading]
    exact hloop

/-- Extractions and skips succeed from both handles, and they give the output the same and end at
the same place. -/
structure ConsumesAs (kcf k : KCF) : Prop where
  extracts : ∀ output : IOStream, output.WritesFully → ∃ N, ∀ rounds ≥ N, ∀ fuel ≥ N,
    ∃ k₁ k₂ out, kcf.extract rounds fuel output = .ok (.ok, k₁, out) ∧
      k.extract rounds fuel output = .ok (.ok, k₂, out) ∧ k₂.stream.pos = k₁.stream.pos
  skips : ∀ header : Record, ∃ N, ∀ rounds ≥ N, ∀ fuel ≥ N,
    ∃ k₁ k₂, kcf.skipFile rounds fuel header = .ok (.ok, k₁) ∧
      k.skipFile rounds fuel header = .ok (.ok, k₂) ∧ k₂.stream.pos = k₁.stream.pos

/-- The handle is not writing, all records of the file but the last one are bare, there is no more
added data than can be skipped, the metadata that the handle holds fits a record, and there is
memory for that and for each record. -/
structure Consumable (kcf : KCF) (file : StoredFile) : Prop where
  reading : kcf.isWriting = false
  bare : ∀ q ∈ file.pieces.dropLast, q.Bare
  sized : ∀ q ∈ file.pieces, q.added.length < 2 ^ 63
  metadata : kcf.currentFile.Fits
  memory : ∀ i ≤ file.pieces.length, (kcf.heap i).isSome

/-- A file ahead is extracted and skipped, with rounds enough, exactly when it can be. -/
theorem consumesAs_self_iff (hp : kcf.parserState = .readRecordHeader)
    (hu : kcf.unpackerState = .fileHeader) (hs : kcf.stream.ReadsFully)
    (hat : kcf.stream.At a (file.bytes ++ c)) : kcf.ConsumesAs kcf ↔ kcf.Consumable file := by
  have hlen (q : Piece) (hq : q ∈ file.pieces) := Piece.length_added_le hq
  have hhead := hlen file.head (.head _)
  constructor
  · intro h
    obtain ⟨N, hN⟩ := h.skips Record.zero
    obtain ⟨M, hM⟩ := h.extracts (.ofBytes []) fun _ => rfl
    set n := N + M + file.pieces.length + (Piece.addedTo file.pieces).length + 1
    have hr : file.pieces.length ≤ n := by omega
    have hf : ∀ q ∈ file.pieces, q.added.length < n := by
      intro q hq
      have hle := hlen q hq
      omega
    obtain ⟨k, -, hskip, -⟩ := hN n (by omega) n (by omega)
    obtain ⟨k', -, out, hextract, -⟩ := hM n (by omega) n (by omega)
    obtain ⟨hreading, hb, hl, -⟩ := (skipFile_iff hp hu hs hat hr hf _).mp ⟨k, hskip⟩
    obtain ⟨-, hfits, hm⟩ := (extract_iff hp hu hs hat hb (fun _ => rfl) hr
      (hf file.head (.head _)).le).mp ⟨k', out, hextract⟩
    exact ⟨hreading, hb, hl, hfits, hm⟩
  · intro h
    constructor
    · intro output hw
      refine ⟨file.pieces.length + (Piece.addedTo file.pieces).length, ?_⟩
      intro rounds hrounds fuel hfuel
      have hr : file.pieces.length ≤ rounds := by omega
      have hf : file.head.added.length ≤ fuel := by omega
      obtain ⟨k, out, hk⟩ := (extract_iff hp hu hs hat h.bare hw hr hf).mpr
        ⟨h.reading, h.metadata, h.memory⟩
      exact ⟨k, k, out, hk, hk, rfl⟩
    · intro header
      refine ⟨file.pieces.length + (Piece.addedTo file.pieces).length + 1, ?_⟩
      intro rounds hrounds fuel hfuel
      have hr : file.pieces.length ≤ rounds := by omega
      have hf : ∀ q ∈ file.pieces, q.added.length < fuel := by
        intro q hq
        have hle := hlen q hq
        omega
      obtain ⟨k, hk⟩ := (skipFile_iff hp hu hs hat hr hf header).mpr
        ⟨h.reading, h.bare, h.sized, fun i hi => h.memory i hi.le⟩
      exact ⟨k, k, hk, hk, rfl⟩

end KCF

end Kcf
