import Kcf.Record.Layout
import Kcf.Writer.Basic

/-! # What each write call can do

For each call of the writer, the ways it can come back: the guard under which
it takes each branch, the error it returns and the handle it leaves. A call
comes back with an outcome exactly when one of its cases describes it.
-/

namespace Kcf

theorem recBuffer_of_fits {R : Record} (h : R.Fits) (heap : Heap) :
    recBuffer (recFix R) heap =
      .ok ((heap 0).map fun _ => (recFix R).encode, heap.next) := by
  have hs := recFix_headSize_of_fits h
  have hf := h.2
  cases h₀ : heap 0 with
  | none => simp [recBuffer, malloc, h₀]
  | some fresh =>
    obtain ⟨block, hm, hb⟩ := malloc_granted (show (heap 0).isSome by simp [h₀])
      (show (recFix R).headSize.toNat ≤ PTRDIFF_MAX by rw [hs, PTRDIFF_MAX]; omega)
    have hl := recToBuffer_of_fits (R := recFix R) h hs hb
    simp [recBuffer, hm, hl, bind, Except.bind, pure, Except.pure]

theorem recBuffer_of_not_fits {R : Record} (h : ¬ R.Fits) {heap : Heap}
    (h₀ : (heap 0).isSome) : recBuffer (recFix R) heap = .error .outOfBounds := by
  have hs := recFix_headSize R
  obtain ⟨block, hm, hb⟩ := malloc_granted h₀
    (show (recFix R).headSize.toNat ≤ PTRDIFF_MAX by rw [hs, PTRDIFF_MAX]; omega)
  have hl := recToBuffer_of_not_fits (R := recFix R) h hs hb
  simp [recBuffer, hm, hl, bind, Except.bind]

theorem recBuffer_of_none {R : Record} {heap : Heap} (h₀ : heap 0 = none) :
    recBuffer R heap = .ok (none, heap.next) := by
  simp [recBuffer, malloc, h₀]

namespace KCF

/-- The handle after its stream was asked to store some bytes. -/
def wrote (kcf : KCF) (data : List UInt8) : KCF :=
  { kcf with stream := (ioWrite kcf.stream data).2 }

/-- The handle after it noted its position and its stream ended up at another. -/
def sought (kcf : KCF) (pos : ℕ) : KCF :=
  { kcf with
    recordEndOffset := kcf.stream.pos
    stream := kcf.stream.sought pos }

/-- The handle about to write the patched header. -/
def atHeader (kcf : KCF) : KCF := (kcf.sought kcf.recordOffset).armed kcf.heap.next

/-- The handle after the patched header was written. -/
def patched (kcf : KCF) : KCF := kcf.atHeader.wrote kcf.patchedRecord.encode

/-- The handle back at the end of the added data, or wherever the seek left it. -/
def returned (kcf : KCF) : KCF :=
  { kcf with stream := (ioSeek kcf.stream kcf.recordEndOffset).2 }

/-- Finishing has to go back to the header. -/
def Patches (kcf : KCF) : Prop := kcf.parserState = .writeAddedData ∧ kcf.keepsHeader = false

instance (kcf : KCF) : Decidable kcf.Patches := inferInstanceAs (Decidable (_ ∧ _))

/-- The outcomes of `finishAddedData`. -/
inductive Finish (kcf : KCF) : KcfError → KCF → Prop
  | refused : kcf.parserState ≠ .writeAddedData → Finish kcf .invalidState kcf
  | kept : kcf.parserState = .writeAddedData → kcf.keepsHeader = true →
      Finish kcf .ok kcf.closeRecord
  | seekFailed {code : ℕ} : kcf.Patches → kcf.stream.seeks 0 = .failed code →
      Finish kcf .write (kcf.sought kcf.stream.pos)
  | noMemory : kcf.Patches → kcf.stream.seeks 0 = .done → kcf.heap 0 = none →
      Finish kcf .outOfMemory kcf.atHeader
  | writeFailed : kcf.Patches → kcf.stream.seeks 0 = .done → (kcf.heap 0).isSome →
      kcf.lastRecord.Fits → (kcf.stream.writes 0).Fails → Finish kcf .write kcf.patched
  | patched : kcf.Patches → kcf.stream.seeks 0 = .done → (kcf.heap 0).isSome →
      kcf.lastRecord.Fits → ¬ (kcf.stream.writes 0).Fails →
      Finish kcf .ok kcf.patched.returned.closeRecord

theorem isWriting_iff (x : ParserState) : x.isWriting = true ↔
    x = .writing ∨ x = .writeMarker ∨ x = .writeRecord ∨ x = .writeAddedData := by
  cases x <;> decide

theorem finishAddedData_of_ne {kcf : KCF} (h : kcf.parserState ≠ .writeAddedData) :
    kcf.finishAddedData = .ok (.invalidState, kcf) := by
  simp only [finishAddedData, ne_eq, h, not_false_eq_true, if_true, ite_self]

theorem finishAddedData_of_keeps {kcf : KCF} (h : kcf.parserState = .writeAddedData)
    (hk : kcf.keepsHeader = true) : kcf.finishAddedData = .ok (.ok, kcf.closeRecord) := by
  simp [finishAddedData, h, hk, (isWriting_iff .writeAddedData).mpr]

theorem finishAddedData_of_patches {kcf : KCF} (h : kcf.Patches) :
    kcf.finishAddedData =
      match kcf.stream.seeks 0 with
      | .done => (kcf.sought kcf.recordOffset).patchHeader
      | .failed _ => .ok (.write, kcf.sought kcf.stream.pos) := by
  have hw : kcf.parserState.isWriting = true := (isWriting_iff _).mpr (by simp [h.1])
  unfold finishAddedData
  rw [hw, if_neg (by simp), if_neg (by simp [h.1]), if_neg (by simp [h.2])]
  cases hs : kcf.stream.seeks 0 with
  | done => simp only [ioSeek, ioTell, hs]; exact if_neg (by simp)
  | failed code => simp only [ioSeek, ioTell, hs]; exact if_pos (Int.negSucc_lt_zero code)

theorem countedRecord_fits {kcf : KCF} : kcf.countedRecord.Fits ↔ kcf.lastRecord.Fits := Iff.rfl

theorem patchHeader_of_none (kcf : KCF) (hm : kcf.heap 0 = none) :
    kcf.patchHeader = .ok (.outOfMemory, kcf.armed kcf.heap.next) := by
  unfold patchHeader
  rw [recBuffer_of_none hm]
  rfl

theorem patchHeader_of_fits (kcf : KCF) (hm : (kcf.heap 0).isSome) (hf : kcf.lastRecord.Fits) :
    kcf.patchHeader =
      if (kcf.stream.writes 0).Fails then
        .ok (.write, (kcf.armed kcf.heap.next).wrote kcf.patchedRecord.encode)
      else
        .ok (.ok, ((kcf.armed kcf.heap.next).wrote kcf.patchedRecord.encode).returned.closeRecord)
    := by
  obtain ⟨fresh, hfresh⟩ := Option.isSome_iff_exists.mp hm
  unfold patchHeader patchedRecord
  rw [recBuffer_of_fits (countedRecord_fits.mpr hf), hfresh]
  by_cases hw : (kcf.stream.writes 0).Fails
  · rw [if_pos hw]
    exact if_pos ((Transfer.ret_neg_iff ..).mpr hw)
  · rw [if_neg hw]
    exact if_neg (mt (Transfer.ret_neg_iff ..).mp hw)

theorem patchHeader_of_not_fits (kcf : KCF) (hm : (kcf.heap 0).isSome)
    (hf : ¬ kcf.lastRecord.Fits) : kcf.patchHeader = .error .outOfBounds := by
  unfold patchHeader patchedRecord
  rw [recBuffer_of_not_fits (mt countedRecord_fits.mp hf) hm]
  rfl

theorem Finish.eq {kcf k : KCF} {e : KcfError} (h : kcf.Finish e k) :
    kcf.finishAddedData = .ok (e, k) := by
  cases h with
  | refused hp => exact finishAddedData_of_ne hp
  | kept hp hk => exact finishAddedData_of_keeps hp hk
  | seekFailed hp hs => rw [finishAddedData_of_patches hp, hs]
  | noMemory hp hs hm =>
    rw [finishAddedData_of_patches hp, hs]
    exact patchHeader_of_none (kcf.sought kcf.recordOffset) hm
  | writeFailed hp hs hm hf hw =>
    rw [finishAddedData_of_patches hp, hs]
    exact (patchHeader_of_fits (kcf.sought kcf.recordOffset) hm hf).trans (if_pos hw)
  | patched hp hs hm hf hw =>
    rw [finishAddedData_of_patches hp, hs]
    exact (patchHeader_of_fits (kcf.sought kcf.recordOffset) hm hf).trans (if_neg hw)

theorem finish_of_eq {kcf k : KCF} {e : KcfError} (h : kcf.finishAddedData = .ok (e, k)) :
    kcf.Finish e k := by
  have same : ∀ {e' k'}, kcf.Finish e' k' → kcf.Finish e k := by
    intro e' k' h'
    cases h'.eq.symm.trans h
    exact h'
  by_cases hp : kcf.parserState = .writeAddedData
  swap; · exact same (.refused hp)
  cases hk : kcf.keepsHeader with
  | true => exact same (.kept hp hk)
  | false =>
    cases hs : kcf.stream.seeks 0 with
    | failed code => exact same (.seekFailed ⟨hp, hk⟩ hs)
    | done =>
      cases hm : kcf.heap 0 with
      | none => exact same (.noMemory ⟨hp, hk⟩ hs hm)
      | some fresh =>
        have hm' : (kcf.heap 0).isSome := by simp [hm]
        by_cases hf : kcf.lastRecord.Fits
        · by_cases hw : (kcf.stream.writes 0).Fails
          · exact same (.writeFailed ⟨hp, hk⟩ hs hm' hf hw)
          · exact same (.patched ⟨hp, hk⟩ hs hm' hf hw)
        · rw [finishAddedData_of_patches ⟨hp, hk⟩, hs] at h
          exact absurd ((patchHeader_of_not_fits (kcf.sought kcf.recordOffset)
            hm' hf).symm.trans h) (by simp)

theorem finishAddedData_iff {kcf k : KCF} {e : KcfError} :
    kcf.finishAddedData = .ok (e, k) ↔ kcf.Finish e k :=
  ⟨finish_of_eq, Finish.eq⟩

/-- The outcomes of `acceptRecord`. -/
inductive Accept (kcf : KCF) : KcfError → KCF → Prop
  | refused : kcf.parserState ≠ .writing → kcf.parserState ≠ .writeRecord →
      kcf.parserState ≠ .writeAddedData → Accept kcf .invalidState kcf
  | started : kcf.parserState = .writing → Accept kcf .ok (kcf.setState .writeRecord)
  | idle : kcf.parserState = .writeRecord → Accept kcf .ok kcf
  | finished {e : KcfError} {k : KCF} : kcf.parserState = .writeAddedData → kcf.Finish e k →
      Accept kcf .ok k

theorem acceptRecord_of_writeAddedData {kcf : KCF} (h : kcf.parserState = .writeAddedData) :
    kcf.acceptRecord = kcf.finishAddedData >>= fun r => .ok (.ok, r.2) := by
  simp [acceptRecord, h, (isWriting_iff .writeAddedData).mpr]
  rfl

theorem Accept.eq {kcf k : KCF} {e : KcfError} (h : kcf.Accept e k) :
    kcf.acceptRecord = .ok (e, k) := by
  cases h with
  | refused h₁ h₂ h₃ =>
    have hi := isWriting_iff kcf.parserState
    simp only [h₁, h₂, h₃, false_or, or_false] at hi
    simp only [acceptRecord, hi, h₁, if_false, Bool.not_eq_true', ← Bool.not_eq_true]
    split_ifs <;> rfl
  | started h => simp [acceptRecord, h, (isWriting_iff .writing).mpr, setState]
  | idle h => simp [acceptRecord, h, (isWriting_iff .writeRecord).mpr]
  | finished h hf => rw [acceptRecord_of_writeAddedData h, hf.eq]; rfl

theorem accept_of_eq {kcf k : KCF} {e : KcfError} (h : kcf.acceptRecord = .ok (e, k)) :
    kcf.Accept e k := by
  have same : ∀ {e' k'}, kcf.Accept e' k' → kcf.Accept e k := by
    intro e' k' h'
    cases h'.eq.symm.trans h
    exact h'
  by_cases h₁ : kcf.parserState = .writing
  · exact same (.started h₁)
  by_cases h₂ : kcf.parserState = .writeRecord
  · exact same (.idle h₂)
  by_cases h₃ : kcf.parserState = .writeAddedData
  · rw [acceptRecord_of_writeAddedData h₃] at h
    obtain ⟨⟨e', k'⟩, hf, hk⟩ := Exec.bind_ok h
    rw [Except.ok.injEq, Prod.mk.injEq] at hk
    exact hk.1 ▸ hk.2 ▸ .finished h₃ (finish_of_eq hf)
  · exact same (.refused h₁ h₂ h₃)

theorem Accept.error_cases {kcf k : KCF} {e : KcfError} (h : kcf.Accept e k) :
    e = .invalidState ∨ e = .ok := by
  cases h <;> simp

/-- The handle after a record was laid out and handed to its stream. -/
def laid (kcf : KCF) (R : Record) : KCF :=
  { kcf with
    heap := kcf.heap.next
    stream := (ioWrite kcf.stream R.encode).2 }

/-- The handle after the streaming writer handed a record to its stream. -/
def placed (kcf : KCF) (R : Record) : KCF :=
  { kcf.laid R with recordOffset := kcf.stream.pos }

/-- The handle after it ran out of memory for a record. -/
def starved (kcf : KCF) : KCF := { kcf with heap := kcf.heap.next }

/-- The outcomes of `writeRecord`. -/
inductive WriteRecord (kcf : KCF) (R : Record) : KcfError → KCF → Record → Prop
  | refused {k : KCF} : kcf.Accept .invalidState k → WriteRecord kcf R .invalidState k R
  | noMemory {k : KCF} : kcf.Accept .ok k → k.heap 0 = none →
      WriteRecord kcf R .outOfMemory k.starved (recFix R)
  | failed {k : KCF} : kcf.Accept .ok k → (k.heap 0).isSome → R.Fits →
      (k.stream.writes 0).Fails → WriteRecord kcf R .write (k.placed (recFix R)) (recFix R)
  | written {k : KCF} : kcf.Accept .ok k → (k.heap 0).isSome → R.Fits →
      ¬ (k.stream.writes 0).Fails →
      WriteRecord kcf R .ok ((k.placed (recFix R)).saveRecord (recFix R)) (recFix R)

theorem writeRecord_of_refused {kcf k : KCF} (ha : kcf.Accept .invalidState k) (R : Record) :
    kcf.writeRecord R = .ok (.invalidState, k, R) := by
  unfold writeRecord
  rw [ha.eq]
  rfl

theorem writeRecord_of_accept {kcf k : KCF} (ha : kcf.Accept .ok k) (R : Record) :
    kcf.writeRecord R = k.placeRecord (recFix R) := by
  unfold writeRecord
  rw [ha.eq]
  rfl

theorem placeRecord_of_none {kcf : KCF} (hm : kcf.heap 0 = none) (R : Record) :
    kcf.placeRecord (recFix R) = .ok (.outOfMemory, kcf.starved, recFix R) := by
  unfold placeRecord
  rw [recBuffer_of_none hm]
  rfl

theorem placeRecord_of_fits {kcf : KCF} {R : Record} (hm : (kcf.heap 0).isSome) (hf : R.Fits) :
    kcf.placeRecord (recFix R) =
      if (kcf.stream.writes 0).Fails then .ok (.write, kcf.placed (recFix R), recFix R)
      else .ok (.ok, (kcf.placed (recFix R)).saveRecord (recFix R), recFix R) := by
  obtain ⟨fresh, hfresh⟩ := Option.isSome_iff_exists.mp hm
  unfold placeRecord
  rw [recBuffer_of_fits hf, hfresh]
  by_cases hw : (kcf.stream.writes 0).Fails
  · rw [if_pos hw]
    exact if_pos ((Transfer.ret_neg_iff ..).mpr hw)
  · rw [if_neg hw]
    exact if_neg (mt (Transfer.ret_neg_iff ..).mp hw)

theorem placeRecord_of_not_fits {kcf : KCF} {R : Record} (hm : (kcf.heap 0).isSome)
    (hf : ¬ R.Fits) : kcf.placeRecord (recFix R) = .error .outOfBounds := by
  unfold placeRecord
  rw [recBuffer_of_not_fits hf hm]
  rfl

theorem WriteRecord.eq {kcf k : KCF} {R R' : Record} {e : KcfError}
    (h : kcf.WriteRecord R e k R') : kcf.writeRecord R = .ok (e, k, R') := by
  cases h with
  | refused ha => exact writeRecord_of_refused ha R
  | noMemory ha hm => rw [writeRecord_of_accept ha, placeRecord_of_none hm]
  | failed ha hm hf hw => rw [writeRecord_of_accept ha, placeRecord_of_fits hm hf, if_pos hw]
  | written ha hm hf hw => rw [writeRecord_of_accept ha, placeRecord_of_fits hm hf, if_neg hw]

theorem Accept.writeRecord {kcf k : KCF} {R : Record} (ha : kcf.Accept .ok k)
    (hm : (k.heap 0).isSome) (hs : k.stream.WritesFully) (hf : R.Fits) :
    kcf.writeRecord R = .ok (.ok, (k.placed (recFix R)).saveRecord (recFix R), recFix R) :=
  (WriteRecord.written ha hm hf (hs.not_fails 0)).eq

theorem writeRecord_of_eq {kcf k : KCF} {R R' : Record} {e : KcfError}
    (h : kcf.writeRecord R = .ok (e, k, R')) : kcf.WriteRecord R e k R' := by
  have same : ∀ {e' k' R''}, kcf.WriteRecord R e' k' R'' → kcf.WriteRecord R e k R' := by
    intro e' k' R'' h'
    cases h'.eq.symm.trans h
    exact h'
  obtain ⟨⟨e', k'⟩, ha, -⟩ := Exec.bind_ok h
  have ha := accept_of_eq ha
  cases ha.error_cases with
  | inl he => exact same (.refused (he ▸ ha))
  | inr he =>
    subst he
    cases hm : k'.heap 0 with
    | none => exact same (.noMemory ha hm)
    | some fresh =>
      have hm' : (k'.heap 0).isSome := by simp [hm]
      by_cases hf : R.Fits
      · by_cases hw : (k'.stream.writes 0).Fails
        · exact same (.failed ha hm' hf hw)
        · exact same (.written ha hm' hf hw)
      · rw [writeRecord_of_accept ha, placeRecord_of_not_fits hm' hf] at h
        cases h

theorem writeRecord_iff {kcf k : KCF} {R R' : Record} {e : KcfError} :
    kcf.writeRecord R = .ok (e, k, R') ↔ kcf.WriteRecord R e k R' :=
  ⟨writeRecord_of_eq, WriteRecord.eq⟩

/-- The outcomes of `writeRecordWithAddedData`. -/
inductive WriteWhole (kcf : KCF) (R : Record) (D : List UInt8) : KcfError → KCF → Record → Prop
  | refused {k : KCF} : kcf.Accept .invalidState k → WriteWhole kcf R D .invalidState k R
  | noMemory {k : KCF} : kcf.Accept .ok k → k.heap 0 = none →
      WriteWhole kcf R D .outOfMemory k.starved (recFix (describeAddedData R D))
  | headerFailed {k : KCF} : kcf.Accept .ok k → (k.heap 0).isSome → (describeAddedData R D).Fits →
      (k.stream.writes 0).Fails →
      WriteWhole kcf R D .write (k.laid (recFix (describeAddedData R D)))
        (recFix (describeAddedData R D))
  | dataFailed {k : KCF} : kcf.Accept .ok k → (k.heap 0).isSome → (describeAddedData R D).Fits →
      ¬ (k.stream.writes 0).Fails → (k.stream.writes 1).Fails →
      WriteWhole kcf R D .write ((k.laid (recFix (describeAddedData R D))).wrote D)
        (recFix (describeAddedData R D))
  | written {k : KCF} : kcf.Accept .ok k → (k.heap 0).isSome → (describeAddedData R D).Fits →
      ¬ (k.stream.writes 0).Fails → ¬ (k.stream.writes 1).Fails →
      WriteWhole kcf R D .ok ((k.laid (recFix (describeAddedData R D))).wrote D)
        (recFix (describeAddedData R D))

theorem writeRecordWithAddedData_of_refused {kcf k : KCF} (ha : kcf.Accept .invalidState k)
    (R : Record) (D : List UInt8) :
    kcf.writeRecordWithAddedData R D = .ok (.invalidState, k, R) := by
  unfold writeRecordWithAddedData
  rw [ha.eq]
  rfl

theorem writeRecordWithAddedData_of_accept {kcf k : KCF} (ha : kcf.Accept .ok k) (R : Record)
    (D : List UInt8) :
    kcf.writeRecordWithAddedData R D =
      k.placeRecordWithAddedData (recFix (describeAddedData R D)) D := by
  unfold writeRecordWithAddedData
  rw [ha.eq]
  rfl

theorem placeRecordWithAddedData_of_none {kcf : KCF} (hm : kcf.heap 0 = none) (R : Record)
    (D : List UInt8) :
    kcf.placeRecordWithAddedData (recFix R) D = .ok (.outOfMemory, kcf.starved, recFix R) := by
  unfold placeRecordWithAddedData
  rw [recBuffer_of_none hm]
  rfl

theorem placeRecordWithAddedData_of_fits {kcf : KCF} {R : Record} (hm : (kcf.heap 0).isSome)
    (hf : R.Fits) (D : List UInt8) :
    kcf.placeRecordWithAddedData (recFix R) D =
      if (kcf.stream.writes 0).Fails then .ok (.write, kcf.laid (recFix R), recFix R)
      else if (kcf.stream.writes 1).Fails then
        .ok (.write, (kcf.laid (recFix R)).wrote D, recFix R)
      else .ok (.ok, (kcf.laid (recFix R)).wrote D, recFix R) := by
  obtain ⟨fresh, hfresh⟩ := Option.isSome_iff_exists.mp hm
  unfold placeRecordWithAddedData
  rw [recBuffer_of_fits hf, hfresh]
  by_cases hw : (kcf.stream.writes 0).Fails
  · rw [if_pos hw]
    exact if_pos ((Transfer.ret_neg_iff ..).mpr hw)
  · rw [if_neg hw]
    refine (if_neg (mt (Transfer.ret_neg_iff ..).mp hw)).trans ?_
    by_cases hd : (kcf.stream.writes 1).Fails
    · rw [if_pos hd]
      exact if_pos ((Transfer.ret_neg_iff ..).mpr hd)
    · rw [if_neg hd]
      exact if_neg (mt (Transfer.ret_neg_iff ..).mp hd)

theorem placeRecordWithAddedData_of_not_fits {kcf : KCF} {R : Record} (hm : (kcf.heap 0).isSome)
    (hf : ¬ R.Fits) (D : List UInt8) :
    kcf.placeRecordWithAddedData (recFix R) D = .error .outOfBounds := by
  unfold placeRecordWithAddedData
  rw [recBuffer_of_not_fits hf hm]
  rfl

theorem WriteWhole.eq {kcf k : KCF} {R R' : Record} {D : List UInt8} {e : KcfError}
    (h : kcf.WriteWhole R D e k R') : kcf.writeRecordWithAddedData R D = .ok (e, k, R') := by
  cases h with
  | refused ha => exact writeRecordWithAddedData_of_refused ha R D
  | noMemory ha hm =>
    rw [writeRecordWithAddedData_of_accept ha, placeRecordWithAddedData_of_none hm]
  | headerFailed ha hm hf hw =>
    rw [writeRecordWithAddedData_of_accept ha, placeRecordWithAddedData_of_fits hm hf, if_pos hw]
  | dataFailed ha hm hf hw hd =>
    rw [writeRecordWithAddedData_of_accept ha, placeRecordWithAddedData_of_fits hm hf, if_neg hw,
      if_pos hd]
  | written ha hm hf hw hd =>
    rw [writeRecordWithAddedData_of_accept ha, placeRecordWithAddedData_of_fits hm hf, if_neg hw,
      if_neg hd]

theorem writeWhole_of_eq {kcf k : KCF} {R R' : Record} {D : List UInt8} {e : KcfError}
    (h : kcf.writeRecordWithAddedData R D = .ok (e, k, R')) : kcf.WriteWhole R D e k R' := by
  have same : ∀ {e' k' R''}, kcf.WriteWhole R D e' k' R'' → kcf.WriteWhole R D e k R' := by
    intro e' k' R'' h'
    cases h'.eq.symm.trans h
    exact h'
  obtain ⟨⟨e', k'⟩, ha, -⟩ := Exec.bind_ok h
  have ha := accept_of_eq ha
  cases ha.error_cases with
  | inl he => exact same (.refused (he ▸ ha))
  | inr he =>
    subst he
    cases hm : k'.heap 0 with
    | none => exact same (.noMemory ha hm)
    | some fresh =>
      have hm' : (k'.heap 0).isSome := by simp [hm]
      by_cases hf : (describeAddedData R D).Fits
      · by_cases hw : (k'.stream.writes 0).Fails
        · exact same (.headerFailed ha hm' hf hw)
        · by_cases hd : (k'.stream.writes 1).Fails
          · exact same (.dataFailed ha hm' hf hw hd)
          · exact same (.written ha hm' hf hw hd)
      · rw [writeRecordWithAddedData_of_accept ha, placeRecordWithAddedData_of_not_fits hm' hf] at h
        cases h

theorem writeRecordWithAddedData_iff {kcf k : KCF} {R R' : Record} {D : List UInt8}
    {e : KcfError} :
    kcf.writeRecordWithAddedData R D = .ok (e, k, R') ↔ kcf.WriteWhole R D e k R' :=
  ⟨writeWhole_of_eq, WriteWhole.eq⟩

/-- The outcomes of `writeAddedData`. -/
inductive WriteData (kcf : KCF) (data : List UInt8) (size : ℕ) : KcfError → KCF → Prop
  | refused : kcf.parserState ≠ .writeAddedData → WriteData kcf data size .invalidState kcf
  | exhausted : kcf.parserState = .writeAddedData → kcf.writeRemaining = some 0 →
      WriteData kcf data size .ok kcf
  | failed : kcf.parserState = .writeAddedData → kcf.writeRemaining ≠ some 0 →
      kcf.acceptedSize size ≤ data.length → (kcf.stream.writes 0).Fails →
      WriteData kcf data size .write (kcf.wrote (data.take (kcf.acceptedSize size)))
  | added : kcf.parserState = .writeAddedData → kcf.writeRemaining ≠ some 0 →
      kcf.acceptedSize size ≤ data.length → ¬ (kcf.stream.writes 0).Fails →
      WriteData kcf data size .ok
        ((kcf.wrote (data.take (kcf.acceptedSize size))).counted
          (data.take (kcf.acceptedSize size)))

theorem writeAddedData_of_ne {kcf : KCF} (h : kcf.parserState ≠ .writeAddedData)
    (data : List UInt8) (size : ℕ) : kcf.writeAddedData data size = .ok (.invalidState, kcf) := by
  simp only [writeAddedData, ne_eq, h, not_false_eq_true, if_true, ite_self]

theorem writeAddedData_of_open {kcf : KCF} (h : kcf.parserState = .writeAddedData)
    (data : List UInt8) (size : ℕ) :
    kcf.writeAddedData data size =
      if kcf.writeRemaining = some 0 then .ok (.ok, kcf)
      else if data.length < kcf.acceptedSize size then .error .outOfBounds
      else if (kcf.stream.writes 0).Fails then
        .ok (.write, kcf.wrote (data.take (kcf.acceptedSize size)))
      else
        .ok (.ok, (kcf.wrote (data.take (kcf.acceptedSize size))).counted
          (data.take (kcf.acceptedSize size))) := by
  have hw : kcf.parserState.isWriting = true := (isWriting_iff _).mpr (by simp [h])
  unfold writeAddedData
  rw [hw, if_neg (by simp), if_neg (by simp [h])]
  refine if_congr Iff.rfl rfl (if_congr Iff.rfl rfl ?_)
  exact if_congr (Transfer.ret_neg_iff ..) rfl rfl

theorem WriteData.eq {kcf k : KCF} {data : List UInt8} {size : ℕ} {e : KcfError}
    (h : kcf.WriteData data size e k) : kcf.writeAddedData data size = .ok (e, k) := by
  cases h with
  | refused hp => exact writeAddedData_of_ne hp data size
  | exhausted hp hr => rw [writeAddedData_of_open hp, if_pos hr]
  | failed hp hr hs hw =>
    rw [writeAddedData_of_open hp, if_neg hr, if_neg (by omega), if_pos hw]
  | added hp hr hs hw =>
    rw [writeAddedData_of_open hp, if_neg hr, if_neg (by omega), if_neg hw]

theorem writeData_of_eq {kcf k : KCF} {data : List UInt8} {size : ℕ} {e : KcfError}
    (h : kcf.writeAddedData data size = .ok (e, k)) : kcf.WriteData data size e k := by
  have same : ∀ {e' k'}, kcf.WriteData data size e' k' → kcf.WriteData data size e k := by
    intro e' k' h'
    cases h'.eq.symm.trans h
    exact h'
  by_cases hp : kcf.parserState = .writeAddedData
  swap; · exact same (.refused hp)
  by_cases hr : kcf.writeRemaining = some 0
  · exact same (.exhausted hp hr)
  rcases Nat.lt_or_ge data.length (kcf.acceptedSize size) with hs | hs
  · rw [writeAddedData_of_open hp, if_neg hr, if_pos hs] at h
    cases h
  · by_cases hw : (kcf.stream.writes 0).Fails
    · exact same (.failed hp hr hs hw)
    · exact same (.added hp hr hs hw)

theorem writeAddedData_iff {kcf k : KCF} {data : List UInt8} {size : ℕ} {e : KcfError} :
    kcf.writeAddedData data size = .ok (e, k) ↔ kcf.WriteData data size e k :=
  ⟨writeData_of_eq, WriteData.eq⟩

end KCF

end Kcf
