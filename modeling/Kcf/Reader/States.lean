import Kcf.Reader.Calls

/-! # The states of a reader

Between two calls a reader expects a record or has added data to deliver. Two
things spoil this: a record that announces added data of size zero leaves the
reader with nothing to deliver for ever, and a call that fails between a header
and what follows it leaves the reader in a state that every call refuses.
-/

namespace Kcf

open CallMachine

/-- The call is refused for the state that the handle is in. -/
def KCF.Refuses (kcf : KCF) (c : ReaderCall) : Prop :=
  ∃ a k, readerStep c kcf = .ok (a, k) ∧ a.error = .invalidState

variable {kcf k s t : KCF}

namespace KCF

theorem readRecord_not_refused (h : kcf.parserState = .readRecordHeader) (R : Record) :
    ¬ kcf.Refuses (.readRecord (some R)) := by
  rintro ⟨a, k, hc, ha⟩
  have hr := readRecord_of_step hc
  rw [ha] at hr
  cases hr with
  | refused hne => exact hne h
  | noData _ _ _ he => exact absurd he (by decide)

theorem readRecord_refused (h : kcf.parserState ≠ .readRecordHeader) (R : Record) :
    kcf.Refuses (.readRecord (some R)) :=
  ⟨_, _, congrArg (fun x => Except.ok (ofRecord x)) (readRecord_of_ne h R), rfl⟩

theorem readAddedData_not_refused (h : kcf.parserState = .readAddedData) (bufferSize : ℕ) :
    ¬ kcf.Refuses (.readAddedData (some bufferSize)) := by
  rintro ⟨a, k, hc, ha⟩
  have hr := readAddedData_of_step hc
  rw [ha] at hr
  cases hr with
  | refused hne => exact hne h

theorem readAddedData_refused (h : kcf.parserState ≠ .readAddedData) (bufferSize : ℕ) :
    kcf.Refuses (.readAddedData (some bufferSize)) :=
  ⟨_, _, congrArg (Except.map ofAddedData) (readAddedData_of_ne h bufferSize), rfl⟩

theorem skipRecord_refused (hh : kcf.parserState ≠ .readRecordHeader)
    (ha : kcf.parserState ≠ .readAddedData) (fuel : ℕ) (header : Record) :
    kcf.Refuses (.skipRecord fuel header) :=
  ⟨_, _, congrArg (Except.map ofDone) (skipRecord_of_ne hh ha fuel header), rfl⟩

/-- State and counter tell the same: added data is due exactly when some is left. -/
def Settled (kcf : KCF) : Prop :=
  kcf.parserState = if kcf.isAddedDataAvailable then .readAddedData else .readRecordHeader

instance (kcf : KCF) : Decidable kcf.Settled := inferInstanceAs (Decidable (_ = _))

theorem isAddedDataAvailable_iff : kcf.isAddedDataAvailable = true ↔ kcf.availableAddedData ≠ 0 :=
  decide_eq_true_iff.trans UInt64.pos_iff_ne_zero

theorem settled_iff : kcf.Settled ↔
    kcf.parserState = if kcf.availableAddedData = 0 then .readRecordHeader else .readAddedData := by
  unfold Settled
  by_cases h : kcf.availableAddedData = 0
  · rw [if_pos h, if_neg (by rw [isAddedDataAvailable_iff, not_not]; exact h)]
  · rw [if_neg h, if_pos (isAddedDataAvailable_iff.mpr h)]

end KCF

def IOStream.SizesAddedData (s : IOStream) : Prop :=
  addedSizeWidth s.headFlags ≠ 0 → s.headAddedSize ≠ 0

instance (s : IOStream) : Decidable s.SizesAddedData := inferInstanceAs (Decidable (_ → _))

/-- No record is read that announces added data of size zero. -/
def SizedRecords (c : ReaderCall) (kcf : KCF) : Prop :=
  match c with
  | .readRecord _ => kcf.parserState = .readRecordHeader → kcf.stream.SizesAddedData
  | _ => True

namespace KCF

theorem readRecord_settled_iff (h : kcf.ReadRecord .ok k) :
    k.Settled ↔ kcf.stream.SizesAddedData := by
  have hlt := kcf.stream.headAddedSize_lt
  cases h with
  | noData _ _ _ he => exact absurd he (by decide)
  | read _ _ _ hk hv =>
    have hz : k.availableAddedData = 0 ↔ kcf.stream.headAddedSize = 0 := by
      rw [hv, ← UInt64.toNat_inj, UInt64.toNat_ofNat', Nat.mod_eq_of_lt (by simpa using hlt)]
      rfl
    rw [settled_iff, hk, IOStream.SizesAddedData]
    simp only [hz]
    by_cases hw : addedSizeWidth kcf.stream.headFlags = 0
    · have h₀ : kcf.stream.headAddedSize = 0 := if_pos hw
      simp [hw, h₀]
    · by_cases h₀ : kcf.stream.headAddedSize = 0 <;> simp [hw, h₀]

theorem Settled.step {c : ReaderCall} {a : ReaderResult} (hs : kcf.Settled)
    (hg : SizedRecords c kcf) (ha : a.error = .ok) (h : readerStep c kcf = .ok (a, k)) :
    k.Settled := by
  have hc := stepped_of_step h
  rw [ha] at hc
  cases hc with
  | record hr => exact (readRecord_settled_iff hr).mpr (hg hr.parserState)
  | added hr =>
    cases hr with
    | nothing hp h₀ =>
      rw [settled_iff, if_pos h₀, hp] at hs
      cases hs
    | read _ _ hk => exact settled_iff.mpr hk
  | asked => exact hs
  | skipped hr => cases hr
  | started hr =>
    have hstate : kcf.parserState = .readRecordHeader ∨ kcf.parserState = .readRecordData ∨
        kcf.parserState = .readAddedData := by
      rw [settled_iff.mp hs]
      split <;> simp
    obtain ⟨_, rfl⟩ := startReading_eq hstate hr
    exact hs

end KCF

/-- As long as announced added data has a size, calls that succeed leave state and counter in
step, and a reader without added data to deliver is ready for the next record. -/
theorem reader_not_stranded {tr : List (ReaderCall × ReaderResult)}
    (h : Run readerStep SizedRecords s tr t) (hok : ∀ x ∈ tr, x.2.error = .ok)
    (hs : s.Settled) :
    t.Settled ∧
      (t.isAddedDataAvailable = false → ∀ R, ¬ t.Refuses (.readRecord (some R))) := by
  have ht : t.Settled :=
    h.invariant_of_answers (P := fun _ a => a.error = .ok)
      (fun _ _ _ _ hs hg ha hc => hs.step hg ha hc) hok hs
  refine ⟨ht, fun hn => KCF.readRecord_not_refused ?_⟩
  rw [ht, hn]
  rfl

/-- A record with flag 0x80 and the given size of added data. -/
def Record.adding (size : UInt64) : Record :=
  { Record.zero with headFlags := 0x80, addedSize := size }

def KCF.readingRecord (R : Record) (added : List UInt8) : KCF :=
  reading (.ofBytes ((recFix R).encode ++ added))

theorem reader_not_stranded_oneByte :
    ∃ tr t, Run readerStep SizedRecords (.readingRecord (.adding 1) [7]) tr t ∧
      tr.length = 2 ∧ t.Settled ∧ t.isAddedDataAvailable = false ∧
      ∀ R, ¬ t.Refuses (.readRecord (some R)) := by
  have hrun : Run readerStep SizedRecords (.readingRecord (.adding 1) [7])
      [(.readRecord (some Record.zero), _), (.readAddedData (some 4), _)] _ :=
    .cons (fun _ => by decide +kernel) rfl (.cons trivial rfl (.nil _))
  have hok := reader_not_stranded hrun
    (List.forall_mem_cons.mpr
      ⟨by decide +kernel, List.forall_mem_singleton.mpr (by decide +kernel)⟩)
    (by decide +kernel)
  exact ⟨_, _, hrun, rfl, hok.1, by decide +kernel, hok.2 (by decide +kernel)⟩

/-- A well-formed record whose added data has size zero is read with success, and then no added
data is left and the next record is refused. -/
theorem reader_strands :
    ∃ a t, recValidate (recFix (.adding 0)) ∧
      Run readerStep (fun _ _ => True) (.readingRecord (.adding 0) [])
        [(.readRecord (some Record.zero), a)] t ∧
      a.error = .ok ∧ ¬ t.Settled ∧ t.isAddedDataAvailable = false ∧
      ∀ R, t.Refuses (.readRecord (some R)) := by
  have hrun : Run readerStep (fun _ _ => True) (.readingRecord (.adding 0) [])
      [(.readRecord (some Record.zero), _)] _ := .cons trivial rfl (.nil _)
  exact ⟨_, _, recValidate_recFix _, hrun, by decide +kernel, by decide +kernel,
    by decide +kernel, KCF.readRecord_refused (by decide +kernel)⟩

/-- Nothing fails between a header and the data behind it, and no record is skipped whose header
is read. -/
def HeaderFollowed (c : ReaderCall) (kcf : KCF) : Prop :=
  match c with
  | .readRecord (some _) =>
    kcf.parserState = .readRecordHeader → kcf.stream.DeliversHeader → kcf.DeliversData
  | .skipRecord _ _ => kcf.parserState = .readRecordHeader → ¬ kcf.stream.DeliversHeader
  | _ => True

namespace KCF

/-- A reader between two records or amid added data. -/
def AtRest (kcf : KCF) : Prop :=
  kcf.parserState = .readRecordHeader ∨ kcf.parserState = .readAddedData

theorem readRecord_stuck_iff {e : KcfError} (hp : kcf.parserState = .readRecordHeader)
    (h : kcf.ReadRecord e k) :
    k.parserState = .readRecordData ↔ kcf.stream.DeliversHeader ∧ ¬ kcf.DeliversData := by
  cases h with
  | refused hne => exact absurd hp hne
  | noHeader _ hd hk => simp [hk, hd]
  | noData _ hd hn _ hk => simp [hk, hd, hn]
  | read _ hd hdata hk =>
    rw [hk]
    split <;> simp [hdata]

theorem skipRecord_stuck_iff {e : KcfError} (hp : kcf.parserState = .readRecordHeader)
    (h : kcf.SkipRecord e k) :
    k.parserState = .readRecordData ↔ kcf.stream.DeliversHeader := by
  cases h with
  | refused hne => exact absurd hp hne
  | noHeader _ hd hk => simp [hk, hd]
  | header _ hd hk => simp [hk, hd]
  | added ha => rw [hp] at ha; cases ha

theorem AtRest.step {c : ReaderCall} {a : ReaderResult} (hs : kcf.AtRest)
    (hg : HeaderFollowed c kcf) (h : readerStep c kcf = .ok (a, k)) : k.AtRest := by
  have hc := stepped_of_step h
  generalize a.error = e at hc
  cases hc with
  | nullRecord => exact hs
  | record hr =>
    cases hr with
    | refused => exact hs
    | noHeader _ _ hk => exact .inl hk
    | noData hp hd hn => exact absurd (hg hp hd) hn
    | read _ _ _ hk =>
      unfold AtRest
      rw [hk]
      split <;> simp
  | nullBuffer => exact hs
  | added hr =>
    cases hr with
    | refused => exact hs
    | nothing _ _ hk => exact .inr hk
    | short _ _ hk => exact .inr hk
    | read _ _ hk =>
      unfold AtRest
      rw [hk]
      split <;> simp
  | asked => exact hs
  | skipped hr =>
    cases hr with
    | refused => exact hs
    | noHeader _ _ hk => exact .inl hk
    | header hp hd => exact absurd hd (hg hp)
    | added _ hk => exact .inr hk
  | started hr =>
    obtain ⟨_, rfl⟩ := startReading_eq (hs.imp id .inr) hr
    exact hs

/-- No call moves a reader that is stuck behind a header. -/
theorem stuck_step {c : ReaderCall} {a : ReaderResult} (h : kcf.parserState = .readRecordData)
    (hc : readerStep c kcf = .ok (a, k)) : k = kcf := by
  have hh : kcf.parserState ≠ .readRecordHeader := by simp [h]
  have ha : kcf.parserState ≠ .readAddedData := by simp [h]
  have hs := stepped_of_step hc
  generalize a.error = e at hs
  cases hs with
  | nullRecord | nullBuffer | asked => rfl
  | record hr =>
    cases hr with
    | refused => rfl
    | noHeader hp | noData hp | read hp => exact absurd hp hh
  | added hr =>
    cases hr with
    | refused => rfl
    | nothing hp | short hp | read hp => exact absurd hp ha
  | skipped hr =>
    cases hr with
    | refused => rfl
    | noHeader hp | header hp => exact absurd hp hh
    | added hp => exact absurd hp ha
  | started hr => exact (startReading_eq (.inr (.inl h)) hr).2

theorem stuck {guard : ReaderCall → KCF → Prop} {tr : List (ReaderCall × ReaderResult)}
    (h : kcf.parserState = .readRecordData) (hr : Run readerStep guard kcf tr k) :
    (∀ R, k.Refuses (.readRecord (some R))) ∧ (∀ n, k.Refuses (.readAddedData (some n))) ∧
      ∀ fuel header, k.Refuses (.skipRecord fuel header) := by
  obtain rfl : k = kcf :=
    hr.invariant (I := (· = kcf)) (fun _ _ _ _ hs _ hc => by
      subst hs
      exact stuck_step h hc) rfl
  have hh : k.parserState ≠ .readRecordHeader := by simp [h]
  have ha : k.parserState ≠ .readAddedData := by simp [h]
  exact ⟨readRecord_refused hh, readAddedData_refused ha, skipRecord_refused hh ha⟩

end KCF

/-- As long as nothing fails behind a header, no call leaves the reader stuck there, and once
reading is started again some call is accepted. -/
theorem reader_not_stuck {tr : List (ReaderCall × ReaderResult)}
    (h : Run readerStep HeaderFollowed s tr t) (hs : s.parserState = .readRecordHeader) :
    t.parserState ≠ .readRecordData ∧
      ∀ k, t.startReading = .ok (.ok, k) →
        (∀ R, ¬ k.Refuses (.readRecord (some R))) ∨
          ∀ n, ¬ k.Refuses (.readAddedData (some n)) := by
  have ht : t.AtRest := h.invariant (fun _ _ _ _ hs hg hc => hs.step hg hc) (.inl hs)
  refine ⟨fun hd => ?_, fun k hk => ?_⟩
  · rcases ht with ht | ht <;> rw [ht] at hd <;> cases hd
  · rw [KCF.startReading_of_reading (ht.imp id .inr)] at hk
    cases hk
    exact ht.imp KCF.readRecord_not_refused KCF.readAddedData_not_refused

theorem reader_not_stuck_oneByte :
    ∃ tr t, Run readerStep HeaderFollowed (.readingRecord (.adding 1) [7]) tr t ∧
      tr.length = 1 ∧ t.parserState ≠ .readRecordData := by
  have hrun : Run readerStep HeaderFollowed (.readingRecord (.adding 1) [7])
      [(.readRecord (some Record.zero), _)] _ :=
    .cons (fun _ _ => by decide +kernel) rfl (.nil _)
  exact ⟨_, _, hrun, rfl, (reader_not_stuck hrun rfl).1⟩

/-- A reader over a record with added data that gets no memory. -/
def KCF.readingWithoutMemory : KCF :=
  { readingRecord (.adding 1) [7] with heap := fun _ => none }

/-- When there is no memory for a record's data, the reader stays behind the header: reading is
started again with success, and yet every call that reads is refused for ever. -/
theorem reader_gets_stuck :
    ∃ a b t, Run readerStep (fun _ _ => True) .readingWithoutMemory
        [(.readRecord (some Record.zero), a), (.startReading, b)] t ∧
      a.error = .outOfMemory ∧ b.error = .ok ∧ t.parserState = .readRecordData ∧
      ∀ tr u, Run readerStep (fun _ _ => True) t tr u →
        (∀ R, u.Refuses (.readRecord (some R))) ∧ (∀ n, u.Refuses (.readAddedData (some n))) ∧
          ∀ fuel header, u.Refuses (.skipRecord fuel header) := by
  have hrun : Run readerStep (fun _ _ => True) .readingWithoutMemory
      [(.readRecord (some Record.zero), _), (.startReading, .done .ok)] _ :=
    .cons trivial rfl (.cons trivial rfl (.nil _))
  exact ⟨_, _, _, hrun, by decide +kernel, rfl, by decide +kernel,
    fun _ _ hr => KCF.stuck (by decide +kernel) hr⟩

end Kcf
