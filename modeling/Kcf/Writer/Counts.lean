import Kcf.Writer.Append

/-! # Short writes

What the writer does about a write that stores fewer bytes than it was given.
Only a negative result counts as a failure, so a call that reports success has
stored everything exactly when each of its writes failed or was complete.
-/

namespace Kcf

/-- A request was carried out in full. -/
def Write.Done (w : Write) : Prop := w.stored = w.asked.length

instance (w : Write) : Decidable w.Done := inferInstanceAs (Decidable (_ = _))

/-- The added bytes stored for the record that is open after a call, which made these writes with
`n` bytes stored before: none for a record it opened, all of them for the one still open. -/
def addedAfter (c : WriterCall) (n : ℕ) (v : KCF) (new : List Write) : ℕ :=
  match c with
  | .data _ _ => n + (new.map Write.stored).sum
  | .record R => if v.parserState = .writeAddedData ∧ recHasAddedSize R = false then n else 0
  | .whole _ _ | .finish => if v.parserState = .writeAddedData then n else 0

/-- A call that reports success stored all it asked to store, and the counter says so. -/
def LosesNothing (c : WriterCall) (u : KCF) (n : ℕ) : Prop :=
  ∀ v, writerStep c u = .ok (.ok, v) → ∃ new, v.stream.log = u.stream.log ++ new ∧
    (∀ w ∈ new, w.Done) ∧ v.writtenAddedData = UInt64.ofNat (addedAfter c n v new)

namespace KCF

/-- Finishing the open record gets as far as writing its header. -/
def ReachesHeader (kcf : KCF) : Prop :=
  kcf.Patches ∧ kcf.stream.seeks 0 = .done ∧ (kcf.heap 0).isSome

instance (kcf : KCF) : Decidable kcf.ReachesHeader := inferInstanceAs (Decidable (_ ∧ _))

/-- The handle takes a record: its state allows it, and an open record can be finished. -/
def Accepts (kcf : KCF) : Prop :=
  (kcf.parserState = .writing ∨ kcf.parserState = .writeRecord ∨
    kcf.parserState = .writeAddedData) ∧ (kcf.ReachesHeader → kcf.lastRecord.Fits)

/-- The number of writes that finishing the open record makes. -/
def patchWrites (kcf : KCF) : ℕ := if kcf.ReachesHeader then 1 else 0

/-- The number of blocks that finishing the open record asks for. -/
def patchBlocks (kcf : KCF) : ℕ := if kcf.Patches ∧ kcf.stream.seeks 0 = .done then 1 else 0

/-- The write that patches the header, if there is one, stores all of it. -/
def PatchComplete (kcf : KCF) : Prop :=
  kcf.ReachesHeader → (kcf.stream.writes 0).Complete kcf.patchedRecord.encode.length

/-- A finish that does not get to the header leaves no count behind. -/
def NothingCounted (kcf : KCF) : Prop :=
  kcf.Patches → ¬ kcf.ReachesHeader → kcf.writtenAddedData = 0

end KCF

/-- Each write of the call is complete, unless one of them makes the call fail; and a record with
added data is not opened with the count of the one before. -/
def StoresAll (c : WriterCall) (u : KCF) : Prop :=
  match c with
  | .finish =>
    u.ReachesHeader → u.lastRecord.Fits → (u.stream.writes 0).Fails ∨ u.PatchComplete
  | .data data size =>
    u.parserState = .writeAddedData → u.writeRemaining ≠ some 0 →
      u.acceptedSize size ≤ data.length →
      (u.stream.writes 0).Fails ∨ (u.stream.writes 0).Complete (u.acceptedSize size)
  | .record R =>
    u.Accepts → (u.heap u.patchBlocks).isSome → R.Fits →
      (u.stream.writes u.patchWrites).Fails ∨
      (u.stream.writes u.patchWrites).Complete (recFix R).encode.length ∧ u.PatchComplete ∧
        (recHasAddedSize R = true → u.NothingCounted)
  | .whole R D =>
    u.Accepts → (u.heap u.patchBlocks).isSome → (describeAddedData R D).Fits →
      (u.stream.writes u.patchWrites).Fails ∨ (u.stream.writes (u.patchWrites + 1)).Fails ∨
      (u.stream.writes u.patchWrites).Complete (recFix (describeAddedData R D)).encode.length ∧
        (u.stream.writes (u.patchWrites + 1)).Complete D.length ∧ u.PatchComplete

variable {u k v : KCF} {n : ℕ}

theorem ioWrite_log (s : IOStream) (data : List UInt8) :
    (ioWrite s data).2.log = s.log ++ [⟨s.pos, data, (s.writes 0).moved data.length⟩] := rfl

theorem ioSeek_log (s : IOStream) (offset : ℕ) : (ioSeek s offset).2.log = s.log := by
  unfold ioSeek
  split <;> rfl

theorem ioSeek_writes (s : IOStream) (offset : ℕ) : (ioSeek s offset).2.writes = s.writes := by
  unfold ioSeek
  split <;> rfl

theorem patched_log (u : KCF) :
    u.patched.returned.closeRecord.stream.log = u.stream.log ++
      [⟨u.recordOffset, u.patchedRecord.encode,
        (u.stream.writes 0).moved u.patchedRecord.encode.length⟩] :=
  (ioSeek_log ..).trans rfl

/-- What accepting a record leaves, for the blocks and the writes that follow. -/
structure Accepted (u k : KCF) : Prop where
  heap : k.heap 0 = u.heap u.patchBlocks
  writes : ∀ i, k.stream.writes i = u.stream.writes (u.patchWrites + i)
  log : ∃ new, k.stream.log = u.stream.log ++ new ∧
    ((∀ w ∈ new, w.Done) ↔ (u.ReachesHeader →
      (u.stream.writes 0).moved u.patchedRecord.encode.length = u.patchedRecord.encode.length))
  written : k.writtenAddedData =
    if k.parserState = .writeAddedData then u.writtenAddedData else 0
  unfinished : k.parserState = .writeAddedData ↔
    u.Patches ∧ (u.ReachesHeader → (u.stream.writes 0).Fails)

theorem Accepted.silent (hp : ¬ u.Patches) (hh : k.heap = u.heap) (hs : k.stream = u.stream)
    (hk : k.parserState = .writeRecord) (hw : k.writtenAddedData = 0) : Accepted u k where
  heap := by rw [hh, KCF.patchBlocks, if_neg fun h => hp h.1]
  writes i := by rw [hs, KCF.patchWrites, if_neg fun h => hp h.1, Nat.zero_add]
  log := ⟨[], by rw [hs, List.append_nil], by simp [KCF.ReachesHeader, hp]⟩
  written := by rw [hw, hk, if_neg (by simp)]
  unfinished := by simp [hk, hp]

theorem Accepted.unwritten (hp : u.Patches) (hr : ¬ u.ReachesHeader)
    (hh : k.heap 0 = u.heap u.patchBlocks) (hs : k.stream.writes = u.stream.writes)
    (hl : k.stream.log = u.stream.log) (hk : k.parserState = u.parserState)
    (hw : k.writtenAddedData = u.writtenAddedData) : Accepted u k where
  heap := hh
  writes i := by rw [hs, KCF.patchWrites, if_neg hr, Nat.zero_add]
  log := ⟨[], by rw [hl, List.append_nil], by simp [hr]⟩
  written := by rw [hw, hk, hp.1, if_pos rfl]
  unfinished := by simp [hk, hp, hp.1, hr]

theorem Accepted.patched (hr : u.ReachesHeader) (hh : k.heap = u.heap.next)
    (hs : k.stream.writes = fun i => u.stream.writes (i + 1))
    (hl : k.stream.log = u.stream.log ++ [⟨u.recordOffset, u.patchedRecord.encode,
      (u.stream.writes 0).moved u.patchedRecord.encode.length⟩])
    (hk : k.parserState = .writeAddedData ↔ (u.stream.writes 0).Fails)
    (hw : k.writtenAddedData =
      if k.parserState = .writeAddedData then u.writtenAddedData else 0) : Accepted u k where
  heap := by rw [hh, KCF.patchBlocks, if_pos ⟨hr.1, hr.2.1⟩]; rfl
  writes i := by rw [hs, KCF.patchWrites, if_pos hr, Nat.add_comm]
  log := ⟨_, hl, by simp [hr, Write.Done]⟩
  written := hw
  unfinished := by simp [hk, hr, hr.1]

theorem KCF.Accept.accepted (ha : u.Accept .ok k)
    (hz : u.parserState ≠ .writeAddedData → u.writtenAddedData = 0) : Accepted u k := by
  cases ha with
  | started h =>
    exact .silent (fun hp => by simp [hp.1] at h) rfl rfl rfl (hz (by simp [h]))
  | idle h => exact .silent (fun hp => by simp [hp.1] at h) rfl rfl h (hz (by simp [h]))
  | finished h hf =>
    cases hf with
    | refused hr => exact absurd h hr
    | kept _ hk => exact .silent (fun hp => by simp [hp.2] at hk) rfl rfl rfl rfl
    | seekFailed hp hs =>
      refine .unwritten hp (fun hr => by simp [hr.2.1] at hs) ?_ rfl rfl rfl rfl
      rw [KCF.patchBlocks, if_neg (by simp [hs])]
      rfl
    | noMemory hp hs hn =>
      refine .unwritten hp (fun hr => by simp [hn, KCF.ReachesHeader] at hr) ?_ rfl rfl rfl rfl
      rw [KCF.patchBlocks, if_pos ⟨hp, hs⟩]
      rfl
    | writeFailed hp hs hm _ hw =>
      have hk : u.patched.parserState = .writeAddedData := h
      exact .patched ⟨hp, hs, hm⟩ rfl rfl rfl (by simp [hk, hw]) (if_pos hk).symm
    | patched hp hs hm _ hw =>
      have hk : u.patched.returned.closeRecord.parserState ≠ .writeAddedData := nofun
      exact .patched ⟨hp, hs, hm⟩ rfl (ioSeek_writes ..) (patched_log u) (by simp [hk, hw])
        (if_neg hk).symm

theorem KCF.accepts_iff : u.Accepts ↔ ∃ k, u.Accept .ok k := by
  constructor
  · rintro ⟨h | h | h, hf⟩
    · exact ⟨_, .started h⟩
    · exact ⟨_, .idle h⟩
    · by_cases hk : u.keepsHeader = true
      · exact ⟨_, .finished h (.kept h hk)⟩
      have hp : u.Patches := ⟨h, by simpa using hk⟩
      cases hs : u.stream.seeks 0 with
      | failed code => exact ⟨_, .finished h (.seekFailed hp hs)⟩
      | done =>
        by_cases hm : (u.heap 0).isSome
        swap; · exact ⟨_, .finished h (.noMemory hp hs (by simpa using hm))⟩
        by_cases hw : (u.stream.writes 0).Fails
        · exact ⟨_, .finished h (.writeFailed hp hs hm (hf ⟨hp, hs, hm⟩) hw)⟩
        · exact ⟨_, .finished h (.patched hp hs hm (hf ⟨hp, hs, hm⟩) hw)⟩
  · rintro ⟨k, ha⟩
    cases ha with
    | started h => exact ⟨.inl h, fun hr => by simp [hr.1.1] at h⟩
    | idle h => exact ⟨.inr (.inl h), fun hr => by simp [hr.1.1] at h⟩
    | finished h hf =>
      refine ⟨.inr (.inr h), fun hr => ?_⟩
      cases hf with
      | refused hn => exact absurd h hn
      | kept _ hk => simp [hr.1.2] at hk
      | seekFailed _ hs => simp [hr.2.1] at hs
      | noMemory _ _ hn => simp [hn, KCF.ReachesHeader] at hr
      | writeFailed _ _ _ hf _ => exact hf
      | patched _ _ _ hf _ => exact hf

variable {R : Record} {D data : List UInt8} {size : ℕ}

theorem losesNothing_finish : LosesNothing .finish u n ↔ StoresAll .finish u := by
  constructor
  · intro h hr hf
    refine or_iff_not_imp_left.mpr fun hw _ => ?_
    obtain ⟨new, hl, hd, -⟩ := h _ (writerStep_finish (.patched hr.1 hr.2.1 hr.2.2 hf hw))
    rw [patched_log, List.append_cancel_left_eq] at hl
    subst hl
    exact ⟨hd _ (List.mem_singleton_self _), hw⟩
  · intro h v hv
    cases KCF.finish_of_eq hv with
    | kept => exact ⟨[], (List.append_nil _).symm, by simp, rfl⟩
    | patched hp hs hm hf hw =>
      have hc := (h ⟨hp, hs, hm⟩ hf).resolve_left hw ⟨hp, hs, hm⟩
      exact ⟨_, patched_log u, by simpa [Write.Done] using hc.1, rfl⟩

theorem losesNothing_data (hn : u.writtenAddedData = UInt64.ofNat n) :
    LosesNothing (.data data size) u n ↔ StoresAll (.data data size) u := by
  constructor
  · intro h hp hr hs
    refine or_iff_not_imp_left.mpr fun hw => ?_
    obtain ⟨new, hl, hd, -⟩ := h _ (writerStep_data (.added hp hr hs hw))
    have hl := List.append_cancel_left (hl.symm.trans (ioWrite_log ..))
    subst hl
    have hd := hd _ (List.mem_singleton_self _)
    rw [Write.Done, List.length_take, Nat.min_eq_left hs] at hd
    exact ⟨hd, hw⟩
  · intro h v hv
    cases KCF.writeData_of_eq hv with
    | exhausted => exact ⟨[], (List.append_nil _).symm, by simp, by simpa [addedAfter] using hn⟩
    | added hp hr hs hw =>
      have hc := ((h hp hr hs).resolve_left hw).1
      have hl : (data.take (u.acceptedSize size)).length = u.acceptedSize size := by
        rw [List.length_take, Nat.min_eq_left hs]
      refine ⟨_, ioWrite_log .., ?_, ?_⟩
      · simpa [Write.Done, hl] using hc
      · change u.writtenAddedData + UInt64.ofNat (data.take (u.acceptedSize size)).length = _
        simp only [hn, addedAfter, hl, hc, List.map_cons, List.map_nil, List.sum_cons,
          List.sum_nil, Nat.add_zero, UInt64.ofNat_add]

theorem Accepted.log_iff (h : Accepted u k) {more : List Write}
    (hl : v.stream.log = k.stream.log ++ more) :
    (∃ new, v.stream.log = u.stream.log ++ new ∧ ∀ w ∈ new, w.Done) ↔
      (∀ w ∈ more, w.Done) ∧
        (u.ReachesHeader → (u.stream.writes 0).moved u.patchedRecord.encode.length =
          u.patchedRecord.encode.length) := by
  obtain ⟨before, hb, hd⟩ := h.log
  have ho : v.stream.log = u.stream.log ++ (before ++ more) := by
    rw [hl, hb, List.append_assoc]
  constructor
  · rintro ⟨new, hn, hw⟩
    obtain rfl := List.append_cancel_left (hn.symm.trans ho)
    exact ⟨fun w hm => hw w (List.mem_append_right _ hm),
      hd.mp fun w hm => hw w (List.mem_append_left _ hm)⟩
  · rintro ⟨hm, hp⟩
    refine ⟨_, ho, fun w hw => ?_⟩
    rcases List.mem_append.mp hw with hw | hw
    · exact hd.mpr hp w hw
    · exact hm w hw

theorem KCF.patchComplete_of_moved (h : u.ReachesHeader →
    (u.stream.writes 0).moved u.patchedRecord.encode.length = u.patchedRecord.encode.length) :
    u.PatchComplete :=
  fun hr => Transfer.complete_of_moved (List.length_pos_of_ne_nil (Record.encode_ne_nil _)) (h hr)

theorem Accepted.counts (h : Accepted u k) (hn : u.writtenAddedData = UInt64.ofNat n) :
    k.writtenAddedData = UInt64.ofNat (if k.parserState = .writeAddedData then n else 0) := by
  rw [h.written, hn]
  split <;> rfl

theorem Accepted.written_eq_zero_iff (h : Accepted u k) (hp : u.PatchComplete) :
    k.writtenAddedData = 0 ↔ u.NothingCounted := by
  have hu : k.parserState = .writeAddedData ↔ u.Patches ∧ ¬ u.ReachesHeader := by
    rw [h.unfinished]
    exact and_congr_right fun _ => ⟨fun hf hr => (hp hr).2 (hf hr), fun hn hr => absurd hr hn⟩
  rw [h.written, KCF.NothingCounted, ← and_imp, ← hu]
  by_cases hk : k.parserState = .writeAddedData
  · rw [if_pos hk, imp_iff_right hk]
  · rw [if_neg hk]
    exact iff_of_true rfl fun h => absurd h hk

theorem writerStep_record_ok (h : writerStep (.record R) u = .ok (.ok, v)) :
    ∃ k, u.Accept .ok k ∧ (k.heap 0).isSome ∧ R.Fits ∧ ¬ (k.stream.writes 0).Fails ∧
      v = (k.placed (recFix R)).saveRecord (recFix R) := by
  obtain ⟨⟨e, k, R'⟩, hr, hk⟩ := Exec.bind_ok h
  obtain ⟨rfl, rfl⟩ := Prod.mk.inj (Except.ok.inj hk)
  cases KCF.writeRecord_of_eq hr with
  | written ha hm hf hw => exact ⟨_, ha, hm, hf, hw, rfl⟩

theorem losesNothing_record (hn : u.writtenAddedData = UInt64.ofNat n)
    (hz : u.parserState ≠ .writeAddedData → u.writtenAddedData = 0) :
    LosesNothing (.record R) u n ↔ StoresAll (.record R) u := by
  have log : ∀ {k : KCF}, ((k.placed (recFix R)).saveRecord (recFix R)).stream.log = k.stream.log ++
      [⟨k.stream.pos, (recFix R).encode,
        (k.stream.writes 0).moved (recFix R).encode.length⟩] := by
    intro k
    rw [KCF.saveRecord_stream]
    rfl
  constructor
  · intro h ha hm hf
    obtain ⟨k, ha⟩ := KCF.accepts_iff.mp ha
    have hk := ha.accepted hz
    have h₀ : k.stream.writes 0 = u.stream.writes u.patchWrites := hk.writes 0
    refine or_iff_not_imp_left.mpr fun hw => ?_
    obtain ⟨new, hl, hd, hc⟩ := h _
      (writerStep_record (.written ha (hk.heap ▸ hm) hf (h₀ ▸ hw)))
    obtain ⟨hd, hp⟩ := (hk.log_iff log).mp ⟨new, hl, hd⟩
    have hd := hd _ (List.mem_singleton_self _)
    rw [Write.Done, h₀] at hd
    have hp := KCF.patchComplete_of_moved hp
    refine ⟨⟨hd, hw⟩, hp, fun hs => (hk.written_eq_zero_iff hp).mp ?_⟩
    rw [KCF.saveRecord_written, addedAfter, if_neg (by simp [hs])] at hc
    exact hc
  · intro h v hv
    obtain ⟨k, ha, hm, hf, hw, rfl⟩ := writerStep_record_ok hv
    have hk := ha.accepted hz
    have h₀ : k.stream.writes 0 = u.stream.writes u.patchWrites := hk.writes 0
    obtain ⟨hd, hp, hc⟩ :=
      (h (KCF.accepts_iff.mpr ⟨k, ha⟩) (hk.heap ▸ hm) hf).resolve_left (h₀ ▸ hw)
    obtain ⟨new, hl, hnew⟩ := (hk.log_iff log).mpr
      ⟨by simpa [Write.Done, h₀] using hd.1, fun hr => (hp hr).1⟩
    refine ⟨new, hl, hnew, ?_⟩
    rw [KCF.saveRecord_written, addedAfter]
    cases hs : recHasAddedSize R with
    | true =>
      rw [if_neg (by simp)]
      exact (hk.written_eq_zero_iff hp).mpr (hc hs)
    | false =>
      have hv : ((k.placed (recFix R)).saveRecord (recFix R)).parserState = k.parserState := by
        rw [KCF.saveRecord_of_unsized (R := recFix R) hs]
        rfl
      simp only [hv, and_true]
      exact hk.counts hn

theorem writerStep_whole_ok (h : writerStep (.whole R D) u = .ok (.ok, v)) :
    ∃ k, u.Accept .ok k ∧ (k.heap 0).isSome ∧ (describeAddedData R D).Fits ∧
      ¬ (k.stream.writes 0).Fails ∧ ¬ (k.stream.writes 1).Fails ∧
      v = (k.laid (recFix (describeAddedData R D))).wrote D := by
  obtain ⟨⟨e, k, R'⟩, hr, hk⟩ := Exec.bind_ok h
  obtain ⟨rfl, rfl⟩ := Prod.mk.inj (Except.ok.inj hk)
  cases KCF.writeWhole_of_eq hr with
  | written ha hm hf hw hd => exact ⟨_, ha, hm, hf, hw, hd, rfl⟩

theorem losesNothing_whole (hn : u.writtenAddedData = UInt64.ofNat n)
    (hz : u.parserState ≠ .writeAddedData → u.writtenAddedData = 0) :
    LosesNothing (.whole R D) u n ↔ StoresAll (.whole R D) u := by
  have log : ∀ {k : KCF},
      ((k.laid (recFix (describeAddedData R D))).wrote D).stream.log = k.stream.log ++
        [⟨k.stream.pos, (recFix (describeAddedData R D)).encode,
          (k.stream.writes 0).moved (recFix (describeAddedData R D)).encode.length⟩,
        ⟨(k.laid (recFix (describeAddedData R D))).stream.pos, D,
          (k.stream.writes 1).moved D.length⟩] := by
    intro k
    exact (ioWrite_log ..).trans (List.append_assoc ..)
  constructor
  · intro h ha hm hf
    obtain ⟨k, ha⟩ := KCF.accepts_iff.mp ha
    have hk := ha.accepted hz
    have h₀ : k.stream.writes 0 = u.stream.writes u.patchWrites := hk.writes 0
    have h₁ := hk.writes 1
    refine or_iff_not_imp_left.mpr fun hw => or_iff_not_imp_left.mpr fun hwd => ?_
    have hr : KCF.WriteWhole u R D .ok _ _ := .written ha (hk.heap ▸ hm) hf (h₀ ▸ hw) (h₁ ▸ hwd)
    obtain ⟨new, hl, hd, -⟩ := h _ (writerStep_whole hr)
    obtain ⟨hd, hp⟩ := (hk.log_iff log).mp ⟨new, hl, hd⟩
    simp only [List.mem_cons, List.not_mem_nil, or_false, forall_eq_or_imp, forall_eq,
      Write.Done, h₀, h₁] at hd
    exact ⟨⟨hd.1, hw⟩, ⟨hd.2, hwd⟩, KCF.patchComplete_of_moved hp⟩
  · intro h v hv
    obtain ⟨k, ha, hm, hf, hw, hwd, rfl⟩ := writerStep_whole_ok hv
    have hk := ha.accepted hz
    have h₀ : k.stream.writes 0 = u.stream.writes u.patchWrites := hk.writes 0
    have h₁ := hk.writes 1
    obtain ⟨hd, hdd, hp⟩ := ((h (KCF.accepts_iff.mpr ⟨k, ha⟩) (hk.heap ▸ hm) hf).resolve_left
      (h₀ ▸ hw)).resolve_left (h₁ ▸ hwd)
    obtain ⟨new, hl, hnew⟩ := (hk.log_iff log).mpr
      ⟨by simpa [Write.Done, h₀, h₁] using ⟨hd.1, hdd.1⟩, fun hr => (hp hr).1⟩
    exact ⟨new, hl, hnew, hk.counts hn⟩

/-- A call loses nothing silently exactly when each of its writes is complete or makes it fail. -/
theorem losesNothing_iff (c : WriterCall) (hn : u.writtenAddedData = UInt64.ofNat n)
    (hz : u.parserState ≠ .writeAddedData → n = 0) :
    LosesNothing c u n ↔ StoresAll c u := by
  have hz' : u.parserState ≠ .writeAddedData → u.writtenAddedData = 0 := by
    intro h
    rw [hn, hz h]
    rfl
  cases c with
  | record R => exact losesNothing_record hn hz'
  | whole R D => exact losesNothing_whole hn hz'
  | data data size => exact losesNothing_data hn
  | finish => exact losesNothing_finish

theorem losesNothing_oneByteIn : LosesNothing .finish (.oneByteIn (.writing (.ofBytes []))) 1 :=
  (losesNothing_iff (u := .oneByteIn (.writing (.ofBytes []))) .finish rfl
    fun h => absurd rfl h).mpr fun _ _ => .inr fun _ => Transfer.complete_full _

def IOStream.deviceFull : IOStream :=
  { IOStream.ofBytes [] with writes := fun _ => .short 0 }

/-- A record written to a full device is reported as written. -/
theorem losesNothing_deviceFull :
    (KCF.writing .deviceFull).heap.Grants ∧ (KCF.writing .deviceFull).stream.Seeks ∧
      (KCF.writing .deviceFull).writtenAddedData = UInt64.ofNat 0 ∧
      ¬ LosesNothing (.record .zero) (.writing .deviceFull) 0 := by
  refine ⟨fun _ => rfl, fun _ => rfl, rfl, fun h => ?_⟩
  have hr : ¬ (KCF.writing .deviceFull).ReachesHeader := fun hr => absurd hr.1.1 nofun
  have hs := (losesNothing_record (u := .writing .deviceFull) rfl fun _ => rfl).mp h
    ⟨.inr (.inl rfl), fun hr' => absurd hr' hr⟩ rfl (by decide)
  rw [KCF.patchWrites, if_neg hr] at hs
  have hl := (hs.resolve_left id).1.1
  revert hl
  decide +kernel

end Kcf
