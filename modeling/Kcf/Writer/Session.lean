import Kcf.Writer.Streaming

/-! # A writing session on an obliging stream

What the calls that write one record with its added data leave on a stream on
which everything goes through: the final header, the record's data and the
added bytes that the declared size admits, over what stood there before.
-/

namespace Kcf

open Record

namespace KCF

/-- Write the chunks in order, up to the first error. -/
def writeChunks (kcf : KCF) : List (List UInt8) → Exec (KcfError × KCF)
  | [] => .ok (.ok, kcf)
  | chunk :: chunks => do
    let (error, kcf) ← kcf.writeAddedData chunk chunk.length
    if error ≠ .ok then return (error, kcf) else kcf.writeChunks chunks

/-- Write a record with its added data in chunks and finish it. -/
def streamRecord (kcf : KCF) (R : Record) (chunks : List (List UInt8)) :
    Exec (KcfError × KCF) := do
  let (error, kcf, _) ← kcf.writeRecord R
  if error ≠ .ok then return (error, kcf)
  else
    let (error, kcf) ← kcf.writeChunks chunks
    if error ≠ .ok then return (error, kcf) else kcf.finishAddedData

variable {kcf k : KCF} {R : Record} {a b pre tail added : List UInt8} {w₀ : UInt64} {c₀ : UInt32}

namespace Obliging

theorem wrote (h : kcf.Obliging) (data : List UInt8) : (kcf.wrote data).Obliging :=
  ⟨h.grants, fun i => h.writes (i + 1), h.seeks⟩

theorem counted (h : kcf.Obliging) (chunk : List UInt8) :
    ((kcf.wrote chunk).counted chunk).Obliging :=
  ⟨(h.wrote chunk).grants, (h.wrote chunk).writes, (h.wrote chunk).seeks⟩

theorem laid (h : kcf.Obliging) (R : Record) : (kcf.laid R).Obliging :=
  ⟨h.grants.next, fun i => h.writes (i + 1), h.seeks⟩

theorem saved (h : kcf.Obliging) (hf : R.Fits) :
    ((kcf.placed (recFix R)).saveRecord (recFix R)).Obliging := by
  refine ⟨?_, ?_, ?_⟩
  · cases ha : recHasAddedSize (recFix R) with
    | true =>
      obtain ⟨heap, hg, he⟩ := (kcf.placed (recFix R)).saveRecord_of_sized (R := recFix R)
        h.grants.next hf ha
      rw [he]
      exact hg
    | false =>
      rw [saveRecord_of_unsized ha]
      exact h.grants.next
  · rw [saveRecord_stream]
    exact fun i => h.writes (i + 1)
  · rw [saveRecord_stream]
    exact h.seeks

theorem patched (h : kcf.Obliging) : kcf.patched.returned.closeRecord.Obliging := by
  have hw : (kcf.patched.stream).WritesFully := fun i => h.writes (i + 1)
  have hs : (kcf.patched.stream).Seeks := fun i => h.seeks (i + 1)
  exact ⟨h.grants.next, hw.ioSeek _, hs.ioSeek _⟩

end Obliging

end KCF

variable {kcf k : KCF} {R : Record} {a b pre tail added : List UInt8} {w₀ : UInt64} {c₀ : UInt32}

theorem Streaming.finish (h : Streaming pre tail R w₀ c₀ added kcf) (ho : kcf.Obliging) :
    ∃ k, kcf.Finish .ok k ∧ k.Obliging ∧
      Idle (pre ++ (recFix (R.final w₀ c₀ added)).encode ++ added) (tail.drop added.length) k := by
  by_cases hk : R.Keeps
  · refine ⟨_, .kept h.state (h.keepsHeader_iff.mpr hk), ⟨ho.grants, ho.writes, ho.seeks⟩,
      rfl, ?_, rfl, rfl, rfl⟩
    rw [Record.final, if_pos hk]
    exact h.stream
  · have hp := h.patches_iff.mpr hk
    have hfit : kcf.lastRecord.Fits := by
      rw [h.record]
      exact h.fits
    refine ⟨_, .patched hp (ho.seeks 0) (ho.grants 0) hfit (ho.writes.not_fails 0),
      ho.patched, rfl, ?_, rfl, rfl, rfl⟩
    rw [Record.final, if_neg hk]
    exact h.at_patched (ho.writes 0) (.inl (ho.seeks 1))

/-- The handle takes the next record, after finishing the open one if there is one, and writes
it between these two stretches of the stream. -/
def Ready (a b : List UInt8) (kcf : KCF) : Prop :=
  ∃ k, kcf.Accept .ok k ∧ k.Obliging ∧ Idle a b k

theorem Idle.ready (h : Idle a b kcf) (ho : kcf.Obliging) : Ready a b kcf :=
  ⟨kcf, .idle h.state, ho, h⟩

theorem Streaming.ready (h : Streaming pre tail R w₀ c₀ added kcf) (ho : kcf.Obliging) :
    Ready (pre ++ (recFix (R.final w₀ c₀ added)).encode ++ added) (tail.drop added.length) kcf :=
  (h.finish ho).imp fun _ ⟨hf, hk⟩ => ⟨.finished h.state hf, hk⟩

theorem Ready.writeRecord (h : Ready a b kcf) (hf : R.Fits) (ha : recHasAddedSize R = true) :
    ∃ k, kcf.writeRecord R = .ok (.ok, k, recFix R) ∧ k.Obliging ∧
      Streaming a (b.drop (recFix R).encode.length) R 0 0 [] k := by
  obtain ⟨k, hacc, ho, hi⟩ := h
  have hst := Streaming.of_placed ho.grants (ho.writes 0) hf ha
  rw [hi.stream.behind_eq, hi.stream.ahead_eq, hi.written, hi.crc] at hst
  exact ⟨_, hacc.writeRecord (ho.grants 0) ho.writes hf, ho.saved hf, hst⟩

theorem Ready.writeRecord_unsized (h : Ready a b kcf) (hf : R.Fits)
    (ha : recHasAddedSize R = false) :
    ∃ k, kcf.writeRecord R = .ok (.ok, k, recFix R) ∧ k.Obliging ∧
      Idle (a ++ (recFix R).encode) (b.drop (recFix R).encode.length) k := by
  obtain ⟨k, hacc, ho, hi⟩ := h
  refine ⟨_, hacc.writeRecord (ho.grants 0) ho.writes hf, ho.saved hf, ?_⟩
  rw [KCF.saveRecord_of_unsized (R := recFix R) ha]
  refine ⟨hi.state, ?_, hi.bound, hi.written, hi.crc⟩
  exact hi.stream.ioWrite (ho.writes 0) _

/-- The bytes added so far are within the declared size, which the counter measures. -/
def Record.Within (R : Record) (w₀ : UInt64) (added : List UInt8) : Prop :=
  R.addedSize ≠ 0 → w₀ = 0 ∧ added.length ≤ R.addedSize.toNat

/-- The part of the bytes that the declared size admits, above what the counter started from. -/
def Record.admits (R : Record) (w₀ : UInt64) (bs : List UInt8) : List UInt8 :=
  if R.addedSize = 0 then bs else bs.take (R.addedSize - w₀).toNat

theorem Record.admits_append (R : Record) (w₀ : UInt64) (bs cs : List UInt8) :
    R.admits w₀ (R.admits w₀ bs ++ cs) = R.admits w₀ (bs ++ cs) := by
  unfold admits
  split
  · rfl
  · rw [List.take_append, List.take_append, List.take_take, Nat.min_self, List.length_take]
    congr 2
    omega

theorem Record.admits_admits (R : Record) (w₀ : UInt64) (bs : List UInt8) :
    R.admits w₀ (R.admits w₀ bs) = R.admits w₀ bs := by
  have h := R.admits_append w₀ bs []
  rwa [List.append_nil, List.append_nil] at h

theorem Record.admits_nil (R : Record) (w₀ : UInt64) : R.admits w₀ [] = [] := by
  simp [admits]

theorem Record.admits_zero (R : Record) (bs : List UInt8) : R.admits 0 bs = R.accepts bs := by
  rw [admits, UInt64.sub_zero]
  rfl

theorem Record.Within.admits_eq (h : R.Within w₀ added) (bs : List UInt8) :
    R.admits w₀ bs = R.accepts bs := by
  unfold admits Record.accepts
  split
  · rfl
  · rw [(h ‹_›).1, UInt64.sub_zero]

theorem Streaming.writeRemaining (h : Streaming pre tail R w₀ c₀ added kcf)
    (hD : R.addedSize ≠ 0) (hle : added.length ≤ (R.addedSize - w₀).toNat) :
    ∃ remaining : UInt64, kcf.writeRemaining = some remaining ∧
      remaining.toNat = (R.addedSize - w₀).toNat - added.length := by
  have hlt := (R.addedSize - w₀).toNat_lt
  have hn : (UInt64.ofNat added.length).toNat = added.length := by
    rw [UInt64.toNat_ofNat', Nat.mod_eq_of_lt (by omega)]
  refine ⟨R.addedSize - kcf.writtenAddedData, ?_, ?_⟩
  · rw [KCF.writeRemaining, h.bound]
    exact if_pos (UInt64.pos_iff_ne_zero.mpr hD)
  · have hsub : R.addedSize - kcf.writtenAddedData =
        R.addedSize - w₀ - UInt64.ofNat added.length := by
      rw [h.written, UInt64.eq_sub_iff_add_eq, UInt64.eq_sub_iff_add_eq, UInt64.add_assoc,
        UInt64.add_comm (UInt64.ofNat _), UInt64.sub_add_cancel]
    rw [hsub, UInt64.toNat_sub_of_le _ _ (UInt64.le_iff_toNat_le.mpr (hn.symm ▸ hle)), hn]

theorem Streaming.writeAddedData (h : Streaming pre tail R w₀ c₀ added kcf) (ho : kcf.Obliging)
    (hw : R.admits w₀ added = added) (chunk : List UInt8) :
    ∃ k, kcf.writeAddedData chunk chunk.length = .ok (.ok, k) ∧ k.Obliging ∧
      Streaming pre tail R w₀ c₀ (R.admits w₀ (added ++ chunk)) k := by
  have hwrite := ho.writes.not_fails 0
  by_cases hD : R.addedSize = 0
  · have hr : kcf.writeRemaining = none := by
      rw [KCF.writeRemaining, h.bound, hD]
      exact if_neg (by simp)
    have ha : kcf.acceptedSize chunk.length = chunk.length := by rw [KCF.acceptedSize, hr]
    have hc : kcf.WriteData chunk chunk.length _ _ :=
      .added h.state (by simp [hr]) ha.le hwrite
    rw [ha, List.take_length] at hc
    rw [Record.admits, if_pos hD]
    exact ⟨_, hc.eq, ho.counted chunk, h.counted (ho.writes 0) chunk⟩
  · have hle : added.length ≤ (R.addedSize - w₀).toNat := by
      rw [Record.admits, if_neg hD] at hw
      exact List.take_eq_self_iff _ |>.mp hw
    obtain ⟨remaining, hr, hn⟩ := h.writeRemaining hD hle
    rw [Record.admits, if_neg hD, List.take_append, List.take_of_length_le hle]
    by_cases hz : remaining = 0
    · rw [← hn, hz, UInt64.toNat_zero, List.take_zero, List.append_nil]
      exact ⟨kcf, (KCF.WriteData.exhausted h.state (hz ▸ hr)).eq, ho, h⟩
    · have ha : kcf.acceptedSize chunk.length = min chunk.length remaining.toNat := by
        rw [KCF.acceptedSize, hr]
      have ht : chunk.take (min chunk.length remaining.toNat) = chunk.take remaining.toNat := by
        rw [List.take_eq_take_iff]
        omega
      have hc : kcf.WriteData chunk chunk.length _ _ :=
        .added h.state (by simpa [hr] using hz) (ha ▸ Nat.min_le_left ..) hwrite
      rw [ha, ht] at hc
      rw [← hn]
      exact ⟨_, hc.eq, ho.counted _, h.counted (ho.writes 0) _⟩

theorem Streaming.writeChunks_admits (h : Streaming pre tail R w₀ c₀ added kcf)
    (ho : kcf.Obliging) (ha : R.admits w₀ added = added) (chunks : List (List UInt8)) :
    ∃ k, kcf.writeChunks chunks = .ok (.ok, k) ∧ k.Obliging ∧
      Streaming pre tail R w₀ c₀ (R.admits w₀ (added ++ chunks.flatten)) k := by
  induction chunks generalizing kcf added with
  | nil =>
    rw [List.flatten_nil, List.append_nil, ha]
    exact ⟨kcf, rfl, ho, h⟩
  | cons chunk chunks ih =>
    obtain ⟨k, hk, hok, hst⟩ := h.writeAddedData ho ha chunk
    obtain ⟨k', hk', hok', hst'⟩ := ih hst hok (R.admits_admits w₀ _)
    rw [Record.admits_append, List.append_assoc] at hst'
    refine ⟨k', ?_, hok', hst'⟩
    rw [KCF.writeChunks, hk]
    exact hk'

theorem Streaming.writeChunks (h : Streaming pre tail R w₀ c₀ added kcf) (ho : kcf.Obliging)
    (hw : R.Within w₀ added) (ha : R.accepts added = added) (chunks : List (List UInt8)) :
    ∃ k, kcf.writeChunks chunks = .ok (.ok, k) ∧ k.Obliging ∧
      Streaming pre tail R w₀ c₀ (R.accepts (added ++ chunks.flatten)) k := by
  rw [← hw.admits_eq] at ha ⊢
  exact h.writeChunks_admits ho ha chunks

theorem KCF.Accept.streamRecord {u : KCF} (hacc : kcf.Accept .ok u) (ho : u.Obliging)
    (hf : R.Fits) (ha : recHasAddedSize R = true) (chunks : List (List UInt8)) :
    ∃ k, kcf.streamRecord R chunks = .ok (.ok, k) ∧ k.Obliging ∧
      Idle (u.stream.behind ++ (recFix (R.final u.writtenAddedData u.addedDataCRC32
          (R.admits u.writtenAddedData chunks.flatten))).encode ++
            R.admits u.writtenAddedData chunks.flatten)
        ((u.stream.ahead.drop (recFix R).encode.length).drop
          (R.admits u.writtenAddedData chunks.flatten).length) k := by
  have h₁ := hacc.writeRecord (ho.grants 0) ho.writes hf
  have hs₁ := Streaming.of_placed ho.grants (ho.writes 0) hf ha
  obtain ⟨k₂, h₂, ho₂, hs₂⟩ := hs₁.writeChunks_admits (ho.saved hf) (R.admits_nil _) chunks
  obtain ⟨k₃, h₃, ho₃, hi₃⟩ := hs₂.finish ho₂
  refine ⟨k₃, ?_, ho₃, hi₃⟩
  rw [KCF.streamRecord, h₁]
  change (KCF.writeChunks _ chunks >>= fun r => if r.1 ≠ .ok then _ else _) = _
  rw [h₂]
  exact h₃.eq

theorem Ready.streamRecord (h : Ready a b kcf) (hf : R.Fits) (ha : recHasAddedSize R = true)
    (chunks : List (List UInt8)) :
    ∃ k, kcf.streamRecord R chunks = .ok (.ok, k) ∧ k.Obliging ∧
      Idle (a ++ (recFix (R.final 0 0 (R.accepts chunks.flatten))).encode ++
          R.accepts chunks.flatten)
        ((b.drop (recFix R).encode.length).drop (R.accepts chunks.flatten).length) k := by
  obtain ⟨u, hacc, ho, hi⟩ := h
  have hrun := hacc.streamRecord ho hf ha chunks
  rwa [hi.stream.behind_eq, hi.stream.ahead_eq, hi.written, hi.crc, R.admits_zero] at hrun

theorem KCF.fits_of_streamRecord {chunks : List (List UInt8)}
    (hk : kcf.streamRecord R chunks = .ok (.ok, k)) : R.Fits := by
  unfold KCF.streamRecord at hk
  obtain ⟨⟨e, k₁, R'⟩, hw, hrest⟩ := Exec.bind_ok hk
  dsimp only at hrest
  obtain rfl : e = .ok := by
    by_contra hne
    rw [if_pos hne] at hrest
    exact hne (congrArg Prod.fst (Except.ok.inj hrest))
  cases KCF.writeRecord_of_eq hw with
  | written _ _ hf _ => exact hf

theorem Ready.writeRecordWithAddedData {D : List UInt8} (h : Ready a b kcf)
    (hf : (describeAddedData R D).Fits) :
    ∃ k, kcf.writeRecordWithAddedData R D =
        .ok (.ok, k, recFix (describeAddedData R D)) ∧ k.Obliging ∧
      Idle (a ++ (recFix (describeAddedData R D)).encode ++ D)
        ((b.drop (recFix (describeAddedData R D)).encode.length).drop D.length) k := by
  obtain ⟨k, hacc, ho, hi⟩ := h
  have hw := ho.writes.not_fails
  refine ⟨_, (KCF.WriteWhole.written hacc (ho.grants 0) hf (hw 0) (hw 1)).eq, (ho.laid _).wrote D,
    hi.state, ?_, hi.bound, hi.written, hi.crc⟩
  have hs : (k.laid (recFix (describeAddedData R D))).stream.At _ _ :=
    hi.stream.ioWrite (ho.writes 0) _
  exact hs.ioWrite ((ho.laid _).writes 0) D

end Kcf
