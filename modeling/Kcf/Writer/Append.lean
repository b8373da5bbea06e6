import Kcf.Library.CallMachine
import Kcf.Writer.Streaming

/-! # The writer appends

The write calls as a machine, on a stream whose writes and seeks may fail. As
long as no finish is interrupted after it went back to a header, every record
lands behind everything written so far, and only the header of the record that
is open is ever written again.
-/

namespace Kcf

/-- The calls that write records. -/
inductive WriterCall
  | record (R : Record)
  | whole (R : Record) (addedData : List UInt8)
  | data (addedData : List UInt8) (size : ℕ)
  | finish

/-- Make a call: the error it returns and the handle it leaves. -/
def writerStep : WriterCall → KCF → Exec (KcfError × KCF)
  | .record R, kcf => do
    let (error, kcf, _) ← kcf.writeRecord R
    return (error, kcf)
  | .whole R addedData, kcf => do
    let (error, kcf, _) ← kcf.writeRecordWithAddedData R addedData
    return (error, kcf)
  | .data addedData size, kcf => kcf.writeAddedData addedData size
  | .finish, kcf => kcf.finishAddedData

theorem writerStep_record {kcf k : KCF} {R R' : Record} {e : KcfError}
    (h : kcf.WriteRecord R e k R') : writerStep (.record R) kcf = .ok (e, k) := by
  rw [writerStep, h.eq]
  rfl

theorem writerStep_whole {kcf k : KCF} {R R' : Record} {D : List UInt8} {e : KcfError}
    (h : kcf.WriteWhole R D e k R') : writerStep (.whole R D) kcf = .ok (e, k) := by
  rw [writerStep, h.eq]
  rfl

theorem writerStep_data {kcf k : KCF} {data : List UInt8} {size : ℕ} {e : KcfError}
    (h : kcf.WriteData data size e k) : writerStep (.data data size) kcf = .ok (e, k) := h.eq

theorem writerStep_finish {kcf k : KCF} {e : KcfError} (h : kcf.Finish e k) :
    writerStep .finish kcf = .ok (e, k) := h.eq

namespace KCF

/-- The bytes of the header of the record that is open. -/
def OwnHeader (kcf : KCF) (i : ℕ) : Prop :=
  kcf.parserState = .writeAddedData ∧
    kcf.recordOffset ≤ i ∧ i < kcf.recordOffset + headerLength kcf.lastRecord.headFlags

/-- Once the header is patched, the stream ends up behind the added data again: the seek back
succeeds, or nothing was added. -/
def Lands (kcf : KCF) : Prop :=
  kcf.stream.seeks 1 = .done ∨
    kcf.recordOffset + kcf.lastRecord.headSize.toNat = kcf.stream.bytes.length

/-- The header, once it was sought, is patched and left again. -/
def Repatches (kcf : KCF) : Prop :=
  (kcf.heap 0).isSome ∧ ¬ (kcf.stream.writes 0).Fails ∧ kcf.Lands

/-- A finish rewrites the header of the record that is open: the record stands in the first bytes,
and in the second with the size and the checksum that the handle has counted for it. -/
def Rewrites (kcf : KCF) (bytes front : List UInt8) : Prop :=
  kcf.Patches ∧ kcf.lastRecord.Fits ∧ ∃ pre rest, pre.length = kcf.recordOffset ∧
    bytes = pre ++ kcf.lastRecord.encode ++ rest ∧ front = pre ++ kcf.patchedRecord.encode ++ rest

/-- A record that is open in one handle is the one that is open in another. -/
def StillOpen (u v : KCF) : Prop :=
  v.parserState = .writeAddedData → u.parserState = .writeAddedData ∧
    v.recordOffset = u.recordOffset ∧ v.lastRecord = u.lastRecord

end KCF

/-- A finish may fail before it leaves the end of the stream, but not later; one that is done for
the streaming writer of a record does not fail at all. -/
def FinishUnbroken (c : WriterCall) (kcf : KCF) : Prop :=
  match c with
  | .finish | .whole _ _ => kcf.Patches → kcf.stream.seeks 0 = .done → kcf.Repatches
  | .record _ => kcf.Patches → kcf.stream.seeks 0 = .done ∧ kcf.Repatches
  | .data _ _ => True

namespace WriterCall

/-- The calls that finish the record that is open. -/
def Finishes : WriterCall → Prop
  | record _ | whole _ _ | finish => True
  | data _ _ => False

/-- What a call that succeeds puts behind the end of the stream. -/
def appended (kcf : KCF) : WriterCall → List UInt8
  | record R => (recFix R).encode
  | whole R addedData => (recFix (describeAddedData R addedData)).encode ++ addedData
  | data addedData size => addedData.take (kcf.acceptedSize size)
  | finish => []

end WriterCall

/-- A call writes behind the end of the stream. The bytes before are as they were, or the call has
finished the record that was open and rewrote its header, and a record that is open now begins at
the old end. -/
def WritesBehind (c : WriterCall) (u : KCF) (e : KcfError) (v : KCF) : Prop :=
  ∃ front more, v.stream.bytes = front ++ more ∧ front.length = u.stream.bytes.length ∧
    (front = u.stream.bytes ∨ c.Finishes ∧ u.Rewrites u.stream.bytes front ∧
      (v.parserState = .writeAddedData → v.recordOffset = u.stream.bytes.length)) ∧
    (e = .ok → more = c.appended u)

/-- What an append-only writer does in one call. -/
structure AppendOnly (c : WriterCall) (u : KCF) (e : KcfError) (v : KCF) : Prop where
  /-- A record is placed behind everything on the stream. -/
  placed : ∀ R, c = .record R → e = .ok →
    ∃ p, p.length = u.stream.bytes.length ∧ v.stream.bytes = p ++ (recFix R).encode
  /-- Only the header of the record that is open is written again. -/
  kept : ∀ i < u.stream.bytes.length, ¬ u.OwnHeader i →
    v.stream.bytes[i]? = u.stream.bytes[i]?
  /-- That header becomes the one that the record is finished with, and nothing else is written
  before the old end. -/
  behind : WritesBehind c u e v
  /-- A record is open where this call placed it or where it was open before. -/
  owner : (∃ R, c = .record R ∧ e = .ok ∧ v.lastRecord.headFlags = R.headFlags ∧
      v.recordOffset = u.stream.bytes.length) ∨ u.StillOpen v
  /-- A record writer whose finish fails returns an error and writes nothing. -/
  refused : ∀ R e' k, c = .record R → u.parserState = .writeAddedData →
    u.finishAddedData = .ok (e', k) → e' ≠ .ok → e ≠ .ok ∧ v.stream.bytes = u.stream.bytes

/-- The header of the record last opened is on the stream, where the handle says. -/
structure Headed (pre rest : List UInt8) (kcf : KCF) : Prop where
  offset : kcf.recordOffset = pre.length
  size : kcf.lastRecord.headSize.toNat = kcf.lastRecord.encode.length
  bytes : kcf.stream.bytes = pre ++ kcf.lastRecord.encode ++ rest

/-- The invariant: the stream stands at its end, behind the header of a record that is open. A
record whose data could not be copied is never written again. -/
structure Appending (kcf : KCF) : Prop where
  whole : kcf.stream.NoneShort
  atEnd : kcf.stream.pos = kcf.stream.bytes.length
  headed : kcf.parserState = .writeAddedData → kcf.lastRecord.Fits →
    ∃ pre rest, Headed pre rest kcf

variable {kcf k u v : KCF} {c : WriterCall} {e : KcfError} {data : List UInt8}

/-- Some more bytes at the end of the stream, and nothing else that a record needs. -/
structure Extends (k v : KCF) : Prop where
  whole : v.stream.NoneShort
  atEnd : v.stream.pos = v.stream.bytes.length
  bytes : ∃ data, v.stream.bytes = k.stream.bytes ++ data
  state : v.parserState = k.parserState
  offset : v.recordOffset = k.recordOffset
  record : v.lastRecord = k.lastRecord

theorem Extends.trans (h : Extends u k) (h' : Extends k v) : Extends u v := by
  obtain ⟨data, hd⟩ := h.bytes
  obtain ⟨data', hd'⟩ := h'.bytes
  exact ⟨h'.whole, h'.atEnd, ⟨data ++ data', by rw [hd', hd, List.append_assoc]⟩,
    h'.state.trans h.state, h'.offset.trans h.offset, h'.record.trans h.record⟩

theorem Extends.stillOpen (h : Extends k v) : k.StillOpen v :=
  fun hp => ⟨h.state.symm.trans hp, h.offset, h.record⟩

theorem KCF.StillOpen.trans (h : u.StillOpen k) (h' : k.StillOpen v) : u.StillOpen v := by
  intro hp
  obtain ⟨hk, ho, hr⟩ := h' hp
  obtain ⟨hu, ho', hr'⟩ := h hk
  exact ⟨hu, ho.trans ho', hr.trans hr'⟩

namespace KCF

theorem length_patched (hf : kcf.lastRecord.Fits) :
    kcf.patchedRecord.encode.length = kcf.lastRecord.encode.length := by
  rw [Record.length_encode hf]
  exact Record.length_encode_recFix (R := kcf.countedRecord) hf

theorem patchedRecord_encode (kcf : KCF) :
    ∃ header, header.length = kcf.lastRecord.header.length ∧
      kcf.patchedRecord.encode = header ++ kcf.lastRecord.bytes := by
  refine ⟨kcf.patchedRecord.header, ?_, rfl⟩
  rw [Record.length_header, Record.length_header]
  rfl

end KCF

namespace Headed

variable {pre rest : List UInt8}

theorem append (h : Headed pre rest u) (hx : v.stream.bytes = u.stream.bytes ++ data)
    (ho : v.recordOffset = u.recordOffset) (hr : v.lastRecord = u.lastRecord) :
    Headed pre (rest ++ data) v where
  offset := ho.trans h.offset
  size := by rw [hr, h.size]
  bytes := by rw [hx, h.bytes, hr, List.append_assoc]

theorem stream_at (h : Headed pre rest kcf) (he : kcf.stream.pos = kcf.stream.bytes.length) :
    kcf.stream.At (pre ++ kcf.lastRecord.encode ++ rest) [] :=
  ⟨by rw [h.bytes, List.append_nil], by rw [he, h.bytes]⟩

theorem ownHeader_iff (h : Headed pre rest kcf) (hp : kcf.parserState = .writeAddedData)
    (i : ℕ) :
    kcf.OwnHeader i ↔ pre.length ≤ i ∧ i < pre.length + kcf.lastRecord.header.length := by
  rw [KCF.OwnHeader, h.offset, Record.length_header]
  exact and_iff_right hp

theorem seek_of_lands (h : Headed pre rest kcf) (hl : kcf.Lands) :
    kcf.stream.seeks 1 = .done ∨ rest = [] := by
  refine hl.imp_right fun hl => ?_
  rw [h.size, h.offset, h.bytes] at hl
  simp only [List.length_append] at hl
  exact List.length_eq_zero_iff.mp (by omega)

theorem getElem?_patched (h : Headed pre rest kcf) (hp : kcf.parserState = .writeAddedData)
    (hb : v.stream.bytes = pre ++ kcf.patchedRecord.encode ++ rest) {i : ℕ}
    (hi : ¬ kcf.OwnHeader i) : v.stream.bytes[i]? = kcf.stream.bytes[i]? := by
  rw [h.ownHeader_iff hp, not_and_or, not_le, not_lt] at hi
  obtain ⟨header, hl, he⟩ := kcf.patchedRecord_encode
  have hx := List.getElem?_exchange (q := kcf.lastRecord.bytes ++ rest) hl.symm hi
  rw [hb, h.bytes, he]
  simp only [Record.encode, List.append_assoc] at hx ⊢
  exact hx

end Headed

/-- The stream keeps its length and its bytes outside the header of the open record, which may be
rewritten as the record is closed. -/
structure KeepsOthers (u v : KCF) : Prop where
  length : v.stream.bytes.length = u.stream.bytes.length
  kept : ∀ i, ¬ u.OwnHeader i → v.stream.bytes[i]? = u.stream.bytes[i]?
  rewrites : v.stream.bytes = u.stream.bytes ∨
    u.Rewrites u.stream.bytes v.stream.bytes ∧ v.parserState = .writeRecord

theorem KeepsOthers.of_eq (h : v.stream.bytes = u.stream.bytes) : KeepsOthers u v :=
  ⟨by rw [h], fun _ _ => by rw [h], .inl h⟩

theorem KeepsOthers.append (h : KeepsOthers u k)
    (hb : v.stream.bytes = k.stream.bytes ++ data) :
    ∀ i < u.stream.bytes.length, ¬ u.OwnHeader i → v.stream.bytes[i]? = u.stream.bytes[i]? := by
  intro i hi ho
  rw [hb, List.getElem?_append_left (h.length ▸ hi), h.kept i ho]

theorem KeepsOthers.writesBehind (h : KeepsOthers u k) (hc : c.Finishes)
    (hb : v.stream.bytes = k.stream.bytes ++ data) (hd : e = .ok → data = c.appended u)
    (hv : k.parserState = .writeRecord → v.parserState = .writeAddedData →
      v.recordOffset = u.stream.bytes.length) : WritesBehind c u e v :=
  ⟨k.stream.bytes, data, hb, h.length, h.rewrites.imp_right fun hr => ⟨hc, hr.1, hv hr.2⟩, hd⟩

theorem WritesBehind.of_append (hb : v.stream.bytes = u.stream.bytes ++ data)
    (hd : e = .ok → data = c.appended u) : WritesBehind c u e v :=
  ⟨u.stream.bytes, data, hb, rfl, .inl rfl, hd⟩

namespace Appending

theorem of_extends (h : Appending k) (hx : Extends k v) : Appending v where
  whole := hx.whole
  atEnd := hx.atEnd
  headed hp hf := by
    obtain ⟨hk, ho, hr⟩ := hx.stillOpen hp
    obtain ⟨data, hd⟩ := hx.bytes
    obtain ⟨pre, rest, hh⟩ := h.headed hk (hr ▸ hf)
    exact ⟨pre, rest ++ data, hh.append hd ho hr⟩

theorem wrote (h : Appending k) (data : List UInt8) :
    (ioWrite k.stream data).2.bytes =
        k.stream.bytes ++ (if (k.stream.writes 0).Fails then [] else data) ∧
      (ioWrite k.stream data).2.pos = (ioWrite k.stream data).2.bytes.length := by
  have hat := IOStream.at_end_iff.mpr h.atEnd
  by_cases hw : (k.stream.writes 0).Fails
  · rw [ioWrite_failed hw, if_pos hw]
    exact ⟨(hat.unstored data).bytes, (hat.unstored data).atEnd⟩
  · have hst := hat.stored data
    rw [List.drop_nil] at hst
    rw [ioWrite_full (h.whole.full hw), if_neg hw]
    exact ⟨hst.bytes.trans (List.append_nil _), hst.atEnd⟩

theorem extended (h : Appending k) (hs : v.stream = (ioWrite k.stream data).2)
    (hp : v.parserState = k.parserState) (ho : v.recordOffset = k.recordOffset)
    (hr : v.lastRecord = k.lastRecord) : Extends k v where
  whole := hs ▸ h.whole.ioWrite data
  atEnd := hs ▸ (h.wrote data).2
  bytes := ⟨_, hs ▸ (h.wrote data).1⟩
  state := hp
  offset := ho
  record := hr

theorem untouched (h : Appending k) (hn : v.stream.NoneShort)
    (hb : v.stream.bytes = k.stream.bytes) (hpos : v.stream.pos = k.stream.pos)
    (hp : v.parserState = k.parserState) (ho : v.recordOffset = k.recordOffset)
    (hr : v.lastRecord = k.lastRecord) : Extends k v where
  whole := hn
  atEnd := by rw [hpos, hb, h.atEnd]
  bytes := ⟨[], by rw [hb, List.append_nil]⟩
  state := hp
  offset := ho
  record := hr

/-- A finish that is not interrupted keeps the invariant and writes over its own header only. -/
theorem finish (h : Appending u) (hg : FinishUnbroken .finish u) (hf : u.Finish e v) :
    Appending v ∧ KeepsOthers u v ∧ u.StillOpen v ∧ (e = .ok → v.parserState = .writeRecord) := by
  cases hf with
  | refused => exact ⟨h, .of_eq rfl, fun hp => ⟨hp, rfl, rfl⟩, nofun⟩
  | kept => exact ⟨⟨h.whole, h.atEnd, nofun⟩, .of_eq rfl, nofun, fun _ => rfl⟩
  | seekFailed hp hs =>
    have hx : Extends u (u.sought u.stream.pos) := h.untouched h.whole rfl rfl rfl rfl rfl
    exact ⟨h.of_extends hx, .of_eq rfl, hx.stillOpen, nofun⟩
  | noMemory hp hs hm =>
    have hm' := (hg hp hs).1
    simp [hm] at hm'
  | writeFailed hp hs _ _ hw => exact absurd hw (hg hp hs).2.1
  | patched hp hs hm hf hw =>
    obtain ⟨pre, rest, hh⟩ := h.headed hp.1 hf
    have hat := KCF.at_patched (hh.stream_at h.atEnd) hh.offset (KCF.length_patched hf)
      (h.whole.full hw) (hh.seek_of_lands (hg hp hs).2.2)
    have hb : u.patched.returned.closeRecord.stream.bytes =
        pre ++ u.patchedRecord.encode ++ rest := hat.bytes.trans (List.append_nil _)
    refine ⟨⟨?_, hat.atEnd, nofun⟩, ⟨?_, fun i hi => hh.getElem?_patched hp.1 hb hi, .inr
      ⟨⟨hp, hf, pre, rest, hh.offset.symm, hh.bytes, hb⟩, rfl⟩⟩, nofun, fun _ => rfl⟩
    · have hn : (u.stream.sought u.recordOffset).NoneShort := h.whole
      exact (hn.ioWrite u.patchedRecord.encode).ioSeek u.stream.pos
    · rw [hb, hh.bytes]
      simp only [List.length_append, KCF.length_patched hf]

theorem accept (h : Appending u) (hg : FinishUnbroken .finish u) (ha : u.Accept .ok k) :
    Appending k ∧ KeepsOthers u k ∧ u.StillOpen k := by
  cases ha with
  | started hp => exact ⟨⟨h.whole, h.atEnd, nofun⟩, .of_eq rfl, nofun⟩
  | idle hp => exact ⟨h, .of_eq rfl, fun hp' => ⟨hp', rfl, rfl⟩⟩
  | finished hp hf =>
    obtain ⟨hk, hu, ho, -⟩ := h.finish hg hf
    exact ⟨hk, hu, ho⟩

theorem accept_finished (h : Appending u)
    (hg : u.Patches → u.stream.seeks 0 = .done ∧ u.Repatches) (ha : u.Accept .ok k) :
    k.parserState = .writeRecord ∧
      (u.parserState = .writeAddedData → u.finishAddedData = .ok (.ok, k)) := by
  cases ha with
  | started hp => exact ⟨rfl, fun hp' => by simp [hp] at hp'⟩
  | idle hp => exact ⟨hp, fun hp' => by simp [hp] at hp'⟩
  | @finished e' _ hp hf =>
    have he : e' = .ok := by
      cases hf with
      | refused hp' => exact absurd hp hp'
      | kept => rfl
      | seekFailed hp hs => simp [(hg hp).1] at hs
      | noMemory hp hs hm =>
        have hm' := (hg hp).2.1
        simp [hm] at hm'
      | writeFailed hp hs _ _ hw => exact absurd hw (hg hp).2.2.1
      | patched => rfl
    subst he
    exact ⟨(h.finish (fun hp _ => (hg hp).2) hf).2.2.2 rfl, fun _ => hf.eq⟩

end Appending

theorem AppendOnly.other (hc : ∀ R, c ≠ .record R)
    (hk : ∀ i < u.stream.bytes.length, ¬ u.OwnHeader i →
      v.stream.bytes[i]? = u.stream.bytes[i]?) (hb : WritesBehind c u e v) (ho : u.StillOpen v) :
    AppendOnly c u e v where
  placed R hR _ := absurd hR (hc R)
  kept := hk
  behind := hb
  owner := .inr ho
  refused R _ _ hR _ _ _ := absurd hR (hc R)

theorem AppendOnly.same (he : e ≠ .ok) : AppendOnly c u e u where
  placed _ _ ho := absurd ho he
  kept _ _ _ := rfl
  behind := .of_append (List.append_nil _).symm fun ho => absurd ho he
  owner := .inr fun hs => ⟨hs, rfl, rfl⟩
  refused _ _ _ _ _ _ _ := ⟨he, rfl⟩

theorem Appending.appended (h : Appending u) (hc : ∀ R, c ≠ .record R) (hc' : c.Finishes)
    (hg : FinishUnbroken .finish u) (ha : u.Accept .ok k) (hx : Appending k → Extends k v)
    (hd : Appending k → e = .ok → v.stream.bytes = k.stream.bytes ++ c.appended u) :
    Appending v ∧ AppendOnly c u e v := by
  obtain ⟨hk, hu, ho⟩ := h.accept hg ha
  have hx := hx hk
  obtain ⟨data, hb, hd⟩ : ∃ data, v.stream.bytes = k.stream.bytes ++ data ∧
      (e = .ok → data = c.appended u) := by
    obtain ⟨data, hb⟩ := hx.bytes
    exact ⟨data, hb, fun he => List.append_cancel_left (hb.symm.trans (hd hk he))⟩
  refine ⟨hk.of_extends hx, .other hc (hu.append hb) (hu.writesBehind hc' hb hd ?_)
    (ho.trans hx.stillOpen)⟩
  intro hp hv
  exact absurd (hx.state.symm.trans hv) (by simp [hp])

namespace Appending

theorem saved {R : Record} (h : Appending k) (hs : k.parserState = .writeRecord) (hf : R.Fits)
    (hw : ¬ (k.stream.writes 0).Fails)
    (hv : v = (k.placed (recFix R)).saveRecord (recFix R)) :
    Appending v ∧ v.stream.bytes = k.stream.bytes ++ (recFix R).encode ∧
      (v.parserState = .writeAddedData →
        v.lastRecord.headFlags = R.headFlags ∧ v.recordOffset = k.stream.bytes.length) := by
  obtain ⟨hb, hend⟩ := h.wrote (recFix R).encode
  rw [if_neg hw] at hb
  have hns := h.whole.ioWrite (recFix R).encode
  have hst : v.stream = (ioWrite k.stream (recFix R).encode).2 := by
    rw [hv, KCF.saveRecord_stream]
    rfl
  rw [← hst] at hb hend hns
  have hf' : (recFix R).Fits := (recFix_fits R).mpr hf
  cases ha : recHasAddedSize (recFix R) with
  | true =>
    have hr : v.lastRecord = (recCopy (recFix R) k.heap.next).2.1 := by
      simp only [hv, KCF.saveRecord, ha, if_true]
      rfl
    have ho : v.recordOffset = k.stream.bytes.length := by
      simp only [hv, KCF.saveRecord, ha, if_true]
      exact h.atEnd
    refine ⟨⟨hns, hend, fun _ hv => ⟨_, [], ho, ?_, ?_⟩⟩, hb, fun _ => ⟨?_, ho⟩⟩
    · rw [hr] at hv ⊢
      rw [recCopy_headSize, recCopy_encode hf' hv, recFix_headSize_of_fits hf,
        Record.length_encode_recFix hf]
    · rw [hr] at hv ⊢
      rw [recCopy_encode hf' hv, hb, List.append_nil]
    · rw [hr, recCopy_headFlags]
      rfl
  | false =>
    have hp : v.parserState ≠ .writeAddedData := by
      rw [hv, KCF.saveRecord_of_unsized ha]
      change k.parserState ≠ _
      simp [hs]
    exact ⟨⟨hns, hend, fun h => absurd h hp⟩, hb, fun h => absurd h hp⟩

/-- A record is appended, or nothing is. -/
theorem writeRecord {R R' : Record} (h : Appending u) (hg : FinishUnbroken (.record R) u)
    (hr : u.WriteRecord R e v R') : Appending v ∧ AppendOnly (.record R) u e v := by
  have hg' : FinishUnbroken .finish u := fun hp _ => (hg hp).2
  -- behind a finish that went through, the clause about one that failed says nothing
  have refused : ∀ {k v : KCF} {e : KcfError},
      (u.parserState = .writeAddedData → u.finishAddedData = .ok (.ok, k)) →
      ∀ R₁ e' k', WriterCall.record R = .record R₁ → u.parserState = .writeAddedData →
        u.finishAddedData = .ok (e', k') → e' ≠ .ok → e ≠ .ok ∧
          v.stream.bytes = u.stream.bytes := by
    intro k v e hi R₁ e' k' _ hp hf' he
    cases (hi hp).symm.trans hf'
    exact absurd rfl he
  cases hr with
  | refused ha =>
    cases ha with
    | refused => exact ⟨h, .same (by simp)⟩
  | @noMemory k ha hm =>
    obtain ⟨hk, hu, ho⟩ := h.accept hg' ha
    have hx : Extends k k.starved := hk.untouched hk.whole rfl rfl rfl rfl rfl
    obtain ⟨hs, hi⟩ := h.accept_finished hg ha
    have hb : k.starved.stream.bytes = k.stream.bytes ++ [] := (List.append_nil _).symm
    refine ⟨hk.of_extends hx, nofun, fun i _ => hu.kept i, hu.writesBehind trivial hb nofun ?_,
      .inr (ho.trans hx.stillOpen), refused hi⟩
    intro hp hv
    exact absurd (hp.symm.trans hv) nofun
  | @failed k ha hm hf hw =>
    obtain ⟨hk, hu, -⟩ := h.accept hg' ha
    obtain ⟨hs, hi⟩ := h.accept_finished hg ha
    obtain ⟨hb, hend⟩ := hk.wrote (recFix R).encode
    have hp : (k.placed (recFix R)).parserState ≠ .writeAddedData := by
      change k.parserState ≠ _
      simp [hs]
    exact ⟨⟨hk.whole.ioWrite _, hend, fun h => absurd h hp⟩, nofun, hu.append hb,
      hu.writesBehind trivial hb nofun (fun _ h => absurd h hp), .inr fun h => absurd h hp,
      refused hi⟩
  | @written k ha hm hf hw =>
    obtain ⟨hk, hu, -⟩ := h.accept hg' ha
    obtain ⟨hs, hi⟩ := h.accept_finished hg ha
    obtain ⟨hv, hb, ho⟩ := hk.saved hs hf hw rfl
    refine ⟨hv, ?_, hu.append hb, hu.writesBehind trivial hb (fun _ => rfl) ?_, ?_, refused hi⟩
    · rintro _ ⟨⟩ -
      exact ⟨k.stream.bytes, hu.length, hb⟩
    · intro _ hp
      rw [(ho hp).2, hu.length]
    · by_cases hp : ((k.placed (recFix R)).saveRecord (recFix R)).parserState = .writeAddedData
      · rw [← hu.length]
        exact .inl ⟨R, rfl, rfl, ho hp⟩
      · exact .inr fun h => absurd h hp

theorem writeWhole {R R' : Record} {D : List UInt8} (h : Appending u)
    (hg : FinishUnbroken (.whole R D) u) (hr : u.WriteWhole R D e v R') :
    Appending v ∧ AppendOnly (.whole R D) u e v := by
  have laid : ∀ {k : KCF}, Appending k → ∀ R, Extends k (k.laid R) :=
    fun hk R => hk.extended rfl rfl rfl rfl
  have wrote : ∀ {k : KCF}, Appending k → ∀ R, Extends k ((k.laid R).wrote D) :=
    fun hk R => (laid hk R).trans ((hk.of_extends (laid hk R)).extended rfl rfl rfl rfl)
  cases hr with
  | refused ha =>
    cases ha with
    | refused => exact ⟨h, .same (by simp)⟩
  | noMemory ha hm =>
    exact h.appended (by simp) trivial hg ha
      (fun hk => hk.untouched hk.whole rfl rfl rfl rfl rfl) nofun
  | headerFailed ha hm hf hw => exact h.appended (by simp) trivial hg ha (fun hk => laid hk _) nofun
  | dataFailed ha hm hf hw hd =>
    exact h.appended (by simp) trivial hg ha (fun hk => wrote hk _) nofun
  | @written k ha hm hf hw hd =>
    refine h.appended (by simp) trivial hg ha (fun hk => wrote hk _) fun hk _ => ?_
    have hheader := (hk.wrote (recFix (describeAddedData R D)).encode).1
    have hbehind := ((hk.of_extends (laid hk (recFix (describeAddedData R D)))).wrote D).1
    rw [if_neg hw] at hheader
    rw [if_neg (show ¬ ((k.laid _).stream.writes 0).Fails from hd)] at hbehind
    exact hbehind.trans ((congrArg (· ++ D) hheader).trans (List.append_assoc ..))

theorem writeData {data : List UInt8} {size : ℕ} (h : Appending u)
    (hr : u.WriteData data size e v) : Appending v ∧ AppendOnly (.data data size) u e v := by
  have appends : ∀ {v e chunk}, Extends u v → v.stream.bytes = u.stream.bytes ++ chunk →
      (e = .ok → chunk = data.take (u.acceptedSize size)) →
      Appending v ∧ AppendOnly (.data data size) u e v := by
    intro v e chunk hx hb hd
    exact ⟨h.of_extends hx, .other (by simp) ((KeepsOthers.of_eq rfl).append hb)
      (.of_append hb hd) hx.stillOpen⟩
  have hw := (h.wrote (data.take (u.acceptedSize size))).1
  cases hr with
  | refused => exact ⟨h, .same (by simp)⟩
  | exhausted hp hr =>
    have hz : u.acceptedSize size = 0 := by
      rw [KCF.acceptedSize, hr]
      exact Nat.min_zero size
    refine appends (h.untouched h.whole rfl rfl rfl rfl rfl) (List.append_nil _).symm fun _ => ?_
    rw [hz, List.take_zero]
  | failed => exact appends (h.extended rfl rfl rfl rfl) hw nofun
  | added hp hr hs hfails =>
    rw [if_neg hfails] at hw
    exact appends (h.extended rfl rfl rfl rfl) hw fun _ => rfl

end Appending

theorem Appending.step (h : Appending u) (hg : FinishUnbroken c u)
    (hc : writerStep c u = .ok (e, v)) : Appending v ∧ AppendOnly c u e v := by
  cases c with
  | record R =>
    obtain ⟨⟨e', k, R'⟩, hr, hk⟩ := Exec.bind_ok hc
    obtain ⟨rfl, rfl⟩ := Prod.mk.inj (Except.ok.inj hk)
    exact h.writeRecord hg (KCF.writeRecord_of_eq hr)
  | whole R D =>
    obtain ⟨⟨e', k, R'⟩, hr, hk⟩ := Exec.bind_ok hc
    obtain ⟨rfl, rfl⟩ := Prod.mk.inj (Except.ok.inj hk)
    exact h.writeWhole hg (KCF.writeWhole_of_eq hr)
  | data data size => exact h.writeData (KCF.writeData_of_eq hc)
  | finish =>
    obtain ⟨hv, hu, ho, -⟩ := h.finish hg (KCF.finish_of_eq hc)
    refine ⟨hv, .other (by simp) (fun i _ => hu.kept i)
      (hu.writesBehind trivial (List.append_nil _).symm (fun _ => rfl) ?_) ho⟩
    intro hp hopen
    exact absurd (hp.symm.trans hopen) nofun

open CallMachine

/-- Over a run of the writer what was written stays as it is, but for the header of a record that
was open: that becomes the one that the record is finished with in some state of the run. -/
structure Settled (u : KCF) (tr : List (WriterCall × KcfError)) (v : KCF) : Prop where
  kept : ∀ i < u.stream.bytes.length, ¬ u.OwnHeader i →
    v.stream.bytes[i]? = u.stream.bytes[i]?
  behind : ∃ front more, v.stream.bytes = front ++ more ∧
    front.length = u.stream.bytes.length ∧
    (front = u.stream.bytes ∨ ∃ tr' w, tr' <+: tr ∧ Run writerStep FinishUnbroken u tr' w ∧
      u.StillOpen w ∧ w.Rewrites u.stream.bytes front)

theorem KCF.Rewrites.behind {w : KCF} {front more front' : List UInt8}
    (h : w.Rewrites (front ++ more) front') (ho : w.recordOffset = front.length) :
    ∃ more', front' = front ++ more' := by
  obtain ⟨-, -, pre, rest, hl, hb, rfl⟩ := h
  rw [List.append_assoc] at hb
  obtain ⟨rfl, -⟩ := List.append_inj hb (ho.symm.trans hl.symm)
  exact ⟨_, List.append_assoc ..⟩

theorem Headed.rewrites {w : KCF} {pre rest more front' : List UInt8} (h : Headed pre rest u)
    (hr : w.Rewrites (u.stream.bytes ++ more) front') (ho : w.recordOffset = u.recordOffset)
    (hl : w.lastRecord = u.lastRecord) :
    ∃ front, w.Rewrites u.stream.bytes front ∧ front.length = u.stream.bytes.length ∧
      front' = front ++ more := by
  obtain ⟨hp, hf, pre', rest', hlen, hb, rfl⟩ := hr
  rw [h.bytes, hl] at hb
  simp only [List.append_assoc] at hb
  obtain ⟨rfl, hrest⟩ := List.append_inj hb (h.offset.symm.trans (ho.symm.trans hlen.symm))
  obtain rfl := List.append_cancel_left hrest
  refine ⟨pre ++ w.patchedRecord.encode ++ rest, ⟨hp, hf, pre, rest, hlen, by rw [h.bytes, hl],
    rfl⟩, ?_, by simp only [List.append_assoc]⟩
  rw [h.bytes, List.length_append, List.length_append, List.length_append, List.length_append,
    KCF.length_patched hf, hl]

theorem Appending.settled {tr : List (WriterCall × KcfError)} (h : Appending u)
    (hr : Run writerStep FinishUnbroken u tr v) : Settled u tr v := by
  induction hr with
  | nil s => exact ⟨fun _ _ _ => rfl, _, [], (List.append_nil _).symm, rfl, .inl rfl⟩
  | @cons c e u k v tr hg hc hr ih =>
    obtain ⟨hk, ha⟩ := h.step hg hc
    have ih := ih hk
    constructor
    · intro i hi ho
      have hki := ha.kept i hi ho
      have hlt : i < k.stream.bytes.length := by
        rw [List.getElem?_eq_getElem hi] at hki
        exact (List.getElem?_eq_some_iff.mp hki).1
      refine (ih.kept i hlt fun hok => ?_).trans hki
      rcases ha.owner with ⟨R, -, -, -, hp⟩ | hs
      · exact absurd hok.2.1 (by omega)
      · obtain ⟨hs, hp, hl⟩ := hs hok.1
        exact ho ⟨hs, hp ▸ hok.2.1, hp ▸ hl ▸ hok.2.2⟩
    · obtain ⟨front, more, hb, hl, hfront, -⟩ := ha.behind
      obtain ⟨front', more', hb', -, hfront'⟩ := ih.behind
      -- what this call has left of the old bytes is settled where later calls write behind it
      have settles (hx : ∃ m, v.stream.bytes = front ++ m) : ∃ front more,
          v.stream.bytes = front ++ more ∧ front.length = u.stream.bytes.length ∧
            (front = u.stream.bytes ∨ ∃ tr' w, tr' <+: (c, e) :: tr ∧
              Run writerStep FinishUnbroken u tr' w ∧ u.StillOpen w ∧
                w.Rewrites u.stream.bytes front) := by
        obtain ⟨m, hm⟩ := hx
        refine ⟨front, m, hm, hl, hfront.imp_right fun hr => ?_⟩
        exact ⟨[], u, List.nil_prefix, .nil u, fun hp => ⟨hp, rfl, rfl⟩, hr.2.1⟩
      rcases hfront' with rfl | ⟨tr', w, htr, hw, hopen, hrw⟩
      · exact settles ⟨more ++ more', by rw [hb', hb, List.append_assoc]⟩
      obtain ⟨hko, ho, hlast⟩ := hopen hrw.1.1
      rw [hb] at hrw
      by_cases hend : k.recordOffset = u.stream.bytes.length
      · obtain ⟨m, rfl⟩ := hrw.behind (ho.trans (hend.trans hl.symm))
        exact settles ⟨m ++ more', by rw [hb', List.append_assoc]⟩
      · rcases ha.owner with ⟨R, -, -, -, hp⟩ | hs
        · exact absurd hp hend
        obtain ⟨hu, ho', hl'⟩ := hs hko
        obtain rfl : front = u.stream.bytes :=
          hfront.resolve_right fun hr => hend (hr.2.2 hko)
        obtain ⟨pre, rest, hh⟩ := h.headed hu (hl' ▸ hlast ▸ hrw.2.1)
        obtain ⟨front, hfr, hlen, rfl⟩ := hh.rewrites hrw (ho.trans ho') (hlast.trans hl')
        exact ⟨front, more ++ more', by rw [hb', List.append_assoc], hlen, .inr
          ⟨(c, e) :: tr', w, List.prefix_cons_inj (c, e) |>.mpr htr, .cons hg hc hw,
            hs.trans hopen, hfr⟩⟩

/-- Every run in which no finish breaks off after it went back to a header only appends: each call
does so, and what it leaves written stays for the rest of the run, but for the header of a record
that is open, until it is finished. -/
theorem writer_appends {s : KCF} {tr tr' : List (WriterCall × KcfError)} {t : KCF}
    (hs : s.parserState = .writeRecord) (hw : s.stream.NoneShort)
    (he : s.stream.pos = s.stream.bytes.length) (hr : Run writerStep FinishUnbroken s tr u)
    (hg : FinishUnbroken c u) (hc : writerStep c u = .ok (e, v))
    (hr' : Run writerStep FinishUnbroken v tr' t) : AppendOnly c u e v ∧ Settled v tr' t := by
  have h : Appending s := ⟨hw, he, fun hp => absurd (hs.symm.trans hp) nofun⟩
  have hu := hr.invariant (I := Appending) (fun c u e v h hg hc => (h.step hg hc).1) h
  obtain ⟨hv, ha⟩ := hu.step hg hc
  exact ⟨ha, hv.settled hr'⟩

def Record.unsized : Record := { Record.zero with headFlags := 0x80 }

/-- The handle after this record was opened. -/
def KCF.openedUnsized (kcf : KCF) : KCF :=
  (kcf.placed (recFix .unsized)).saveRecord (recFix .unsized)

/-- The handle after this record was opened and given one byte. -/
def KCF.oneByteIn (kcf : KCF) : KCF := (kcf.openedUnsized.wrote [7]).counted [7]

theorem writeRecord_unsized (kcf : KCF) (hp : kcf.parserState = .writeRecord)
    (hm : (kcf.heap 0).isSome) (hw : ¬ (kcf.stream.writes 0).Fails) :
    kcf.WriteRecord .unsized .ok kcf.openedUnsized (recFix .unsized) :=
  .written (.idle hp) hm (by decide) hw

theorem writeData_oneByte (kcf : KCF) (hw : ¬ (kcf.stream.writes 1).Fails) :
    kcf.openedUnsized.WriteData [7] 1 .ok kcf.oneByteIn :=
  .added rfl (fun h => nomatch h) le_rfl hw

theorem finish_oneByte (kcf : KCF) (hm : (kcf.heap 1).isSome)
    (hw : ¬ (kcf.stream.writes 2).Fails) (hs : kcf.stream.seeks 0 = .done) :
    kcf.oneByteIn.Finish .ok kcf.oneByteIn.patched.returned.closeRecord :=
  .patched ⟨rfl, rfl⟩ hs hm (by decide : (recFix .unsized).Fits) hw

theorem run_oneByteIn {stream : IOStream} (h₀ : ¬ (stream.writes 0).Fails)
    (h₁ : ¬ (stream.writes 1).Fails) :
    Run writerStep (fun _ _ => True) (.writing stream)
      [(.record .unsized, .ok), (.data [7] 1, .ok)] (.oneByteIn (.writing stream)) :=
  .cons trivial (writerStep_record (writeRecord_unsized _ rfl rfl h₀))
    (.cons trivial (writerStep_data (writeData_oneByte _ h₁)) (.nil _))

theorem writer_appends_finish :
    ∃ v, writerStep .finish (.oneByteIn (.writing (.ofBytes []))) = .ok (.ok, v) ∧
      AppendOnly (.data [7] 1) (.openedUnsized (.writing (.ofBytes []))) .ok
        (.oneByteIn (.writing (.ofBytes []))) ∧
      Settled (.oneByteIn (.writing (.ofBytes []))) [(.finish, .ok)] v := by
  have hopen := writerStep_record (writeRecord_unsized (.writing (.ofBytes [])) rfl rfl (by decide))
  have hadd := writerStep_data (writeData_oneByte (.writing (.ofBytes [])) (by decide))
  have hfinish := writerStep_finish (finish_oneByte (.writing (.ofBytes [])) rfl id rfl)
  have hidle : FinishUnbroken (.record .unsized) (.writing (.ofBytes [])) :=
    fun hp => absurd hp.1 nofun
  have hunbroken : FinishUnbroken .finish (.oneByteIn (.writing (.ofBytes []))) :=
    fun _ _ => ⟨rfl, by decide, .inl rfl⟩
  exact ⟨_, hfinish, writer_appends (s := .writing (.ofBytes [])) rfl nofun rfl
    (.cons hidle hopen (.nil _)) trivial hadd (.cons hunbroken hfinish (.nil _))⟩

def thirdWriteFails : IOStream :=
  { IOStream.ofBytes [] with writes := fun i => if i = 2 then .failed 0 else .full }

/-- When the header of a finish done implicitly cannot be written, the next record is written
over the one that is open, and the call reports success. -/
theorem writer_overwrites :
    ∃ (s : KCF) (tr : List (WriterCall × KcfError)) (u v : KCF),
      s.parserState = .writeRecord ∧ s.heap.Grants ∧ s.stream.NoneShort ∧
      s.stream.pos = s.stream.bytes.length ∧ Run writerStep (fun _ _ => True) s tr u ∧
      writerStep (.record Record.unsized) u = .ok (.ok, v) ∧
      v.recordOffset < u.stream.bytes.length ∧ ¬ AppendOnly (.record Record.unsized) u .ok v := by
  have hc : KCF.WriteRecord (.oneByteIn (.writing thirdWriteFails)) .unsized .ok _ _ :=
    .written (.finished rfl (.writeFailed ⟨rfl, rfl⟩ rfl rfl (by decide) trivial)) rfl (by decide)
      (by decide)
  refine ⟨.writing thirdWriteFails, _, _, _, rfl, Heap.grants_zeros, fun i count => ?_, rfl,
    run_oneByteIn (by decide) (by decide), writerStep_record hc, by decide +kernel, fun h => ?_⟩
  · change (if i = 2 then _ else _) ≠ _
    split <;> simp
  · obtain ⟨p, hp, hb⟩ := h.placed _ rfl rfl
    have hl := congrArg List.length hb
    rw [List.length_append, hp] at hl
    revert hl
    decide +kernel

end Kcf
