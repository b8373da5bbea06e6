import Kcf.Library.Simulation
import Kcf.Writer.Append
import Kcf.Writer.Session

/-! # Drafts

What the write calls are for: they build a list of entries, each a record with
the bytes added to it, of which the last one may still be open. On a stream on
which everything goes through the writer does exactly that, in whatever order
its calls come and whatever was left in its counters: it answers as the draft
does, and what it leaves on the stream are the bytes of the draft.
-/

namespace Kcf

open CallMachine Record

/-- A record and what is added to it. -/
structure Entry where
  record : Record
  added : List UInt8

namespace Entry

variable {e : Entry} {w : UInt64} {c : UInt32}

/-- The bytes of an entry, with the size and the checksum of its record fixed. -/
def bytes (e : Entry) : List UInt8 := (recFix e.record).encode ++ e.added

/-- The bytes of one entry after the other. -/
def layout (es : List Entry) : List UInt8 := es.flatMap bytes

/-- The entry with more added to it, as far as its declared size admits. -/
def add (e : Entry) (w : UInt64) (bs : List UInt8) : Entry :=
  ⟨e.record, e.record.admits w (e.added ++ bs)⟩

/-- The entry with a header that tells what was counted, unless it keeps the one it has. -/
def settled (e : Entry) (w : UInt64) (c : UInt32) : Entry := ⟨e.record.final w c e.added, e.added⟩

@[simp] theorem layout_nil : layout [] = [] := rfl

@[simp] theorem layout_append (es fs : List Entry) : layout (es ++ fs) = layout es ++ layout fs :=
  List.flatMap_append

@[simp] theorem layout_singleton (e : Entry) : layout [e] = e.bytes := List.flatMap_singleton ..

theorem length_settled (h : e.record.Fits) :
    (e.settled w c).bytes.length = e.bytes.length := by
  have hf : (e.record.final w c e.added).Fits := final_fits.mpr h
  obtain ⟨size, crc, he⟩ := e.record.final_eq w c e.added
  have hd : (e.record.final w c e.added).dataSize = e.record.dataSize := by rw [he]
  simp only [settled, bytes, List.length_append, length_encode_recFix h, length_encode_recFix hf,
    final_headFlags, hd]

theorem length_layout_settled (h : e.record.Fits) (es : List Entry) :
    (layout (es ++ [e.settled w c])).length =
      (layout es ++ (recFix e.record).encode).length + e.added.length := by
  rw [layout_append, layout_singleton, List.length_append, length_settled h, bytes]
  simp only [List.length_append, Nat.add_assoc]

theorem append_layout_settled (a : List UInt8) (es : List Entry) (e : Entry) :
    a ++ layout (es ++ [e.settled w c]) =
      a ++ layout es ++ (recFix (e.record.final w c e.added)).encode ++ e.added := by
  rw [layout_append, layout_singleton, settled, bytes]
  simp only [List.append_assoc]

end Entry

/-- Entries that are done with, the one that is open, and what its counter and checksum, or those
of the next one, start from. -/
structure Draft where
  closed : List Entry
  current : Option Entry
  size : UInt64
  crc : UInt32

namespace Draft

/-- Nothing is written yet; the counter and the checksum are what they were left at. -/
def blank (size : UInt64) (crc : UInt32) : Draft := ⟨[], none, size, crc⟩

/-- The draft with its open entry finished; after that nothing is left over. -/
def finished (d : Draft) : Draft :=
  match d.current with
  | none => d
  | some e => ⟨d.closed ++ [e.settled d.size d.crc], none, 0, 0⟩

/-- What the draft is on the stream, the open entry with the header it was opened with. -/
def bytes (d : Draft) : List UInt8 := Entry.layout (d.closed ++ d.current.toList)

/-- The draft with one more entry put down. -/
def put (d : Draft) (e : Entry) : Draft := { d with closed := d.closed ++ [e] }

/-- Open a record, or just put it down when nothing is to be added to it. -/
def record (d : Draft) (R : Record) : Draft :=
  if recHasAddedSize R then { d with current := some ⟨R, []⟩ } else d.put ⟨R, []⟩

end Draft

/-- A call of the writer on a draft: its answer and the draft afterwards. -/
def draftReply : WriterCall → Draft → KcfError × Draft
  | .record R, d => (.ok, d.finished.record R)
  | .whole R addedData, d => (.ok, d.finished.put ⟨describeAddedData R addedData, addedData⟩)
  | .data addedData size, d =>
    match d.current with
    | none => (.invalidState, d)
    | some e => (.ok, { d with current := some (e.add d.size (addedData.take size)) })
  | .finish, d => if d.current.isNone then (.invalidState, d) else (.ok, d.finished)

/-- The caller keeps to the interface: records fit their size field, and a buffer holds as many
bytes as it is said to. -/
def WriterCall.Proper : WriterCall → Prop
  | .record R => R.Fits
  | .whole R addedData => (describeAddedData R addedData).Fits
  | .data addedData size => size ≤ addedData.length
  | .finish => True

instance : (c : WriterCall) → Decidable c.Proper
  | .record R => inferInstanceAs (Decidable R.Fits)
  | .whole R D => inferInstanceAs (Decidable (describeAddedData R D).Fits)
  | .data D size => inferInstanceAs (Decidable (size ≤ D.length))
  | .finish => .isTrue trivial

namespace KCF

variable {kcf : KCF} {data : List UInt8} {size : ℕ}

theorem acceptedSize_le (kcf : KCF) (size : ℕ) : kcf.acceptedSize size ≤ size := by
  unfold acceptedSize
  cases kcf.writeRemaining with
  | none => exact le_refl size
  | some remaining => exact Nat.min_le_left ..

theorem writeAddedData_take (kcf : KCF) (h : size ≤ data.length) :
    kcf.writeAddedData data size =
      kcf.writeAddedData (data.take size) (data.take size).length := by
  have hl : (data.take size).length = size := List.length_take_of_le h
  have ha := kcf.acceptedSize_le size
  by_cases hp : kcf.parserState = .writeAddedData
  · rw [writeAddedData_of_open hp, writeAddedData_of_open hp, hl, List.take_take,
      Nat.min_eq_left ha]
    exact if_congr Iff.rfl rfl (if_congr (by omega) rfl rfl)
  · rw [writeAddedData_of_ne hp, writeAddedData_of_ne hp]

end KCF

/-- No record is open; the counter and the checksum are what they were left at. -/
structure Resting (w : UInt64) (c : UInt32) (a b : List UInt8) (kcf : KCF) : Prop where
  state : kcf.parserState = .writeRecord
  stream : kcf.stream.At a b
  bound : kcf.addedDataToBeWritten = 0
  written : kcf.writtenAddedData = w
  crc : kcf.addedDataCRC32 = c

theorem Idle.resting {a b : List UInt8} {kcf : KCF} (h : Idle a b kcf) : Resting 0 0 a b kcf :=
  ⟨h.state, h.stream, h.bound, h.written, h.crc⟩

namespace Resting

variable {w : UInt64} {c : UInt32} {a b D : List UInt8} {kcf k : KCF} {R : Record}

theorem writeRecord (h : Resting w c a b k) (hacc : kcf.Accept .ok k) (ho : k.Obliging)
    (hf : R.Fits) (ha : recHasAddedSize R = true) :
    ∃ k', kcf.writeRecord R = .ok (.ok, k', recFix R) ∧ k'.Obliging ∧
      Streaming a (b.drop (recFix R).encode.length) R w c [] k' := by
  have hst := Streaming.of_placed ho.grants (ho.writes 0) hf ha
  rw [h.stream.behind_eq, h.stream.ahead_eq, h.written, h.crc] at hst
  exact ⟨_, hacc.writeRecord (ho.grants 0) ho.writes hf, ho.saved hf, hst⟩

theorem writeRecord_unsized (h : Resting w c a b k) (hacc : kcf.Accept .ok k) (ho : k.Obliging)
    (hf : R.Fits) (ha : recHasAddedSize R = false) :
    ∃ k', kcf.writeRecord R = .ok (.ok, k', recFix R) ∧ k'.Obliging ∧
      Resting w c (a ++ (recFix R).encode) (b.drop (recFix R).encode.length) k' := by
  refine ⟨_, hacc.writeRecord (ho.grants 0) ho.writes hf, ho.saved hf, ?_⟩
  rw [KCF.saveRecord_of_unsized (R := recFix R) ha]
  exact ⟨h.state, h.stream.ioWrite (ho.writes 0) _, h.bound, h.written, h.crc⟩

theorem writeRecordWithAddedData (h : Resting w c a b k) (hacc : kcf.Accept .ok k)
    (ho : k.Obliging) (hf : (describeAddedData R D).Fits) :
    ∃ k', kcf.writeRecordWithAddedData R D =
        .ok (.ok, k', recFix (describeAddedData R D)) ∧ k'.Obliging ∧
      Resting w c (a ++ (recFix (describeAddedData R D)).encode ++ D)
        ((b.drop (recFix (describeAddedData R D)).encode.length).drop D.length) k' := by
  have hw := ho.writes.not_fails
  refine ⟨_, (KCF.WriteWhole.written hacc (ho.grants 0) hf (hw 0) (hw 1)).eq,
    (ho.laid _).wrote D, h.state, ?_, h.bound, h.written, h.crc⟩
  have hs : (k.laid (recFix (describeAddedData R D))).stream.At _ _ :=
    h.stream.ioWrite (ho.writes 0) _
  exact hs.ioWrite ((ho.laid _).writes 0) D

end Resting

/-- The handle stands where the draft says, between these two stretches of the stream. -/
inductive Drafted (a b : List UInt8) : Draft → KCF → Prop
  | between {closed : List Entry} {w : UInt64} {c : UInt32} {kcf : KCF} : kcf.Obliging →
      Resting w c (a ++ Entry.layout closed) (b.drop (Entry.layout closed).length) kcf →
      Drafted a b ⟨closed, none, w, c⟩ kcf
  | within {closed : List Entry} {e : Entry} {w : UInt64} {c : UInt32} {kcf : KCF} :
      kcf.Obliging → e.record.admits w e.added = e.added →
      Streaming (a ++ Entry.layout closed)
        (b.drop (Entry.layout closed ++ (recFix e.record).encode).length) e.record w c e.added
        kcf →
      Drafted a b ⟨closed, some e, w, c⟩ kcf

namespace Drafted

variable {a b : List UInt8} {d : Draft} {kcf : KCF} {R : Record} {D : List UInt8}

theorem stream (h : Drafted a b d kcf) : kcf.stream.At (a ++ d.bytes) (b.drop d.bytes.length) := by
  cases h with
  | between _ hi => simpa [Draft.bytes] using hi.stream
  | within _ _ hs =>
    have hst := hs.stream
    rw [List.drop_drop] at hst
    simpa [Draft.bytes, Entry.bytes, List.append_assoc, Nat.add_assoc] using hst

theorem finish (h : Drafted a b d kcf) :
    Simulates writerStep draftReply (Drafted a b) .finish d kcf := by
  cases h with
  | between ho hi =>
    refine ⟨kcf, KCF.finishAddedData_of_ne ?_, .between ho hi⟩
    rw [hi.state]
    decide
  | within ho ha hs =>
    obtain ⟨k, hk, ho', hi⟩ := hs.finish ho
    rw [List.drop_drop, ← Entry.append_layout_settled,
      ← Entry.length_layout_settled hs.fits] at hi
    exact ⟨k, hk.eq, .between ho' hi.resting⟩

theorem accepts (h : Drafted a b d kcf) :
    ∃ k, kcf.Accept .ok k ∧ k.Obliging ∧ d.finished.current = none ∧
      Resting d.finished.size d.finished.crc (a ++ Entry.layout d.finished.closed)
        (b.drop (Entry.layout d.finished.closed).length) k := by
  cases h with
  | between ho hi => exact ⟨kcf, .idle hi.state, ho, rfl, hi⟩
  | within ho ha hs =>
    obtain ⟨k, hk, ho', hi⟩ := hs.finish ho
    rw [List.drop_drop, ← Entry.append_layout_settled,
      ← Entry.length_layout_settled hs.fits] at hi
    exact ⟨k, .finished hs.state hk, ho', rfl, hi.resting⟩

theorem record (h : Drafted a b d kcf) (hf : R.Fits) :
    Simulates writerStep draftReply (Drafted a b) (.record R) d kcf := by
  obtain ⟨u, hacc, ho, hnone, hi⟩ := h.accepts
  rw [Simulates, draftReply, Draft.record]
  generalize d.finished = f at hnone hi
  obtain ⟨closed, current, w, c⟩ := f
  obtain rfl : current = none := hnone
  cases ha : recHasAddedSize R with
  | true =>
    obtain ⟨k, hk, ho', hs⟩ := hi.writeRecord hacc ho hf ha
    refine ⟨k, by rw [writerStep, hk]; rfl, ?_⟩
    rw [List.drop_drop, ← List.length_append] at hs
    exact .within ho' (admits_nil ..) hs
  | false =>
    obtain ⟨k, hk, ho', hi'⟩ := hi.writeRecord_unsized hacc ho hf ha
    refine ⟨k, by rw [writerStep, hk]; rfl, .between ho' ?_⟩
    rw [List.drop_drop, ← List.length_append] at hi'
    simpa [Entry.bytes, List.append_assoc] using hi'

theorem whole (h : Drafted a b d kcf) (hf : (describeAddedData R D).Fits) :
    Simulates writerStep draftReply (Drafted a b) (.whole R D) d kcf := by
  obtain ⟨u, hacc, ho, hnone, hi⟩ := h.accepts
  rw [Simulates, draftReply]
  generalize d.finished = f at hnone hi
  obtain ⟨closed, current, w, c⟩ := f
  obtain rfl : current = none := hnone
  obtain ⟨k, hk, ho', hi'⟩ := hi.writeRecordWithAddedData hacc ho hf
  refine ⟨k, by rw [writerStep, hk]; rfl, .between ho' ?_⟩
  rw [List.drop_drop, List.drop_drop, ← Nat.add_assoc] at hi'
  simpa [Entry.bytes, List.append_assoc, Nat.add_assoc] using hi'

theorem data {size : ℕ} (h : Drafted a b d kcf) (hl : size ≤ D.length) :
    Simulates writerStep draftReply (Drafted a b) (.data D size) d kcf := by
  cases h with
  | between ho hi =>
    refine ⟨kcf, KCF.writeAddedData_of_ne ?_ D size, .between ho hi⟩
    rw [hi.state]
    decide
  | within ho ha hs =>
    obtain ⟨k, hk, ho', hs'⟩ := hs.writeAddedData ho ha (D.take size)
    exact ⟨k, (kcf.writeAddedData_take hl).trans hk, .within ho' (admits_admits ..) hs'⟩

theorem step {c : WriterCall} (hc : c.Proper) (h : Drafted a b d kcf) :
    Simulates writerStep draftReply (Drafted a b) c d kcf := by
  cases c with
  | record R => exact h.record hc
  | whole R D => exact h.whole hc
  | data D size => exact h.data hc
  | finish => exact h.finish

theorem answers {cs : List WriterCall} (hcs : ∀ c ∈ cs, c.Proper) (h : Drafted a b d kcf) :
    ∃ k, CallMachine.answers writerStep cs kcf = ((replies draftReply cs d).1, .ok k) ∧
      Drafted a b (replies draftReply cs d).2 k :=
  answers_of_simulates (fun _ _ _ hc hd => hd.step hc) hcs h

end Drafted

theorem Resting.drafted {w : UInt64} {c : UInt32} {a b : List UInt8} {kcf : KCF}
    (h : Resting w c a b kcf) (ho : kcf.Obliging) : Drafted a b (.blank w c) kcf :=
  .between ho (by simpa using h)

/-- Proper calls in any order, refused ones included, are answered as a draft answers them, and
the stream holds what was before and behind with the bytes of the draft between. -/
theorem writer_refines_draft {a b : List UInt8} {w : UInt64} {c : UInt32} {kcf : KCF}
    {cs : List WriterCall} (hi : Resting w c a b kcf) (ho : kcf.Obliging)
    (hcs : ∀ c ∈ cs, c.Proper) :
    ∃ k, answers writerStep cs kcf = ((replies draftReply cs (.blank w c)).1, .ok k) ∧
      k.stream.At (a ++ (replies draftReply cs (.blank w c)).2.bytes)
        (b.drop (replies draftReply cs (.blank w c)).2.bytes.length) := by
  obtain ⟨k, hk, hd⟩ := (hi.drafted ho).answers hcs
  exact ⟨k, hk, hd.stream⟩

theorem writer_refines_draft_five :
    ∃ k, answers writerStep
        [.finish, .record Record.unsized, .data [1, 2] 1, .whole Record.zero [3], .data [4] 1]
        (.writing (.ofBytes [])) = ([.invalidState, .ok, .ok, .ok, .invalidState], .ok k) ∧
      k.stream.At ([] ++ Draft.bytes ⟨[⟨Record.unsized.counted 0 0 [1], [1]⟩,
        ⟨describeAddedData Record.zero [3], [3]⟩], none, 0, 0⟩) [] := by
  have hi : Resting 0 0 [] [] (.writing (.ofBytes [])) := ⟨rfl, ⟨rfl, rfl⟩, rfl, rfl, rfl⟩
  have hcs : ∀ c ∈ [WriterCall.finish, .record Record.unsized, .data [1, 2] 1,
      .whole Record.zero [3], .data [4] 1], c.Proper := by decide +kernel
  obtain ⟨k, hk, hs⟩ :=
    writer_refines_draft hi ⟨Heap.grants_zeros, fun _ => rfl, fun _ => rfl⟩ hcs
  rw [List.drop_nil] at hs
  exact ⟨k, hk, hs⟩

end Kcf
