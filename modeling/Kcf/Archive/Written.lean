import Kcf.Archive.Playback
import Kcf.Writer.Draft

/-! # Drafts read back

What a client wrote is on the stream as records, and a reader of the stream
plays them back, exactly when every header tells how many bytes follow it. A
handle that was reading goes over to writing between two records, and writes
over whatever is ahead.
-/

namespace Kcf

open CallMachine

namespace Entry

/-- The header of the entry tells how many bytes were added. -/
def Tells (e : Entry) : Prop := (recFix e.record).shown.addedSize.toNat = e.added.length

instance (e : Entry) : Decidable e.Tells := inferInstanceAs (Decidable (_ = _))

def asRead (e : Entry) : Record × List UInt8 := ((recFix e.record).shown, e.added)

def piece (e : Entry) (hf : e.record.Fits) (ht : e.Tells) : Piece :=
  ⟨recFix e.record, e.added, hf, recFix_headSize_of_fits hf, ht⟩

theorem exists_pieces {es : List Entry} (hf : ∀ e ∈ es, e.record.Fits) (ht : ∀ e ∈ es, e.Tells) :
    ∃ ps : List Piece, Piece.layout ps = layout es ∧
      ps.map (fun p => (p.record.shown, p.added)) = es.map asRead := by
  induction es with
  | nil => exact ⟨[], rfl, rfl⟩
  | cons e es ih =>
    rw [List.forall_mem_cons] at hf ht
    obtain ⟨ps, hl, hm⟩ := ih hf.2 ht.2
    refine ⟨e.piece hf.1 ht.1 :: ps, ?_, ?_⟩
    · rw [Piece.layout_cons, hl]
      rfl
    · rw [List.map_cons, hm]
      rfl

theorem tells_of_asRead {es : List Entry} {ss : List Stored}
    (h : ss.map (fun s => (s.record, s.added)) = es.map asRead) : ∀ e ∈ es, e.Tells := by
  intro e he
  have hm : e.asRead ∈ ss.map fun s => (s.record, s.added) := h ▸ List.mem_map_of_mem he
  obtain ⟨s, -, hs⟩ := List.mem_map.mp hm
  obtain ⟨hr, ha⟩ := Prod.mk.inj hs
  have hsize := s.addedSize
  rw [s.shown, hr, ha] at hsize
  exact hsize

end Entry

namespace Draft

variable {d : Draft} {c : WriterCall} {cs : List WriterCall}

theorem bytes_of_closed (h : d.current = none) : d.bytes = Entry.layout d.closed := by
  rw [bytes, h, Option.toList_none, List.append_nil]

/-- Every record of the draft fits its size field. -/
def Fits (d : Draft) : Prop := ∀ e ∈ d.closed ++ d.current.toList, e.record.Fits

theorem Fits.closed (h : d.Fits) : ∀ e ∈ d.closed, e.record.Fits :=
  fun e he => h e (List.mem_append_left _ he)

theorem Fits.finished (h : d.Fits) : d.finished.Fits := by
  obtain ⟨closed, _ | e, w, crc⟩ := d
  · exact h
  · intro x hx
    simp only [Draft.finished, Option.toList_none, List.append_nil, List.mem_append,
      List.mem_singleton] at hx
    rcases hx with hx | rfl
    · exact h x (List.mem_append_left _ hx)
    · exact Record.final_fits.mpr (h e (by simp))

theorem Fits.put (h : d.Fits) {e : Entry} (he : e.record.Fits) : (d.put e).Fits := by
  intro x hx
  simp only [Draft.put, List.mem_append, List.mem_singleton] at hx
  rcases hx with (hx | rfl) | hx
  · exact h x (List.mem_append_left _ hx)
  · exact he
  · exact h x (List.mem_append_right _ hx)

theorem Fits.opened (h : d.Fits) {e : Entry} (he : e.record.Fits) :
    Fits { d with current := some e } := by
  intro x hx
  rcases List.mem_append.mp hx with hx | hx
  · exact h x (List.mem_append_left _ hx)
  · obtain rfl : x = e := by simpa using hx
    exact he

theorem Fits.reply (h : d.Fits) (hc : c.Proper) : (draftReply c d).2.Fits := by
  cases c with
  | record R =>
    change (d.finished.record R).Fits
    unfold Draft.record
    split
    · exact h.finished.opened hc
    · exact h.finished.put hc
  | whole R D => exact h.finished.put hc
  | data D size =>
    obtain ⟨closed, _ | e, w, crc⟩ := d
    · exact h
    · exact h.opened (e := e.add w (D.take size)) (h e (by simp))
  | finish =>
    obtain ⟨closed, _ | e, w, crc⟩ := d
    · exact h
    · exact h.finished

theorem fits_replies (hcs : ∀ c ∈ cs, c.Proper) (w : UInt64) (crc : UInt32) :
    (replies draftReply cs (blank w crc)).2.Fits := by
  have h₀ : (blank w crc).Fits := by simp [Fits, blank]
  exact replies_invariant (fun _ _ hc hd => Fits.reply hd hc) (P := WriterCall.Proper) hcs h₀

end Draft

variable {w : UInt64} {c : UInt32} {ps : List Piece} {kcf : KCF} {cs : List WriterCall}

theorem decodes_iff_tells {es : List Entry} (hf : ∀ e ∈ es, e.record.Fits) (ps rs : List Piece) :
    (∃ ss, decodeArchive (Piece.layout ps ++ (Entry.layout es ++ Piece.layout rs)) =
          some (ps.map Stored.ofPiece ++ (ss ++ rs.map Stored.ofPiece)) ∧
        ss.map (fun s => (s.record, s.added)) = es.map Entry.asRead) ↔ ∀ e ∈ es, e.Tells := by
  constructor
  · rintro ⟨ss, -, hss⟩
    exact Entry.tells_of_asRead hss
  · intro ht
    obtain ⟨qs, hl, hm⟩ := Entry.exists_pieces hf ht
    refine ⟨qs.map Stored.ofPiece, ?_, ?_⟩
    · rw [← hl, ← Piece.layout_append, ← Piece.layout_append, decodeArchive_layout,
        List.map_append, List.map_append]
    · rw [List.map_map, ← hm]
      rfl

theorem written_layout (hi : Resting w c (Piece.layout ps) [] kcf) (ho : kcf.Obliging)
    (hcs : ∀ c ∈ cs, c.Proper) (hclosed : (replies draftReply cs (.blank w c)).2.current = none) :
    (∀ e ∈ (replies draftReply cs (.blank w c)).2.closed, e.record.Fits) ∧
      ∃ k, answers writerStep cs kcf = ((replies draftReply cs (.blank w c)).1, .ok k) ∧
        k.stream.bytes =
          Piece.layout ps ++ Entry.layout (replies draftReply cs (.blank w c)).2.closed := by
  obtain ⟨k, hk, hd⟩ := (hi.drafted ho).answers hcs
  have hb := hd.stream.bytes
  rw [Draft.bytes_of_closed hclosed, List.drop_nil, List.append_nil] at hb
  exact ⟨(Draft.fits_replies hcs w c).closed, k, hk, hb⟩

/-- What was written so is decoded as it was written exactly when every header tells how many bytes
were added. -/
theorem written_decodes_iff (hi : Resting w c (Piece.layout ps) [] kcf) (ho : kcf.Obliging)
    (hcs : ∀ c ∈ cs, c.Proper) (hclosed : (replies draftReply cs (.blank w c)).2.current = none) :
    ∃ k, answers writerStep cs kcf = ((replies draftReply cs (.blank w c)).1, .ok k) ∧
      ((∃ ss, decodeArchive k.stream.bytes = some (ps.map Stored.ofPiece ++ ss) ∧
          ss.map (fun s => (s.record, s.added)) =
            (replies draftReply cs (.blank w c)).2.closed.map Entry.asRead) ↔
        ∀ e ∈ (replies draftReply cs (.blank w c)).2.closed, e.Tells) := by
  obtain ⟨hfits, k, hk, hb⟩ := written_layout hi ho hcs hclosed
  refine ⟨k, hk, ?_⟩
  have hiff := decodes_iff_tells hfits ps []
  simp only [Piece.layout_nil, List.map_nil, List.append_nil] at hiff
  rwa [hb]

theorem written_decodes_three :
    ∃ k, answers writerStep [.record Record.unsized, .data [1, 2] 2, .finish]
        (.writing (.ofBytes [])) = ([.ok, .ok, .ok], .ok k) ∧
      ∃ ss, decodeArchive k.stream.bytes = some ss ∧
        ss.map (fun s => (s.record, s.added)) =
          [Entry.asRead ⟨Record.unsized.counted 0 0 [1, 2], [1, 2]⟩] := by
  have hi : Resting 0 0 (Piece.layout []) [] (.writing (.ofBytes [])) :=
    ⟨rfl, ⟨rfl, rfl⟩, rfl, rfl, rfl⟩
  have hcs : ∀ c ∈ [WriterCall.record Record.unsized, .data [1, 2] 2, .finish], c.Proper := by
    decide +kernel
  obtain ⟨k, hk, hiff⟩ :=
    written_decodes_iff hi ⟨Heap.grants_zeros, fun _ => rfl, fun _ => rfl⟩ hcs rfl
  exact ⟨k, hk, hiff.mpr (by decide +kernel)⟩

/-- Where every header tells how much is added, every reader of the stream that has memory and
gets all its bytes plays back the archive and what was written behind it, in whatever order its
calls come. -/
theorem written_plays_back (hi : Resting w c (Piece.layout ps) [] kcf) (ho : kcf.Obliging)
    (hcs : ∀ c ∈ cs, c.Proper) (hclosed : (replies draftReply cs (.blank w c)).2.current = none)
    (htells : ∀ e ∈ (replies draftReply cs (.blank w c)).2.closed, e.Tells) :
    ∃ k qs, answers writerStep cs kcf = ((replies draftReply cs (.blank w c)).1, .ok k) ∧
      qs.map (fun p : Piece => (p.record.shown, p.added)) =
        (replies draftReply cs (.blank w c)).2.closed.map Entry.asRead ∧
      ∀ r : KCF, r.parserState = .readRecordHeader → ReaderAt [] k.stream.bytes r →
        r.availableAddedData = 0 → ∀ calls, ∃ as t u,
          replies playbackReply calls (.front r (ps ++ qs)) = (as, t) ∧
            answers playbackStep calls r = (as, .ok u) := by
  obtain ⟨hfits, k, hk, hb⟩ := written_layout hi ho hcs hclosed
  obtain ⟨qs, hl, hm⟩ := Entry.exists_pieces hfits htells
  have hlayout : k.stream.bytes = Piece.layout (ps ++ qs) := by
    rw [hb, ← hl, Piece.layout_append]
  refine ⟨k, qs, hk, hm, fun r hp hr h₀ calls => ?_⟩
  rw [hlayout] at hr
  obtain ⟨u, hu, -⟩ := Playing.whole hp hr h₀ calls
  exact ⟨_, _, u, rfl, hu⟩

theorem written_plays_back_four :
    ∃ (k : KCF) (qs : List Piece),
      answers writerStep [.record Record.unsized, .data [1] 1, .data [2] 1, .finish]
        (.writing (.ofBytes [])) = ([.ok, .ok, .ok, .ok], .ok k) ∧
      qs.map (fun p : Piece => (p.record.shown, p.added)) =
        [Entry.asRead ⟨Record.unsized.counted 0 0 [1, 2], [1, 2]⟩] ∧
      ∃ as t u, replies playbackReply [.record (some Record.zero), .added (some 9)]
          (.front (.reading (.ofBytes k.stream.bytes)) qs) = (as, t) ∧
        answers playbackStep [.record (some Record.zero), .added (some 9)]
          (.reading (.ofBytes k.stream.bytes)) = (as, .ok u) := by
  have hi : Resting 0 0 (Piece.layout []) [] (.writing (.ofBytes [])) :=
    ⟨rfl, ⟨rfl, rfl⟩, rfl, rfl, rfl⟩
  have hcs : ∀ c ∈ [WriterCall.record Record.unsized, .data [1] 1, .data [2] 1, .finish],
      c.Proper := by
    decide +kernel
  obtain ⟨k, qs, hk, hqs, hplay⟩ :=
    written_plays_back hi ⟨Heap.grants_zeros, fun _ => rfl, fun _ => rfl⟩ hcs rfl
      (by decide +kernel)
  exact ⟨k, qs, hk, hqs, hplay (.reading (.ofBytes k.stream.bytes)) rfl
    ⟨Heap.grants_zeros, fun _ => rfl, rfl, rfl⟩ rfl _⟩

/-- A writer may stop at any point, and the end of what it wrote may be lost: a reader that asks for
no more records than were finished plays back the archive and those records, as long as their bytes
are there. -/
theorem stopped_plays_back (hi : Resting w c (Piece.layout ps) [] kcf) (ho : kcf.Obliging)
    (hcs : ∀ c ∈ cs, c.Proper)
    (htells : ∀ e ∈ (replies draftReply cs (.blank w c)).2.closed, e.Tells) :
    ∃ k qs, answers writerStep cs kcf = ((replies draftReply cs (.blank w c)).1, .ok k) ∧
      qs.map (fun p : Piece => (p.record.shown, p.added)) =
        (replies draftReply cs (.blank w c)).2.closed.map Entry.asRead ∧
      ∀ n ≥ (Piece.layout (ps ++ qs)).length, ∀ r : KCF, r.parserState = .readRecordHeader →
        ReaderAt [] (k.stream.bytes.take n) r → r.availableAddedData = 0 →
        ∀ calls, calls.countP PlaybackCall.asks ≤ (ps ++ qs).length → ∃ as t u,
          replies playbackReply calls (.front r (ps ++ qs)) = (as, t) ∧
            answers playbackStep calls r = (as, .ok u) := by
  obtain ⟨k, hk, hd⟩ := (hi.drafted ho).answers hcs
  have hfits := Draft.fits_replies hcs w c
  generalize replies draftReply cs (.blank w c) = x at hk hd hfits htells
  obtain ⟨es, d⟩ := x
  obtain ⟨qs, hl, hm⟩ := Entry.exists_pieces hfits.closed htells
  have hbytes : k.stream.bytes = Piece.layout (ps ++ qs) ++ Entry.layout d.current.toList := by
    rw [hd.stream.bytes, Draft.bytes, Entry.layout_append, Piece.layout_append, hl,
      List.drop_nil, List.append_nil, List.append_assoc]
  refine ⟨k, qs, hk, hm, fun n hn r hp hr h₀ calls hcalls => ?_⟩
  rw [hbytes, List.take_append, List.take_of_length_le hn] at hr
  obtain ⟨u, hu, -⟩ := (Playing.front hp hr h₀).answers (.inr hcalls)
  exact ⟨_, _, u, rfl, hu⟩

/-- The first record is finished by opening the second one, of which nothing but two bytes of the
header are there. -/
theorem stopped_plays_back_two :
    ∃ (k : KCF) (qs : List Piece),
      answers writerStep
        [.record Record.unsized, .data [1, 2] 2, .record Record.unsized, .data [3] 1]
        (.writing (.ofBytes [])) = ([.ok, .ok, .ok, .ok], .ok k) ∧
      qs.map (fun p : Piece => (p.record.shown, p.added)) =
        [Entry.asRead ⟨Record.unsized.counted 0 0 [1, 2], [1, 2]⟩] ∧
      ∃ as t u, replies playbackReply [.record (some Record.zero), .added (some 9)]
          (.front (.reading (.ofBytes (k.stream.bytes.take ((Piece.layout qs).length + 2)))) qs) =
            (as, t) ∧
        answers playbackStep [.record (some Record.zero), .added (some 9)]
          (.reading (.ofBytes (k.stream.bytes.take ((Piece.layout qs).length + 2)))) =
            (as, .ok u) := by
  have hi : Resting 0 0 (Piece.layout []) [] (.writing (.ofBytes [])) :=
    ⟨rfl, ⟨rfl, rfl⟩, rfl, rfl, rfl⟩
  have hcs : ∀ c ∈ [WriterCall.record Record.unsized, .data [1, 2] 2, .record Record.unsized,
      .data [3] 1], c.Proper := by
    decide +kernel
  obtain ⟨k, qs, hk, hqs, hplay⟩ :=
    stopped_plays_back hi ⟨Heap.grants_zeros, fun _ => rfl, fun _ => rfl⟩ hcs (by decide +kernel)
  have hlength : qs.length = 1 := by
    have hl := congrArg List.length hqs
    rw [List.length_map] at hl
    exact hl
  refine ⟨k, qs, hk, hqs, hplay ((Piece.layout qs).length + 2) (Nat.le_add_right ..)
    (.reading (.ofBytes (k.stream.bytes.take ((Piece.layout qs).length + 2)))) rfl
    ⟨Heap.grants_zeros, fun _ => rfl, rfl, rfl⟩ rfl _ ?_⟩
  change 1 ≤ qs.length
  rw [hlength]

namespace Playing

variable {s : IOStream} {rest : List UInt8} {t : Playback} {u : KCF}

theorem startWriting (h : Playing s rest t u) :
    u.startWriting = if t.state = .readRecordHeader then (.ok, u.setState .writeRecord)
      else (.invalidState, u) := by
  have hs := h.state
  unfold KCF.startWriting
  rcases h.reading with ht | ht | ht <;> rw [ht] at hs ⊢ <;> rw [hs] <;> rfl

theorem resting (h : Playing s rest t u) (hs : t.state = .readRecordHeader) (hw : s.WritesFully)
    (hk : s.Seeks) :
    ∃ a, a ++ (Piece.layout t.ahead ++ rest) = s.bytes ∧ (u.setState .writeRecord).Obliging ∧
      Resting t.read t.declared a (Piece.layout t.ahead ++ rest) (u.setState .writeRecord) := by
  have hleft := h.left_eq_nil hs
  obtain ⟨a, hat⟩ := h.stream
  have hav := h.left
  rw [hleft, List.nil_append] at hat
  rw [hleft, List.length_nil] at hav
  refine ⟨a, hat.bytes.symm.trans h.readOn.bytes, ⟨h.grants, ?_, ?_⟩, rfl, hat,
    UInt64.toNat_inj.mp hav, h.read, h.declared⟩
  · intro i
    exact (congrFun h.readOn.writes i).trans (hw i)
  · intro i
    exact (congrFun h.readOn.seeks i).trans (hk i)

end Playing

/-- After any read calls on an archive, writing starts exactly where a record is expected. Whatever
proper calls come then are answered as a draft answers them that starts with the counter and the
checksum of the last record read, and its bytes go over the records that were not read. -/
theorem writes_after_reading {a : List UInt8} (hp : kcf.parserState = .readRecordHeader)
    (h : ReaderAt a (Piece.layout ps) kcf) (h₀ : kcf.availableAddedData = 0)
    (hw : kcf.stream.WritesFully) (hs : kcf.stream.Seeks)
    (calls : List PlaybackCall) :
    ∃ as t u, replies playbackReply calls (.front kcf ps) = (as, t) ∧
      answers playbackStep calls kcf = (as, .ok u) ∧
      (t.state ≠ .readRecordHeader → u.startWriting = (.invalidState, u)) ∧
      (t.state = .readRecordHeader → ∃ v front, u.startWriting = (.ok, v) ∧
        front ++ Piece.layout t.ahead = a ++ Piece.layout ps ∧
        ∀ cs : List WriterCall, (∀ c ∈ cs, c.Proper) → ∃ k,
          answers writerStep cs v = ((replies draftReply cs (.blank t.read t.declared)).1, .ok k) ∧
          k.stream.At (front ++ (replies draftReply cs (.blank t.read t.declared)).2.bytes)
            ((Piece.layout t.ahead).drop
              (replies draftReply cs (.blank t.read t.declared)).2.bytes.length)) := by
  obtain ⟨u, hu, hplay⟩ := Playing.whole hp h h₀ calls
  have hstart := hplay.startWriting
  refine ⟨_, _, u, rfl, hu, fun ht => hstart.trans (if_neg ht), fun ht => ?_⟩
  obtain ⟨front, hfront, ho, hrest⟩ := hplay.resting ht hw hs
  rw [List.append_nil] at hfront hrest
  refine ⟨_, front, hstart.trans (if_pos ht), hfront.trans h.stream.bytes, fun cs hcs => ?_⟩
  obtain ⟨k, hk, hd⟩ := (hrest.drafted ho).answers hcs
  exact ⟨k, hk, hd.stream⟩

theorem writes_after_reading_oneByte :
    ∃ (as : List Observation) (u v k : KCF),
      answers playbackStep [.record (some Record.zero), .added (some 4)]
        (.reading (.ofBytes (Piece.layout [Piece.oneByte KCF_FILE_HEADER false 7]))) =
          (as, .ok u) ∧
      u.startWriting = (.ok, v) ∧
      answers writerStep [.record Record.unsized, .data [8] 1, .finish] v =
        ([.ok, .ok, .ok], .ok k) ∧
      k.stream.At (Piece.layout [Piece.oneByte KCF_FILE_HEADER false 7] ++
        Draft.bytes ⟨[⟨Record.unsized.counted 1 0 [8], [8]⟩], none, 0, 0⟩) [] := by
  have hr : ReaderAt [] (Piece.layout [Piece.oneByte KCF_FILE_HEADER false 7])
      (.reading (.ofBytes (Piece.layout [Piece.oneByte KCF_FILE_HEADER false 7]))) :=
    ⟨Heap.grants_zeros, fun _ => rfl, rfl, rfl⟩
  have hcs : ∀ c ∈ [WriterCall.record Record.unsized, .data [8] 1, .finish], c.Proper := by
    decide +kernel
  obtain ⟨as, t, u, hreplies, hu, -, hwrites⟩ := writes_after_reading (a := []) rfl hr rfl
    (fun _ => rfl) (fun _ => rfl) [.record (some Record.zero), .added (some 4)]
  obtain ⟨rfl, rfl⟩ := Prod.mk.inj hreplies
  obtain ⟨v, front, hv, hfront, hwrites⟩ := hwrites rfl
  obtain ⟨k, hk, hat⟩ := hwrites _ hcs
  have hall : front = Piece.layout [Piece.oneByte KCF_FILE_HEADER false 7] := by
    rw [← List.append_nil front]
    exact hfront
  change k.stream.At (front ++ Draft.bytes ⟨[⟨Record.unsized.counted 1 0 [8], [8]⟩], none, 0, 0⟩)
    (List.drop _ []) at hat
  rw [hall, List.drop_nil] at hat
  exact ⟨_, u, v, k, hu, hv, hk, hat⟩

/-- After any read calls that end before a record, writing exactly as many bytes as some of the
next records take replaces these records: the archive is decoded with the others as they were and
with what was written between them, if and only if every header written tells how many bytes were
added. -/
theorem rewrites_in_place {a : List UInt8} (hp : kcf.parserState = .readRecordHeader)
    (h : ReaderAt a (Piece.layout ps) kcf) (h₀ : kcf.availableAddedData = 0)
    (hw : kcf.stream.WritesFully) (hs : kcf.stream.Seeks) {calls : List PlaybackCall}
    {as : List Observation} {t : Playback}
    (ht : replies playbackReply calls (.front kcf ps) = (as, t))
    (hstate : t.state = .readRecordHeader) {es : List KcfError} {d : Draft}
    (hcs : ∀ c ∈ cs, c.Proper)
    (hd : replies draftReply cs (.blank t.read t.declared) = (es, d)) (hclosed : d.current = none)
    {m : ℕ} (hlength : d.bytes.length = (Piece.layout (t.ahead.take m)).length) :
    ∃ u v k before b, answers playbackStep calls kcf = (as, .ok u) ∧
      u.startWriting = (.ok, v) ∧ answers writerStep cs v = (es, .ok k) ∧
      before ++ t.ahead = ps ∧ k.stream.bytes = a ++ b ∧
      ((∃ ss, decodeArchive b = some (before.map Stored.ofPiece ++
            (ss ++ (t.ahead.drop m).map Stored.ofPiece)) ∧
          ss.map (fun s => (s.record, s.added)) = d.closed.map Entry.asRead) ↔
        ∀ e ∈ d.closed, e.Tells) := by
  obtain ⟨u, hu, hplay⟩ := Playing.whole hp h h₀ calls
  have hahead := replies_ahead calls (.front kcf ps)
  rw [ht] at hahead
  obtain ⟨before, hbefore⟩ : t.ahead <:+ ps := hahead
  simp only [ht] at hu hplay
  obtain ⟨front, hfront, ho, hrest⟩ := hplay.resting hstate hw hs
  rw [List.append_nil] at hfront hrest
  obtain ⟨k, hk, hdraft⟩ := (hrest.drafted ho).answers hcs
  have hfits := Draft.fits_replies hcs t.read t.declared
  simp only [hd] at hk hdraft hfits
  -- what was read stays, and of what was ahead the first pieces are written over
  have hread : front = a ++ Piece.layout before := by
    rw [h.stream.bytes, ← hbefore, Piece.layout_append, ← List.append_assoc] at hfront
    exact List.append_cancel_right hfront
  have hsplit : Piece.layout t.ahead =
      Piece.layout (t.ahead.take m) ++ Piece.layout (t.ahead.drop m) := by
    rw [← Piece.layout_append, List.take_append_drop]
  have hbytes : k.stream.bytes =
      a ++ (Piece.layout before ++ (Entry.layout d.closed ++ Piece.layout (t.ahead.drop m))) := by
    rw [hdraft.stream.bytes, hlength, hsplit, List.drop_left, hread,
      Draft.bytes_of_closed hclosed]
    simp only [List.append_assoc]
  exact ⟨u, _, k, before, _, hu, hplay.startWriting.trans (if_pos hstate), hk, hbefore, hbytes,
    decodes_iff_tells hfits.closed ..⟩

theorem rewrites_in_place_four :
    ∃ (as : List Observation) (u v k : KCF) (ss : List Stored),
      answers playbackStep [.record (some Record.zero), .added (some 4)]
        (.reading (.ofBytes (Piece.layout ([6, 7, 8, 9].map (.oneByte KCF_FILE_HEADER false))))) =
          (as, .ok u) ∧
      u.startWriting = (.ok, v) ∧
      answers writerStep [.whole Record.zero (List.replicate 12 5)] v = ([.ok], .ok k) ∧
      decodeArchive k.stream.bytes = some ([Stored.ofPiece (.oneByte KCF_FILE_HEADER false 6)] ++
        (ss ++ [Stored.ofPiece (.oneByte KCF_FILE_HEADER false 9)])) ∧
      ss.map (fun s => (s.record, s.added)) =
        [Entry.asRead ⟨describeAddedData Record.zero (List.replicate 12 5),
          List.replicate 12 5⟩] := by
  have hr : ReaderAt [] (Piece.layout ([6, 7, 8, 9].map (.oneByte KCF_FILE_HEADER false)))
      (.reading (.ofBytes (Piece.layout ([6, 7, 8, 9].map (.oneByte KCF_FILE_HEADER false))))) :=
    ⟨Heap.grants_zeros, fun _ => rfl, rfl, rfl⟩
  have ht : replies playbackReply [.record (some Record.zero), .added (some 4)]
      (.front (.reading (.ofBytes
        (Piece.layout ([6, 7, 8, 9].map (.oneByte KCF_FILE_HEADER false)))))
        ([6, 7, 8, 9].map (.oneByte KCF_FILE_HEADER false))) = (_, _) := rfl
  have hcs : ∀ c ∈ [WriterCall.whole Record.zero (List.replicate 12 5)], c.Proper := by
    decide +kernel
  have hlength : (replies draftReply [.whole Record.zero (List.replicate 12 5)]
      (.blank 1 0)).2.bytes.length =
        (Piece.layout (([7, 8, 9].map (.oneByte KCF_FILE_HEADER false)).take 2)).length := by
    decide +kernel
  obtain ⟨u, v, k, before, b, hu, hv, hk, hbefore, hb, hiff⟩ :=
    rewrites_in_place (a := []) rfl hr rfl (fun _ => rfl) (fun _ => rfl) ht rfl hcs rfl rfl hlength
  obtain ⟨ss, hss, hmap⟩ := hiff.mpr (by decide +kernel)
  obtain rfl : before = [.oneByte KCF_FILE_HEADER false 6] :=
    List.append_cancel_right (hbefore.trans rfl)
  obtain rfl : k.stream.bytes = b := hb
  exact ⟨_, u, v, k, ss, hu, hv, hk, hss, hmap⟩

end Kcf
