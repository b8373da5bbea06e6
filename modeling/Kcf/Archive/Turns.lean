import Kcf.Archive.Written
import Kcf.Archive.Lifecycle

/-! # Reading and writing in turns

One handle reads an archive, goes over to writing where it stands, and back to
reading behind what it wrote, as often as its client likes. The calls are those
of a playback while it reads and those of a draft while it writes; a switch to
writing starts the draft on what the playback left, and a switch to reading
starts the playback on the records that the bytes behind the draft start with.
-/

namespace Kcf

open CallMachine

/-- The calls of a client that reads and writes records. -/
inductive TurnCall
  | read (c : PlaybackCall)
  | write (c : WriterCall)
  | startWriting

/-- Make a call: what it returns and the handle it leaves. -/
def turnStep : TurnCall → KCF → Exec (ReaderResult × KCF)
  | .read c, kcf => readerStep c.call kcf
  | .write c, kcf => (writerStep c kcf).map ofDone
  | .startWriting, kcf => .ok (ofDone kcf.startWriting)

/-- Make a call and look at the handle. -/
def observedTurn (c : TurnCall) (kcf : KCF) : Exec (Observation × KCF) :=
  (turnStep c kcf).map observe

namespace Draft

/-- Whether bytes are to be added or a record is to come. -/
def state (d : Draft) : ParserState :=
  if d.current.isSome then .writeAddedData else .writeRecord

/-- The checksum that is counted in the handle. -/
def declared (d : Draft) : UInt32 :=
  match d.current with
  | none => d.crc
  | some e => if recHasAddedDataCRC e.record then crc32c d.crc e.added else d.crc

/-- The size that the open record announces. -/
def announced (d : Draft) : UInt64 := (d.current.map fun e => e.record.addedSize).getD 0

end Draft

/-- A stream of these bytes that is read, with pieces ahead and something behind them; or one that
is written, with a draft between what comes before and what was ahead, and with the checksum of what
was read last. -/
inductive Turn
  | reading (bytes rest : List UInt8) (t : Playback)
  | writing (before ahead : List UInt8) (d : Draft) (actual : UInt32)

namespace Turn

/-- A handle in front of these bytes, behind those. -/
def opened (before ahead : List UInt8) (read : UInt64) (declared actual : UInt32) : Turn :=
  .reading (before ++ ahead) (decodeFront ahead).2
    ⟨.readRecordHeader, (decodeFront ahead).1.map Stored.toPiece, [], read, declared, actual⟩

/-- What is on the stream. -/
def bytes : Turn → List UInt8
  | .reading bytes _ _ => bytes
  | .writing before ahead d _ => before ++ d.bytes ++ ahead.drop d.bytes.length

/-- What a client sees when a call returns this. -/
def seen (T : Turn) (result : ReaderResult) : Observation × Turn :=
  match T with
  | .reading _ _ t => ((t.seen result).1, T)
  | .writing _ _ d actual => (⟨result, d.state, d.declared, actual⟩, T)

/-- Go over to writing, in front of the pieces that were not read. -/
def startWriting : Turn → Observation × Turn
  | .reading bytes rest t =>
    let ahead := Piece.layout t.ahead ++ rest
    if t.state = .readRecordHeader then
      (writing (bytes.take (bytes.length - ahead.length)) ahead (.blank t.read t.declared)
        t.actual).seen (.done .ok)
    else (reading bytes rest t).seen (.done .invalidState)
  | T => T.seen (.done .ok)

/-- Read, where the handle reads; start to read behind the draft, where it writes. -/
def read (c : PlaybackCall) : Turn → Observation × Turn
  | .reading bytes rest t =>
    let (o, t) := playbackReply c t
    (o, .reading bytes rest t)
  | .writing before ahead d actual =>
    let T := Turn.writing before ahead d actual
    match c with
    | .record none => T.seen (.record .invalidParameter none)
    | .record (some R) => T.seen (.record .invalidState (some R))
    | .added none => T.seen (.addedData .invalidParameter [] none)
    | .added (some _) => T.seen (.addedData .invalidState [] none)
    | .available => T.seen (.available (d.announced ≠ 0))
    | .start =>
      let d := d.finished
      (opened (before ++ d.bytes) (ahead.drop d.bytes.length) d.size d.crc actual).seen
        (.done .ok)

def write (c : WriterCall) : Turn → Observation × Turn
  | .writing before ahead d actual =>
    let (e, d) := draftReply c d
    (writing before ahead d actual).seen (.done e)
  | T => T.seen (.done .invalidState)

end Turn

/-- A call on an archive that is read and written in turns. -/
def turnReply : TurnCall → Turn → Observation × Turn
  | .read c, T => T.read c
  | .write c, T => T.write c
  | .startWriting, T => T.startWriting

/-- What is written fits, and a record is asked for where there is one, or nothing. -/
def Turn.Takes : TurnCall → Turn → Prop
  | .write c, _ => c.Proper
  | .read (.record (some _)), .reading _ rest t => rest = [] ∨ t.ahead ≠ []
  | _, _ => True

instance : (c : TurnCall) → (T : Turn) → Decidable (T.Takes c)
  | .write c, _ => inferInstanceAs (Decidable c.Proper)
  | .read (.record (some _)), .reading _ rest t =>
    inferInstanceAs (Decidable (rest = [] ∨ t.ahead ≠ []))
  | .read (.record (some _)), .writing .. => .isTrue trivial
  | .read (.record none), _ => .isTrue trivial
  | .read (.added _), _ => .isTrue trivial
  | .read .available, _ => .isTrue trivial
  | .read .start, _ => .isTrue trivial
  | .startWriting, _ => .isTrue trivial

/-- Each of the calls is made where it may be. -/
def Turn.Admits : List TurnCall → Turn → Prop
  | [], _ => True
  | c :: cs, T => T.Takes c ∧ Admits cs (turnReply c T).2

instance Turn.decidableAdmits : (cs : List TurnCall) → (T : Turn) → Decidable (T.Admits cs)
  | [], _ => .isTrue trivial
  | c :: cs, T => @instDecidableAnd _ _ _ (Turn.decidableAdmits cs (turnReply c T).2)

def IOStream.Flushes (s : IOStream) : Prop := ∀ i, s.flushes i = .done

namespace KCF

variable {u v k kcf : KCF} {e : KcfError}

/-- The stream's reads and flushes go as before, and the checksum of what was read is kept. -/
structure SparesReading (u v : KCF) : Prop where
  reads : v.stream.reads = u.stream.reads
  flushes : v.stream.flushes = u.stream.flushes
  actual : v.actualAddedDataCRC32 = u.actualAddedDataCRC32

theorem SparesReading.refl (u : KCF) : u.SparesReading u := ⟨rfl, rfl, rfl⟩

theorem SparesReading.trans (h : u.SparesReading v) (h' : v.SparesReading k) : u.SparesReading k :=
  ⟨h'.reads.trans h.reads, h'.flushes.trans h.flushes, h'.actual.trans h.actual⟩

theorem Finish.sparesReading (h : kcf.Finish e v) : kcf.SparesReading v := by
  cases h with
  | refused | kept | seekFailed | noMemory | writeFailed => exact ⟨rfl, rfl, rfl⟩
  | patched =>
    have hback (s : IOStream) (offset : ℕ) : (ioSeek s offset).2.reads = s.reads ∧
        (ioSeek s offset).2.flushes = s.flushes := by
      unfold ioSeek
      split <;> exact ⟨rfl, rfl⟩
    exact ⟨(hback ..).1, (hback ..).2, rfl⟩

theorem Accept.sparesReading (h : kcf.Accept e v) : kcf.SparesReading v := by
  cases h with
  | refused | started | idle => exact ⟨rfl, rfl, rfl⟩
  | finished _ hf => exact hf.sparesReading

theorem WriteRecord.sparesReading {R R' : Record} (h : kcf.WriteRecord R e v R') :
    kcf.SparesReading v := by
  cases h with
  | refused ha => exact ha.sparesReading
  | noMemory ha | failed ha => exact ha.sparesReading.trans ⟨rfl, rfl, rfl⟩
  | @written k ha =>
    have hplaced : k.SparesReading (k.placed (recFix R)) := ⟨rfl, rfl, rfl⟩
    refine ha.sparesReading.trans (hplaced.trans ⟨?_, ?_, ?_⟩)
    · rw [saveRecord_stream]
    · rw [saveRecord_stream]
    · unfold saveRecord
      dsimp only
      split <;> rfl

theorem writerStep_sparesReading {c : WriterCall} (h : writerStep c u = .ok (e, v)) :
    u.SparesReading v := by
  cases c with
  | record R =>
    obtain ⟨⟨e', k, R'⟩, hr, hk⟩ := Exec.bind_ok h
    cases hk
    exact (writeRecord_of_eq hr).sparesReading
  | whole R D =>
    obtain ⟨⟨e', k, R'⟩, hr, hk⟩ := Exec.bind_ok h
    cases hk
    cases writeWhole_of_eq hr with
    | refused ha => exact ha.sparesReading
    | noMemory ha | headerFailed ha | dataFailed ha | written ha =>
      exact ha.sparesReading.trans ⟨rfl, rfl, rfl⟩
  | data addedData size =>
    cases writeData_of_eq h with
    | refused | exhausted | failed | added => exact ⟨rfl, rfl, rfl⟩
  | finish => exact (finish_of_eq h).sparesReading

/-- The handle about to read behind what it wrote. -/
def turned (kcf : KCF) : KCF :=
  { kcf with
    stream := { kcf.stream with flushes := fun i => kcf.stream.flushes (i + 1) }
    parserState := .readRecordHeader }

theorem flushed_of_done {kcf : KCF} (h : kcf.stream.flushes 0 = .done) :
    startReading.flushed kcf = (.ok, kcf.turned) := by
  unfold startReading.flushed ioFlush
  rw [h]
  rfl

end KCF

/-- The handle stands where the turn says, on a stream on which everything goes through. -/
inductive Turning : Turn → KCF → Prop
  | reading {s : IOStream} {rest : List UInt8} {t : Playback} {kcf : KCF} :
      Playing s rest t kcf → s.WritesFully → s.Seeks → s.Flushes →
      Turning (.reading s.bytes rest t) kcf
  | writing {before ahead : List UInt8} {d : Draft} {kcf : KCF} :
      Drafted before ahead d kcf → kcf.stream.ReadsFully → kcf.stream.Flushes →
      Turning (.writing before ahead d kcf.actualAddedDataCRC32) kcf

namespace Drafted

variable {a b : List UInt8} {d : Draft} {kcf : KCF}

theorem parserState (h : Drafted a b d kcf) : kcf.parserState = d.state := by
  cases h with
  | between _ hi => exact hi.state
  | within _ _ hs => exact hs.state

theorem declared (h : Drafted a b d kcf) : kcf.addedDataCRC32 = d.declared := by
  cases h with
  | between _ hi => exact hi.crc
  | within _ _ hs => exact hs.crc

theorem announced (h : Drafted a b d kcf) : kcf.availableAddedData = d.announced := by
  cases h with
  | between _ hi => exact hi.bound
  | within _ _ hs => exact hs.bound

theorem obliging (h : Drafted a b d kcf) : kcf.Obliging := by
  cases h with
  | between ho => exact ho
  | within ho => exact ho

theorem ne_of_reads (h : Drafted a b d kcf) {x : ParserState}
    (hx : x ≠ .writeRecord ∧ x ≠ .writeAddedData) : kcf.parserState ≠ x := by
  rw [h.parserState, Draft.state]
  split
  · exact hx.2.symm
  · exact hx.1.symm

theorem startWriting (h : Drafted a b d kcf) : kcf.startWriting = (.ok, kcf) := by
  have hs := h.parserState
  unfold KCF.startWriting
  unfold Draft.state at hs
  split at hs <;> rw [hs]

theorem resting (h : Drafted a b d kcf) (hd : d.current = none) :
    Resting d.size d.crc (a ++ d.bytes) (b.drop d.bytes.length) kcf := by
  cases h with
  | between _ hi => rwa [Draft.bytes_of_closed rfl]
  | within => cases hd

theorem startReading (h : Drafted a b d kcf) :
    ∃ k, kcf.startReading = .ok (KCF.startReading.flushed k) ∧ kcf.SparesReading k ∧
      Drafted a b d.finished k := by
  have hstate := h.parserState
  obtain ⟨closed, _ | e, w, c⟩ := d
  · refine ⟨kcf, ?_, .refl kcf, h⟩
    unfold KCF.startReading
    rw [hstate]
    rfl
  · obtain ⟨k, hk, hd⟩ := h.finish
    refine ⟨k, ?_, KCF.writerStep_sparesReading hk, hd⟩
    have hfinish : kcf.finishAddedData = .ok (.ok, k) := hk
    unfold KCF.startReading
    rw [hstate]
    dsimp only [Draft.state, Option.isSome_some, if_true]
    rw [hfinish]
    rfl

end Drafted

namespace Turning

variable {T T' : Turn} {kcf k : KCF} {result : ReaderResult} {c : TurnCall}

theorem observe_eq (h : Turning T kcf) (result : ReaderResult) :
    observe (result, kcf) = ((T.seen result).1, kcf) := by
  cases h with
  | reading hp => rw [observe, hp.state, hp.declared, hp.actual]; rfl
  | writing hd => rw [observe, hd.parserState, hd.declared]; rfl

theorem bytes_eq (h : Turning T kcf) : kcf.stream.bytes = T.bytes := by
  cases h with
  | reading hp => exact hp.readOn.bytes
  | writing hd => exact hd.stream.bytes

theorem simulates (hk : turnStep c kcf = .ok (result, k)) (ht : turnReply c T = T'.seen result)
    (h : Turning T' k) : Simulates observedTurn turnReply Turning c T kcf := by
  have hseen : (T'.seen result).2 = T' := by cases T' <;> rfl
  refine ⟨k, ?_, by rwa [ht, hseen]⟩
  rw [observedTurn, hk, ht]
  exact congrArg Except.ok (h.observe_eq result)

theorem opened {a b : List UInt8} (hp : kcf.parserState = .readRecordHeader)
    (h : ReaderAt a b kcf) (h₀ : kcf.availableAddedData = 0) (hw : kcf.stream.WritesFully)
    (hs : kcf.stream.Seeks) (hf : kcf.stream.Flushes) :
    Turning (.opened a b kcf.addedDataAlreadyRead kcf.addedDataCRC32 kcf.actualAddedDataCRC32)
      kcf := by
  obtain ⟨hsplit, -⟩ := decodeFront_eq_iff.mp (Prod.eta (decodeFront b)).symm
  have hstart := h
  rw [← hsplit] at hstart
  rw [Turn.opened, ← h.stream.bytes]
  exact .reading (Playing.front hp hstart h₀) hw hs hf

theorem read_reading {s : IOStream} {rest : List UInt8} {t : Playback} (h : Playing s rest t kcf)
    (hw : s.WritesFully) (hs : s.Seeks) (hf : s.Flushes) {c : PlaybackCall}
    (hc : (Turn.reading s.bytes rest t).Takes (.read c)) :
    Simulates observedTurn turnReply Turning (.read c) (.reading s.bytes rest t) kcf := by
  have hknown : Playing.Known rest [c] t := by
    cases c with
    | record R =>
      cases R with
      | none => exact .inr (Nat.zero_le _)
      | some R => exact hc.imp_right List.length_pos_iff.mpr
    | added | available | start => exact .inr (Nat.zero_le _)
  obtain ⟨k, hk, hplay⟩ := h.step hknown
  exact ⟨k, hk, .reading hplay hw hs hf⟩

theorem startWriting_reading {s : IOStream} {rest : List UInt8} {t : Playback}
    (h : Playing s rest t kcf) (hw : s.WritesFully) (hs : s.Seeks) (hf : s.Flushes) :
    Simulates observedTurn turnReply Turning .startWriting (.reading s.bytes rest t) kcf := by
  have hstart := h.startWriting
  by_cases hstate : t.state = .readRecordHeader
  · rw [if_pos hstate] at hstart
    obtain ⟨a, ha, ho, hrest⟩ := h.resting hstate hw hs
    have hflush : kcf.stream.Flushes := fun i => (congrFun h.readOn.flushes i).trans (hf i)
    have hwriting : Turning _ (kcf.setState .writeRecord) :=
      .writing (hrest.drafted ho) h.reads hflush
    refine simulates (congrArg (Except.ok ∘ ofDone) hstart) ?_ hwriting
    have htake : s.bytes.take (s.bytes.length - (Piece.layout t.ahead ++ rest).length) = a := by
      rw [← ha, List.length_append, Nat.add_sub_cancel, List.take_left]
    refine (if_pos hstate).trans ?_
    rw [htake, ← h.actual]
    rfl
  · rw [if_neg hstate] at hstart
    refine simulates (congrArg (Except.ok ∘ ofDone) hstart) ?_ (.reading h hw hs hf)
    exact if_neg hstate

theorem write_reading {s : IOStream} {rest : List UInt8} {t : Playback}
    (h : Playing s rest t kcf) (hw : s.WritesFully) (hs : s.Seeks) (hf : s.Flushes)
    (c : WriterCall) :
    Simulates observedTurn turnReply Turning (.write c) (.reading s.bytes rest t) kcf := by
  have hrefused : ¬ kcf.parserState.Writes := by
    rw [h.state]
    rcases h.reading with ht | ht | ht <;> rw [ht] <;> decide
  exact simulates (congrArg (Except.map ofDone) (KCF.writerStep_of_not_writes hrefused c)) rfl
    (.reading h hw hs hf)

theorem write_writing {a b : List UInt8} {d : Draft} (h : Drafted a b d kcf)
    (hr : kcf.stream.ReadsFully) (hf : kcf.stream.Flushes) {c : WriterCall} (hc : c.Proper) :
    Simulates observedTurn turnReply Turning (.write c)
      (.writing a b d kcf.actualAddedDataCRC32) kcf := by
  obtain ⟨k, hk, hd⟩ := h.step hc
  have hspares := KCF.writerStep_sparesReading hk
  have hreads : k.stream.ReadsFully := fun i => (congrFun hspares.reads i).trans (hr i)
  have hflushes : k.stream.Flushes := fun i => (congrFun hspares.flushes i).trans (hf i)
  refine simulates (congrArg (Except.map ofDone) hk) ?_ (.writing hd hreads hflushes)
  rw [hspares.actual]
  rfl

theorem startWriting_writing {a b : List UInt8} {d : Draft} (h : Drafted a b d kcf)
    (hr : kcf.stream.ReadsFully) (hf : kcf.stream.Flushes) :
    Simulates observedTurn turnReply Turning .startWriting
      (.writing a b d kcf.actualAddedDataCRC32) kcf :=
  simulates (congrArg (Except.ok ∘ ofDone) h.startWriting) rfl (.writing h hr hf)

theorem start_writing {a b : List UInt8} {d : Draft} (h : Drafted a b d kcf)
    (hr : kcf.stream.ReadsFully) (hf : kcf.stream.Flushes) :
    Simulates observedTurn turnReply Turning (.read .start)
      (.writing a b d kcf.actualAddedDataCRC32) kcf := by
  obtain ⟨k, hk, hspares, hd⟩ := h.startReading
  have hnone : d.finished.current = none := by
    obtain ⟨closed, _ | e, w, c⟩ := d <;> rfl
  have hrest := hd.resting hnone
  have ho := hd.obliging
  have hflushes : k.stream.Flushes := fun i => (congrFun hspares.flushes i).trans (hf i)
  rw [KCF.flushed_of_done (hflushes 0)] at hk
  have hat : ReaderAt (a ++ d.finished.bytes) (b.drop d.finished.bytes.length) k.turned :=
    ⟨ho.grants, fun i => (congrFun hspares.reads i).trans (hr i), hrest.stream.bytes,
      hrest.stream.pos⟩
  have hstate : k.turned.parserState = .readRecordHeader := rfl
  have hopened := opened hstate hat hrest.bound ho.writes ho.seeks fun i => hflushes (i + 1)
  refine simulates (congrArg (Except.map ofDone) hk) ?_ hopened
  change (Turn.opened _ _ _ _ _).seen _ = (Turn.opened _ _ k.writtenAddedData k.addedDataCRC32
    k.actualAddedDataCRC32).seen _
  rw [hrest.written, hrest.crc, hspares.actual]

theorem read_writing {a b : List UInt8} {d : Draft} (h : Drafted a b d kcf)
    (hr : kcf.stream.ReadsFully) (hf : kcf.stream.Flushes) (c : PlaybackCall) :
    Simulates observedTurn turnReply Turning (.read c)
      (.writing a b d kcf.actualAddedDataCRC32) kcf := by
  have hsame : Turning (.writing a b d kcf.actualAddedDataCRC32) kcf := .writing h hr hf
  cases c with
  | record R =>
    cases R with
    | none => exact simulates rfl rfl hsame
    | some R =>
      have hk := KCF.readRecord_of_ne (h.ne_of_reads (by decide)) R
      exact simulates (congrArg (Except.ok ∘ ofRecord) hk) rfl hsame
  | added n =>
    cases n with
    | none => exact simulates rfl rfl hsame
    | some n =>
      have hk := KCF.readAddedData_of_ne (h.ne_of_reads (by decide)) n
      exact simulates (congrArg (Except.map ofAddedData) hk) rfl hsame
  | available =>
    have hk : kcf.isAddedDataAvailable = decide (d.announced ≠ 0) := by
      rw [KCF.isAddedDataAvailable, h.announced, decide_eq_decide]
      exact UInt64.pos_iff_ne_zero
    refine simulates ?_ rfl hsame
    rw [turnStep, PlaybackCall.call, readerStep, hk]
  | start => exact start_writing h hr hf

theorem step (c : TurnCall) (hc : T.Takes c) (h : Turning T kcf) :
    Simulates observedTurn turnReply Turning c T kcf := by
  cases h with
  | reading hp hw hs hf =>
    cases c with
    | read c => exact read_reading hp hw hs hf hc
    | write c => exact write_reading hp hw hs hf c
    | startWriting => exact startWriting_reading hp hw hs hf
  | writing hd hr hf =>
    cases c with
    | read c => exact read_writing hd hr hf c
    | write c => exact write_writing hd hr hf hc
    | startWriting => exact startWriting_writing hd hr hf

theorem answers {cs : List TurnCall} (hcs : T.Admits cs) (h : Turning T kcf) :
    ∃ k, CallMachine.answers observedTurn cs kcf = ((replies turnReply cs T).1, .ok k) ∧
      Turning (replies turnReply cs T).2 k :=
  answers_of_simulates_while (P := Turn.Admits) (fun _ _ _ ha => ha.2)
    (fun _ _ _ _ ha ht => ht.step _ ha.1) hcs h

end Turning

/-- One handle, any list of calls: what a client sees who reads records, goes over to writing where
the reader stands, writes records over what was ahead and goes back to reading behind them, in any
order and with any calls that are refused, is what the turns show, and they show what is on the
stream. -/
theorem archive_in_turns {T : Turn} {kcf : KCF} (h : Turning T kcf) {cs : List TurnCall}
    (hcs : T.Admits cs) :
    ∃ as U k, replies turnReply cs T = (as, U) ∧ answers observedTurn cs kcf = (as, .ok k) ∧
      k.stream.bytes = U.bytes := by
  obtain ⟨k, hk, hend⟩ := h.answers hcs
  exact ⟨_, _, k, rfl, hk, hend.bytes_eq⟩

/-- Of four records with a byte each the first is read, the next two are replaced by one, and the
last is read behind it. -/
theorem archive_in_turns_four :
    ∃ as U k, answers observedTurn
        [.read (.record (some Record.zero)), .read (.added (some 4)), .startWriting,
          .write (.whole Record.zero (List.replicate 12 5)), .read .start,
          .read (.record (some Record.zero)), .read (.added (some 4))]
        (.reading (.ofBytes (Piece.layout ([6, 7, 8, 9].map (.oneByte KCF_FILE_HEADER false))))) =
          (as, .ok k) ∧
      replies turnReply
        [.read (.record (some Record.zero)), .read (.added (some 4)), .startWriting,
          .write (.whole Record.zero (List.replicate 12 5)), .read .start,
          .read (.record (some Record.zero)), .read (.added (some 4))]
        (.opened [] (Piece.layout ([6, 7, 8, 9].map (.oneByte KCF_FILE_HEADER false))) 0 0 0) =
          (as, U) ∧
      k.stream.bytes = U.bytes := by
  have hr : ReaderAt [] (Piece.layout ([6, 7, 8, 9].map (.oneByte KCF_FILE_HEADER false)))
      (.reading (.ofBytes (Piece.layout ([6, 7, 8, 9].map (.oneByte KCF_FILE_HEADER false))))) :=
    ⟨Heap.grants_zeros, fun _ => rfl, rfl, rfl⟩
  have hcs : (Turn.opened [] (Piece.layout ([6, 7, 8, 9].map (.oneByte KCF_FILE_HEADER false)))
      0 0 0).Admits [.read (.record (some Record.zero)), .read (.added (some 4)), .startWriting,
        .write (.whole Record.zero (List.replicate 12 5)), .read .start,
        .read (.record (some Record.zero)), .read (.added (some 4))] := by
    decide +kernel
  obtain ⟨as, U, k, hU, hk, hb⟩ := archive_in_turns
    (.opened rfl hr rfl (fun _ => rfl) (fun _ => rfl) fun _ => rfl) hcs
  exact ⟨as, U, k, hk, hU, hb⟩

namespace Draft

variable {d : Draft}

theorem closed_prefix_finished (d : Draft) : d.closed <+: d.finished.closed := by
  obtain ⟨closed, _ | e, w, crc⟩ := d
  · exact List.prefix_rfl
  · exact List.prefix_append ..

theorem closed_prefix_reply (c : WriterCall) (d : Draft) :
    d.closed <+: (draftReply c d).2.closed := by
  cases c with
  | record R =>
    refine d.closed_prefix_finished.trans ?_
    change _ <+: (d.finished.record R).closed
    unfold Draft.record
    split
    · exact List.prefix_rfl
    · exact List.prefix_append ..
  | whole R D => exact d.closed_prefix_finished.trans (List.prefix_append ..)
  | data D size =>
    obtain ⟨closed, _ | e, w, crc⟩ := d <;> exact List.prefix_rfl
  | finish =>
    obtain ⟨closed, _ | e, w, crc⟩ := d
    · exact List.prefix_rfl
    · exact List.prefix_append ..

theorem layout_closed_prefix (d : Draft) : Entry.layout d.closed <+: d.bytes := by
  rw [Draft.bytes, Entry.layout_append]
  exact List.prefix_append ..

end Draft

theorem Entry.layout_prefix {es fs : List Entry} (h : es <+: fs) : layout es <+: layout fs := by
  obtain ⟨gs, rfl⟩ := h
  rw [Entry.layout_append]
  exact List.prefix_append ..

theorem playbackReply_length (c : PlaybackCall) (t : Playback) :
    (playbackReply c t).2.left.length + (Piece.layout (playbackReply c t).2.ahead).length ≤
      t.left.length + (Piece.layout t.ahead).length := by
  cases c with
  | record R =>
    cases R with
    | none => exact le_rfl
    | some R =>
      unfold playbackReply
      dsimp only
      split
      · unfold Playback.record
        cases ht : t.ahead with
        | nil => simp [Playback.seen, Playback.beyond]
        | cons p ps =>
          rw [Piece.layout_cons, Piece.bytes, List.length_append, List.length_append]
          change p.added.length + (Piece.layout ps).length ≤ _
          omega
      · exact le_rfl
  | added n =>
    cases n with
    | none => exact le_rfl
    | some n =>
      unfold playbackReply
      dsimp only
      split
      · change (t.left.drop n).length + _ ≤ _
        rw [List.length_drop]
        exact Nat.add_le_add_right (Nat.sub_le ..) _
      · exact le_rfl
  | available => exact le_rfl
  | start => exact le_rfl

namespace Turn

/-- The bytes of the records that the handle passed or finished. -/
def past : Turn → List UInt8
  | .reading bytes rest t =>
    bytes.take (bytes.length - (t.left ++ (Piece.layout t.ahead ++ rest)).length)
  | .writing before _ d _ => before ++ Entry.layout d.closed

theorem past_prefix_bytes (T : Turn) : T.past <+: T.bytes := by
  cases T with
  | reading bytes rest t => exact List.take_prefix ..
  | writing before ahead d actual =>
    rw [past, bytes, List.append_assoc]
    exact (List.prefix_append_right_inj _).mpr
      (d.layout_closed_prefix.trans (List.prefix_append ..))

theorem past_opened (a b : List UInt8) (w : UInt64) (c actual : UInt32) :
    (opened a b w c actual).past = a := by
  obtain ⟨hsplit, -⟩ := decodeFront_eq_iff.mp (Prod.eta (decodeFront b)).symm
  rw [opened, past]
  dsimp only
  rw [List.nil_append, hsplit, List.length_append, Nat.add_sub_cancel, List.take_left]

/-- No call brings back what is past. -/
theorem past_prefix_reply (c : TurnCall) (T : Turn) : T.past <+: (turnReply c T).2.past := by
  cases T with
  | reading bytes rest t =>
    cases c with
    | read c =>
      have hlength := playbackReply_length c t
      have hreply : (turnReply (.read c) (.reading bytes rest t)).2 =
          .reading bytes rest (playbackReply c t).2 := rfl
      rw [hreply, past, past]
      refine List.take_prefix_take_left ?_
      simp only [List.length_append]
      omega
    | write c => exact List.prefix_rfl
    | startWriting =>
      unfold turnReply Turn.startWriting
      dsimp only
      split
      · change List.take _ _ <+: List.take _ _ ++ []
        rw [List.append_nil]
        refine List.take_prefix_take_left ?_
        simp only [List.length_append]
        omega
      · exact List.prefix_rfl
  | writing before ahead d actual =>
    cases c with
    | read c =>
      cases c with
      | record R => cases R <;> exact List.prefix_rfl
      | added n => cases n <;> exact List.prefix_rfl
      | available => exact List.prefix_rfl
      | start =>
        change _ <+: (opened (before ++ d.finished.bytes) _ _ _ _).past
        rw [past_opened, past, List.prefix_append_right_inj]
        exact (Entry.layout_prefix d.closed_prefix_finished).trans d.finished.layout_closed_prefix
    | write c =>
      change before ++ _ <+: before ++ _
      rw [List.prefix_append_right_inj]
      exact Entry.layout_prefix (d.closed_prefix_reply c)
    | startWriting => exact List.prefix_rfl

end Turn

theorem Turning.past_eq {T : Turn} {kcf : KCF} (h : Turning T kcf)
    (hp : kcf.parserState ≠ .writeAddedData) : T.past = kcf.stream.behind := by
  cases h with
  | @reading s rest t _ hplay =>
    obtain ⟨a, hat⟩ := hplay.stream
    rw [Turn.past, ← hplay.readOn.bytes, hat.bytes, hat.behind_eq, List.length_append,
      Nat.add_sub_cancel, List.take_left]
  | @writing a b d _ hd =>
    cases hd with
    | between _ hi => rw [Turn.past, hi.stream.behind_eq]
    | within _ _ hs => exact absurd hs.state hp

/-- Whatever is called in turns, the bytes behind the handle stay as they are; where a record is
open for added data, those before it do. -/
theorem archive_keeps_past {T : Turn} {kcf : KCF} (h : Turning T kcf) {cs : List TurnCall}
    (hcs : T.Admits cs) :
    ∃ as k, answers observedTurn cs kcf = (as, .ok k) ∧ T.past <+: k.stream.bytes ∧
      (kcf.parserState ≠ .writeAddedData → kcf.stream.behind <+: k.stream.bytes) := by
  obtain ⟨k, hk, hend⟩ := h.answers hcs
  have hpast : T.past <+: (replies turnReply cs T).2.past :=
    replies_invariant (I := fun U : Turn => T.past <+: U.past) (P := fun _ => True)
      (fun c U _ hU => hU.trans (U.past_prefix_reply c)) (fun _ _ => trivial) List.prefix_rfl
  have hbytes : T.past <+: k.stream.bytes := by
    rw [hend.bytes_eq]
    exact hpast.trans (Turn.past_prefix_bytes _)
  exact ⟨_, k, hk, hbytes, fun hp => h.past_eq hp ▸ hbytes⟩

theorem archive_keeps_past_second :
    ∃ as k, answers observedTurn
        [.startWriting, .write (.record Record.unsized), .write (.data [1, 2] 2), .read .start,
          .startWriting, .write (.whole Record.zero [3])]
        (.reading ((IOStream.ofBytes
          (Piece.layout ([6, 7].map (.oneByte KCF_FILE_HEADER false)))).advanced 11)) =
          (as, .ok k) ∧
      Piece.layout [.oneByte KCF_FILE_HEADER false 6] <+: k.stream.bytes := by
  have hr : ReaderAt (Piece.layout [.oneByte KCF_FILE_HEADER false 6])
      (Piece.layout [.oneByte KCF_FILE_HEADER false 7])
      (.reading ((IOStream.ofBytes
        (Piece.layout ([6, 7].map (.oneByte KCF_FILE_HEADER false)))).advanced 11)) :=
    ⟨Heap.grants_zeros, fun _ => rfl, rfl, rfl⟩
  have hcs : (Turn.opened (Piece.layout [.oneByte KCF_FILE_HEADER false 6])
      (Piece.layout [.oneByte KCF_FILE_HEADER false 7]) 0 0 0).Admits
      [.startWriting, .write (.record Record.unsized), .write (.data [1, 2] 2), .read .start,
        .startWriting, .write (.whole Record.zero [3])] := by
    decide +kernel
  obtain ⟨as, k, hk, -, hb⟩ := archive_keeps_past
    (.opened rfl hr rfl (fun _ => rfl) (fun _ => rfl) fun _ => rfl) hcs
  exact ⟨as, k, hk, hr.stream.behind_eq ▸ hb (by decide)⟩

end Kcf
