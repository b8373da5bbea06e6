import Kcf.Archive.Decoding
import Kcf.Library.Simulation
import Kcf.Reader.Frame
import Kcf.Reader.Skip

/-! # Playing an archive back

What the read calls are for: they go through pieces one after the other, the
record of each first and then what is added to it, in portions of the caller's
size. On a stream that holds pieces and delivers all its bytes the reader does
exactly that, in whatever order its calls come. It is stranded behind a piece
that announces added data and has none, and it ends up in a state of its own
when a record is asked for behind the last piece. A stream that was cut off, or
has something else behind its records, still gives the records that it holds
whole. Skipping what is left of the added data passes it on the stream and
nowhere else: the reader goes on to take for it what stands behind it.
-/

namespace Kcf

open CallMachine

/-- The calls of a reader that skips nothing; a null pointer is `none`. -/
inductive PlaybackCall
  | record (R : Option Record)
  | added (bufferSize : Option ℕ)
  | available
  | start

/-- The call of the library behind it. -/
def PlaybackCall.call : PlaybackCall → ReaderCall
  | record R => .readRecord R
  | added bufferSize => .readAddedData bufferSize
  | available => .isAddedDataAvailable
  | start => .startReading

/-- Make a call and look at the handle. -/
def playbackStep (c : PlaybackCall) (kcf : KCF) : Exec (Observation × KCF) :=
  observedStep c.call kcf

/-- Where a reader of pieces stands: the pieces ahead, what is left to deliver of the piece before
them and how much was delivered, and the two checksums of its added data, the declared one and the
one of what was delivered. -/
structure Playback where
  state : ParserState
  ahead : List Piece
  left : List UInt8
  read : UInt64
  declared : UInt32
  actual : UInt32

namespace Playback

/-- A handle in front of these pieces. -/
def front (kcf : KCF) (ps : List Piece) : Playback where
  state := .readRecordHeader
  ahead := ps
  left := []
  read := kcf.addedDataAlreadyRead
  declared := kcf.addedDataCRC32
  actual := kcf.actualAddedDataCRC32

/-- What a client sees when a call returns this and the reader stands there. -/
def seen (t : Playback) (result : ReaderResult) : Observation × Playback :=
  (⟨result, t.state, t.declared, t.actual⟩, t)

/-- The reader past a record, before what is added to it. -/
def past (p : Piece) (ps : List Piece) : Playback where
  state := if recHasAddedSize p.record then .readAddedData else .readRecordHeader
  ahead := ps
  left := p.added
  read := 0
  declared := p.record.shown.addedDataCRC32
  actual := 0

/-- The reader when it asked for a record that is not there. -/
def beyond : Playback := ⟨.readRecordData, [], [], 0, 0, 0⟩

/-- The record that is left of one that is not there: six bytes of header in a size of zero. -/
def nothing : Record := Record.zero.withNull (2 ^ 64 - 6)

/-- Ask for the next record. -/
def record (t : Playback) : Observation × Playback :=
  match t.ahead with
  | [] => beyond.seen (.record .outOfMemory (some nothing))
  | p :: ps => (past p ps).seen (.record .ok (some p.record.shown))

/-- The reader after so many bytes were delivered of what is left. -/
def passed (t : Playback) (n : ℕ) : Playback where
  state := if t.left ≠ [] ∧ t.left.drop n = [] then .readRecordHeader else t.state
  ahead := t.ahead
  left := t.left.drop n
  read := t.read + UInt64.ofNat (t.left.take n).length
  declared := t.declared
  actual := crc32c t.actual (t.left.take n)

/-- Ask for so many bytes of added data. -/
def added (t : Playback) (n : ℕ) : Observation × Playback :=
  (t.passed n).seen (.addedData .ok (t.left.take n) (some (t.left.take n).length))

end Playback

open Playback in
/-- A call on a playback: what the client sees, and where the reader stands afterwards. -/
def playbackReply (c : PlaybackCall) (t : Playback) : Observation × Playback :=
  match c with
  | .record none => t.seen (.record .invalidParameter none)
  | .record (some R) =>
    if t.state = .readRecordHeader then t.record else t.seen (.record .invalidState (some R))
  | .added none => t.seen (.addedData .invalidParameter [] none)
  | .added (some n) =>
    if t.state = .readAddedData then t.added n else t.seen (.addedData .invalidState [] none)
  | .available => t.seen (.available (t.left ≠ []))
  | .start => t.seen (.done .ok)

def PlaybackCall.asks (c : PlaybackCall) : Bool := c matches .record (some _)

theorem playbackReply_ahead (c : PlaybackCall) (t : Playback) : (playbackReply c t).2.ahead =
    if c.asks ∧ t.state = .readRecordHeader then t.ahead.tail else t.ahead := by
  cases c with
  | record R =>
    cases R with
    | none => rfl
    | some R =>
      have hasks : (PlaybackCall.record (some R)).asks = true := rfl
      unfold playbackReply
      simp only [hasks, true_and]
      split
      · unfold Playback.record
        cases t.ahead <;> rfl
      · rfl
  | added n =>
    cases n with
    | none => rfl
    | some n =>
      unfold playbackReply
      dsimp only
      split <;> rfl
  | available => rfl
  | start => rfl

theorem replies_ahead (cs : List PlaybackCall) (t : Playback) :
    (replies playbackReply cs t).2.ahead <:+ t.ahead := by
  refine replies_invariant (I := fun u : Playback => u.ahead <:+ t.ahead) (P := fun _ => True)
    (fun c u _ hu => ?_) (fun _ _ => trivial) List.suffix_rfl
  rw [playbackReply_ahead]
  split
  · exact (List.tail_suffix _).trans hu
  · exact hu

theorem countP_asks_next {c : PlaybackCall} {cs : List PlaybackCall} {t : Playback}
    (h : (c :: cs).countP PlaybackCall.asks ≤ t.ahead.length) :
    cs.countP PlaybackCall.asks ≤ (playbackReply c t).2.ahead.length := by
  rw [List.countP_cons] at h
  rw [playbackReply_ahead]
  split
  · rename_i hc
    rw [if_pos hc.1] at h
    rw [List.length_tail]
    omega
  · omega

/-- The handle stands where the playback says, after some reads from this stream; these bytes follow
the pieces. -/
structure Playing (s : IOStream) (rest : List UInt8) (t : Playback) (kcf : KCF) : Prop where
  grants : kcf.heap.Grants
  reads : kcf.stream.ReadsFully
  readOn : s.ReadOn kcf.stream
  stream : ∃ a, kcf.stream.At a (t.left ++ (Piece.layout t.ahead ++ rest))
  left : kcf.availableAddedData.toNat = t.left.length
  state : kcf.parserState = t.state
  read : kcf.addedDataAlreadyRead = t.read
  declared : kcf.addedDataCRC32 = t.declared
  actual : kcf.actualAddedDataCRC32 = t.actual
  reading : t.state = .readRecordHeader ∨ t.state = .readRecordData ∨ t.state = .readAddedData
  due : t.left ≠ [] → t.state = .readAddedData

namespace KCF

variable {kcf k : KCF} {R R' : Record} {a : List UInt8}

theorem readRecordData_declares {n : ℕ} (h : kcf.readRecordData R n = (.ok, k, R')) :
    k.addedDataCRC32 = kcf.addedDataCRC32 ∧ R'.addedDataCRC32 = R.addedDataCRC32 ∧
      k.addedDataAlreadyRead = kcf.addedDataAlreadyRead := by
  unfold readRecordData at h
  rcases hm : malloc kcf.heap n with ⟨_ | block, heap⟩
  · rw [hm] at h
    cases h
  · rw [hm] at h
    dsimp only at h
    split at h
    · cases h
    · cases h
      exact ⟨rfl, rfl, rfl⟩

theorem readRecord_declares (h : kcf.readRecord (some R) = (.ok, k, some R')) :
    k.addedDataCRC32 = R'.addedDataCRC32 ∧ k.addedDataAlreadyRead = 0 := by
  obtain ⟨hp, -, -⟩ := readRecord_ok h
  have hc := kcf.cleared.readRecordHeader_cases R
  rw [readRecord_of_header hp] at h
  generalize kcf.cleared.readRecordHeader R = x at hc h
  cases hc with
  | failed => cases h
  | @delivered stream R₁ _ _ _ _ _ =>
    unfold afterHeader at h
    dsimp only at h
    rcases hy : readRecordData _ R₁ _ with ⟨e, k', R''⟩
    rw [hy] at h
    cases h
    obtain ⟨hk, hR, hread⟩ := readRecordData_declares hy
    exact ⟨hk.trans hR.symm, hread⟩

theorem tookAdded_keeps (kcf : KCF) (n : ℕ) : (kcf.tookAdded n).heap = kcf.heap ∧
    (kcf.tookAdded n).addedDataCRC32 = kcf.addedDataCRC32 ∧
      (kcf.tookAdded n).addedDataAlreadyRead = kcf.addedDataAlreadyRead + UInt64.ofNat n := by
  unfold tookAdded consumed
  dsimp only
  split <;> exact ⟨rfl, rfl, rfl⟩

theorem readRecordData_refused {n : ℕ} (h : PTRDIFF_MAX < n) (kcf : KCF) (R : Record) :
    kcf.readRecordData R n = (.outOfMemory, { kcf with heap := kcf.heap.next }, R.withNull n) := by
  have hm : malloc kcf.heap n = (none, kcf.heap.next) := Prod.ext (malloc_refused h) rfl
  unfold readRecordData
  rw [hm]

theorem parsed_nil (R : Record) : (R.parsed []).withNull (2 ^ 64 - 6) = Playback.nothing := by
  simp [Record.parsed, Record.fixed, LittleEndian.field, Playback.nothing, Record.withNull,
    Record.zero]

/-- Behind the last record the header of the next one reads as zeros, and there is no memory for
what is left of it. -/
theorem readRecord_over (hp : kcf.parserState = .readRecordHeader) (h : ReaderAt a [] kcf)
    (R : Record) :
    ∃ k, kcf.readRecord (some R) = (.outOfMemory, k, some Playback.nothing) ∧ ReaderAt a [] k ∧
      k.parserState = .readRecordData ∧ k.availableAddedData = 0 ∧ k.addedDataAlreadyRead = 0 ∧
      k.addedDataCRC32 = 0 ∧ k.actualAddedDataCRC32 = 0 := by
  have hflags : (R.parsed []).headFlags = 0 := congrArg Record.headFlags (parsed_nil R)
  have hsize : (R.parsed []).headSize = 0 := congrArg Record.headSize (parsed_nil R)
  have hcrc : (R.parsed []).addedDataCRC32 = 0 := congrArg Record.addedDataCRC32 (parsed_nil R)
  have hheader : kcf.cleared.readRecordHeader R =
      (.ok, kcf.cleared.tookHeader 0 0, R.parsed [], 6) := by
    have hfields := HeaderState.readFields_full (s := kcf.cleared.stream) h.reads R
    have hahead : kcf.cleared.stream.ahead = [] := h.stream.ahead_eq
    rw [hahead, hflags] at hfields
    unfold readRecordHeader
    rw [← padded_nil, hfields]
    simp only [HeaderState.standing, hahead, hcrc]
    rfl
  have hwrap : toSize ((0 : UInt16).toNat - (6 : ℕ)) = 2 ^ 64 - 6 := by decide
  have hlarge : PTRDIFF_MAX < 2 ^ 64 - 6 := by
    rw [PTRDIFF_MAX]
    omega
  refine ⟨{ kcf.cleared.tookHeader 0 0 with heap := kcf.heap.next }, ?_,
    ⟨h.grants.next, h.reads, h.stream⟩, rfl, rfl, rfl, rfl, rfl⟩
  rw [readRecord_of_header hp, hheader]
  unfold afterHeader
  dsimp only
  rw [hsize, hwrap, readRecordData_refused hlarge, parsed_nil]
  rfl

end KCF

namespace Playing

variable {s : IOStream} {rest : List UInt8} {t t' : Playback} {kcf k : KCF} {c : PlaybackCall}
  {result : ReaderResult}

theorem simulates (hk : readerStep c.call kcf = .ok (result, k))
    (ht : playbackReply c t = t'.seen result) (h : Playing s rest t' k) :
    Simulates playbackStep playbackReply (Playing s rest) c t kcf := by
  refine ⟨k, ?_, by rwa [ht]⟩
  rw [ht, playbackStep, observedStep, hk]
  change Except.ok (Observation.mk result k.parserState _ _, k) = _
  rw [h.state, h.declared, h.actual]
  rfl

theorem left_eq_nil (h : Playing s rest t kcf) (hs : t.state = .readRecordHeader) :
    t.left = [] := by
  by_contra hne
  exact absurd (hs.symm.trans (h.due hne)) (by decide)

theorem record_next (h : Playing s rest t kcf) (hs : t.state = .readRecordHeader) {p : Piece}
    {ps : List Piece} (ht : t.ahead = p :: ps) (R : Record) :
    ∃ k, kcf.readRecord (some R) = (.ok, k, some p.record.shown) ∧
      Playing s rest (.past p ps) k := by
  obtain ⟨a, hat⟩ := h.stream
  rw [h.left_eq_nil hs, List.nil_append, ht, Piece.layout_cons, Piece.bytes, List.append_assoc,
    List.append_assoc] at hat
  obtain ⟨k, hk, hr, hav, hact, hstate⟩ :=
    KCF.readRecord_laid (h.state.trans hs) ⟨h.grants, h.reads, hat⟩ p.fits p.headSize R
  obtain ⟨hdecl, hread⟩ := KCF.readRecord_declares hk
  have hon := (kcf.readRecord_readOn (some R)).stream
  rw [hk] at hon
  refine ⟨k, hk, hr.grants, hr.reads, h.readOn.trans hon, ⟨_, hr.stream⟩,
    by rw [hav]; exact p.addedSize, hstate, hread, hdecl, hact, ?_,
    fun hne => if_pos (Piece.hasAddedSize hne)⟩
  change (if _ then _ else _) = _ ∨ (if _ then _ else _) = _ ∨ (if _ then _ else _) = _
  split <;> simp

theorem record_none (h : Playing s [] t kcf) (hs : t.state = .readRecordHeader)
    (ht : t.ahead = []) (R : Record) :
    ∃ k, kcf.readRecord (some R) = (.outOfMemory, k, some Playback.nothing) ∧
      Playing s [] .beyond k := by
  obtain ⟨a, hat⟩ := h.stream
  rw [h.left_eq_nil hs, ht] at hat
  obtain ⟨k, hk, hr, hstate, hav, hread, hdecl, hact⟩ :=
    KCF.readRecord_over (h.state.trans hs) ⟨h.grants, h.reads, hat⟩ R
  have hon := (kcf.readRecord_readOn (some R)).stream
  rw [hk] at hon
  exact ⟨k, hk, hr.grants, hr.reads, h.readOn.trans hon, ⟨a, hr.stream⟩, by rw [hav]; rfl, hstate,
    hread, hdecl, hact, .inr (.inl rfl), nofun⟩

theorem added_nothing (h : Playing s rest t kcf) (hs : t.state = .readAddedData)
    (hleft : t.left = []) (n : ℕ) :
    ∃ k, kcf.readAddedData (some n) = .ok (.ok, k, [], some 0) ∧ Playing s rest (t.passed n) k := by
  have h₀ : kcf.availableAddedData = 0 := by
    rw [← UInt64.toNat_inj, h.left, hleft]
    rfl
  have hpassed : t.passed n = t := by
    obtain ⟨state, ahead, left, read, declared, actual⟩ := t
    obtain rfl : left = [] := hleft
    simp [Playback.passed, crc32c_nil]
  refine ⟨{ kcf with readerState := .recordHeader }, ?_, ?_⟩
  · rw [KCF.readAddedData_of_added (h.state.trans hs), if_pos h₀]
  · rw [hpassed]
    exact ⟨h.grants, h.reads, h.readOn, h.stream, h.left, h.state, h.read, h.declared, h.actual,
      h.reading, h.due⟩

theorem of_takes (h : Playing s rest t kcf) (hleft : t.left ≠ []) {n : ℕ}
    (ht : kcf.Takes (t.left.take n).length k) (hheap : k.heap = kcf.heap)
    (hdecl : k.addedDataCRC32 = kcf.addedDataCRC32)
    (hread : k.addedDataAlreadyRead =
      kcf.addedDataAlreadyRead + UInt64.ofNat (t.left.take n).length) :
    Playing s rest (t.passed n) k := by
  obtain ⟨a, hat⟩ := h.stream
  have hsplit : t.left ++ (Piece.layout t.ahead ++ rest) =
      t.left.take n ++ (t.left.drop n ++ (Piece.layout t.ahead ++ rest)) := by
    rw [← List.append_assoc (t.left.take n), List.take_append_drop]
  have hav : k.availableAddedData.toNat = (t.left.drop n).length := by
    have hsum := ht.available
    rw [h.left, List.length_take] at hsum
    rw [List.length_drop]
    omega
  have hstate : k.parserState = (t.passed n).state := by
    have hiff : k.availableAddedData = 0 ↔ t.left.drop n = [] := by
      rw [← UInt64.toNat_inj, hav]
      exact List.length_eq_zero_iff
    rw [ht.state, Playback.passed, h.due hleft]
    exact if_congr (hiff.trans (and_iff_right hleft).symm) rfl rfl
  rw [hsplit] at hat
  refine ⟨hheap ▸ h.grants, ht.reads h.reads, ?_, ⟨a ++ t.left.take n, ?_⟩, hav, hstate,
    hread.trans (h.read ▸ rfl), hdecl.trans h.declared, ?_, ?_, fun hne => ?_⟩
  · rw [ht.stream]
    exact h.readOn.trans ⟨rfl, rfl, rfl, rfl, rfl⟩
  · rw [ht.stream, h.reads.took_eq]
    exact hat.advanced
  · rw [ht.actual, hat.ahead_eq, List.take_left, h.actual]
    rfl
  · rw [← hstate, ht.state]
    split <;> simp
  · exact (if_neg fun hc => hne hc.2).trans (h.due hleft)

theorem added_portion (h : Playing s rest t kcf) (hleft : t.left ≠ []) (n : ℕ) :
    ∃ k, kcf.readAddedData (some n) =
        .ok (.ok, k, t.left.take n, some (t.left.take n).length) ∧
      Playing s rest (t.passed n) k := by
  have hp : kcf.parserState = .readAddedData := h.state.trans (h.due hleft)
  have hlen := List.length_pos_iff.mpr hleft
  have h₀ : kcf.availableAddedData ≠ 0 := by
    intro hz
    have hl := h.left
    rw [hz, UInt64.toNat_zero] at hl
    omega
  obtain ⟨a, hat⟩ := h.stream
  have hasked : kcf.asked n = (t.left.take n).length := by
    rw [KCF.asked, h.left, List.length_take]
  have hwithin : kcf.asked n ≤ kcf.stream.ahead.length := by
    rw [hat.ahead_eq, hasked, List.length_take, List.length_append]
    omega
  have htake : kcf.stream.ahead.take (kcf.asked n) = t.left.take n := by
    rw [hat.ahead_eq, hasked, List.length_take, List.take_append_of_le_length (by omega),
      List.take_eq_take_iff]
    omega
  have hgets : (ioRead kcf.stream (kcf.asked n)).1 = kcf.asked n := by
    rw [ioRead_full (h.reads 0), Nat.min_eq_left hwithin]
  have htakes : kcf.Takes (kcf.asked n) (kcf.tookAdded (kcf.asked n)) :=
    KCF.tookAdded_takes hp (Nat.min_le_right ..) hwithin
  have hcall := KCF.readAddedData_gets hp h₀ hgets
  obtain ⟨hheap, hdecl, hread⟩ := kcf.tookAdded_keeps (kcf.asked n)
  rw [htake, hasked] at hcall
  rw [hasked] at htakes hheap hdecl hread
  exact ⟨_, hcall, h.of_takes hleft htakes hheap hdecl hread⟩

theorem added (h : Playing s rest t kcf) (hs : t.state = .readAddedData) (n : ℕ) :
    ∃ k, kcf.readAddedData (some n) =
        .ok (.ok, k, t.left.take n, some (t.left.take n).length) ∧
      Playing s rest (t.passed n) k := by
  by_cases hleft : t.left = []
  · obtain ⟨k, hk, h'⟩ := h.added_nothing hs hleft n
    refine ⟨k, ?_, h'⟩
    rw [hk, hleft, List.take_nil]
    rfl
  · exact h.added_portion hleft n

theorem isAddedDataAvailable (h : Playing s rest t kcf) :
    kcf.isAddedDataAvailable = decide (t.left ≠ []) := by
  rw [KCF.isAddedDataAvailable, decide_eq_decide, UInt64.lt_iff_toNat_lt, h.left]
  exact List.length_pos_iff

/-- The calls do not ask for a record where something else follows the pieces. -/
def Known (rest : List UInt8) (cs : List PlaybackCall) (t : Playback) : Prop :=
  rest = [] ∨ cs.countP PlaybackCall.asks ≤ t.ahead.length

theorem Known.next {cs : List PlaybackCall} (h : Known rest (c :: cs) t) :
    Known rest cs (playbackReply c t).2 :=
  h.imp_right countP_asks_next

theorem record (h : Playing s rest t kcf) (hs : t.state = .readRecordHeader) {R : Record}
    {cs : List PlaybackCall} (hc : Known rest (.record (some R) :: cs) t) :
    Simulates playbackStep playbackReply (Playing s rest) (.record (some R)) t kcf := by
  have hreply : playbackReply (.record (some R)) t = t.record := if_pos hs
  unfold Playback.record at hreply
  cases ht : t.ahead with
  | nil =>
    obtain rfl : rest = [] := hc.resolve_right (by simp [ht, PlaybackCall.asks])
    obtain ⟨k, hk, h'⟩ := h.record_none hs ht R
    rw [ht] at hreply
    exact simulates (congrArg (Except.ok ∘ ofRecord) hk) hreply h'
  | cons p ps =>
    obtain ⟨k, hk, h'⟩ := h.record_next hs ht R
    rw [ht] at hreply
    exact simulates (congrArg (Except.ok ∘ ofRecord) hk) hreply h'

/-- Each call does to the handle what it does to the playback. -/
theorem step {cs : List PlaybackCall} (hc : Known rest (c :: cs) t) (h : Playing s rest t kcf) :
    Simulates playbackStep playbackReply (Playing s rest) c t kcf := by
  cases c with
  | record R =>
    cases R with
    | none => exact simulates rfl rfl h
    | some R =>
      by_cases hs : t.state = .readRecordHeader
      · exact h.record hs hc
      · have hk := KCF.readRecord_of_ne (h.state ▸ hs) R
        exact simulates (congrArg (Except.ok ∘ ofRecord) hk) (if_neg hs) h
  | added n =>
    cases n with
    | none => exact simulates rfl rfl h
    | some n =>
      by_cases hs : t.state = .readAddedData
      · obtain ⟨k, hk, h'⟩ := h.added hs n
        exact simulates (congrArg (Except.map ofAddedData) hk) (if_pos hs) h'
      · have hk := KCF.readAddedData_of_ne (h.state ▸ hs) n
        exact simulates (congrArg (Except.map ofAddedData) hk) (if_neg hs) h
  | available =>
    exact simulates (by rw [PlaybackCall.call, readerStep, h.isAddedDataAvailable]) rfl h
  | start =>
    have hk := KCF.startReading_of_reading (h.state ▸ h.reading)
    exact simulates (congrArg (Except.map ofDone) hk) rfl h

theorem answers {cs : List PlaybackCall} (hcs : Known rest cs t) (h : Playing s rest t kcf) :
    ∃ k, CallMachine.answers playbackStep cs kcf = ((replies playbackReply cs t).1, .ok k) ∧
      Playing s rest (replies playbackReply cs t).2 k :=
  answers_of_simulates_while (fun _ _ _ => Known.next) (fun _ _ _ _ hc ht => ht.step hc) hcs h

theorem front {a : List UInt8} {ps : List Piece} (hp : kcf.parserState = .readRecordHeader)
    (h : ReaderAt a (Piece.layout ps ++ rest) kcf) (h₀ : kcf.availableAddedData = 0) :
    Playing kcf.stream rest (.front kcf ps) kcf :=
  ⟨h.grants, h.reads, .refl _, ⟨a, h.stream⟩, by rw [h₀]; rfl, hp, rfl, rfl, rfl, .inl rfl, nofun⟩

theorem whole {a : List UInt8} {ps : List Piece} (hp : kcf.parserState = .readRecordHeader)
    (h : ReaderAt a (Piece.layout ps) kcf) (h₀ : kcf.availableAddedData = 0)
    (cs : List PlaybackCall) :
    ∃ k, CallMachine.answers playbackStep cs kcf =
        ((replies playbackReply cs (.front kcf ps)).1, .ok k) ∧
      Playing kcf.stream [] (replies playbackReply cs (.front kcf ps)).2 k :=
  (front hp (by rwa [List.append_nil]) h₀).answers (.inl rfl)

end Playing

/-- Whatever bytes ahead are made of pieces, and whatever calls a client makes in whatever order,
with portions of any size: what it sees is what the playback of the pieces shows. -/
theorem reader_plays_back {a b : List UInt8} {ss : List Stored} {kcf : KCF}
    (hd : decodeArchive b = some ss) (hp : kcf.parserState = .readRecordHeader)
    (h : ReaderAt a b kcf) (h₀ : kcf.availableAddedData = 0) (cs : List PlaybackCall) :
    ∃ as t k, replies playbackReply cs (.front kcf (ss.map Stored.toPiece)) = (as, t) ∧
      answers playbackStep cs kcf = (as, .ok k) ∧ k.stream.bytes = a ++ b ∧
      k.stream.ahead = t.left ++ Piece.layout t.ahead := by
  obtain rfl := decodeArchive_eq_some_iff.mp hd
  obtain ⟨k, hk, hend⟩ := Playing.whole hp h h₀ cs
  obtain ⟨a', hat⟩ := hend.stream
  rw [List.append_nil] at hat
  exact ⟨_, _, k, rfl, hk, hend.readOn.bytes.trans h.stream.bytes, hat.ahead_eq⟩

/-- Added data before its record is refused, an empty portion leaves it all, a large one takes it
all, and a record behind the last one is an error of its own. -/
theorem reader_plays_back_oneByte :
    ∃ k, answers playbackStep
        [.added (some 1), .record (some Record.zero), .added (some 0), .added (some 5),
          .record (some Record.zero)]
        (.reading (.ofBytes (Piece.layout [Piece.oneByte KCF_FILE_HEADER false 7]))) =
          ([⟨.addedData .invalidState [] none, .readRecordHeader, 0, 0⟩,
            ⟨.record .ok (some (recFix (Piece.oneByteRecord KCF_FILE_HEADER false)).shown),
              .readAddedData, 0, 0⟩,
            ⟨.addedData .ok [] (some 0), .readAddedData, 0, crc32c 0 []⟩,
            ⟨.addedData .ok [7] (some 1), .readRecordHeader, 0, crc32c (crc32c 0 []) [7]⟩,
            ⟨.record .outOfMemory (some Playback.nothing), .readRecordData, 0, 0⟩], .ok k) ∧
      k.stream.ahead = [] := by
  have hr : ReaderAt [] (Piece.layout [Piece.oneByte KCF_FILE_HEADER false 7])
      (.reading (.ofBytes (Piece.layout [Piece.oneByte KCF_FILE_HEADER false 7]))) :=
    ⟨Heap.grants_zeros, fun _ => rfl, rfl, rfl⟩
  obtain ⟨as, t, k, hreplies, hk, -, ha⟩ := reader_plays_back (decodeArchive_layout _) rfl hr rfl
    [.added (some 1), .record (some Record.zero), .added (some 0), .added (some 5),
      .record (some Record.zero)]
  cases hreplies
  exact ⟨k, hk, ha⟩

/-- Whatever bytes are ahead, the pieces that they start with are played back, for as many records
as there are of them. -/
theorem reader_plays_front {a b : List UInt8} {kcf : KCF}
    (hp : kcf.parserState = .readRecordHeader) (h : ReaderAt a b kcf)
    (h₀ : kcf.availableAddedData = 0) {cs : List PlaybackCall}
    (hcs : cs.countP PlaybackCall.asks ≤ (decodeFront b).1.length) :
    ∃ as t k,
      replies playbackReply cs (.front kcf ((decodeFront b).1.map Stored.toPiece)) = (as, t) ∧
      answers playbackStep cs kcf = (as, .ok k) ∧ k.stream.bytes = a ++ b ∧
      k.stream.ahead = t.left ++ (Piece.layout t.ahead ++ (decodeFront b).2) := by
  obtain ⟨hsplit, -⟩ := decodeFront_eq_iff.mp (Prod.eta (decodeFront b)).symm
  have hknown : Playing.Known (decodeFront b).2 cs
      (.front kcf ((decodeFront b).1.map Stored.toPiece)) := by
    refine .inr ?_
    change _ ≤ ((decodeFront b).1.map Stored.toPiece).length
    rwa [List.length_map]
  have hstart := h
  rw [← hsplit] at hstart
  obtain ⟨k, hk, hend⟩ := (Playing.front hp hstart h₀).answers hknown
  obtain ⟨a', hat⟩ := hend.stream
  exact ⟨_, _, k, rfl, hk, hend.readOn.bytes.trans h.stream.bytes, hat.ahead_eq⟩

theorem reader_plays_front_oneByte :
    ∃ as k, answers playbackStep [.record (some Record.zero), .added (some 4)]
        (.reading (.ofBytes (Piece.layout [Piece.oneByte KCF_FILE_HEADER false 7] ++ [1, 2, 3]))) =
          (as, .ok k) ∧ k.stream.ahead = [1, 2, 3] := by
  have hr : ReaderAt [] (Piece.layout [Piece.oneByte KCF_FILE_HEADER false 7] ++ [1, 2, 3])
      (.reading (.ofBytes (Piece.layout [Piece.oneByte KCF_FILE_HEADER false 7] ++ [1, 2, 3]))) :=
    ⟨Heap.grants_zeros, fun _ => rfl, rfl, rfl⟩
  have hfront : decodeFront (Piece.layout [Piece.oneByte KCF_FILE_HEADER false 7] ++ [1, 2, 3]) =
      ([Stored.ofPiece (Piece.oneByte KCF_FILE_HEADER false 7)], [1, 2, 3]) :=
    decodeFront_eq_iff.mpr ⟨rfl, by decide⟩
  have hcs : [PlaybackCall.record (some Record.zero), .added (some 4)].countP PlaybackCall.asks ≤
      (decodeFront (Piece.layout [Piece.oneByte KCF_FILE_HEADER false 7] ++
        [1, 2, 3])).1.length := by
    rw [hfront]
    decide
  obtain ⟨as, t, k, hreplies, hk, -, ha⟩ := reader_plays_front rfl hr rfl hcs
  rw [hfront] at hreplies ha
  obtain ⟨rfl, rfl⟩ := Prod.mk.inj hreplies
  exact ⟨_, k, hk, ha⟩

namespace Playback

/-- The playback with more pieces behind those ahead. -/
def more (ps : List Piece) (t : Playback) : Playback := { t with ahead := t.ahead ++ ps }

/-- What comes behind a record that is there does not matter to a call. -/
theorem reply_more {c : PlaybackCall} {t : Playback} {ps : List Piece}
    (h : c.asks → t.ahead ≠ []) :
    playbackReply c (t.more ps) = ((playbackReply c t).1, (playbackReply c t).2.more ps) := by
  cases c with
  | record R =>
    cases R with
    | none => rfl
    | some R =>
      obtain ⟨p, qs, hahead⟩ := List.exists_cons_of_ne_nil (h rfl)
      have hmore : (t.more ps).ahead = p :: (qs ++ ps) := by rw [more, hahead, List.cons_append]
      unfold playbackReply Playback.record
      rw [hahead, hmore]
      change (if t.state = _ then _ else _) = _
      split <;> rfl
  | added n =>
    cases n with
    | none => rfl
    | some n =>
      change (if t.state = _ then _ else _) = ((if t.state = _ then _ else _ : _ × _).1, _)
      unfold playbackReply
      dsimp only
      split <;> rfl
  | available => rfl
  | start => rfl

theorem replies_more {cs : List PlaybackCall} {t : Playback} (ps : List Piece)
    (h : cs.countP PlaybackCall.asks ≤ t.ahead.length) :
    replies playbackReply cs (t.more ps) =
      ((replies playbackReply cs t).1, (replies playbackReply cs t).2.more ps) := by
  induction cs generalizing t with
  | nil => rfl
  | cons c cs ih =>
    have hc : c.asks → t.ahead ≠ [] := by
      intro hc hnil
      rw [List.countP_cons_of_pos hc, hnil] at h
      simp at h
    rw [replies_cons, reply_more hc, ih (countP_asks_next h)]
    rfl

end Playback

theorem Piece.layout_append (ps qs : List Piece) :
    Piece.layout (ps ++ qs) = Piece.layout ps ++ Piece.layout qs :=
  List.flatMap_append

/-- Wherever an archive was cut off: a client that asks for no record beyond those that lie wholly
before the cut sees what it would see of the whole archive. -/
theorem torn_archive_plays {a : List UInt8} {ps : List Piece} {n : ℕ} {kcf : KCF}
    (hp : kcf.parserState = .readRecordHeader)
    (h : ReaderAt a ((Piece.layout ps).take n) kcf) (h₀ : kcf.availableAddedData = 0)
    {cs : List PlaybackCall}
    (hcs : (Piece.layout (ps.take (cs.countP PlaybackCall.asks))).length ≤ n) :
    ∃ as t k, replies playbackReply cs (.front kcf ps) = (as, t) ∧
      answers playbackStep cs kcf = (as, .ok k) ∧
      k.stream.ahead <+: t.left ++ Piece.layout t.ahead := by
  generalize hm : cs.countP PlaybackCall.asks = m at hcs
  have hlayout : Piece.layout ps = Piece.layout (ps.take m) ++ Piece.layout (ps.drop m) := by
    rw [← Piece.layout_append, List.take_append_drop]
  rcases Nat.lt_or_ge ps.length m with hlt | hle
  · -- every record lies before the cut
    rw [List.take_of_length_le hlt.le] at hcs
    rw [List.take_of_length_le hcs] at h
    obtain ⟨k, hk, hend⟩ := Playing.whole hp h h₀ cs
    obtain ⟨a', hat⟩ := hend.stream
    rw [List.append_nil] at hat
    exact ⟨_, _, k, rfl, hk, hat.ahead_eq ▸ List.prefix_rfl⟩
  · rw [hlayout, List.take_append, List.take_of_length_le hcs] at h
    have hcount : cs.countP PlaybackCall.asks ≤ (Playback.front kcf (ps.take m)).ahead.length := by
      change _ ≤ (ps.take m).length
      rw [hm, List.length_take, Nat.min_eq_left hle]
    have hmore := Playback.replies_more (ps.drop m) hcount
    change replies playbackReply cs (.front kcf (ps.take m ++ ps.drop m)) = _ at hmore
    rw [List.take_append_drop] at hmore
    obtain ⟨k, hk, hend⟩ := (Playing.front hp h h₀).answers (.inr hcount)
    obtain ⟨a', hat⟩ := hend.stream
    refine ⟨_, _, k, hmore, hk, ?_⟩
    rw [hat.ahead_eq, Playback.more, Piece.layout_append]
    exact (List.prefix_append_right_inj _).mpr
      ((List.prefix_append_right_inj _).mpr (List.take_prefix _ _))

theorem torn_archive_plays_oneByte :
    ∃ as t k,
      replies playbackReply [.record (some Record.zero), .added (some 4)]
        (.front (.reading (.ofBytes ((Piece.layout [Piece.oneByte KCF_FILE_HEADER false 7,
          Piece.oneByte KCF_FILE_HEADER false 8]).take 12))) [Piece.oneByte KCF_FILE_HEADER false 7,
          Piece.oneByte KCF_FILE_HEADER false 8]) = (as, t) ∧
      answers playbackStep [.record (some Record.zero), .added (some 4)]
        (.reading (.ofBytes ((Piece.layout [Piece.oneByte KCF_FILE_HEADER false 7,
          Piece.oneByte KCF_FILE_HEADER false 8]).take 12))) = (as, .ok k) ∧
      k.stream.ahead <+: t.left ++ Piece.layout t.ahead := by
  have hr : ReaderAt [] ((Piece.layout [Piece.oneByte KCF_FILE_HEADER false 7,
      Piece.oneByte KCF_FILE_HEADER false 8]).take 12)
      (.reading (.ofBytes ((Piece.layout [Piece.oneByte KCF_FILE_HEADER false 7,
        Piece.oneByte KCF_FILE_HEADER false 8]).take 12))) :=
    ⟨Heap.grants_zeros, fun _ => rfl, rfl, rfl⟩
  exact torn_archive_plays rfl hr rfl (by decide)

/-- The playback with the bytes behind what is left in its place, and the pieces behind those. -/
def Playback.shifted (t : Playback) : Playback where
  state := t.state
  ahead :=
    (decodeFront ((Piece.layout t.ahead).drop t.left.length)).1.map Stored.toPiece
  left := (Piece.layout t.ahead).take t.left.length
  read := t.read
  declared := t.declared
  actual := t.actual

theorem Playing.skipRecord {s : IOStream} {t : Playback} {kcf : KCF} (h : Playing s [] t kcf)
    (hs : t.state = .readAddedData) (hmore : t.left.length ≤ (Piece.layout t.ahead).length)
    (hl : t.left.length < 2 ^ 63) {fuel : ℕ} (hf : t.left.length < fuel) (header : Record) :
    kcf.skipRecord fuel header = .ok (.read, kcf.passed t.left.length) ∧
      Playing s (decodeFront ((Piece.layout t.ahead).drop t.left.length)).2 t.shifted
        (kcf.passed t.left.length) := by
  obtain ⟨a, hat⟩ := h.stream
  rw [List.append_nil] at hat
  refine ⟨?_, h.grants, h.reads, h.readOn.trans ⟨rfl, rfl, rfl, rfl, rfl⟩,
    ⟨a ++ t.left, ?_⟩, ?_, h.state, h.read, h.declared, h.actual, h.reading, fun _ => hs⟩
  · rw [KCF.skipRecord_of_added (h.state.trans hs)]
    exact KCF.skipBytes_laid ⟨h.grants, h.reads, hat⟩ h.left hl hf
  · obtain ⟨hsplit, -⟩ := decodeFront_eq_iff.mp
      (Prod.eta (decodeFront ((Piece.layout t.ahead).drop t.left.length))).symm
    change (kcf.stream.advanced t.left.length).At _ (List.take _ _ ++ _)
    rw [Playback.shifted, hsplit, List.take_append_drop]
    exact hat.advanced
  · change kcf.availableAddedData.toNat = (List.take _ _).length
    rw [h.left, List.length_take, Nat.min_eq_left hmore]

/-- After a skip within added data the calls deliver what stands behind it on the stream as if it
was what was skipped, and find the records behind that. -/
theorem skip_shifts {a : List UInt8} {ps : List Piece} {kcf : KCF}
    (hp : kcf.parserState = .readRecordHeader) (h : ReaderAt a (Piece.layout ps) kcf)
    (h₀ : kcf.availableAddedData = 0) {calls : List PlaybackCall} {as : List Observation}
    {t : Playback} (ht : replies playbackReply calls (.front kcf ps) = (as, t))
    (hs : t.state = .readAddedData) (hmore : t.left.length ≤ (Piece.layout t.ahead).length)
    (hl : t.left.length < 2 ^ 63) {fuel : ℕ} (hf : t.left.length < fuel) (header : Record)
    {cs : List PlaybackCall} (hcs : cs.countP PlaybackCall.asks ≤ t.shifted.ahead.length) :
    ∃ u v k, answers playbackStep calls kcf = (as, .ok u) ∧
      u.skipRecord fuel header = .ok (.read, v) ∧
      answers playbackStep cs v = ((replies playbackReply cs t.shifted).1, .ok k) := by
  obtain ⟨u, hu, hplay⟩ := Playing.whole hp h h₀ calls
  rw [ht] at hu hplay
  obtain ⟨hskip, hshifted⟩ := hplay.skipRecord hs hmore hl hf header
  obtain ⟨k, hk, -⟩ := hshifted.answers (.inr hcs)
  exact ⟨u, _, k, hu, hskip, hk⟩

/-- A record with eleven bytes added to it, as many as a record and its byte take. -/
def Piece.elevenBytes : Piece :=
  (Stored.front [0, 0, 0x46, 0x80, 10, 0, 11, 0, 0, 0, 1, 2, 3, 4, 5, 6, 7, 8, 9, 10, 11]
    (by decide +kernel)).toPiece

/-- Two records with a byte added to each. -/
def twoOnes : List Piece :=
  [.oneByte KCF_FILE_HEADER false 7, .oneByte KCF_FILE_HEADER false 8]

theorem Playback.shifted_elevenBytes : (Playback.past .elevenBytes twoOnes).shifted =
    { Playback.past .elevenBytes [(Stored.ofPiece (.oneByte KCF_FILE_HEADER false 8)).toPiece] with
      left := (Piece.oneByte KCF_FILE_HEADER false 7).bytes } := by
  have hbehind : decodeFront ((Piece.layout twoOnes).drop 11) =
      ([Stored.ofPiece (.oneByte KCF_FILE_HEADER false 8)], []) :=
    decodeFront_eq_iff.mpr ⟨by decide +kernel, by decide⟩
  unfold shifted
  rw [show (Playback.past .elevenBytes twoOnes).left.length = 11 from rfl]
  change Playback.mk _ (List.map _ (decodeFront ((Piece.layout twoOnes).drop 11)).1) _ _ _ _ = _
  rw [hbehind]
  rfl

/-- The eleven bytes are skipped: the next record is delivered in their place, and the one after it
is found behind that. -/
theorem skip_shifts_elevenBytes :
    ∃ (as bs : List Observation) (u v k : KCF),
      answers playbackStep [.record (some Record.zero)]
        (.reading (.ofBytes (Piece.layout (.elevenBytes :: twoOnes)))) = (as, .ok u) ∧
      u.skipRecord 12 Record.zero = .ok (.read, v) ∧
      answers playbackStep [.added (some 16), .record (some Record.zero), .added (some 4)] v =
        (bs, .ok k) ∧
      bs.map Observation.result =
        [.addedData .ok (Piece.oneByte KCF_FILE_HEADER false 7).bytes (some 11),
          .record .ok (some (Piece.oneByte KCF_FILE_HEADER false 8).record.shown),
          .addedData .ok [8] (some 1)] := by
  have hr : ReaderAt [] (Piece.layout (.elevenBytes :: twoOnes))
      (.reading (.ofBytes (Piece.layout (.elevenBytes :: twoOnes)))) :=
    ⟨Heap.grants_zeros, fun _ => rfl, rfl, rfl⟩
  have ht : replies playbackReply [.record (some Record.zero)]
      (.front (.reading (.ofBytes (Piece.layout (.elevenBytes :: twoOnes))))
        (.elevenBytes :: twoOnes)) = (_, _) := rfl
  have hcs : [PlaybackCall.added (some 16), .record (some Record.zero), .added (some 4)].countP
      PlaybackCall.asks ≤ (Playback.past .elevenBytes twoOnes).shifted.ahead.length := by
    rw [Playback.shifted_elevenBytes]
    decide
  obtain ⟨u, v, k, hu, hv, hk⟩ := skip_shifts rfl hr rfl ht rfl (by decide) (by decide)
    (show _ < 12 by decide) Record.zero hcs
  refine ⟨_, _, u, v, k, hu, hv, hk, ?_⟩
  change List.map _ (replies playbackReply _ (Playback.past .elevenBytes twoOnes).shifted).1 = _
  rw [Playback.shifted_elevenBytes]
  rfl

end Kcf
