import Kcf.Archive.Unpacking
import Kcf.Reader.Skip

/-! # Skipping files

A skip reads the records of a file one after the other and has the added data of
each skipped, whatever comes of it. Nothing ever comes of it but an error, and
the parser goes on waiting for that data. So files are skipped up to their ends
exactly when there is memory and none of their records announces added data.
-/

namespace Kcf

/-- The record announces no added data. -/
def Piece.Bare (p : Piece) : Prop := ¬ recHasAddedSize p.record = true

instance (p : Piece) : Decidable p.Bare := inferInstanceAs (Decidable (¬ _))

theorem Piece.Bare.bytes {p : Piece} (h : p.Bare) : p.bytes = p.record.encode := by
  rw [Piece.bytes, Piece.added_of_not h, List.append_nil]

namespace KCF

variable {kcf k k' : KCF} {R R' header : Record} {p : Piece} {qs : List Piece}
  {a c : List UInt8} {fuel rounds : ℕ}

/-- The handle is past so many records and ready for the next one. -/
structure PastRecords (kcf : KCF) (n : ℕ) (a c : List UInt8) (k : KCF) : Prop where
  state : k.parserState = .readRecordHeader
  reads : k.stream.ReadsFully
  stream : k.stream.At a c
  heap : ∀ i, k.heap i = kcf.heap (i + n)
  isWriting : k.isWriting = kcf.isWriting

theorem PastRecords.set {n : ℕ} (h : kcf.PastRecords n a c k) (state : UnpackerState) :
    kcf.PastRecords n a c (k.setUnpackerState state) :=
  ⟨h.state, h.reads, h.stream, h.heap, h.isWriting⟩

theorem PastRecords.trans {m n : ℕ} {b d : List UInt8} (h : kcf.PastRecords m a c k)
    (h' : k.PastRecords n b d k') : kcf.PastRecords (n + m) b d k' :=
  ⟨h'.state, h'.reads, h'.stream, fun i => by rw [h'.heap, h.heap, Nat.add_assoc],
    h'.isWriting.trans h.isWriting⟩

/-- The parser waits for the added data of the piece, which is ahead. -/
structure WaitsFor (kcf : KCF) (p : Piece) : Prop where
  state : kcf.parserState = .readAddedData
  available : kcf.availableAddedData.toNat = p.added.length
  ahead : p.added.length ≤ kcf.stream.ahead.length
  reads : kcf.stream.ReadsFully

theorem WaitsFor.set (h : kcf.WaitsFor p) (state : UnpackerState) :
    (kcf.setUnpackerState state).WaitsFor p :=
  ⟨h.state, h.available, h.ahead, h.reads⟩

/-- What a read of the next record does: it takes an answer of the heap, and the reader is past a
bare record, or waits for the added data of another. -/
theorem readRecord_piece (h : kcf.readRecord (some R) = (.ok, k, some R'))
    (hs : kcf.stream.ReadsFully) (hat : kcf.stream.At a (p.bytes ++ c)) :
    R' = p.record.shown ∧ (kcf.heap 0).isSome ∧
      (p.Bare → kcf.PastRecords 1 (a ++ p.bytes) c k) ∧ (¬ p.Bare → k.WaitsFor p) := by
  have hbytes := hat
  rw [Piece.bytes, List.append_assoc] at hbytes
  obtain ⟨hR, hat', hs'⟩ := readRecord_standing h hs hbytes p.fits p.headSize
  obtain ⟨-, -, -, hm, -⟩ := readRecord_ok h
  have ha := readRecord_announces h
  have hflag : recHasAddedSize R' = recHasAddedSize p.record := by
    rw [hR]
    rfl
  refine ⟨hR, hm, fun hbare => ?_, fun hbare => ?_⟩
  · rw [Piece.added_of_not hbare, List.nil_append] at hat'
    refine ⟨?_, hs', by rwa [hbare.bytes], fun i => ?_, ?_⟩
    · rw [ha.state, hflag, if_neg hbare]
    · rw [ha.heap]
      rfl
    · have hsame := kcf.readRecord_sameFile R
      rw [h] at hsame
      exact hsame.isWriting
  · refine ⟨?_, ?_, ?_, hs'⟩
    · rw [ha.state, hflag, if_pos (not_not.mp hbare)]
    · rw [ha.available, hR, p.addedSize]
    · rw [hat'.ahead_eq, List.length_append]
      omega

theorem skipAddedData_bare (h : ¬ recHasAddedSize R = true) :
    kcf.skipAddedData fuel R header = .ok kcf := if_neg h

theorem WaitsFor.skipAddedData (h : kcf.WaitsFor p) (hR : recHasAddedSize R = true)
    (hk : kcf.skipAddedData fuel R header = .ok k) :
    k.parserState = .readAddedData ∧ p.added.length < 2 ^ 63 := by
  unfold KCF.skipAddedData at hk
  rw [if_pos hR, skipRecord_of_added h.state] at hk
  obtain ⟨r, hr, rfl⟩ := Exec.map_ok hk
  obtain ⟨stream, rfl⟩ := skipBytes_cases hr
  refine ⟨h.state, ?_⟩
  rw [← h.available]
  exact skipBytes_ok hr

theorem skipAddedData_piece (hw : ¬ p.Bare → kcf.WaitsFor p) (hl : p.added.length < 2 ^ 63)
    (hf : ¬ p.Bare → p.added.length < fuel) (header : Record) :
    ∃ n, kcf.skipAddedData fuel p.record.shown header = .ok (kcf.passed n) := by
  by_cases hb : p.Bare
  · exact ⟨0, skipAddedData_bare hb⟩
  · have h := hw hb
    have hf := hf hb
    have hahead := h.ahead
    rw [← h.available] at hahead hl hf
    refine ⟨kcf.availableAddedData.toNat, ?_⟩
    unfold skipAddedData
    rw [if_pos (show recHasAddedSize p.record.shown = true from not_not.mp hb),
      skipRecord_of_added h.state, skipBytes_full h.reads hahead hl hf]
    rfl

theorem skipFileRecord_ok (h : kcf.skipFileRecord fuel R header = .ok (.ok, k)) :
    kcf.skipAddedData fuel R header = .ok k ∨
      (kcf.setUnpackerState .fileData).skipAddedData fuel R header = .ok k := by
  unfold skipFileRecord at h
  split at h
  · obtain ⟨k', hk, h⟩ := Exec.bind_ok h
    cases h
    exact .inr hk
  · split at h
    · cases h
    · obtain ⟨k', hk, h⟩ := Exec.bind_ok h
      cases h
      exact .inl hk
  · cases h

theorem PastRecords.switch {n : ℕ} (h : kcf.PastRecords n a c k) (hR : ¬ recHasAddedSize R = true)
    (hk : k.skipFileRecord fuel R header = .ok (.ok, k')) : kcf.PastRecords n a c k' := by
  rcases skipFileRecord_ok hk with hk | hk
  · rw [skipAddedData_bare hR] at hk
    cases hk
    exact h
  · rw [skipAddedData_bare hR] at hk
    cases hk
    exact h.set _

theorem WaitsFor.switch (h : kcf.WaitsFor p) (hR : recHasAddedSize R = true)
    (hk : kcf.skipFileRecord fuel R header = .ok (.ok, k)) :
    k.parserState = .readAddedData ∧ p.added.length < 2 ^ 63 := by
  rcases skipFileRecord_ok hk with hk | hk
  · exact h.skipAddedData hR hk
  · exact (h.set _).skipAddedData hR hk

/-- A file record comes first and fragments from then on. -/
def Expects (kcf : KCF) (p : Piece) : Prop :=
  kcf.unpackerState = .fileHeader ∨
    kcf.unpackerState = .fileData ∧ p.record.headType = KCF_DATA_FRAGMENT

theorem Expects.switch (h : kcf.Expects p) (hw : ¬ p.Bare → kcf.WaitsFor p)
    (hl : p.added.length < 2 ^ 63) (hf : ¬ p.Bare → p.added.length < fuel) (header : Record) :
    ∃ k, kcf.skipFileRecord fuel p.record.shown header = .ok (.ok, k) ∧
      k.unpackerState = .fileData := by
  unfold skipFileRecord
  rcases h with hu | ⟨hu, ht⟩
  · have hw' (hb : ¬ p.Bare) := (hw hb).set .fileData
    obtain ⟨n, hn⟩ := skipAddedData_piece hw' hl hf header
    rw [hu]
    dsimp only
    rw [hn]
    exact ⟨_, rfl, unpackerState_set kcf .fileData⟩
  · obtain ⟨n, hn⟩ := skipAddedData_piece hw hl hf header
    rw [hu]
    dsimp only
    rw [p.record.shown_headType, if_neg (not_not.mpr ht), hn]
    exact ⟨_, rfl, hu⟩

theorem skipFileLoop_of_added (hp : kcf.parserState = .readAddedData) :
    skipFileLoop fuel header rounds kcf R ≠ .ok (.ok, k) := by
  intro h
  cases rounds with
  | zero => cases h
  | succ rounds =>
    unfold skipFileLoop at h
    rw [readRecord_of_ne (by rw [hp]; decide)] at h
    cases h

/-- What a skip that ends well went through. All records but the last one were bare, there was
memory for each, and there was no more added data than can be skipped. The reader is past a bare
last record, and goes on waiting for the added data of another. -/
structure WentThrough (kcf : KCF) (ps : List Piece) (a c : List UInt8) (k : KCF) : Prop where
  bare : ∀ q ∈ ps.dropLast, q.Bare
  sized : ∀ q ∈ ps, q.added.length < 2 ^ 63
  memory : ∀ i < ps.length, (kcf.heap i).isSome
  past : (∀ q ∈ ps, q.Bare) → kcf.PastRecords ps.length (a ++ Piece.layout ps) c k
  waits : (¬ ∀ q ∈ ps, q.Bare) → k.parserState = .readAddedData

theorem WentThrough.cons {k₂ : KCF} (hm : (kcf.heap 0).isSome) (hb : p.Bare)
    (hpast : kcf.PastRecords 1 (a ++ p.bytes) (Piece.layout qs ++ c) k₂) (hqs : qs ≠ [])
    (h : k₂.WentThrough qs (a ++ p.bytes) c k) : kcf.WentThrough (p :: qs) a c k := by
  have hall : (∀ q ∈ p :: qs, q.Bare) ↔ ∀ q ∈ qs, q.Bare := by
    rw [List.forall_mem_cons, and_iff_right hb]
  constructor
  · rw [List.dropLast_cons_of_ne_nil hqs, List.forall_mem_cons]
    exact ⟨hb, h.bare⟩
  · rw [List.forall_mem_cons, Piece.added_of_not hb]
    exact ⟨by decide, h.sized⟩
  · intro i hi
    cases i with
    | zero => exact hm
    | succ i =>
      rw [← hpast.heap]
      exact h.memory i (Nat.lt_of_succ_lt_succ hi)
  · intro hbs
    rw [Piece.layout_cons, ← List.append_assoc]
    exact hpast.trans (h.past (hall.mp hbs))
  · intro hbs
    exact h.waits (mt hall.mpr hbs)

/-- What the loop went through, where it ended well. -/
theorem skipFileLoop_ok (h : skipFileLoop fuel header rounds kcf R = .ok (.ok, k))
    (hs : kcf.stream.ReadsFully) (hat : kcf.stream.At a (Piece.layout (p :: qs) ++ c))
    (hc : Chained p qs) : kcf.WentThrough (p :: qs) a c k := by
  induction rounds generalizing kcf R p qs a with
  | zero => cases h
  | succ rounds ih =>
    unfold skipFileLoop at h
    rw [Piece.layout_cons, List.append_assoc] at hat
    obtain ⟨e, k₁, R', hr⟩ := kcf.exists_readRecord R
    rw [hr] at h
    cases e with
    | ok =>
      obtain ⟨rfl, hm, hbare, hwaits⟩ := readRecord_piece hr hs hat
      obtain ⟨⟨e, k₂⟩, hswitch, h⟩ := Exec.bind_ok h
      cases e with
      | ok =>
        dsimp only at h
        rw [if_neg (by simp)] at h
        have hpast (hb : p.Bare) := (hbare hb).switch hb hswitch
        have hwait (hb : ¬ p.Bare) := (hwaits hb).switch (not_not.mp hb) hswitch
        cases qs with
        | nil =>
          rw [if_neg (mt Record.shown_continues.mp hc)] at h
          cases h
          have hone : (∀ q ∈ [p], q.Bare) ↔ p.Bare := by simp
          refine ⟨by rintro _ ⟨⟩, ?_, ?_, ?_, ?_⟩
          · rw [List.forall_mem_singleton]
            by_cases hb : p.Bare
            · rw [Piece.added_of_not hb]
              decide
            · exact (hwait hb).2
          · intro i hi
            obtain rfl : i = 0 := Nat.lt_one_iff.mp hi
            exact hm
          · intro hb
            rw [Piece.layout_cons, Piece.layout_nil, List.append_nil]
            exact (hpast (hone.mp hb)).set _
          · intro hb
            exact (hwait (mt hone.mpr hb)).1
        | cons q qs =>
          rw [if_pos (Record.shown_continues.mpr hc.1)] at h
          by_cases hb : p.Bare
          · have hrest := ih h (hpast hb).reads (hpast hb).stream hc.2.2
            exact .cons hm hb (hpast hb) (by simp) hrest
          · exact absurd h (skipFileLoop_of_added (hwait hb).1)
      | _ => cases h
    | _ => cases h

/-- Records are skipped where there is memory and all but the last one are bare. -/
theorem skipFileLoop_skips (hp : kcf.parserState = .readRecordHeader)
    (hs : kcf.stream.ReadsFully) (hat : kcf.stream.At a (Piece.layout (p :: qs) ++ c))
    (hc : Chained p qs) (hb : ∀ q ∈ (p :: qs).dropLast, q.Bare)
    (hl : ∀ q ∈ p :: qs, q.added.length < 2 ^ 63)
    (hm : ∀ i < (p :: qs).length, (kcf.heap i).isSome) (hu : kcf.Expects p)
    (hr : (p :: qs).length ≤ rounds) (hf : ∀ q ∈ p :: qs, ¬ q.Bare → q.added.length < fuel) :
    ∃ k, skipFileLoop fuel header rounds kcf R = .ok (.ok, k) ∧
      k.unpackerState = .fileHeader := by
  induction rounds generalizing kcf R p qs a with
  | zero => exact absurd hr (by simp)
  | succ rounds ih =>
    have hbytes := hat
    rw [Piece.layout_cons, List.append_assoc] at hat
    rw [Piece.layout_cons, Piece.bytes, List.append_assoc, List.append_assoc] at hbytes
    obtain ⟨k₁, hk₁⟩ := readRecord_stands hp (hm 0 (by simp)) hs hbytes p.fits p.headSize R
    obtain ⟨-, -, hbare, hwaits⟩ := readRecord_piece hk₁ hs hat
    have hsame := kcf.readRecord_sameFile R
    rw [hk₁] at hsame
    have hu₁ : k₁.Expects p := by
      unfold Expects
      rw [hsame.unpackerState]
      exact hu
    obtain ⟨k₂, hk₂, hu₂⟩ := hu₁.switch hwaits (hl p (.head _)) (hf p (.head _)) header
    have hstep : skipFileLoop fuel header (rounds + 1) kcf R =
        if p.record.shown.Continues then skipFileLoop fuel header rounds k₂ p.record.shown
        else .ok (.ok, k₂.setUnpackerState .fileHeader) := by
      conv_lhs => unfold skipFileLoop
      rw [hk₁]
      dsimp only
      rw [hk₂, Exec.ok_bind]
      dsimp only
      rw [if_neg (by simp)]
      rfl
    rw [hstep]
    cases qs with
    | nil =>
      rw [if_neg (mt Record.shown_continues.mp hc)]
      exact ⟨_, rfl, unpackerState_set ..⟩
    | cons q qs =>
      rw [if_pos (Record.shown_continues.mpr hc.1)]
      rw [List.dropLast_cons_of_ne_nil (by simp), List.forall_mem_cons] at hb
      have hpast := (hbare hb.1).switch hb.1 hk₂
      apply ih hpast.state hpast.reads hpast.stream hc.2.2 hb.2
      · exact fun r hr => hl r (.tail _ hr)
      · intro i hi
        rw [hpast.heap]
        exact hm (i + 1) (Nat.succ_lt_succ hi)
      · exact .inr ⟨hu₂, hc.2.1⟩
      · exact Nat.le_of_succ_le_succ hr
      · exact fun r hr => hf r (.tail _ hr)

theorem skipFile_loop (h : kcf.skipFile rounds fuel header = .ok (.ok, k)) :
    kcf.isWriting = false ∧ skipFileLoop fuel header rounds kcf Record.zero = .ok (.ok, k) := by
  unfold skipFile at h
  split at h
  · cases h
  · exact ⟨Bool.eq_false_iff.mpr ‹_›, h⟩

theorem skipFile_ok {file : StoredFile} (h : kcf.skipFile rounds fuel header = .ok (.ok, k))
    (hk : k.parserState = .readRecordHeader) (hs : kcf.stream.ReadsFully)
    (hat : kcf.stream.At a (file.bytes ++ c)) :
    kcf.isWriting = false ∧ (∀ q ∈ file.pieces, q.Bare) ∧
      (∀ i < file.pieces.length, (kcf.heap i).isSome) ∧
      kcf.PastRecords file.pieces.length (a ++ file.bytes) c k := by
  obtain ⟨hr, hloop⟩ := skipFile_loop h
  have hthrough := skipFileLoop_ok hloop hs hat file.chained
  have hb : ∀ q ∈ file.pieces, q.Bare := by
    by_contra hnot
    exact absurd (hk.symm.trans (hthrough.waits hnot)) (by decide)
  exact ⟨hr, hb, hthrough.memory, hthrough.past hb⟩

/-- Skip so many files, up to the first that is not skipped. -/
def skipFiles (rounds fuel : ℕ) (header : Record) : ℕ → KCF → Exec (KcfError × KCF)
  | 0, kcf => .ok (.ok, kcf)
  | n + 1, kcf => do
    let (error, kcf) ← kcf.skipFile rounds fuel header
    if error ≠ .ok then return (error, kcf) else skipFiles rounds fuel header n kcf

/-- Every number of skips ends well, at the end of the last file skipped and with both states as
they were, and what is read then is the record of the next file. -/
def SkipsFiles (rounds fuel : ℕ) (header : Record) (kcf : KCF) (files : List StoredFile) : Prop :=
  ∀ n ≤ files.length, ∃ k, kcf.skipFiles rounds fuel header n = .ok (.ok, k) ∧
    k.stream.pos = kcf.stream.pos + (StoredFile.layout (files.take n)).length ∧
    k.parserState = kcf.parserState ∧ k.unpackerState = kcf.unpackerState ∧
    ∀ file, files[n]? = some file → ∀ R, ∃ k',
      k.readRecord (some R) = (.ok, k', some file.head.record.shown)

/-- The handle is not writing, no record of the files announces added data, and there is memory for
each of them. -/
structure Skippable (kcf : KCF) (files : List StoredFile) : Prop where
  reading : kcf.isWriting = false
  bare : ∀ p ∈ StoredFile.allPieces files, p.Bare
  memory : ∀ i < (StoredFile.allPieces files).length, (kcf.heap i).isSome

variable {file : StoredFile} {files : List StoredFile} {b d : List UInt8}

theorem skipFiles_succ (h : kcf.skipFile rounds fuel header = .ok (.ok, k)) (n : ℕ) :
    kcf.skipFiles rounds fuel header (n + 1) = k.skipFiles rounds fuel header n := by
  rw [skipFiles, h, Exec.ok_bind]
  exact if_neg (by simp)

theorem SkipsFiles.tail (hall : kcf.SkipsFiles rounds fuel header (file :: files))
    (h : kcf.skipFile rounds fuel header = .ok (.ok, k))
    (hpos : k.stream.pos = kcf.stream.pos + file.bytes.length)
    (hp : k.parserState = kcf.parserState) (hu : k.unpackerState = kcf.unpackerState) :
    k.SkipsFiles rounds fuel header files := by
  intro n hn
  obtain ⟨k', hk', hpos', hp', hu', hnext⟩ := hall (n + 1) (Nat.succ_le_succ hn)
  rw [skipFiles_succ h] at hk'
  rw [List.take_succ_cons, StoredFile.layout_cons, List.length_append] at hpos'
  exact ⟨k', hk', by omega, hp'.trans hp.symm, hu'.trans hu.symm, hnext⟩

theorem SkipsFiles.cons (hall : k.SkipsFiles rounds fuel header files)
    (h : kcf.skipFile rounds fuel header = .ok (.ok, k))
    (hpos : k.stream.pos = kcf.stream.pos + file.bytes.length)
    (hp : k.parserState = kcf.parserState) (hu : k.unpackerState = kcf.unpackerState)
    (hread : ∀ R, ∃ k', kcf.readRecord (some R) = (.ok, k', some file.head.record.shown)) :
    kcf.SkipsFiles rounds fuel header (file :: files) := by
  intro n hn
  cases n with
  | zero =>
    refine ⟨kcf, rfl, rfl, rfl, rfl, ?_⟩
    intro f hf
    obtain rfl : file = f := Option.some.inj hf
    exact hread
  | succ n =>
    obtain ⟨k', hk', hpos', hp', hu', hnext⟩ := hall n (Nat.le_of_succ_le_succ hn)
    refine ⟨k', (skipFiles_succ h n).trans hk', ?_, hp'.trans hp, hu'.trans hu, hnext⟩
    rw [List.take_succ_cons, StoredFile.layout_cons, List.length_append]
    omega

theorem PastRecords.pos {n : ℕ} (h : kcf.PastRecords n (a ++ b) c k) (hat : kcf.stream.At a d) :
    k.stream.pos = kcf.stream.pos + b.length := by
  rw [h.stream.pos, hat.pos, List.length_append]

theorem SkipsFiles.head (hall : kcf.SkipsFiles rounds fuel header (file :: files)) :
    ∃ k, kcf.skipFile rounds fuel header = .ok (.ok, k) ∧ k.parserState = kcf.parserState ∧
      k.unpackerState = kcf.unpackerState := by
  obtain ⟨k, hk, -, hp, hu, -⟩ := hall 1 (Nat.succ_le_succ (Nat.zero_le _))
  obtain ⟨⟨e, k'⟩, hskip, hk⟩ := Exec.bind_ok hk
  cases e with
  | ok =>
    cases hk
    exact ⟨k, hskip, hp, hu⟩
  | _ => cases hk

theorem PastRecords.skippable (h : kcf.PastRecords file.pieces.length a c k)
    (hr : kcf.isWriting = false) (hb : ∀ p ∈ file.pieces, p.Bare)
    (hm : ∀ i < file.pieces.length, (kcf.heap i).isSome)
    (hbs : ∀ p ∈ StoredFile.allPieces files, p.Bare)
    (hms : ∀ i < (StoredFile.allPieces files).length, (k.heap i).isSome) :
    kcf.Skippable (file :: files) := by
  constructor
  · exact hr
  · intro p hp
    rcases List.mem_append.mp (StoredFile.allPieces_cons file files ▸ hp) with hp | hp
    · exact hb p hp
    · exact hbs p hp
  · intro i hi
    rw [StoredFile.allPieces_cons, List.length_append] at hi
    rcases Nat.lt_or_ge i file.pieces.length with hlt | hge
    · exact hm i hlt
    · have hrest := hms (i - file.pieces.length) (by omega)
      rwa [h.heap, Nat.sub_add_cancel hge] at hrest

theorem SkipsFiles.skippable (hall : kcf.SkipsFiles rounds fuel header (file :: files))
    (hp : kcf.parserState = .readRecordHeader) (hs : kcf.stream.ReadsFully)
    (hat : kcf.stream.At a (StoredFile.layout (file :: files) ++ b)) :
    kcf.Skippable (file :: files) := by
  induction files generalizing kcf file a with
  | nil =>
    rw [StoredFile.layout_cons, List.append_assoc] at hat
    obtain ⟨k, hk, hpk, -⟩ := hall.head
    obtain ⟨hr, hb, hm, hpast⟩ := skipFile_ok hk (hpk.trans hp) hs hat
    exact hpast.skippable hr hb hm (by rintro _ ⟨⟩) (by rintro _ ⟨⟩)
  | cons next files ih =>
    rw [StoredFile.layout_cons, List.append_assoc] at hat
    obtain ⟨k, hk, hpk, huk⟩ := hall.head
    obtain ⟨hr, hb, hm, hpast⟩ := skipFile_ok hk (hpk.trans hp) hs hat
    have hrest := ih (hall.tail hk (hpast.pos hat) hpk huk) (hpk.trans hp) hpast.reads hpast.stream
    exact hpast.skippable hr hb hm hrest.bare hrest.memory

/-- Bare files that there is memory for are skipped. -/
theorem Skippable.skipsFiles (h : kcf.Skippable files) (hp : kcf.parserState = .readRecordHeader)
    (hu : kcf.unpackerState = .fileHeader) (hs : kcf.stream.ReadsFully)
    (hat : kcf.stream.At a (StoredFile.layout files ++ b))
    (hr : (StoredFile.allPieces files).length ≤ rounds) :
    kcf.SkipsFiles rounds fuel header files := by
  induction files generalizing kcf a with
  | nil =>
    intro n hn
    obtain rfl : n = 0 := Nat.le_zero.mp hn
    exact ⟨kcf, rfl, rfl, rfl, rfl, fun f hf => by cases hf⟩
  | cons file files ih =>
    have hbare := h.bare
    have hmem := h.memory
    rw [StoredFile.layout_cons, List.append_assoc] at hat
    rw [StoredFile.allPieces_cons, List.length_append] at hr
    rw [StoredFile.allPieces_cons] at hbare hmem
    rw [List.length_append] at hmem
    have hbytes : kcf.stream.At a (file.head.record.encode ++
        (file.head.added ++ (Piece.layout file.fragments ++ (StoredFile.layout files ++ b)))) := by
      have hat' := hat
      rwa [StoredFile.bytes, StoredFile.pieces, Piece.layout_cons, Piece.bytes, List.append_assoc,
        List.append_assoc] at hat'
    have hlen : file.pieces.length ≤ rounds := by omega
    have hbs : ∀ q ∈ file.pieces, q.Bare := fun q hq => hbare q (List.mem_append_left _ hq)
    obtain ⟨k, hloop, huk⟩ : ∃ k, skipFileLoop fuel header rounds kcf Record.zero = .ok (.ok, k) ∧
        k.unpackerState = .fileHeader := by
      apply skipFileLoop_skips hp hs hat file.chained
      · exact fun q hq => hbs q (List.mem_of_mem_dropLast hq)
      · intro q hq
        rw [Piece.added_of_not (hbs q hq)]
        decide
      · exact fun i hi => hmem i (Nat.lt_add_right _ hi)
      · exact .inl hu
      · exact hlen
      · exact fun q hq hnot => absurd (hbs q hq) hnot
    have hskip : kcf.skipFile rounds fuel header = .ok (.ok, k) := by
      unfold skipFile
      rwa [h.reading]
    have hpast : kcf.PastRecords file.pieces.length (a ++ file.bytes) (StoredFile.layout files ++ b)
        k := (skipFileLoop_ok hloop hs hat file.chained).past hbs
    have hpk := hpast.state
    have hrest : k.Skippable files := by
      refine ⟨hpast.isWriting.trans h.reading, fun p hp => hbare p (List.mem_append_right _ hp),
        fun i hi => ?_⟩
      rw [hpast.heap]
      exact hmem _ (by omega)
    refine SkipsFiles.cons (ih hrest hpk huk hpast.reads hpast.stream (by omega)) hskip
      (hpast.pos hat) (hpk.trans hp.symm) (huk.trans hu.symm) fun R => ?_
    have hpos : 0 < file.pieces.length := Nat.succ_pos _
    exact readRecord_stands hp (hmem 0 (by omega)) hs hbytes file.head.fits file.head.headSize R

/-- Files are skipped, with rounds enough, exactly when the handle is not writing, none of their
records announces added data and there is memory for each. -/
theorem skipsFiles_iff (hp : kcf.parserState = .readRecordHeader)
    (hu : kcf.unpackerState = .fileHeader) (hs : kcf.stream.ReadsFully)
    (hat : kcf.stream.At a (StoredFile.layout (file :: files) ++ b)) (header : Record) :
    (∃ N, ∀ rounds ≥ N, ∀ fuel ≥ N, kcf.SkipsFiles rounds fuel header (file :: files)) ↔
      kcf.Skippable (file :: files) := by
  constructor
  · rintro ⟨N, hN⟩
    exact (hN N le_rfl N le_rfl).skippable hp hs hat
  · intro h
    exact ⟨_, fun rounds hr fuel _ => h.skipsFiles hp hu hs hat hr⟩

def unpackingFiles (files : List StoredFile) : KCF := unpacking (.ofBytes (StoredFile.layout files))

theorem unpackingFiles_at (files : List StoredFile) :
    (unpackingFiles files).stream.At [] (StoredFile.layout files ++ []) := by
  rw [List.append_nil]
  exact ⟨rfl, rfl⟩

theorem skipsFiles_iff_three :
    ((unpackingFiles [.twoRecords, .empty]).skipFiles 2 0 Record.zero 2).map
        (fun r => (r.1, r.2.stream.pos)) = .ok (.ok, 18) ∧
      ∃ N, ∀ rounds ≥ N, ∀ fuel ≥ N, (unpackingFiles [.twoRecords, .empty]).SkipsFiles rounds fuel
        Record.zero [.twoRecords, .empty] :=
  ⟨by decide +kernel, (skipsFiles_iff (by rfl) (by rfl) (fun _ => rfl) (unpackingFiles_at _)
    Record.zero).mpr ⟨rfl, by decide, fun _ _ => rfl⟩⟩

/-- After a file with a byte added to it the parser is left waiting for that byte. -/
theorem oneByte_not_skippedOver :
    ((unpackingFiles [.oneByte 7, .oneByte 8]).skipFile 1 2 Record.zero).map
        (fun r => (r.1, r.2.stream.pos, r.2.parserState)) = .ok (.ok, 11, .readAddedData) ∧
      ((unpackingFiles [.oneByte 7, .oneByte 8]).skipFiles 1 2 Record.zero 2).map
        (fun r => (r.1, r.2.stream.pos)) = .ok (.invalidState, 11) ∧
      ¬ ∃ N, ∀ rounds ≥ N, ∀ fuel ≥ N, (unpackingFiles [.oneByte 7, .oneByte 8]).SkipsFiles
        rounds fuel Record.zero [.oneByte 7, .oneByte 8] := by
  refine ⟨by decide +kernel, by decide +kernel, fun ⟨N, hN⟩ => ?_⟩
  have hskip := (hN N le_rfl N le_rfl).skippable (by rfl) (fun _ => rfl) (unpackingFiles_at _)
  exact hskip.bare (.oneByte KCF_FILE_HEADER false 7) (.head _) (by decide)

end KCF

end Kcf
