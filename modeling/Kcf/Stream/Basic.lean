import Mathlib.Tactic.Linarith
import Kcf.Memory.Basic

/-! # Streams

The stream behind a handle: its bytes, its position and what the backend has in
store for each coming call. A transfer goes through in full, is cut short or
fails with a negative code; a failed call leaves bytes and position alone. The
log lists what the stream was asked to store and how much of it was stored.
-/

namespace Kcf

/-- How one read or write goes. -/
inductive Transfer
  | full
  | short (count : ℕ)
  | failed (code : ℕ)
  deriving DecidableEq, Repr

/-- How one seek or flush goes. -/
inductive Outcome
  | done
  | failed (code : ℕ)
  deriving DecidableEq, Repr

namespace Transfer

/-- The number of bytes moved when so many can be. -/
def moved : Transfer → ℕ → ℕ
  | full, size => size
  | short count, size => min count size
  | failed _, _ => 0

/-- The value the call returns when so many bytes can be moved. -/
def ret : Transfer → ℕ → ℤ
  | full, size => size
  | short count, size => (min count size : ℕ)
  | failed code, _ => Int.negSucc code

def Fails : Transfer → Prop
  | failed _ => True
  | _ => False

/-- The call stores every byte it was given. -/
def Complete (t : Transfer) (size : ℕ) : Prop := t.moved size = size ∧ ¬ t.Fails

instance : (t : Transfer) → Decidable t.Fails
  | failed _ => .isTrue trivial
  | full => .isFalse id
  | short _ => .isFalse id

instance (t : Transfer) (size : ℕ) : Decidable (t.Complete size) :=
  inferInstanceAs (Decidable (_ ∧ _))

theorem moved_le (t : Transfer) (size : ℕ) : t.moved size ≤ size := by
  cases t <;> simp [moved]

theorem ret_neg_iff (t : Transfer) (size : ℕ) : t.ret size < 0 ↔ t.Fails := by
  cases t <;> simp [ret, Fails, Int.negSucc_lt_zero]

theorem moved_of_fails {t : Transfer} (h : t.Fails) (size : ℕ) : t.moved size = 0 := by
  cases t <;> simp_all [moved, Fails]

theorem complete_of_moved {t : Transfer} {size : ℕ} (hs : 0 < size) (h : t.moved size = size) :
    t.Complete size := by
  refine ⟨h, fun hf => ?_⟩
  rw [moved_of_fails hf] at h
  omega

@[simp] theorem not_fails_full : ¬ full.Fails := id

@[simp] theorem moved_full (size : ℕ) : full.moved size = size := rfl

@[simp] theorem complete_full (size : ℕ) : full.Complete size := ⟨rfl, id⟩

end Transfer

/-- One request to store bytes: where, what, and how many of them were stored. -/
structure Write where
  offset : ℕ
  asked : List UInt8
  stored : ℕ
  deriving DecidableEq, Repr

/-- A stream with the outcomes of the calls to come. -/
structure IOStream where
  bytes : List UInt8
  pos : ℕ
  reads : ℕ → Transfer
  writes : ℕ → Transfer
  seeks : ℕ → Outcome
  flushes : ℕ → Outcome
  log : List Write

/-- A byte string on which every call succeeds in full, positioned at its start. -/
def IOStream.ofBytes (bytes : List UInt8) : IOStream :=
  ⟨bytes, 0, fun _ => .full, fun _ => .full, fun _ => .done, fun _ => .done, []⟩

namespace IOStream

/-- The bytes from the position to the end. -/
def ahead (s : IOStream) : List UInt8 := s.bytes.drop s.pos

/-- Bytes stored at an offset; a gap before it is filled with zeros. -/
def storedAt (bytes : List UInt8) (offset : ℕ) (data : List UInt8) : List UInt8 :=
  if data = [] then bytes
  else (bytes ++ List.replicate (offset - bytes.length) 0).overwrite offset data

/-- The stream after so many bytes were read. -/
def took (s : IOStream) (n : ℕ) : IOStream :=
  { s with pos := s.pos + n, reads := fun i => s.reads (i + 1) }

/-- The stream so many bytes further on. -/
def advanced (s : IOStream) (n : ℕ) : IOStream := { s with pos := s.pos + n }

/-- The stream after so many of the given bytes were stored. -/
def stored (s : IOStream) (data : List UInt8) (n : ℕ) : IOStream :=
  { s with
    bytes := storedAt s.bytes s.pos (data.take n)
    pos := s.pos + n
    writes := fun i => s.writes (i + 1)
    log := s.log ++ [⟨s.pos, data, n⟩] }

/-- The stream after a seek that ended at the given position. -/
def sought (s : IOStream) (pos : ℕ) : IOStream :=
  { s with pos := pos, seeks := fun i => s.seeks (i + 1) }

end IOStream

/-- `IO_read`: the value returned, the bytes delivered and the stream afterwards. -/
def ioRead (s : IOStream) (size : ℕ) : ℤ × List UInt8 × IOStream :=
  let left := min size (s.bytes.length - s.pos)
  let n := (s.reads 0).moved left
  ((s.reads 0).ret left, s.ahead.take n, s.took n)

/-- `IO_write`: the value returned and the stream afterwards. -/
def ioWrite (s : IOStream) (buffer : List UInt8) : ℤ × IOStream :=
  ((s.writes 0).ret buffer.length, s.stored buffer ((s.writes 0).moved buffer.length))

/-- `IO_seek` with `IO_SEEK_SET`. -/
def ioSeek (s : IOStream) (offset : ℕ) : ℤ × IOStream :=
  match s.seeks 0 with
  | .done => (offset, s.sought offset)
  | .failed code => (Int.negSucc code, s.sought s.pos)

def ioTell (s : IOStream) : ℕ := s.pos

def ioFlush (s : IOStream) : ℤ × IOStream :=
  let s' := { s with flushes := fun i => s.flushes (i + 1) }
  match s.flushes 0 with
  | .done => (0, s')
  | .failed code => (Int.negSucc code, s')

namespace IOStream

variable {s : IOStream} {data : List UInt8} {n : ℕ}

/-- Every read delivers what is asked for, as far as the stream goes. -/
def ReadsFully (s : IOStream) : Prop := ∀ i, s.reads i = .full

/-- Every read delivers at least one of the bytes that are left, if it is asked for some. -/
def ReadsOn (s : IOStream) : Prop := ∀ i, ¬ (s.reads i).Fails ∧ s.reads i ≠ .short 0

/-- No read fails; each delivers as many of the bytes asked for as it likes. -/
def NeverFails (s : IOStream) : Prop := ∀ i, ¬ (s.reads i).Fails

/-- No write is cut short: each stores all it is given or fails. -/
def NoneShort (s : IOStream) : Prop := ∀ i count, s.writes i ≠ .short count

/-- Every write stores all it is given. -/
def WritesFully (s : IOStream) : Prop := ∀ i, s.writes i = .full

def Seeks (s : IOStream) : Prop := ∀ i, s.seeks i = .done

theorem advanced_zero (s : IOStream) : s.advanced 0 = s := rfl

theorem advanced_advanced (s : IOStream) (m n : ℕ) :
    (s.advanced m).advanced n = s.advanced (m + n) := by
  simp only [advanced, Nat.add_assoc]

theorem ahead_took (s : IOStream) (n : ℕ) : (s.took n).ahead = s.ahead.drop n := by
  rw [ahead, ahead, List.drop_drop]
  rfl

theorem ahead_advanced (s : IOStream) (n : ℕ) : (s.advanced n).ahead = s.ahead.drop n := by
  rw [ahead, ahead, List.drop_drop]
  rfl

theorem ReadsFully.took_eq (h : s.ReadsFully) (n : ℕ) : s.took n = s.advanced n := by
  have hr : (fun i => s.reads (i + 1)) = s.reads := funext fun i => (h (i + 1)).trans (h i).symm
  rw [IOStream.took, hr]
  rfl

theorem ReadsFully.took (h : s.ReadsFully) (n : ℕ) : (s.took n).ReadsFully := fun i => h (i + 1)

theorem ReadsFully.advanced (h : s.ReadsFully) (n : ℕ) : (s.advanced n).ReadsFully := h

theorem ReadsFully.readsOn (h : s.ReadsFully) : s.ReadsOn :=
  fun i => by rw [h i]; exact ⟨id, nofun⟩

theorem ReadsOn.took (h : s.ReadsOn) (n : ℕ) : (s.took n).ReadsOn := fun i => h (i + 1)

theorem ReadsOn.ioRead (h : s.ReadsOn) (size : ℕ) : (Kcf.ioRead s size).2.2.ReadsOn := h.took _

theorem WritesFully.not_fails (h : s.WritesFully) (i : ℕ) : ¬ (s.writes i).Fails := by
  rw [h i]
  exact Transfer.not_fails_full

theorem WritesFully.ioWrite (h : s.WritesFully) (data : List UInt8) :
    (Kcf.ioWrite s data).2.WritesFully := fun i => h (i + 1)

theorem WritesFully.ioSeek (h : s.WritesFully) (offset : ℕ) :
    (Kcf.ioSeek s offset).2.WritesFully := by
  unfold Kcf.ioSeek
  split <;> exact h

theorem Seeks.ioSeek (h : s.Seeks) (offset : ℕ) : (Kcf.ioSeek s offset).2.Seeks := by
  unfold Kcf.ioSeek
  split <;> exact fun i => h (i + 1)

theorem NoneShort.full {i : ℕ} (h : s.NoneShort) (hw : ¬ (s.writes i).Fails) :
    s.writes i = .full := by
  cases ho : s.writes i with
  | full => rfl
  | short count => exact absurd ho (h i count)
  | failed code => exact absurd (by rw [ho]; trivial) hw

theorem NoneShort.ioWrite (h : s.NoneShort) (data : List UInt8) :
    (Kcf.ioWrite s data).2.NoneShort := fun i => h (i + 1)

theorem NoneShort.ioSeek (h : s.NoneShort) (offset : ℕ) : (Kcf.ioSeek s offset).2.NoneShort := by
  unfold Kcf.ioSeek
  split <;> exact h

variable {a b c : List UInt8}

/-- The stream stands between these two stretches of bytes. -/
structure At (s : IOStream) (a b : List UInt8) : Prop where
  bytes : s.bytes = a ++ b
  pos : s.pos = a.length

/-- What lies before the position, with zeros up to a position past the end. -/
def behind (s : IOStream) : List UInt8 :=
  (s.bytes ++ List.replicate (s.pos - s.bytes.length) 0).take s.pos

theorem length_behind (s : IOStream) : s.behind.length = s.pos := by
  simp only [behind, List.length_take, List.length_append, List.length_replicate]
  omega

theorem At.behind_eq (h : s.At a b) : s.behind = a := by
  rw [IOStream.behind, h.bytes, h.pos, List.append_assoc, List.take_left]

theorem At.ahead_eq (h : s.At a b) : s.ahead = b := by
  rw [ahead, h.bytes, h.pos, List.drop_left]

theorem at_end_iff : s.At s.bytes [] ↔ s.pos = s.bytes.length :=
  ⟨At.pos, fun h => ⟨by simp, h⟩⟩

theorem at_ahead (h : s.ahead ≠ []) : s.At (s.bytes.take s.pos) s.ahead := by
  have hlt := List.length_pos_iff.mpr h
  rw [ahead, List.length_drop] at hlt
  refine ⟨(List.take_append_drop ..).symm, ?_⟩
  rw [List.length_take]
  omega

theorem At.atEnd (h : s.At a []) : s.pos = s.bytes.length := by
  rw [h.pos, h.bytes, List.append_nil]

theorem at_stored (s : IOStream) (hd : data ≠ []) :
    (s.stored data data.length).At (s.behind ++ data) (s.ahead.drop data.length) := by
  refine ⟨?_, by simp [stored, length_behind]⟩
  have ha : (s.bytes ++ List.replicate (s.pos - s.bytes.length) 0).drop (s.pos + data.length) =
      s.ahead.drop data.length := by
    rw [ahead, List.drop_drop, List.drop_append, List.drop_replicate]
    rw [show s.pos - s.bytes.length - (s.pos + data.length - s.bytes.length) = 0 by omega,
      List.replicate_zero, List.append_nil]
  rw [stored, List.take_length, storedAt, if_neg hd, List.overwrite, ha, behind]

theorem At.stored (h : s.At a b) (data : List UInt8) :
    (s.stored data data.length).At (a ++ data) (b.drop data.length) := by
  by_cases hd : data = []
  · subst hd
    exact ⟨by simp [IOStream.stored, storedAt, h.bytes], by simp [IOStream.stored, h.pos]⟩
  · rw [← h.behind_eq, ← h.ahead_eq]
    exact s.at_stored hd

theorem At.sought (h : s.At (a ++ b) c) : (s.sought a.length).At a (b ++ c) :=
  ⟨h.bytes.trans (List.append_assoc ..), rfl⟩

theorem At.returned (h : s.At a (b ++ c)) : (s.sought (a ++ b).length).At (a ++ b) c :=
  ⟨h.bytes.trans (List.append_assoc ..).symm, rfl⟩

theorem At.unstored (h : s.At a b) (data : List UInt8) : (s.stored data 0).At a b :=
  ⟨by simp [IOStream.stored, storedAt, h.bytes], h.pos⟩

theorem At.stayed (h : s.At a b) : (s.sought s.pos).At a b := ⟨h.bytes, h.pos⟩

end IOStream

theorem ioRead_full {s : IOStream} (h : s.reads 0 = .full) (size : ℕ) :
    ioRead s size =
      (((min size s.ahead.length : ℕ) : ℤ), s.ahead.take size,
        s.took (min size s.ahead.length)) := by
  have ha : s.ahead.length = s.bytes.length - s.pos := List.length_drop ..
  have ht : s.ahead.take (min size (s.bytes.length - s.pos)) = s.ahead.take size := by
    rw [List.take_eq_take_iff, ha]
    omega
  simp only [ioRead, h, Transfer.moved_full, Transfer.ret, ha, ht]

theorem ioRead_delivered {s : IOStream} (h : ¬ (s.reads 0).Fails) (size : ℕ) :
    ∃ n ≤ size, n ≤ s.ahead.length ∧ ioRead s size = ((n : ℤ), s.ahead.take n, s.took n) := by
  have ha : s.ahead.length = s.bytes.length - s.pos := List.length_drop ..
  have hm := (s.reads 0).moved_le (min size (s.bytes.length - s.pos))
  refine ⟨(s.reads 0).moved (min size (s.bytes.length - s.pos)), by omega, by omega, ?_⟩
  refine Prod.ext ?_ rfl
  cases ho : s.reads 0 with
  | full => simp [ioRead, ho, Transfer.ret]
  | short count => simp [ioRead, ho, Transfer.ret, Transfer.moved]
  | failed code => exact absurd (by rw [ho]; trivial) h

theorem ioRead_on {s : IOStream} (h : s.ReadsOn) (size : ℕ) :
    ∃ n ≤ size, n ≤ s.ahead.length ∧ (0 < size → s.ahead ≠ [] → 0 < n) ∧
      ioRead s size = ((n : ℤ), s.ahead.take n, s.took n) := by
  obtain ⟨hf, h₀⟩ := h 0
  have ha : s.ahead.length = s.bytes.length - s.pos := List.length_drop ..
  obtain ⟨n, hn, hl, hr⟩ := ioRead_delivered hf size
  refine ⟨n, hn, hl, fun hs hne => ?_, hr⟩
  have hpos : 0 < s.ahead.length := List.length_pos_iff.mpr hne
  have hret : (s.reads 0).ret (min size (s.bytes.length - s.pos)) = n := congrArg Prod.fst hr
  cases ho : s.reads 0 with
  | full =>
    rw [ho, Transfer.ret] at hret
    omega
  | short count =>
    have hc : count ≠ 0 := fun h => h₀ (by rw [ho, h])
    rw [ho, Transfer.ret] at hret
    omega
  | failed code => exact absurd (by rw [ho]; trivial) hf

theorem ioWrite_full {s : IOStream} (h : s.writes 0 = .full) (data : List UInt8) :
    ioWrite s data = ((data.length : ℤ), s.stored data data.length) := by
  simp [ioWrite, h, Transfer.ret]

theorem IOStream.behind_ioWrite {s : IOStream} (h : s.WritesFully) (d : List UInt8) :
    (Kcf.ioWrite s d).2.behind = s.behind ++ d := by
  rw [ioWrite_full (h 0)]
  by_cases hd : d = []
  · subst hd
    rw [List.append_nil]
    unfold behind
    simp [stored, storedAt]
  · exact (s.at_stored hd).behind_eq

theorem IOStream.At.ioWrite {s : IOStream} {a b : List UInt8} (h : s.At a b)
    (hw : s.writes 0 = .full) (data : List UInt8) :
    (Kcf.ioWrite s data).2.At (a ++ data) (b.drop data.length) := by
  rw [ioWrite_full hw]
  exact h.stored data

theorem ioWrite_failed {s : IOStream} (h : (s.writes 0).Fails) (data : List UInt8) :
    (ioWrite s data).2 = s.stored data 0 := by
  simp only [ioWrite, Transfer.moved_of_fails h]

theorem ioSeek_done {s : IOStream} (h : s.seeks 0 = .done) (offset : ℕ) :
    ioSeek s offset = ((offset : ℤ), s.sought offset) := by
  simp [ioSeek, h]

theorem ioSeek_bytes (s : IOStream) (offset : ℕ) : (ioSeek s offset).2.bytes = s.bytes := by
  unfold ioSeek
  split <;> rfl

theorem IOStream.At.ioSeek {s : IOStream} {a b c : List UInt8} (h : s.At a (b ++ c))
    (hs : s.seeks 0 = .done ∨ b = []) : (Kcf.ioSeek s (a ++ b).length).2.At (a ++ b) c := by
  cases ho : s.seeks 0 with
  | done =>
    rw [ioSeek_done ho]
    exact h.returned
  | failed code =>
    obtain rfl := hs.resolve_left (by simp [ho])
    rw [List.append_nil]
    simp only [Kcf.ioSeek, ho]
    exact h.stayed

end Kcf
