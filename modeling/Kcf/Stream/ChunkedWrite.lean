import Kcf.Stream.Chunked

/-! # Writing in chunks

A backend whose counts are too narrow for the size it is given writes a chunk at a
time. Unlike a single call, the loops store all of the buffer or report an error,
whatever the counts of the calls underneath; only the one over a Windows handle gives
up on a device that stores nothing, where the others go on for ever.
-/

namespace Kcf

open Loop

/-- The value returned and the stream afterwards. -/
abbrev WriteResult := ℤ × IOStream

/-- The variables of the loops: what is left to write, what was written, how far the pointer into
the buffer has moved, and the stream. -/
structure ChunkedWrite where
  size : ℤ
  writeLength : ℤ
  offset : ℕ
  stream : IOStream

namespace ChunkedWrite

def toWrite (c : ChunkedWrite) : ℤ := if c.size < CHUNK_SIZE then c.size else CHUNK_SIZE

/-- The variables after so many bytes more. -/
def moved (c : ChunkedWrite) (n : ℕ) (stream : IOStream) : ChunkedWrite :=
  ⟨c.size - n, c.writeLength + n, c.offset + n, stream⟩

/-- `while (size > 0)`. -/
def again (c : ChunkedWrite) : ChunkedWrite ⊕ WriteResult :=
  if 0 < c.size then .inl c else .inr (c.writeLength, c.stream)

end ChunkedWrite

/-- The call underneath, given a size that is cut to the width of its count: the value returned,
the number of bytes stored and the stream. -/
def Backend.callWrite (backend : Backend) (build : Build) (buffer : List UInt8) (offset : ℕ)
    (stream : IOStream) (size : ℤ) : Exec (ℤ × ℕ × IOStream) :=
  let count := (size % 2 ^ backend.countBits build).toNat
  if buffer.length < offset + count then .error .outOfBounds
  else
    let data := (buffer.drop offset).take count
    let (ret, stream') := ioWrite stream data
    .ok (ret, (stream.writes 0).moved data.length, stream')

/-- The body of the loop in `_cfile_write`. -/
def cfileWriteRound (build : Build) (buffer : List UInt8) (c : ChunkedWrite) :
    Exec (ChunkedWrite ⊕ WriteResult) := do
  let (ret, write4, stream) ← Backend.cfile.callWrite build buffer c.offset c.stream c.toWrite
  -- `ferror`
  if ret < 0 then return .inr (-1, stream)
  return (c.moved write4 stream).again

/-- `_cfile_write`. -/
def cfileWrite (build : Build) (fuel : ℕ) (stream : IOStream) (buffer : List UInt8) (size : ℤ) :
    Exec WriteResult :=
  if Backend.cfile.Chunks build size then
    loop .outOfFuel (cfileWriteRound build buffer) fuel ⟨size, 0, 0, stream⟩
  else do
    let (_, writeLength, stream) ← Backend.cfile.callWrite build buffer 0 stream size
    return (writeLength, stream)

/-- The body of the loop in `_fd_write`. -/
def fdWriteRound (build : Build) (buffer : List UInt8) (c : ChunkedWrite) :
    Exec (ChunkedWrite ⊕ WriteResult) := do
  let (ret, _, stream) ← Backend.fd.callWrite build buffer c.offset c.stream c.toWrite
  if ret < 0 then return .inr (ret, stream)
  return (c.moved ret.toNat stream).again

/-- `_fd_write`. -/
def fdWrite (build : Build) (fuel : ℕ) (stream : IOStream) (buffer : List UInt8) (size : ℤ) :
    Exec WriteResult :=
  if Backend.fd.Chunks build size then
    loop .outOfFuel (fdWriteRound build buffer) fuel ⟨size, 0, 0, stream⟩
  else do
    let (ret, _, stream) ← Backend.fd.callWrite build buffer 0 stream size
    return (ret, stream)

/-- The body of the loop in `_w32_write`. -/
def w32WriteRound (build : Build) (buffer : List UInt8) (c : ChunkedWrite) :
    Exec (ChunkedWrite ⊕ WriteResult) := do
  let (ret, nWrite, stream) ← Backend.w32.callWrite build buffer c.offset c.stream c.toWrite
  if ret < 0 then return .inr (-1, stream)
  if nWrite = 0 then return .inr (c.writeLength, stream)
  return (c.moved nWrite stream).again

/-- `_w32_write`. -/
def w32Write (build : Build) (fuel : ℕ) (stream : IOStream) (buffer : List UInt8) (size : ℤ) :
    Exec WriteResult :=
  if Backend.w32.Chunks build size then
    loop .outOfFuel (w32WriteRound build buffer) fuel ⟨size, 0, 0, stream⟩
  else do
    let (ret, nWrite, stream) ← Backend.w32.callWrite build buffer 0 stream size
    if ret < 0 then return (-1, stream)
    return (nWrite, stream)

theorem Transfer.ret_eq_moved {t : Transfer} (h : ¬ t.Fails) (size : ℕ) :
    t.ret size = t.moved size := by
  cases t with
  | full => rfl
  | short count => rfl
  | failed code => exact absurd trivial h

theorem Transfer.eq_short_zero {t : Transfer} {size : ℕ} (h : ¬ t.Fails) (hpos : 0 < size)
    (hm : t.moved size = 0) : t = .short 0 := by
  cases t with
  | full => exact absurd hm (Nat.ne_zero_of_lt hpos)
  | short count =>
    have hcount : min count size = 0 := hm
    rw [show count = 0 by omega]
  | failed code => exact absurd trivial h

/-- Every write stores at least one of the bytes it is given, or fails. -/
def IOStream.WritesOn (s : IOStream) : Prop := ∀ i, s.writes i ≠ .short 0

namespace IOStream

variable {s : IOStream} {data : List UInt8} {n : ℕ}

theorem stored_behind (h : n ≤ data.length) : (s.stored data n).behind = s.behind ++ data.take n ∧
    (s.stored data n).ahead = s.ahead.drop n := by
  by_cases hn : n = 0
  · subst hn
    simp [behind, ahead, IOStream.stored, storedAt]
  · have hlen : (data.take n).length = n := List.length_take_of_le h
    have hne : data.take n ≠ [] := List.ne_nil_of_length_pos (by omega)
    have hat := s.at_stored hne
    rw [hlen] at hat
    have hsame : (s.stored data n).At (s.behind ++ data.take n) (s.ahead.drop n) := by
      refine ⟨?_, hat.pos⟩
      rw [← hat.bytes]
      simp [IOStream.stored, List.take_take]
    exact ⟨hsame.behind_eq, hsame.ahead_eq⟩

end IOStream

namespace Backend

/-- The body of a backend's loop. -/
def writeRound (build : Build) (buffer : List UInt8) :
    Backend → ChunkedWrite → Exec (ChunkedWrite ⊕ WriteResult)
  | cfile => cfileWriteRound build buffer
  | fd => fdWriteRound build buffer
  | w32 => w32WriteRound build buffer

/-- A backend's write. -/
def write (build : Build) : Backend → ℕ → IOStream → List UInt8 → ℤ → Exec WriteResult
  | cfile => cfileWrite build
  | fd => fdWrite build
  | w32 => w32Write build

variable {backend : Backend} {build : Build} {c : ChunkedWrite} {stream : IOStream}
  {buffer : List UInt8} {size fuel put n : ℕ} {r : WriteResult}

theorem write_chunks (h : backend.Chunks build size) :
    backend.write build fuel stream buffer size =
      loop .outOfFuel (backend.writeRound build buffer) fuel ⟨size, 0, 0, stream⟩ := by
  cases backend <;> exact if_pos h

theorem callWrite_eq {offset : ℕ} {count : ℤ}
    (hcount : (count % 2 ^ backend.countBits build).toNat = n)
    (hroom : offset + n ≤ buffer.length) :
    backend.callWrite build buffer offset stream count =
      .ok ((stream.writes 0).ret n, (stream.writes 0).moved n,
        stream.stored ((buffer.drop offset).take n) ((stream.writes 0).moved n)) := by
  have hlen : ((buffer.drop offset).take n).length = n :=
    List.length_take_of_le (by rw [List.length_drop]; omega)
  unfold callWrite
  dsimp only
  rw [hcount, if_neg (by omega), ioWrite, hlen]

variable {ret : ℤ} {s : IOStream}

theorem writeRound_failed
    (hcall : backend.callWrite build buffer c.offset c.stream c.toWrite = .ok (ret, n, s))
    (hneg : ret < 0) : ∃ e < 0, backend.writeRound build buffer c = .ok (.inr (e, s)) := by
  cases backend with
  | cfile =>
    refine ⟨-1, by decide, ?_⟩
    rw [writeRound, cfileWriteRound, hcall, Exec.ok_bind]
    exact if_pos hneg
  | fd =>
    refine ⟨ret, hneg, ?_⟩
    rw [writeRound, fdWriteRound, hcall, Exec.ok_bind]
    exact if_pos hneg
  | w32 =>
    refine ⟨-1, by decide, ?_⟩
    rw [writeRound, w32WriteRound, hcall, Exec.ok_bind]
    exact if_pos hneg

/-- A round whose call did not fail moves on, except that the loop over a handle is left when
nothing is stored. -/
theorem writeRound_stored
    (hcall : backend.callWrite build buffer c.offset c.stream c.toWrite = .ok ((n : ℤ), n, s)) :
    backend.writeRound build buffer c = .ok
      (if backend = .w32 ∧ n = 0 then .inr (c.writeLength, s) else (c.moved n s).again) := by
  have hneg : ¬ (n : ℤ) < 0 := by omega
  cases backend with
  | cfile =>
    rw [writeRound, cfileWriteRound, hcall, Exec.ok_bind]
    simp [hneg]
    rfl
  | fd =>
    rw [writeRound, fdWriteRound, hcall, Exec.ok_bind]
    simp [hneg]
    rfl
  | w32 =>
    rw [writeRound, w32WriteRound, hcall, Exec.ok_bind]
    by_cases hn : n = 0
    · simp [hn]
      rfl
    · simp [hneg, hn]
      rfl

/-- The bytes up to one of the buffer's offsets are stored, and the calls used up are the first
ones. -/
structure Storing (stream : IOStream) (buffer : List UInt8) (put : ℕ) (s : IOStream) : Prop where
  behind : s.behind = stream.behind ++ buffer.take put
  ahead : s.ahead = stream.ahead.drop put
  writes : ∃ used, s.writes = fun i => stream.writes (i + used)

theorem Storing.start (stream : IOStream) (buffer : List UInt8) :
    Storing stream buffer 0 stream :=
  ⟨by rw [List.take_zero, List.append_nil], rfl, 0, rfl⟩

theorem Storing.stored (h : Storing stream buffer put s) (hroom : put + n ≤ buffer.length)
    {m : ℕ} (hm : m ≤ n) :
    Storing stream buffer (put + m) (s.stored ((buffer.drop put).take n) m) := by
  have hlen : ((buffer.drop put).take n).length = n :=
    List.length_take_of_le (by rw [List.length_drop]; omega)
  obtain ⟨hbehind, hahead⟩ := s.stored_behind (hm.trans hlen.ge)
  obtain ⟨used, hused⟩ := h.writes
  refine ⟨?_, ?_, used + 1, ?_⟩
  · rw [hbehind, h.behind, List.take_take, Nat.min_eq_left hm, List.append_assoc, ← List.take_add]
  · rw [hahead, h.ahead, List.drop_drop]
  · funext i
    change s.writes (i + 1) = _
    rw [hused]
    dsimp only
    congr 1
    omega

/-- What a write comes to: a prefix of the buffer is stored in order; the count that is returned,
if one is, is its length, and a size that is written in chunks is stored as a whole unless a call
stores nothing. An error is that of a call. -/
structure Stores (backend : Backend) (build : Build) (stream : IOStream) (buffer : List UInt8)
    (size : ℕ) (r : WriteResult) : Prop where
  stored : ∃ put ≤ size, r.2.behind = stream.behind ++ buffer.take put ∧
    r.2.ahead = stream.ahead.drop put ∧ (0 ≤ r.1 → r.1 = put) ∧
    (0 ≤ r.1 → backend.Chunks build size → stream.WritesOn → put = size)
  failed : r.1 < 0 → ∃ i, (stream.writes i).Fails

/-- The loop has written so many bytes, and the rest is still to go. -/
structure Writing (stream : IOStream) (buffer : List UInt8) (size put : ℕ) (c : ChunkedWrite) :
    Prop extends Storing stream buffer put c.stream where
  put_lt : put < size
  size : c.size = size - put
  writeLength : c.writeLength = put
  offset : c.offset = put

theorem Storing.stores (h : Storing stream buffer put s) (hput : put ≤ size)
    (hend : put = size ∨ ¬ stream.WritesOn) : Stores backend build stream buffer size (put, s) :=
  ⟨⟨put, hput, h.behind, h.ahead, fun _ => rfl,
      fun _ _ hon => hend.resolve_right (not_not.mpr hon)⟩,
    fun hneg => absurd hneg (by simp)⟩

/-- A round that is not cut short by an error or a device that stores nothing moves on. -/
theorem Writing.round (h : Writing stream buffer size put c)
    (hbits : backend.countBits build = 32) (hbuffer : size ≤ buffer.length)
    (hon : backend = .w32 ∨ stream.WritesOn) :
    (∃ c', backend.writeRound build buffer c = .ok (.inl c') ∧
      (∃ put', Writing stream buffer size put' c') ∧ c'.size.toNat < c.size.toNat) ∨
    ∃ r, backend.writeRound build buffer c = .ok (.inr r) ∧
      Stores backend build stream buffer size r := by
  have hlt := h.put_lt
  have hsize := h.size
  have hto : 0 < c.toWrite ∧ c.toWrite ≤ c.size ∧ c.toWrite < 2 ^ 32 := by
    unfold ChunkedWrite.toWrite CHUNK_SIZE
    split <;> omega
  obtain ⟨n, hn⟩ : ∃ n : ℕ, c.toWrite = n := ⟨c.toWrite.toNat, by omega⟩
  have hcount : (c.toWrite % 2 ^ backend.countBits build).toNat = n := by
    rw [hbits, Int.emod_eq_of_lt (by omega) hto.2.2, hn, Int.toNat_natCast]
  have hroom : put + n ≤ buffer.length := by omega
  have hle := (c.stream.writes 0).moved_le n
  have hstored := h.toStoring.stored hroom hle
  have hcall : backend.callWrite build buffer c.offset c.stream c.toWrite =
      .ok ((c.stream.writes 0).ret n, (c.stream.writes 0).moved n,
        c.stream.stored ((buffer.drop put).take n) ((c.stream.writes 0).moved n)) := by
    rw [callWrite_eq hcount (by rw [h.offset]; exact hroom), h.offset]
  generalize c.stream.stored ((buffer.drop put).take n) ((c.stream.writes 0).moved n) = s
    at hcall hstored
  obtain ⟨used, hused⟩ := h.writes
  have hfirst : c.stream.writes 0 = stream.writes (0 + used) := congrFun hused 0
  by_cases hf : (c.stream.writes 0).Fails
  · -- the call failed: an error is reported, and what was stored so far stays
    obtain ⟨e, he, hround⟩ := writeRound_failed hcall ((Transfer.ret_neg_iff ..).mpr hf)
    refine .inr ⟨_, hround, ⟨_, by omega, hstored.behind, hstored.ahead, ?_, ?_⟩, fun _ => ?_⟩
    · exact fun h => absurd he (not_lt.mpr h)
    · exact fun h => absurd he (not_lt.mpr h)
    · exact ⟨0 + used, hfirst ▸ hf⟩
  · rw [Transfer.ret_eq_moved hf] at hcall
    have hround := writeRound_stored hcall
    have hstall := Transfer.eq_short_zero hf (show 0 < n by omega)
    generalize (c.stream.writes 0).moved n = m at *
    by_cases hzero : m = 0
    · -- nothing was stored, which only the loop over a handle gets to see
      have hoff : ¬ stream.WritesOn := fun hall => hall (0 + used) (hfirst ▸ hstall hzero)
      have hw : backend = .w32 := hon.resolve_right hoff
      rw [if_pos ⟨hw, hzero⟩, h.writeLength] at hround
      subst hzero
      exact .inr ⟨_, hround, hstored.stores hlt.le (.inr hoff)⟩
    · rw [if_neg fun h => hzero h.2, ChunkedWrite.again] at hround
      have hleft : (c.moved m s).size = size - (put + m : ℕ) := by
        simp only [ChunkedWrite.moved, hsize]
        omega
      have hlen : (c.moved m s).writeLength = (put + m : ℕ) := by
        simp only [ChunkedWrite.moved, h.writeLength]
        omega
      by_cases hmore : put + m < size
      · rw [if_pos (by omega)] at hround
        refine .inl ⟨_, hround, ⟨put + m, hstored, hmore, hleft, hlen, ?_⟩, by omega⟩
        simp only [ChunkedWrite.moved, h.offset]
      · rw [if_neg (by omega), hlen] at hround
        exact .inr ⟨_, hround, hstored.stores (by omega) (.inl (by omega))⟩

theorem loop_writes (hbits : backend.countBits build = 32) (hbuffer : size ≤ buffer.length)
    (hpos : 0 < size) (hon : backend = .w32 ∨ stream.WritesOn) (hfuel : size < fuel) :
    ∃ r, loop .outOfFuel (backend.writeRound build buffer) fuel ⟨size, 0, 0, stream⟩ = .ok r ∧
      Stores backend build stream buffer size r := by
  apply loop_ends (I := fun c => ∃ put, Writing stream buffer size put c) (fun c => c.size.toNat)
  · rintro c ⟨put, hc⟩
    exact hc.round hbits hbuffer hon
  · exact ⟨0, .start stream buffer, hpos, (Int.sub_zero _).symm, rfl, rfl⟩
  · simpa using hfuel

/-- A size that is not written in chunks goes to one call, whose count is passed on. -/
theorem write_single (h : ¬ backend.Chunks build size) (hsize : size < 2 ^ 63)
    (hbuild : build.sizeofSizeT = 4 ∨ build.sizeofSizeT = 8) (hbuffer : size ≤ buffer.length) :
    ∃ r, backend.write build fuel stream buffer size = .ok r ∧
      Stores backend build stream buffer size r := by
  have hroom : 0 + size ≤ buffer.length := by omega
  have hcall : backend.callWrite build buffer 0 stream size =
      .ok ((stream.writes 0).ret size, (stream.writes 0).moved size,
        stream.stored ((buffer.drop 0).take size) ((stream.writes 0).moved size)) :=
    callWrite_eq (count_of_not_chunks h hsize hbuild) hroom
  have hle := (stream.writes 0).moved_le size
  have hstored := (Storing.start stream buffer).stored hroom hle
  have hstores (ret : ℤ) (hret : 0 ≤ ret → ret = (stream.writes 0).moved size)
      (hneg : ret < 0 → (stream.writes 0).Fails) :
      Stores backend build stream buffer size
        (ret, stream.stored ((buffer.drop 0).take size) ((stream.writes 0).moved size)) := by
    rw [Nat.zero_add] at hstored
    exact ⟨⟨_, hle, hstored.behind, hstored.ahead, hret, fun _ hc => absurd hc h⟩,
      fun hret => ⟨0, hneg hret⟩⟩
  have hiff := Transfer.ret_neg_iff (stream.writes 0) size
  have hpass : 0 ≤ (stream.writes 0).ret size →
      (stream.writes 0).ret size = (stream.writes 0).moved size :=
    fun hret => Transfer.ret_eq_moved (fun hf => absurd (hiff.mpr hf) (not_lt.mpr hret)) size
  cases backend with
  | cfile =>
    refine ⟨_, ?_, hstores _ (fun _ => rfl) fun hneg => absurd hneg (by simp)⟩
    rw [write, cfileWrite, if_neg h, hcall]
    rfl
  | fd =>
    refine ⟨_, ?_, hstores _ hpass hiff.mp⟩
    rw [write, fdWrite, if_neg h, hcall]
    rfl
  | w32 =>
    rw [write, w32Write, if_neg h, hcall, Exec.ok_bind]
    dsimp only
    by_cases hneg : (stream.writes 0).ret size < 0
    · rw [if_pos hneg]
      exact ⟨_, rfl, hstores _ (fun h => absurd h (by decide)) fun _ => hiff.mp hneg⟩
    · rw [if_neg hneg]
      exact ⟨_, rfl, hstores _ (fun _ => rfl) fun hneg => absurd hneg (by simp)⟩

/-- Every write comes back from a device that stores something or fails at each call, and over a
Windows handle from any other too. It stores a prefix of the buffer, in order; the count it
returns, if one is, is the prefix's length, which is all of the buffer where the size is written in
chunks and the device stores something at each call. -/
theorem write_stores (backend : Backend) (build : Build) (stream : IOStream) (buffer : List UInt8)
    (size fuel : ℕ) (hbuffer : size ≤ buffer.length) (hsize : size < 2 ^ 63)
    (hbuild : build.sizeofSizeT = 4 ∨ build.sizeofSizeT = 8)
    (hon : backend = .w32 ∨ stream.WritesOn) (hfuel : size < fuel) :
    ∃ r, backend.write build fuel stream buffer size = .ok r ∧
      Stores backend build stream buffer size r := by
  by_cases hchunks : backend.Chunks build size
  · rw [write_chunks hchunks]
    exact loop_writes (countBits_of_chunks hchunks) hbuffer (pos_of_chunks hchunks) hon hfuel
  · exact write_single hchunks hsize hbuild hbuffer

theorem write_stores_two :
    ∃ r, fd.write ⟨8, false⟩ 3 (.ofBytes []) [1, 2] (2 : ℕ) = .ok r ∧
      Stores fd ⟨8, false⟩ (.ofBytes []) [1, 2] 2 r :=
  write_stores fd ⟨8, false⟩ (.ofBytes []) [1, 2] 2 3 (by decide) (by decide) (.inr rfl)
    (.inr fun _ => nofun) (by decide)

/-- The loops over a `FILE` and over a descriptor go on for ever on a device that stores nothing and
reports no error, as one that is full may. -/
theorem write_stalls (hbackend : backend ≠ .w32) (hchunks : backend.Chunks build size)
    (hbuffer : size ≤ buffer.length) (hfull : ∀ i, stream.writes i = .short 0) (fuel : ℕ) :
    backend.write build fuel stream buffer size = .error .outOfFuel := by
  have hbits := countBits_of_chunks hchunks
  have hpos := pos_of_chunks hchunks
  rw [write_chunks hchunks]
  apply loop_endless (I := fun c : ChunkedWrite => (∀ i, c.stream.writes i = .short 0) ∧
    0 < c.size ∧ c.offset + c.size ≤ buffer.length)
  · rintro c ⟨hstall, hleft, hroom⟩
    have hto : 0 < c.toWrite ∧ c.toWrite ≤ c.size ∧ c.toWrite < 2 ^ 32 := by
      unfold ChunkedWrite.toWrite CHUNK_SIZE
      split <;> omega
    have hcount : (c.toWrite % 2 ^ backend.countBits build).toNat = c.toWrite.toNat := by
      rw [hbits, Int.emod_eq_of_lt (by omega) hto.2.2]
    have hcall : backend.callWrite build buffer c.offset c.stream c.toWrite = _ :=
      callWrite_eq hcount (by omega)
    have hnone : (c.stream.writes 0).moved c.toWrite.toNat = 0 := by
      rw [hstall 0]
      exact Nat.zero_min _
    rw [Transfer.ret_eq_moved (by rw [hstall 0]; exact id), hnone] at hcall
    have hround := writeRound_stored hcall
    rw [if_neg fun h => hbackend h.1, ChunkedWrite.again,
      if_pos (show 0 < (c.moved 0 _).size by simpa [ChunkedWrite.moved] using hleft)] at hround
    refine ⟨_, hround, fun i => hstall (i + 1), ?_, ?_⟩
    · simpa [ChunkedWrite.moved] using hleft
    · simpa [ChunkedWrite.moved] using hroom
  · exact ⟨hfull, by simpa using hpos, by simpa using hbuffer⟩

theorem write_stalls_full :
    fdWrite ⟨8, true⟩ 100 { IOStream.ofBytes [] with writes := fun _ => .short 0 }
      (List.replicate (2 ^ 31) 0) (2 ^ 31 : ℕ) = .error .outOfFuel := by
  have hchunks : fd.Chunks ⟨8, true⟩ (2 ^ 31 : ℕ) := by decide
  exact write_stalls (by decide) hchunks (by rw [List.length_replicate]) (fun _ => rfl) 100

end Backend

end Kcf
