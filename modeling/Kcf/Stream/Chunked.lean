import Kcf.Library.Loop
import Kcf.Stream.Basic

/-! # Reading in chunks

A backend whose counts are too narrow for the size that is asked for reads a
chunk at a time. The loop over a Windows handle stops at the end of the file;
those over a `FILE` and over a descriptor go on there for ever, as they stop
only when all that was asked for has come.
-/

namespace Kcf

open Loop

/-- What the backends depend on where they are compiled. -/
structure Build where
  sizeofSizeT : ℕ
  windows : Bool
  deriving DecidableEq, Repr

/-- `IO_CFILE`, `IO_POSIX` and `IO_WIN32`. -/
inductive Backend
  | cfile
  | fd
  | w32
  deriving DecidableEq, Repr

def INT32_MAX : ℤ := 2147483647

def CHUNK_SIZE : ℤ := 1073741824

/-- The value returned, the buffer and the stream afterwards. -/
abbrev ReadResult := ℤ × List UInt8 × IOStream

/-- The variables of the loops: what is left to read, what was read, how far the pointer into the
buffer has moved, the buffer and the stream. -/
structure Chunked where
  size : ℤ
  readLength : ℤ
  offset : ℕ
  buffer : List UInt8
  stream : IOStream

namespace Chunked

/-- What is asked for next. -/
def toRead (c : Chunked) : ℤ := if c.size < CHUNK_SIZE then c.size else CHUNK_SIZE

/-- The variables after so many bytes more. -/
def moved (c : Chunked) (n : ℕ) (buffer : List UInt8) (stream : IOStream) : Chunked :=
  ⟨c.size - n, c.readLength + n, c.offset + n, buffer, stream⟩

/-- `while (size > 0)`. -/
def again (c : Chunked) : Chunked ⊕ ReadResult :=
  if 0 < c.size then .inl c else .inr (c.readLength, c.buffer, c.stream)

end Chunked

namespace Backend

/-- The number of bits of the counts that the call underneath takes. -/
def countBits (build : Build) : Backend → ℕ
  | cfile => 8 * build.sizeofSizeT
  | fd => if build.windows then 32 else 8 * build.sizeofSizeT
  | w32 => 32

/-- A size is read in chunks. -/
def Chunks (build : Build) (size : ℤ) : Backend → Prop
  | cfile => build.sizeofSizeT = 4 ∧ size > INT32_MAX
  | fd => if build.windows then size > INT32_MAX else build.sizeofSizeT = 4 ∧ size > INT32_MAX
  | w32 => size > INT32_MAX

instance (build : Build) (size : ℤ) : (backend : Backend) → Decidable (backend.Chunks build size)
  | cfile => inferInstanceAs (Decidable (_ ∧ _))
  | fd => inferInstanceAs (Decidable (if build.windows then size > INT32_MAX
      else build.sizeofSizeT = 4 ∧ size > INT32_MAX))
  | w32 => inferInstanceAs (Decidable (size > INT32_MAX))

/-- The call underneath, given a size that is cut to the width of its count: the value returned,
the number of bytes stored, the buffer and the stream. -/
def call (backend : Backend) (build : Build) (buffer : List UInt8) (offset : ℕ)
    (stream : IOStream) (size : ℤ) : Exec (ℤ × ℕ × List UInt8 × IOStream) := do
  let (ret, bytes, stream) := ioRead stream (size % 2 ^ backend.countBits build).toNat
  let buffer ← memcpy buffer offset (some bytes) bytes.length
  return (ret, bytes.length, buffer, stream)

end Backend

/-- The body of the loop in `_cfile_read`. -/
def cfileRound (build : Build) (c : Chunked) : Exec (Chunked ⊕ ReadResult) := do
  let (ret, read4, buffer, stream) ←
    Backend.cfile.call build c.buffer c.offset c.stream c.toRead
  -- `ferror`
  if ret < 0 then return .inr (-1, buffer, stream)
  return (c.moved read4 buffer stream).again

/-- `_cfile_read`. -/
def cfileRead (build : Build) (fuel : ℕ) (stream : IOStream) (buffer : List UInt8) (size : ℤ) :
    Exec ReadResult :=
  if Backend.cfile.Chunks build size then
    loop .outOfFuel (cfileRound build) fuel ⟨size, 0, 0, buffer, stream⟩
  else do
    let (_, readLength, buffer, stream) ← Backend.cfile.call build buffer 0 stream size
    return (readLength, buffer, stream)

/-- The body of the loop in `_fd_read`. -/
def fdRound (build : Build) (c : Chunked) : Exec (Chunked ⊕ ReadResult) := do
  let (ret, _, buffer, stream) ← Backend.fd.call build c.buffer c.offset c.stream c.toRead
  if ret < 0 then return .inr (ret, buffer, stream)
  return (c.moved ret.toNat buffer stream).again

/-- `_fd_read`. -/
def fdRead (build : Build) (fuel : ℕ) (stream : IOStream) (buffer : List UInt8) (size : ℤ) :
    Exec ReadResult :=
  if Backend.fd.Chunks build size then
    loop .outOfFuel (fdRound build) fuel ⟨size, 0, 0, buffer, stream⟩
  else do
    let (ret, _, buffer, stream) ← Backend.fd.call build buffer 0 stream size
    return (ret, buffer, stream)

/-- The body of the loop in `_w32_read`. -/
def w32Round (build : Build) (c : Chunked) : Exec (Chunked ⊕ ReadResult) := do
  let (ret, nRead, buffer, stream) ← Backend.w32.call build c.buffer c.offset c.stream c.toRead
  if ret < 0 then return .inr (-1, buffer, stream)
  if nRead = 0 then return .inr (c.readLength, buffer, stream)
  return (c.moved nRead buffer stream).again

/-- `_w32_read`. -/
def w32Read (build : Build) (fuel : ℕ) (stream : IOStream) (buffer : List UInt8) (size : ℤ) :
    Exec ReadResult :=
  if Backend.w32.Chunks build size then
    loop .outOfFuel (w32Round build) fuel ⟨size, 0, 0, buffer, stream⟩
  else do
    let (ret, nRead, buffer, stream) ← Backend.w32.call build buffer 0 stream size
    if ret < 0 then return (-1, buffer, stream)
    return (nRead, buffer, stream)

namespace Backend

/-- The body of a backend's loop. -/
def round (build : Build) : Backend → Chunked → Exec (Chunked ⊕ ReadResult)
  | cfile => cfileRound build
  | fd => fdRound build
  | w32 => w32Round build

/-- A backend's read. -/
def read (build : Build) : Backend → ℕ → IOStream → List UInt8 → ℤ → Exec ReadResult
  | cfile => cfileRead build
  | fd => fdRead build
  | w32 => w32Read build

/-- A read comes back with what is left, up to the size asked for, and with those bytes in the
buffer, in order. -/
def ReadsLeft (backend : Backend) (build : Build) (stream : IOStream) (buffer : List UInt8)
    (size : ℕ) : Prop :=
  ∃ rounds, ∀ fuel ≥ rounds, ∃ stream', backend.read build fuel stream buffer size =
      .ok ((min size stream.ahead.length : ℕ), buffer.overwrite 0 (stream.ahead.take size),
        stream') ∧
    stream'.ahead = stream.ahead.drop size

variable {backend : Backend} {build : Build} {c : Chunked} {stream : IOStream}
  {buffer : List UInt8} {size fuel : ℕ}

theorem read_chunks (h : backend.Chunks build size) :
    backend.read build fuel stream buffer size =
      loop .outOfFuel (backend.round build) fuel ⟨size, 0, 0, buffer, stream⟩ := by
  cases backend <;> exact if_pos h

theorem countBits_of_chunks {size : ℤ} (h : backend.Chunks build size) :
    backend.countBits build = 32 := by
  cases backend with
  | cfile => rw [countBits, h.1]
  | fd =>
    rw [Chunks] at h
    rw [countBits]
    split
    · rfl
    · rename_i hw
      rw [if_neg hw] at h
      rw [h.1]
  | w32 => rfl

theorem pos_of_chunks (h : backend.Chunks build size) : 0 < size := by
  have hmax : (size : ℤ) > INT32_MAX := by
    cases backend with
    | cfile => exact h.2
    | fd =>
      rw [Chunks] at h
      split at h
      · exact h
      · exact h.2
    | w32 => exact h
  unfold INT32_MAX at hmax
  omega

theorem call_reads (hbits : backend.countBits build = 32) (hreads : c.stream.ReadsOn)
    (hpos : 0 < c.size) (hroom : c.offset + c.size ≤ c.buffer.length) :
    ∃ n : ℕ, n ≤ c.size ∧ n ≤ c.stream.ahead.length ∧ (c.stream.ahead ≠ [] → 0 < n) ∧
      backend.call build c.buffer c.offset c.stream c.toRead =
        .ok (n, n, c.buffer.overwrite c.offset (c.stream.ahead.take n), c.stream.took n) := by
  have hto : 0 < c.toRead ∧ c.toRead ≤ c.size ∧ c.toRead < 2 ^ 32 := by
    unfold Chunked.toRead CHUNK_SIZE
    split <;> omega
  have hcount : (c.toRead % 2 ^ 32).toNat = c.toRead.toNat := by
    rw [Int.emod_eq_of_lt (by omega) hto.2.2]
  obtain ⟨n, hn, hleft, hon, hr⟩ := ioRead_on hreads c.toRead.toNat
  have hlen : (c.stream.ahead.take n).length = n := List.length_take_of_le hleft
  have hstore : memcpy c.buffer c.offset (some (c.stream.ahead.take n)) n =
      .ok (c.buffer.overwrite c.offset (c.stream.ahead.take n)) :=
    memcpy_fits hlen (by omega)
  refine ⟨n, by omega, hleft, hon (by omega), ?_⟩
  unfold call
  rw [hbits, hcount, hr]
  dsimp only
  rw [hlen, hstore]
  rfl

/-- A round moves on, except that the loop over a handle is left when nothing comes. -/
theorem round_reads (hbits : backend.countBits build = 32) (hreads : c.stream.ReadsOn)
    (hpos : 0 < c.size) (hroom : c.offset + c.size ≤ c.buffer.length) :
    ∃ n : ℕ, n ≤ c.size ∧ n ≤ c.stream.ahead.length ∧ (c.stream.ahead ≠ [] → 0 < n) ∧
      backend.round build c = .ok
        (if backend = .w32 ∧ n = 0 then
          .inr (c.readLength, c.buffer.overwrite c.offset (c.stream.ahead.take n),
            c.stream.took n)
        else
          (c.moved n (c.buffer.overwrite c.offset (c.stream.ahead.take n))
            (c.stream.took n)).again) := by
  obtain ⟨n, hsize, hleft, hon, hcall⟩ := call_reads hbits hreads hpos hroom
  refine ⟨n, hsize, hleft, hon, ?_⟩
  have hneg : ¬ (n : ℤ) < 0 := by omega
  cases backend with
  | cfile =>
    rw [round, cfileRound, hcall, Exec.ok_bind]
    simp [hneg]
    rfl
  | fd =>
    rw [round, fdRound, hcall, Exec.ok_bind]
    simp [hneg]
    rfl
  | w32 =>
    rw [round, w32Round, hcall, Exec.ok_bind]
    by_cases hn : n = 0
    · simp [hn]
      rfl
    · simp [hneg, hn]
      rfl

/-- A result is what was left: its size, up to the size asked for, and its bytes in the buffer. -/
def WhatIsLeft (stream : IOStream) (buffer : List UInt8) (size : ℕ) (r : ReadResult) : Prop :=
  r.1 = (min size stream.ahead.length : ℕ) ∧
    r.2.1 = buffer.overwrite 0 (stream.ahead.take size) ∧
    r.2.2.ahead = stream.ahead.drop size

/-- The loop has read so many bytes: they are in the buffer, and the rest is still to come. -/
structure Underway (stream : IOStream) (buffer : List UInt8) (size got : ℕ) (c : Chunked) :
    Prop where
  got_le : got ≤ size
  got_left : got ≤ stream.ahead.length
  size : c.size = size - got
  readLength : c.readLength = got
  offset : c.offset = got
  buffer : c.buffer = buffer.overwrite 0 (stream.ahead.take got)
  ahead : c.stream.ahead = stream.ahead.drop got
  reads : c.stream.ReadsOn

namespace Underway

variable {got n : ℕ}

theorem start (hreads : stream.ReadsOn) (buffer : List UInt8) (size : ℕ) :
    Underway stream buffer size 0 ⟨size, 0, 0, buffer, stream⟩ where
  got_le := Nat.zero_le _
  got_left := Nat.zero_le _
  size := (Int.sub_zero _).symm
  readLength := rfl
  offset := rfl
  buffer := (List.overwrite_nil buffer 0).symm
  ahead := rfl
  reads := hreads

theorem moved (h : Underway stream buffer size got c) (hn : n ≤ c.size)
    (hleft : n ≤ c.stream.ahead.length) :
    Underway stream buffer size (got + n)
      (c.moved n (c.buffer.overwrite c.offset (c.stream.ahead.take n)) (c.stream.took n)) where
  got_le := by
    have := h.size
    omega
  got_left := by
    have hrest := h.got_left
    rw [h.ahead, List.length_drop] at hleft
    omega
  size := by
    simp only [Chunked.moved, h.size]
    omega
  readLength := by
    simp only [Chunked.moved, h.readLength]
    omega
  offset := by simp only [Chunked.moved, h.offset]
  buffer := by
    have hlen : (stream.ahead.take got).length = got := List.length_take_of_le h.got_left
    have hover := List.overwrite_overwrite (l := buffer) (d := stream.ahead.take got)
      (e := (stream.ahead.drop got).take n) (Nat.zero_le _)
    rw [hlen, Nat.zero_add] at hover
    simp only [Chunked.moved, h.buffer, h.offset, h.ahead, hover, List.take_add]
  ahead := by
    simp only [Chunked.moved, IOStream.ahead_took, h.ahead, List.drop_drop]
  reads := h.reads.took n

theorem room (h : Underway stream buffer size got c) (hbuffer : size ≤ buffer.length) :
    c.offset + c.size ≤ c.buffer.length := by
  have hlen : (stream.ahead.take got).length = got := List.length_take_of_le h.got_left
  have hle := h.got_le
  rw [h.offset, h.size, h.buffer, List.length_overwrite_of_le (by omega)]
  omega

theorem ended (h : Underway stream buffer size got c)
    (hend : got = size ∨ got = stream.ahead.length) :
    WhatIsLeft stream buffer size (c.readLength, c.buffer, c.stream) := by
  have hsize := h.got_le
  have hleft := h.got_left
  unfold WhatIsLeft
  rw [h.readLength, h.buffer, h.ahead]
  rcases hend with rfl | rfl
  · exact ⟨by rw [Nat.min_eq_left hleft], rfl, rfl⟩
  · refine ⟨by rw [Nat.min_eq_right hsize], ?_, ?_⟩
    · rw [List.take_length, List.take_of_length_le hsize]
    · rw [List.drop_length, List.drop_eq_nil_of_le hsize]

theorem got_eq (h : Underway stream buffer size got c) (hnil : c.stream.ahead = []) :
    got = stream.ahead.length := by
  rw [h.ahead, List.drop_eq_nil_iff] at hnil
  exact Nat.le_antisymm h.got_left hnil

/-- A round leaves less to read, or leaves the loop with what is left. -/
theorem round (h : Underway stream buffer size got c) (hgot : got < size)
    (hbits : backend.countBits build = 32) (hbuffer : size ≤ buffer.length)
    (hend : backend = .w32 ∨ size ≤ stream.ahead.length) :
    (∃ c', backend.round build c = .ok (.inl c') ∧
      (∃ got' < size, Underway stream buffer size got' c') ∧ c'.size.toNat < c.size.toNat) ∨
    ∃ r, backend.round build c = .ok (.inr r) ∧ WhatIsLeft stream buffer size r := by
  have hsize := h.size
  obtain ⟨n, hn, hleft, hon, hround⟩ := round_reads hbits h.reads (by omega) (h.room hbuffer)
  have hnext := h.moved hn hleft
  have hle := hnext.got_le
  by_cases hzero : n = 0
  · -- nothing came: the file has ended, which only the loop over a handle gets to see
    subst hzero
    have hgot' : got = stream.ahead.length := by
      apply h.got_eq
      by_contra hne
      exact absurd (hon hne) (Nat.lt_irrefl 0)
    have hw : backend = .w32 := by
      rcases hend with hw | hall
      · exact hw
      · omega
    obtain ⟨hret, hbuf, hahead⟩ := hnext.ended (.inr hgot')
    rw [if_pos ⟨hw, rfl⟩] at hround
    refine .inr ⟨_, hround, ?_, hbuf, hahead⟩
    simpa [Chunked.moved] using hret
  · rw [if_neg fun h => hzero h.2, Chunked.again] at hround
    by_cases hmore : got + n < size
    · rw [if_pos (by rw [hnext.size]; omega)] at hround
      refine .inl ⟨_, hround, ⟨got + n, hmore, hnext⟩, ?_⟩
      rw [hnext.size, hsize]
      omega
    · rw [if_neg (by rw [hnext.size]; omega)] at hround
      exact .inr ⟨_, hround, hnext.ended (.inl (by omega))⟩

end Underway

theorem loop_reads (hbits : backend.countBits build = 32) (hreads : stream.ReadsOn)
    (hbuffer : size ≤ buffer.length) (hpos : 0 < size)
    (hend : backend = .w32 ∨ size ≤ stream.ahead.length) (hfuel : size < fuel) :
    ∃ r, loop .outOfFuel (backend.round build) fuel ⟨size, 0, 0, buffer, stream⟩ = .ok r ∧
      WhatIsLeft stream buffer size r := by
  apply loop_ends (I := fun c => ∃ got < size, Underway stream buffer size got c)
    (fun c => c.size.toNat)
  · rintro c ⟨got, hgot, hc⟩
    exact hc.round hgot hbits hbuffer hend
  · exact ⟨0, hpos, .start hreads buffer size⟩
  · simpa using hfuel

/-- The loops over a `FILE` and over a descriptor go on for ever at the end of the file. -/
theorem loop_goes_on (hbackend : backend ≠ .w32) (hbits : backend.countBits build = 32)
    (hreads : stream.ReadsOn) (hbuffer : size ≤ buffer.length)
    (hshort : stream.ahead.length < size) (fuel : ℕ) :
    loop .outOfFuel (backend.round build) fuel ⟨size, 0, 0, buffer, stream⟩ =
      .error .outOfFuel := by
  apply loop_endless (I := fun c : Chunked => c.stream.ReadsOn ∧
    c.stream.ahead.length < c.size ∧ c.offset + c.size ≤ c.buffer.length)
  · rintro c ⟨hr, hlt, hroom⟩
    obtain ⟨n, hn, hleft, -, hround⟩ := round_reads hbits hr (by omega) hroom
    have hlen : (c.stream.ahead.take n).length = n := List.length_take_of_le hleft
    have hmore : 0 < (c.moved n (c.buffer.overwrite c.offset (c.stream.ahead.take n))
        (c.stream.took n)).size := by
      simp only [Chunked.moved]
      omega
    rw [if_neg fun h => hbackend h.1, Chunked.again, if_pos hmore] at hround
    refine ⟨_, hround, hr.took n, ?_, ?_⟩
    · simp only [Chunked.moved, IOStream.ahead_took, List.length_drop]
      omega
    · simp only [Chunked.moved]
      rw [List.length_overwrite_of_le (by omega)]
      omega
  · refine ⟨hreads, Int.ofNat_lt.mpr hshort, ?_⟩
    simpa using hbuffer

theorem count_of_not_chunks (h : ¬ backend.Chunks build size) (hsize : size < 2 ^ 63)
    (hbuild : build.sizeofSizeT = 4 ∨ build.sizeofSizeT = 8) :
    ((size : ℤ) % 2 ^ backend.countBits build).toNat = size := by
  have hfits : backend.countBits build = 64 ∨
      backend.countBits build = 32 ∧ ¬ (size : ℤ) > INT32_MAX := by
    cases backend with
    | cfile => rcases hbuild with hb | hb <;> simp_all [Chunks, countBits]
    | fd => rcases hbuild with hb | hb <;> cases hw : build.windows <;> simp_all [Chunks, countBits]
    | w32 => exact .inr ⟨rfl, h⟩
  unfold INT32_MAX at hfits
  rcases hfits with hbits | ⟨hbits, hmax⟩ <;>
  · rw [hbits, Int.emod_eq_of_lt] <;> omega

/-- A size that is not read in chunks is read as far as the file goes by a call that is not cut
short. -/
theorem readsLeft_of_not_chunks (h : ¬ backend.Chunks build size) (hsize : size < 2 ^ 63)
    (hbuild : build.sizeofSizeT = 4 ∨ build.sizeofSizeT = 8) (hfull : stream.reads 0 = .full)
    (hbuffer : size ≤ buffer.length) : backend.ReadsLeft build stream buffer size := by
  have hlen : (stream.ahead.take size).length = min size stream.ahead.length :=
    List.length_take
  have hstore : memcpy buffer 0 (some (stream.ahead.take size)) (min size stream.ahead.length) =
      .ok (buffer.overwrite 0 (stream.ahead.take size)) := memcpy_fits hlen (by omega)
  have hcall : backend.call build buffer 0 stream size =
      .ok ((min size stream.ahead.length : ℕ), min size stream.ahead.length,
        buffer.overwrite 0 (stream.ahead.take size),
        stream.took (min size stream.ahead.length)) := by
    unfold call
    rw [count_of_not_chunks h hsize hbuild, ioRead_full hfull]
    dsimp only
    rw [hlen, hstore]
    rfl
  have hahead : (stream.took (min size stream.ahead.length)).ahead = stream.ahead.drop size := by
    rw [IOStream.ahead_took, List.drop_eq_drop_iff]
    omega
  have hneg : ¬ ((min size stream.ahead.length : ℕ) : ℤ) < 0 := by omega
  refine ⟨0, fun fuel _ => ⟨stream.took (min size stream.ahead.length), ?_, hahead⟩⟩
  cases backend with
  | cfile =>
    rw [read, cfileRead, if_neg h, hcall]
    rfl
  | fd =>
    rw [read, fdRead, if_neg h, hcall]
    rfl
  | w32 =>
    rw [read, w32Read, if_neg h, hcall, Exec.ok_bind]
    dsimp only
    rw [if_neg hneg]
    rfl

/-- A size that is read in chunks is read as far as the file goes by the loop over a handle always,
and by the other loops where the file goes that far. -/
theorem readsLeft_iff (backend : Backend) (build : Build) (stream : IOStream)
    (hreads : stream.ReadsOn) (buffer : List UInt8) (size : ℕ) (hbuffer : size ≤ buffer.length)
    (hchunks : backend.Chunks build size) :
    backend.ReadsLeft build stream buffer size ↔
      backend = .w32 ∨ size ≤ stream.ahead.length := by
  have hbits := countBits_of_chunks hchunks
  have hpos := pos_of_chunks hchunks
  constructor
  · rintro ⟨rounds, hread⟩
    by_contra hnot
    obtain ⟨hbackend, hshort⟩ := not_or.mp hnot
    obtain ⟨stream', hok, -⟩ := hread rounds (Nat.le_refl rounds)
    rw [read_chunks hchunks,
      loop_goes_on hbackend hbits hreads hbuffer (Nat.lt_of_not_le hshort)] at hok
    cases hok
  · intro hend
    refine ⟨size + 1, fun fuel hfuel => ?_⟩
    obtain ⟨⟨ret, buffer', stream'⟩, hok, rfl, rfl, hahead⟩ :=
      loop_reads hbits hreads hbuffer hpos hend hfuel
    exact ⟨stream', (read_chunks hchunks).trans hok, hahead⟩

theorem readsLeft_iff_handle :
    w32.ReadsLeft ⟨8, true⟩ (.ofBytes [1, 2, 3]) (List.replicate (2 ^ 31) 0) (2 ^ 31) ↔
      w32 = .w32 ∨ 2 ^ 31 ≤ (IOStream.ofBytes [1, 2, 3]).ahead.length :=
  readsLeft_iff w32 ⟨8, true⟩ (.ofBytes [1, 2, 3]) (IOStream.ReadsFully.readsOn fun _ => rfl)
    (List.replicate (2 ^ 31) 0) (2 ^ 31) (by rw [List.length_replicate]) (by decide)

/-- Two GiB that are asked for of an empty file keep the loops over a `FILE` and over a descriptor
going for ever. -/
theorem emptyFile_endless :
    (∀ fuel, cfileRead ⟨4, false⟩ fuel (.ofBytes []) (List.replicate (2 ^ 31) 0) (2 ^ 31 : ℕ) =
      .error .outOfFuel) ∧
    (∀ fuel, fdRead ⟨4, false⟩ fuel (.ofBytes []) (List.replicate (2 ^ 31) 0) (2 ^ 31 : ℕ) =
      .error .outOfFuel) := by
  have hreads : (IOStream.ofBytes []).ReadsOn := IOStream.ReadsFully.readsOn fun _ => rfl
  have hbuffer : 2 ^ 31 ≤ (List.replicate (2 ^ 31) (0 : UInt8)).length := by
    rw [List.length_replicate]
  have hshort : (IOStream.ofBytes []).ahead.length < 2 ^ 31 := by decide
  have hcfile : cfile.Chunks ⟨4, false⟩ (2 ^ 31 : ℕ) := by decide
  have hfd : fd.Chunks ⟨4, false⟩ (2 ^ 31 : ℕ) := by decide
  constructor <;> intro fuel
  · exact (read_chunks hcfile).trans (loop_goes_on (by decide) rfl hreads hbuffer hshort fuel)
  · exact (read_chunks hfd).trans (loop_goes_on (by decide) rfl hreads hbuffer hshort fuel)

end Backend

end Kcf
