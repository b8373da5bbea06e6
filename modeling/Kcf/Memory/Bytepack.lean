import Kcf.Library.LittleEndian
import Kcf.Memory.Basic

/-! # Byte packing

Integers of one, two, four and eight bytes are read and written least
significant byte first, each width as two halves of the width below. A write
stops at the first byte that does not fit; a read goes through both halves and
leaves its result unset when either of them fails.
-/

namespace Kcf

open LittleEndian

/-- A buffer with the offset of the next byte to be read or written. -/
structure Cursor where
  buffer : List UInt8
  offset : ℕ
  deriving DecidableEq, Repr

def writeU8 (size : ℕ) (c : Cursor) (value : UInt8) : Bool × Cursor :=
  if size ≤ c.offset then (false, c)
  else (true, ⟨c.buffer.set c.offset value, c.offset + 1⟩)

def writeU16LE (size : ℕ) (c : Cursor) (value : UInt16) : Bool × Cursor :=
  match writeU8 size c (value &&& 0xFF).toUInt8 with
  | (true, c) => writeU8 size c ((value >>> 8) &&& 0xFF).toUInt8
  | (false, c) => (false, c)

def writeU32LE (size : ℕ) (c : Cursor) (value : UInt32) : Bool × Cursor :=
  match writeU16LE size c (value &&& 0xFFFF).toUInt16 with
  | (true, c) => writeU16LE size c ((value >>> 16) &&& 0xFFFF).toUInt16
  | (false, c) => (false, c)

def writeU64LE (size : ℕ) (c : Cursor) (value : UInt64) : Bool × Cursor :=
  match writeU32LE size c (value &&& 0xFFFFFFFF).toUInt32 with
  | (true, c) => writeU32LE size c ((value >>> 32) &&& 0xFFFFFFFF).toUInt32
  | (false, c) => (false, c)

/-- Reads leave the result unset (`none`) where the C function returns `false`. -/
def readU8 (size : ℕ) (c : Cursor) : Option UInt8 × Cursor :=
  if size ≤ c.offset then (none, c)
  else (some (c.buffer.getD c.offset 0), { c with offset := c.offset + 1 })

def readU16LE (size : ℕ) (c : Cursor) : Option UInt16 × Cursor :=
  let (low, c) := readU8 size c
  let (high, c) := readU8 size c
  (do return (← low).toUInt16 ||| ((← high).toUInt16 <<< 8), c)

def readU32LE (size : ℕ) (c : Cursor) : Option UInt32 × Cursor :=
  let (low, c) := readU16LE size c
  let (high, c) := readU16LE size c
  (do return (← low).toUInt32 ||| ((← high).toUInt32 <<< 16), c)

def readU64LE (size : ℕ) (c : Cursor) : Option UInt64 × Cursor :=
  let (low, c) := readU32LE size c
  let (high, c) := readU32LE size c
  (do return (← low).toUInt64 ||| ((← high).toUInt64 <<< 32), c)

variable {size n k : ℕ} {c : Cursor} {bs cs : List UInt8}

/-- Writing a byte string one byte at a time, up to the first that does not fit. -/
def writeBytes (size : ℕ) (c : Cursor) : List UInt8 → Bool × Cursor
  | [] => (true, c)
  | b :: bs =>
    match writeU8 size c b with
    | (true, c) => writeBytes size c bs
    | (false, c) => (false, c)

theorem writeBytes_append (size : ℕ) (c : Cursor) (bs cs : List UInt8) :
    writeBytes size c (bs ++ cs) =
      match writeBytes size c bs with
      | (true, c) => writeBytes size c cs
      | (false, c) => (false, c) := by
  induction bs generalizing c with
  | nil => rfl
  | cons b bs ih =>
    simp only [List.cons_append, writeBytes]
    rcases writeU8 size c b with ⟨_ | _, c'⟩
    · rfl
    · exact ih c'

theorem writeU8_eq (size : ℕ) (c : Cursor) (value : UInt8) :
    writeU8 size c value = writeBytes size c (encode 1 value.toNat) := by
  simp only [encode, writeBytes, UInt8.ofNat_toNat]
  rcases writeU8 size c value with ⟨_ | _, c'⟩ <;> rfl

theorem writeBytes_halves (size : ℕ) (c : Cursor) {w low high n : ℕ}
    (hl : low = n % 256 ^ w) (hh : high = n / 256 ^ w % 256 ^ w) :
    (match writeBytes size c (encode w low) with
      | (true, c) => writeBytes size c (encode w high)
      | (false, c) => (false, c)) = writeBytes size c (encode (w + w) n) := by
  rw [hl, hh, encode_mod, encode_mod, encode_add, writeBytes_append]

theorem writeU16LE_eq (size : ℕ) (c : Cursor) (value : UInt16) :
    writeU16LE size c value = writeBytes size c (encode 2 value.toNat) := by
  simp only [writeU16LE, writeU8_eq]
  apply writeBytes_halves
  · simp [Nat.and_two_pow_sub_one_eq_mod _ 8]
  · simp [Nat.and_two_pow_sub_one_eq_mod _ 8, Nat.shiftRight_eq_div_pow]

theorem writeU32LE_eq (size : ℕ) (c : Cursor) (value : UInt32) :
    writeU32LE size c value = writeBytes size c (encode 4 value.toNat) := by
  simp only [writeU32LE, writeU16LE_eq]
  apply writeBytes_halves
  · simp [Nat.and_two_pow_sub_one_eq_mod _ 16]
  · simp [Nat.and_two_pow_sub_one_eq_mod _ 16, Nat.shiftRight_eq_div_pow]

theorem writeU64LE_eq (size : ℕ) (c : Cursor) (value : UInt64) :
    writeU64LE size c value = writeBytes size c (encode 8 value.toNat) := by
  simp only [writeU64LE, writeU32LE_eq]
  apply writeBytes_halves
  · simp [Nat.and_two_pow_sub_one_eq_mod _ 32]
  · simp [Nat.and_two_pow_sub_one_eq_mod _ 32, Nat.shiftRight_eq_div_pow]

theorem writeU8_of_lt {value : UInt8} (h : c.offset < size) :
    writeU8 size c value = (true, ⟨c.buffer.set c.offset value, c.offset + 1⟩) :=
  if_neg (by omega)

theorem writeBytes_fits (h : c.offset + bs.length ≤ size) (hs : size ≤ c.buffer.length) :
    writeBytes size c bs = (true, ⟨c.buffer.overwrite c.offset bs, c.offset + bs.length⟩) := by
  induction bs generalizing c with
  | nil => simp [writeBytes]
  | cons b bs ih =>
    rw [List.length_cons] at h
    have hset := List.set_eq_overwrite (a := b) (show c.offset < c.buffer.length by omega)
    rw [writeBytes, writeU8_of_lt (by omega)]
    refine (ih (by simp only; omega) (by simpa using hs)).trans ?_
    have ho := List.overwrite_overwrite (d := [b]) (e := bs)
      (show c.offset ≤ c.buffer.length by omega)
    simp only [List.length_cons, List.length_nil, Nat.zero_add, List.singleton_append] at ho ⊢
    rw [hset, ho, Nat.add_right_comm, Nat.add_assoc]

theorem length_writeBytes (size : ℕ) (c : Cursor) (bs : List UInt8) :
    (writeBytes size c bs).2.buffer.length = c.buffer.length := by
  induction bs generalizing c with
  | nil => rfl
  | cons b bs ih =>
    by_cases h : size ≤ c.offset
    · simp [writeBytes, writeU8, h]
    · simp [writeBytes, writeU8, h, ih]

theorem readU8_of_le (size : ℕ) (h : c.offset + 1 ≤ size) :
    readU8 size c =
      (some (UInt8.ofNat (field c.buffer c.offset 1)), { c with offset := c.offset + 1 }) := by
  rw [readU8, if_neg (by omega), field_one, UInt8.ofNat_toNat]

theorem or_shiftLeft_field (b : List UInt8) (v w i : ℕ) (hi : 256 ^ w = 2 ^ i) :
    field b v w ||| field b (v + w) w <<< i % 2 ^ (i + i) =
      field b v (w + w) % 2 ^ (i + i) := by
  have hl : field b v w < 2 ^ i := hi ▸ field_lt b v w
  have hh : field b (v + w) w < 2 ^ i := hi ▸ field_lt b (v + w) w
  have hs : field b (v + w) w <<< i < 2 ^ (i + i) := by
    rw [Nat.shiftLeft_eq, pow_add]
    exact Nat.mul_lt_mul_of_pos_right hh (by positivity)
  have hf : field b v (w + w) < 2 ^ (i + i) := by
    rw [pow_add, ← hi, ← pow_add]
    exact field_lt b v (w + w)
  rw [Nat.mod_eq_of_lt hs, Nat.mod_eq_of_lt hf, Nat.shiftLeft_eq, Nat.mul_comm, Nat.or_comm,
    ← Nat.two_pow_add_eq_or_of_lt hl, Nat.add_comm, field_add, hi]

theorem readU16LE_of_le (size : ℕ) (h : c.offset + 2 ≤ size) :
    readU16LE size c =
      (some (UInt16.ofNat (field c.buffer c.offset 2)), { c with offset := c.offset + 2 }) := by
  have h₁ := readU8_of_le size (c := c) (by omega)
  have h₂ := readU8_of_le size (c := { c with offset := c.offset + 1 }) (by simpa)
  simp only [readU16LE, h₁, h₂]
  refine Prod.ext (congrArg some (UInt16.toNat_inj.mp ?_)) rfl
  have hl : field c.buffer c.offset 1 < 256 := field_lt ..
  have hh : field c.buffer (c.offset + 1) 1 < 256 := field_lt ..
  have hj := or_shiftLeft_field c.buffer c.offset 1 8 rfl
  simpa [Nat.mod_eq_of_lt hl, Nat.mod_eq_of_lt hh] using hj

theorem readU32LE_of_le (size : ℕ) (h : c.offset + 4 ≤ size) :
    readU32LE size c =
      (some (UInt32.ofNat (field c.buffer c.offset 4)), { c with offset := c.offset + 4 }) := by
  have h₁ := readU16LE_of_le size (c := c) (by omega)
  have h₂ := readU16LE_of_le size (c := { c with offset := c.offset + 2 }) (by simpa)
  simp only [readU32LE, h₁, h₂]
  refine Prod.ext (congrArg some (UInt32.toNat_inj.mp ?_)) rfl
  have hl : field c.buffer c.offset 2 < 65536 := field_lt ..
  have hh : field c.buffer (c.offset + 2) 2 < 65536 := field_lt ..
  have hj := or_shiftLeft_field c.buffer c.offset 2 16 rfl
  simpa [Nat.mod_eq_of_lt hl, Nat.mod_eq_of_lt hh] using hj

theorem readU64LE_of_le (size : ℕ) (h : c.offset + 8 ≤ size) :
    readU64LE size c =
      (some (UInt64.ofNat (field c.buffer c.offset 8)), { c with offset := c.offset + 8 }) := by
  have h₁ := readU32LE_of_le size (c := c) (by omega)
  have h₂ := readU32LE_of_le size (c := { c with offset := c.offset + 4 }) (by simpa)
  simp only [readU64LE, h₁, h₂]
  refine Prod.ext (congrArg some (UInt64.toNat_inj.mp ?_)) rfl
  have hl : field c.buffer c.offset 4 < 4294967296 := field_lt ..
  have hh : field c.buffer (c.offset + 4) 4 < 4294967296 := field_lt ..
  have hj := or_shiftLeft_field c.buffer c.offset 4 32 rfl
  simpa [Nat.mod_eq_of_lt hl, Nat.mod_eq_of_lt hh] using hj

theorem toUInt64_ofNat_field (b : List UInt8) (v : ℕ) :
    (UInt32.ofNat (field b v 4)).toUInt64 = UInt64.ofNat (field b v 4) := by
  have hlt : field b v 4 < 256 ^ 4 := field_lt ..
  apply UInt64.toNat_inj.mp
  rw [UInt32.toNat_toUInt64, UInt32.toNat_ofNat', UInt64.toNat_ofNat']
  omega

theorem readU8_short (h : size < c.offset + 1) : readU8 size c = (none, c) := if_pos (by omega)

theorem readU16LE_short (h : size < c.offset + 2) : (readU16LE size c).1 = none := by
  unfold readU16LE
  by_cases hl : size < c.offset + 1
  · rw [readU8_short hl]
    rfl
  · rw [readU8_of_le size (by omega)]
    dsimp only
    rw [readU8_short (by omega)]
    rfl

theorem readU32LE_short (h : size < c.offset + 4) : (readU32LE size c).1 = none := by
  unfold readU32LE
  by_cases hl : size < c.offset + 2
  · dsimp only
    rw [readU16LE_short hl]
    rfl
  · rw [readU16LE_of_le size (by omega)]
    dsimp only
    rw [readU16LE_short (by omega)]
    rfl

theorem readU64LE_short (h : size < c.offset + 8) : (readU64LE size c).1 = none := by
  unfold readU64LE
  by_cases hl : size < c.offset + 4
  · dsimp only
    rw [readU32LE_short hl]
    rfl
  · rw [readU32LE_of_le size (by omega)]
    dsimp only
    rw [readU32LE_short (by omega)]
    rfl

end Kcf
