import Mathlib.Data.FinEnum

/-! # CRC-32C

The table-driven step of the software routine, folded over the bytes of a
buffer. The register is inverted on the way in and on the way out, so the
checksum of a sequence of chunks is computed by passing each result on.
-/

namespace Kcf

/-- The CRC-32C polynomial in reversed bit order. -/
def POLY : UInt32 := 0x82f63b78

/-- One bit of the register shifted out. -/
def crc32cBit (crc : UInt32) : UInt32 :=
  if crc &&& 1 ≠ 0 then (crc >>> 1) ^^^ POLY else crc >>> 1

/-- The entry of `crc32c_table_little[0]` at an index. -/
def crc32cTable (n : UInt32) : UInt32 := Nat.repeat crc32cBit 8 n

/-- The register after one more byte. -/
def crc32cByte (crc : UInt32) (byte : UInt8) : UInt32 :=
  crc32cTable ((crc ^^^ byte.toUInt32) &&& 0xff) ^^^ (crc >>> 8)

/-- The CRC-32C of a buffer, continued from the CRC of what came before it. Each of the source's
routines returns this value where it ends; the one for SSE4.2 does not always end where it is
compiled for `__GNUC__`, and what is shown of records is about calls that come back from it. -/
def crc32c (crc : UInt32) (buf : List UInt8) : UInt32 :=
  ~~~ buf.foldl crc32cByte (~~~ crc)

@[simp] theorem crc32c_nil (crc : UInt32) : crc32c crc [] = crc := by simp [crc32c]

theorem crc32c_append (crc : UInt32) (buf buf' : List UInt8) :
    crc32c crc (buf ++ buf') = crc32c (crc32c crc buf) buf' := by
  simp [crc32c, List.foldl_append]

-- The check value published with the polynomial: the CRC of the digits 1 to 9.
example : crc32c 0 [49, 50, 51, 52, 53, 54, 55, 56, 57] = 0xE3069283 := by decide +kernel

/-- One bit of the register shifted back in. -/
def crc32cUnbit (crc : UInt32) : UInt32 :=
  if crc &&& 0x80000000 ≠ 0 then ((crc ^^^ POLY) <<< 1) ||| 1 else crc <<< 1

theorem crc32cUnbit_table (i : UInt8) :
    (Nat.repeat crc32cUnbit 8 (crc32cTable i.toUInt32 >>> 24 <<< 24)).toUInt8 = i := by
  revert i
  decide +kernel

theorem and_255 (x : UInt32) : x &&& 0xff = x.toUInt8.toUInt32 := by
  apply UInt32.toNat_inj.mp
  simp [Nat.and_two_pow_sub_one_eq_mod _ 8]

theorem crc32cByte_inj {c d : UInt32} {b : UInt8} (h : crc32cByte c b = crc32cByte d b) :
    c = d := by
  unfold crc32cByte at h
  rw [and_255, and_255] at h
  have hz (x : UInt32) : (x >>> 8) >>> 24 = 0 := by
    apply UInt32.toNat_inj.mp
    have := x.toNat_lt
    simp [Nat.shiftRight_eq_div_pow]
    omega
  have htop := congrArg (fun x : UInt32 => x >>> 24) h
  simp only [UInt32.shiftRight_xor, hz, UInt32.xor_zero] at htop
  have hi : (c ^^^ b.toUInt32).toUInt8 = (d ^^^ b.toUInt32).toUInt8 := by
    rw [← crc32cUnbit_table (c ^^^ b.toUInt32).toUInt8, htop, crc32cUnbit_table]
  rw [hi] at h
  have hhigh := congrArg UInt32.toNat ((UInt32.xor_right_inj _).mp h)
  have hlow : c.toUInt8 = d.toUInt8 := by
    rw [UInt32.toUInt8_xor, UInt32.toUInt8_xor] at hi
    exact (UInt8.xor_left_inj _).mp hi
  have hlow := congrArg UInt8.toNat hlow
  apply UInt32.toNat_inj.mp
  simp only [UInt32.toNat_shiftRight, UInt32.toNat_toUInt8, Nat.shiftRight_eq_div_pow] at hhigh hlow
  change c.toNat / 256 = d.toNat / 256 at hhigh
  omega

theorem foldl_crc32cByte_inj {c d : UInt32} {buf : List UInt8}
    (h : buf.foldl crc32cByte c = buf.foldl crc32cByte d) : c = d := by
  induction buf generalizing c d with
  | nil => exact h
  | cons b buf ih => exact crc32cByte_inj (ih h)

theorem crc32c_inj {c d : UInt32} {buf : List UInt8} (h : crc32c c buf = crc32c d buf) :
    c = d :=
  UInt32.not_inj.mp (foldl_crc32cByte_inj (UInt32.not_inj.mp h))

end Kcf
