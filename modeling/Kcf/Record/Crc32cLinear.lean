import Kcf.Library.Xor
import Kcf.Record.Crc32c

/-! # CRC-32C as a linear map

Shifting out a bit of the register respects exclusive or. One more byte is the
register with the byte added to it, taken through a byte of zeros, and the
register after a buffer is made up of what comes of the register before it and
of what comes of the buffer from zero.
-/

namespace Kcf

open Xor

theorem crc32cBit_linear : Linear crc32cBit := by
  intro x y
  have hone : ¬ (1 : UInt32) = 0 := by decide
  unfold crc32cBit
  rw [xor_and, UInt32.shiftRight_xor]
  rcases and_one_cases x with hx | hx <;> rcases and_one_cases y with hy | hy <;>
    simp only [hx, hy, hone, UInt32.xor_zero, UInt32.zero_xor, UInt32.xor_self, ne_eq, not_true,
      not_false_eq_true, if_true, if_false]
  · exact UInt32.xor_assoc _ _ _
  · ac_rfl
  · rw [UInt32.xor_assoc, UInt32.xor_comm POLY, UInt32.xor_assoc, UInt32.xor_self,
      UInt32.xor_zero]

/-- The register taken through a byte of zeros. -/
def crc32cZero : UInt32 → UInt32 := crc32cBit^[8]

theorem crc32cZero_linear : Linear crc32cZero := crc32cBit_linear.iterate 8

theorem repeat_eq_iterate (f : UInt32 → UInt32) (n : ℕ) (x : UInt32) :
    Nat.repeat f n x = f^[n] x := by
  induction n with
  | zero => rfl
  | succ n ih => rw [Function.iterate_succ_apply', ← ih]; rfl

theorem crc32cTable_eq (n : UInt32) : crc32cTable n = crc32cZero n := repeat_eq_iterate _ _ _

theorem crc32cBit_double {n : ℕ} (h : 2 * n < 2 ^ 32) :
    crc32cBit (UInt32.ofNat (2 * n)) = UInt32.ofNat n := by
  have hn : (UInt32.ofNat (2 * n)).toNat = 2 * n := UInt32.toNat_ofNat_of_lt' h
  have hlow : UInt32.ofNat (2 * n) &&& 1 = 0 := by
    apply UInt32.toNat_inj.mp
    rw [UInt32.toNat_and, hn]
    change 2 * n &&& 1 = 0
    rw [Nat.and_one_is_mod]
    omega
  unfold crc32cBit
  rw [hlow, if_neg (by decide)]
  apply UInt32.toNat_inj.mp
  rw [toNat_shiftRight_one, hn, UInt32.toNat_ofNat_of_lt' (show n < 2 ^ 32 by omega)]
  omega

theorem iterate_crc32cBit (k : ℕ) {n : ℕ} (h : n * 2 ^ k < 2 ^ 32) :
    crc32cBit^[k] (UInt32.ofNat (n * 2 ^ k)) = UInt32.ofNat n := by
  induction k with
  | zero => rw [Nat.pow_zero, Nat.mul_one]; rfl
  | succ k ih =>
    have hdouble : n * 2 ^ (k + 1) = 2 * (n * 2 ^ k) := by
      rw [Nat.pow_succ, Nat.mul_comm 2, Nat.mul_assoc]
    rw [hdouble] at h ⊢
    rw [Function.iterate_succ_apply, crc32cBit_double h]
    exact ih (by omega)

theorem crc32cZero_shiftLeft {x : UInt32} (h : x.toNat < 2 ^ 24) : crc32cZero (x <<< 8) = x := by
  have hx : x <<< 8 = UInt32.ofNat (x.toNat * 2 ^ 8) := by
    apply UInt32.toNat_inj.mp
    rw [UInt32.toNat_shiftLeft, UInt32.toNat_ofNat_of_lt' (show x.toNat * 2 ^ 8 < 2 ^ 32 by omega)]
    change x.toNat <<< 8 % 2 ^ 32 = _
    rw [Nat.shiftLeft_eq]
    omega
  rw [hx, crc32cZero, iterate_crc32cBit 8 (by omega), UInt32.ofNat_toNat]

theorem toNat_shiftRight_eight (x : UInt32) : (x >>> 8).toNat = x.toNat / 256 := by
  simp [Nat.shiftRight_eq_div_pow]

theorem crc32cZero_eq (x : UInt32) :
    crc32cZero x = crc32cTable (x &&& 0xff) ^^^ (x >>> 8) := by
  have hx := x.toNat_lt
  have hhigh : (x >>> 8).toNat < 2 ^ 24 := by
    rw [toNat_shiftRight_eight]
    omega
  calc crc32cZero x
      = crc32cZero ((x &&& (0xff : UInt32)) ^^^ ((x >>> 8) <<< 8)) := by rw [split_eight]
    _ = crc32cTable (x &&& 0xff) ^^^ (x >>> 8) := by
      rw [crc32cZero_linear, crc32cZero_shiftLeft hhigh, crc32cTable_eq]

theorem toUInt32_shiftRight (b : UInt8) : b.toUInt32 >>> 8 = 0 := by
  apply UInt32.toNat_inj.mp
  have hb := b.toNat_lt
  rw [toNat_shiftRight_eight, UInt8.toNat_toUInt32]
  change b.toNat / 256 = 0
  omega

theorem crc32cByte_eq (crc : UInt32) (byte : UInt8) :
    crc32cByte crc byte = crc32cZero (crc ^^^ byte.toUInt32) := by
  rw [crc32cZero_eq, UInt32.shiftRight_xor, toUInt32_shiftRight, UInt32.xor_zero, crc32cByte]

theorem foldl_crc32cByte_xor (c d : UInt32) (buf : List UInt8) :
    buf.foldl crc32cByte (c ^^^ d) = crc32cZero^[buf.length] c ^^^ buf.foldl crc32cByte d := by
  induction buf generalizing c d with
  | nil => rfl
  | cons b buf ih =>
    have hb : crc32cByte (c ^^^ d) b = crc32cZero c ^^^ crc32cByte d b := by
      rw [crc32cByte_eq, crc32cByte_eq, UInt32.xor_assoc, crc32cZero_linear]
    rw [List.foldl_cons, hb, ih, List.length_cons, Function.iterate_succ_apply, List.foldl_cons]

theorem foldl_crc32cByte_zero (c : UInt32) (buf : List UInt8) :
    buf.foldl crc32cByte c = crc32cZero^[buf.length] c ^^^ buf.foldl crc32cByte 0 := by
  have h := foldl_crc32cByte_xor c 0 buf
  rw [UInt32.xor_zero] at h
  exact h

end Kcf
