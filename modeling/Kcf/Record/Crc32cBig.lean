import Kcf.Record.Crc32cSoftware
import Mathlib.Tactic.IntervalCases

/-! # CRC-32C on either kind of machine

The routine for machines that store the most significant byte first keeps its
register swapped while it goes through words, and so are its tables. It does what
the other routine does, on every buffer and whatever the swap is compiled to.
-/

namespace Kcf

open LittleEndian Loop

/-- `__builtin_bswap64`. -/
def builtinBswap64 (x : UInt64) : UInt64 := UInt64.ofNat (decode (encode 8 x.toNat).reverse)

/-- `swap` for compilers that do not have the builtin. -/
def swapShifted (x : UInt64) : UInt64 :=
  let x := ((x <<< 8) &&& (0xff00ff00ff00ff00 : UInt64)) |||
    ((x >>> 8) &&& (0xff00ff00ff00ff : UInt64))
  let x := ((x <<< 16) &&& (0xffff0000ffff0000 : UInt64)) |||
    ((x >>> 16) &&& (0xffff0000ffff : UInt64))
  (x <<< 32) ||| (x >>> 32)

/-- `swap`. -/
def swap (hasBuiltin : Bool) (x : UInt64) : UInt64 :=
  if hasBuiltin then builtinBswap64 x else swapShifted x

/-- `*(uint64_t const *)next`, most significant byte first. -/
def loadWordBig (buf : List UInt8) (next : ℕ) : Exec UInt64 :=
  if next + 8 ≤ buf.length then .ok (UInt64.ofNat (decode ((buf.drop next).take 8).reverse))
  else .error .outOfBounds

/-- The entries of `crc32c_table_big`: the registers that the other tables hold, swapped. -/
def crc32cTableBig (hasBuiltin : Bool) (k : ℕ) (n : UInt32) : UInt64 :=
  swap hasBuiltin (crc32cTableLittle k n).toUInt64

namespace Big

/-- The body of the loops over single bytes, with the entries of `crc32c_table_big_byte`. -/
def byte (buf : List UInt8) (s : Scan UInt32) : Exec (Scan UInt32) := do
  let b ← loadByte buf s.next
  return ⟨crc32cTable ((s.crc ^^^ b.toUInt32) &&& 0xff) ^^^ (s.crc >>> 8), s.next + 1, s.len - 1⟩

variable (hasBuiltin : Bool)

/-- The tables' entries for the bytes of a word. -/
def lookUp (crcw : UInt64) : UInt64 :=
  crc32cTableBig hasBuiltin 0 (crcw &&& 0xff).toUInt32 ^^^
    crc32cTableBig hasBuiltin 1 ((crcw >>> 8) &&& 0xff).toUInt32 ^^^
    crc32cTableBig hasBuiltin 2 ((crcw >>> 16) &&& 0xff).toUInt32 ^^^
    crc32cTableBig hasBuiltin 3 ((crcw >>> 24) &&& 0xff).toUInt32 ^^^
    crc32cTableBig hasBuiltin 4 ((crcw >>> 32) &&& 0xff).toUInt32 ^^^
    crc32cTableBig hasBuiltin 5 ((crcw >>> 40) &&& 0xff).toUInt32 ^^^
    crc32cTableBig hasBuiltin 6 ((crcw >>> 48) &&& 0xff).toUInt32 ^^^
    crc32cTableBig hasBuiltin 7 (crcw >>> 56).toUInt32

/-- The body of the loop over words. -/
def word (buf : List UInt8) (s : Scan UInt64) : Exec (Scan UInt64) := do
  let w ← loadWordBig buf s.next
  return ⟨lookUp hasBuiltin (s.crc ^^^ w), s.next + 8, s.len - 8⟩

/-- The eight-byte units, when there are any. -/
def words (fuel : ℕ) (buf : List UInt8) (s : Scan UInt32) : Exec (Scan UInt32) :=
  if 8 ≤ s.len then do
    let s ← doWhile .outOfFuel (fun s => 8 ≤ s.len) (word hasBuiltin buf) fuel
      ⟨swap hasBuiltin s.crc.toUInt64, s.next, s.len⟩
    return ⟨(swap hasBuiltin s.crc).toUInt32, s.next, s.len⟩
  else .ok s

end Big

/-- `crc32c_sw_big` on a buffer at an address. -/
def crc32cSwBig (hasBuiltin : Bool) (fuel addr : ℕ) (crc : UInt32) (buf : List UInt8)
    (len : ℕ) : Exec UInt32 := do
  let s ← while_ .outOfFuel (Scan.unaligned addr) (Big.byte buf) fuel ⟨~~~ crc, 0, len⟩
  let s ← Big.words hasBuiltin fuel buf s
  let s ← while_ .outOfFuel (fun s => s.len ≠ 0) (Big.byte buf) fuel s
  return ~~~ s.crc

/-- `crc32c_sw`: the first byte that the number 1 is stored in tells the machines apart. -/
def crc32cSw (little hasBuiltin : Bool) (fuel addr : ℕ) (crc : UInt32) (buf : List UInt8)
    (len : ℕ) : Exec UInt32 :=
  if little then crc32cSwLittle fuel addr crc buf len
  else crc32cSwBig hasBuiltin fuel addr crc buf len

theorem getLsbD_swapShifted (x : UInt64) {i : ℕ} (hi : i < 64) :
    (swapShifted x).toBitVec.getLsbD i = x.toBitVec.getLsbD (56 + i - 16 * (i / 8)) := by
  unfold swapShifted
  simp only [UInt64.toBitVec_or, UInt64.toBitVec_and, UInt64.toBitVec_shiftLeft,
    UInt64.toBitVec_shiftRight]
  interval_cases i <;> simp

theorem swapShifted_swapShifted (x : UInt64) : swapShifted (swapShifted x) = x := by
  apply UInt64.toBitVec_inj.mp
  apply BitVec.eq_of_getLsbD_eq
  intro i hi
  rw [getLsbD_swapShifted _ hi, getLsbD_swapShifted x (by omega)]
  congr 1
  omega

theorem swapShifted_xor (x y : UInt64) :
    swapShifted (x ^^^ y) = swapShifted x ^^^ swapShifted y := by
  apply UInt64.toBitVec_inj.mp
  apply BitVec.eq_of_getLsbD_eq
  intro i hi
  rw [getLsbD_swapShifted _ hi, UInt64.toBitVec_xor, UInt64.toBitVec_xor, BitVec.getLsbD_xor,
    BitVec.getLsbD_xor, getLsbD_swapShifted x hi, getLsbD_swapShifted y hi]

theorem octet_swapShifted (x : UInt64) {k : ℕ} (hk : k < 8) :
    (swapShifted x).toNat / 256 ^ k % 256 = x.toNat / 256 ^ (7 - k) % 256 := by
  have hpow (n : ℕ) : 256 ^ n = 2 ^ (8 * n) := (pow_mul 2 8 n).symm
  apply Nat.eq_of_testBit_eq
  intro j
  rw [hpow, hpow, show 256 = 2 ^ 8 from rfl, Nat.testBit_mod_two_pow, Nat.testBit_mod_two_pow,
    Nat.testBit_div_two_pow, Nat.testBit_div_two_pow]
  by_cases hj : j < 8
  · have hbit := getLsbD_swapShifted x (i := j + 8 * k) (by omega)
    rw [show 56 + (j + 8 * k) - 16 * ((j + 8 * k) / 8) = j + 8 * (7 - k) by omega] at hbit
    exact congrArg _ hbit
  · simp only [hj, decide_false, Bool.false_and]

theorem encode_swapShifted (x : UInt64) :
    encode 8 (swapShifted x).toNat = (encode 8 x.toNat).reverse := by
  have hoctet (k : ℕ) (hk : k < 8) : UInt8.ofNat ((swapShifted x).toNat / 256 ^ k) =
      UInt8.ofNat (x.toNat / 256 ^ (7 - k)) := by
    apply UInt8.toNat_inj.mp
    rw [UInt8.toNat_ofNat', UInt8.toNat_ofNat']
    exact octet_swapShifted x hk
  have h₀ := hoctet 0 (by decide)
  have h₁ := hoctet 1 (by decide)
  have h₂ := hoctet 2 (by decide)
  have h₃ := hoctet 3 (by decide)
  have h₄ := hoctet 4 (by decide)
  have h₅ := hoctet 5 (by decide)
  have h₆ := hoctet 6 (by decide)
  have h₇ := hoctet 7 (by decide)
  simp only [Nat.reducePow, Nat.reduceSub, Nat.div_one] at h₀ h₁ h₂ h₃ h₄ h₅ h₆ h₇
  simp only [encode_succ, encode_zero, Nat.div_div_eq_div_mul, Nat.reduceMul, List.reverse_cons,
    List.reverse_nil, List.nil_append, List.cons_append, h₀, h₁, h₂, h₃, h₄, h₅, h₆, h₇]

theorem ofNat_decode_encode (x : UInt64) : UInt64.ofNat (decode (encode 8 x.toNat)) = x := by
  have hx : x.toNat < 256 ^ 8 := x.toNat_lt
  rw [decode_encode, Nat.mod_eq_of_lt hx, UInt64.ofNat_toNat]

theorem swap_eq (hasBuiltin : Bool) (x : UInt64) : swap hasBuiltin x = swapShifted x := by
  cases hasBuiltin with
  | false => rfl
  | true =>
    change builtinBswap64 x = _
    rw [builtinBswap64, ← encode_swapShifted, ofNat_decode_encode]

theorem loadWordBig_eq (hasBuiltin : Bool) (buf : List UInt8) (next : ℕ) :
    loadWordBig buf next = (loadWord buf next).map (swap hasBuiltin) := by
  unfold loadWordBig loadWord
  by_cases h : next + 8 ≤ buf.length
  · rw [if_pos h, if_pos h]
    congr 1
    rw [swap_eq, ← encode_loaded h, ← encode_swapShifted, ofNat_decode_encode]
  · rw [if_neg h, if_neg h]
    rfl

namespace Big

variable (hasBuiltin : Bool)

def swapped (s : Scan UInt64) : Scan UInt64 := ⟨swap hasBuiltin s.crc, s.next, s.len⟩

theorem lookUp_swap (x : UInt64) :
    lookUp hasBuiltin (swap hasBuiltin x) = swap hasBuiltin (Software.lookUp x).toUInt64 := by
  have hoctet (k : ℕ) (hk : k < 8) := octet_swapShifted x hk
  have h₀ := hoctet 0 (by decide)
  have h₁ := hoctet 1 (by decide)
  have h₂ := hoctet 2 (by decide)
  have h₃ := hoctet 3 (by decide)
  have h₄ := hoctet 4 (by decide)
  have h₅ := hoctet 5 (by decide)
  have h₆ := hoctet 6 (by decide)
  have h₇ := hoctet 7 (by decide)
  simp only [Nat.reducePow, Nat.reduceSub, Nat.div_one] at h₀ h₁ h₂ h₃ h₄ h₅ h₆ h₇
  simp only [lookUp, Software.lookUp, crc32cTableBig, swap_eq, toUInt32_octet, toUInt32_top,
    UInt64.toNat_shiftRight, Nat.shiftRight_eq_div_pow, UInt64.reduceToNat, Nat.reduceMod,
    Nat.reducePow, h₀, h₁, h₂, h₃, h₄, h₅, h₆, h₇, UInt32.toUInt64_xor, swapShifted_xor]
  ac_rfl

theorem word_swapped (buf : List UInt8) (s : Scan UInt64) :
    word hasBuiltin buf (swapped hasBuiltin s) =
      (Software.word buf s).map (swapped hasBuiltin) := by
  unfold word Software.word
  rw [loadWordBig_eq hasBuiltin]
  change ((loadWord buf s.next).map (swap hasBuiltin) >>= _) = _
  cases loadWord buf s.next with
  | error fault => rfl
  | ok w =>
    have hxor : swap hasBuiltin s.crc ^^^ swap hasBuiltin w = swap hasBuiltin (s.crc ^^^ w) := by
      rw [swap_eq, swap_eq, swap_eq, swapShifted_xor]
    change Except.ok (Scan.mk (lookUp hasBuiltin (swap hasBuiltin s.crc ^^^ swap hasBuiltin w))
      (s.next + 8) (s.len - 8)) = _
    rw [hxor, lookUp_swap]
    rfl

theorem words_eq (fuel : ℕ) (buf : List UInt8) (s : Scan UInt32) :
    words hasBuiltin fuel buf s = Software.words fuel buf s := by
  unfold words Software.words
  by_cases h : 8 ≤ s.len
  · have hloop : doWhile .outOfFuel (fun s => 8 ≤ s.len) (word hasBuiltin buf) fuel
        (swapped hasBuiltin s.wide) =
        (doWhile .outOfFuel (fun s => 8 ≤ s.len) (Software.word buf) fuel s.wide).map
          (swapped hasBuiltin) :=
      doWhile_map _ (fun _ => rfl) (word_swapped hasBuiltin buf) fuel s.wide
    rw [if_pos h, if_pos h]
    change doWhile Fault.outOfFuel _ _ fuel (swapped hasBuiltin s.wide) >>= _ = _
    rw [hloop]
    cases doWhile Fault.outOfFuel (fun s => 8 ≤ s.len) (Software.word buf) fuel s.wide with
    | error fault => rfl
    | ok t =>
      have ht : swap hasBuiltin (swap hasBuiltin t.crc) = t.crc := by
        rw [swap_eq, swap_eq, swapShifted_swapShifted]
      change Except.ok (Scan.mk (swap hasBuiltin (swap hasBuiltin t.crc)).toUInt32 t.next t.len) = _
      rw [ht]
      rfl
  · rw [if_neg h, if_neg h]

end Big

theorem crc32cSw_eq_little (little hasBuiltin : Bool) (fuel addr : ℕ) (crc : UInt32)
    (buf : List UInt8) (len : ℕ) :
    crc32cSw little hasBuiltin fuel addr crc buf len = crc32cSwLittle fuel addr crc buf len := by
  cases little with
  | true => rfl
  | false =>
    have hbyte : Big.byte buf = Software.byte buf := rfl
    change crc32cSwBig hasBuiltin fuel addr crc buf len = _
    unfold crc32cSwBig crc32cSwLittle
    simp only [hbyte, Big.words_eq]

/-- On either kind of machine the routine ends and computes the CRC-32C of the buffer, wherever the
buffer lies and whatever the swap is compiled to. -/
theorem crc32cSw_computes (little hasBuiltin : Bool) {fuel len : ℕ} {buf : List UInt8} (addr : ℕ)
    (crc : UInt32) (hlen : len ≤ buf.length) (hfuel : len < fuel) :
    crc32cSw little hasBuiltin fuel addr crc buf len = .ok (crc32c crc (buf.take len)) :=
  (crc32cSw_eq_little ..).trans (crc32cSwLittle_eq addr crc hlen hfuel)

theorem crc32cSw_computes_twenty :
    crc32cSw false false 21 5 0
        [1, 2, 3, 4, 5, 6, 7, 8, 9, 10, 11, 12, 13, 14, 15, 16, 17, 18, 19, 20] 20 =
      .ok (crc32c 0 [1, 2, 3, 4, 5, 6, 7, 8, 9, 10, 11, 12, 13, 14, 15, 16, 17, 18, 19, 20]) :=
  crc32cSw_computes false false 5 0 (by decide) (by decide)

end Kcf
