import Kcf.Record.Crc32cSoftware

/-! # What CRC-32C detects

Two buffers of one length that differ, and only within 32 consecutive bits, have
different checksums. The difference goes through the register by itself: zeros before
it leave the register at zero, and bits shifted in or out of it afterwards can be taken
back.
-/

namespace Kcf

open LittleEndian Xor

variable {x y : List UInt8} {n v w k : ℕ} {c d : UInt32}

theorem crc32cByte_zero (c : UInt32) : crc32cByte c 0 = crc32cZero c := by
  rw [crc32cByte_eq]
  exact congrArg crc32cZero UInt32.xor_zero

theorem crc32cZero_injective : Function.Injective crc32cZero := fun c d h => by
  rw [← crc32cByte_zero, ← crc32cByte_zero] at h
  exact crc32cByte_inj h

theorem crc32cBit_injective : Function.Injective crc32cBit := by
  have h : Function.Injective (crc32cBit^[7] ∘ crc32cBit) := crc32cZero_injective
  exact h.of_comp

theorem crc32cByte_xor (c d : UInt32) (a b : UInt8) :
    crc32cByte (c ^^^ d) (a ^^^ b) = crc32cByte c a ^^^ crc32cByte d b := by
  have hsum : (c ^^^ d) ^^^ (a ^^^ b).toUInt32 = (c ^^^ a.toUInt32) ^^^ (d ^^^ b.toUInt32) := by
    rw [UInt8.toUInt32_xor]
    ac_rfl
  rw [crc32cByte_eq, crc32cByte_eq, crc32cByte_eq, hsum, crc32cZero_linear]

theorem foldl_encode_xor (n v w : ℕ) (c d : UInt32) :
    (encode n (v ^^^ w)).foldl crc32cByte (c ^^^ d) =
      (encode n v).foldl crc32cByte c ^^^ (encode n w).foldl crc32cByte d := by
  induction n generalizing v w c d with
  | zero => rfl
  | succ n ih =>
    have hdiv : (v ^^^ w) / 256 = v / 256 ^^^ w / 256 := @Nat.xor_div_two_pow v w 8
    have hlow : UInt8.ofNat (v ^^^ w) = UInt8.ofNat v ^^^ UInt8.ofNat w := UInt8.ofNat_xor ..
    rw [encode_succ, encode_succ, encode_succ, List.foldl_cons, List.foldl_cons, List.foldl_cons,
      hdiv, hlow, crc32cByte_xor, ih]

theorem foldl_encode_zero (n : ℕ) (c : UInt32) :
    (encode n 0).foldl crc32cByte c = crc32cZero^[n] c := by
  induction n generalizing c with
  | zero => rfl
  | succ n ih =>
    rw [encode_succ, List.foldl_cons, Function.iterate_succ_apply, ← crc32cByte_zero]
    exact ih _

theorem foldl_encode_add (h : w < 256 ^ n) (m : ℕ) (c : UInt32) :
    (encode (n + m) w).foldl crc32cByte c = crc32cZero^[m] ((encode n w).foldl crc32cByte c) := by
  rw [encode_add, Nat.div_eq_of_lt h, List.foldl_append, foldl_encode_zero]

theorem foldl_encode_four (h : w < 2 ^ 32) (c : UInt32) :
    (encode 4 w).foldl crc32cByte c = crc32cZero^[4] (c ^^^ UInt32.ofNat w) := by
  have hc := c.toNat_lt
  have hxor : c.toNat ^^^ w < 2 ^ 32 := Nat.xor_lt_two_pow hc h
  have hadded := tableSum_xor (n := 4) w hc hc
  have hzeros := tableSum_xor (n := 4) 0 hxor hxor
  rw [Nat.xor_zero, hadded, foldl_encode_zero, UInt32.ofNat_toNat] at hzeros
  rw [hzeros]
  congr 1
  apply UInt32.toNat_inj.mp
  rw [UInt32.toNat_ofNat_of_lt' hxor, UInt32.toNat_xor, UInt32.toNat_ofNat_of_lt' h]

theorem ofNat_split (hv : v < 2 ^ 32) (j : ℕ) :
    UInt32.ofNat (v % 2 ^ j) ^^^ UInt32.ofNat (v / 2 ^ j * 2 ^ j) = UInt32.ofNat v := by
  have hle : v / 2 ^ j * 2 ^ j ≤ v := Nat.div_mul_le_self v (2 ^ j)
  have hmod : v % 2 ^ j ≤ v := Nat.mod_le v (2 ^ j)
  have hsplit : v % 2 ^ j ^^^ v / 2 ^ j * 2 ^ j = v := by
    apply Nat.eq_of_testBit_eq
    intro i
    rw [Nat.testBit_xor, Nat.testBit_mod_two_pow, Nat.testBit_mul_two_pow, Nat.testBit_div_two_pow]
    by_cases hi : i < j
    · simp [hi, Nat.not_le.mpr hi]
    · simp [hi, Nat.not_lt.mp hi]
  apply UInt32.toNat_inj.mp
  rw [UInt32.toNat_xor, UInt32.toNat_ofNat_of_lt' (show _ < 2 ^ 32 by omega),
    UInt32.toNat_ofNat_of_lt' (show _ < 2 ^ 32 by omega), UInt32.toNat_ofNat_of_lt' hv, hsplit]

/-- Up to 32 bits in five bytes are so many bits shifted out of the register. -/
theorem foldl_encode_five (hv : v < 2 ^ 32) {j : ℕ} (hj : j + k = 8) :
    (encode 5 (v * 2 ^ k)).foldl crc32cByte 0 =
      crc32cZero^[4] (crc32cBit^[j] (UInt32.ofNat v)) := by
  have hpow : 256 = 2 ^ j * 2 ^ k := by
    rw [← Nat.pow_add, hj]
  have hlow : v * 2 ^ k % 256 = v % 2 ^ j * 2 ^ k := by
    rw [hpow, Nat.mul_mod_mul_right]
  have hhigh : v * 2 ^ k / 256 = v / 2 ^ j := by
    rw [hpow, Nat.mul_div_mul_right _ _ (Nat.two_pow_pos k)]
  have hlt : v % 2 ^ j * 2 ^ k < 2 ^ 32 := by
    rw [← hlow]
    omega
  have hle : v / 2 ^ j * 2 ^ j < 2 ^ 32 := Nat.lt_of_le_of_lt (Nat.div_mul_le_self v (2 ^ j)) hv
  have hquot : v / 2 ^ j < 2 ^ 32 := Nat.lt_of_le_of_lt (Nat.div_le_self v (2 ^ j)) hv
  have hbyte : (UInt8.ofNat (v * 2 ^ k)).toUInt32 = UInt32.ofNat (v % 2 ^ j * 2 ^ k) := by
    apply UInt32.toNat_inj.mp
    rw [UInt8.toNat_toUInt32, UInt8.toNat_ofNat', UInt32.toNat_ofNat_of_lt' hlt]
    exact hlow
  have hfirst : crc32cByte 0 (UInt8.ofNat (v * 2 ^ k)) =
      crc32cBit^[j] (UInt32.ofNat (v % 2 ^ j)) := by
    rw [crc32cByte_eq, UInt32.zero_xor, hbyte, crc32cZero, ← hj, Function.iterate_add_apply,
      iterate_crc32cBit k hlt]
  have hrest : crc32cBit^[j] (UInt32.ofNat (v / 2 ^ j * 2 ^ j)) = UInt32.ofNat (v / 2 ^ j) :=
    iterate_crc32cBit j hle
  rw [encode_succ, List.foldl_cons, hfirst, hhigh, foldl_encode_four hquot, ← hrest,
    ← crc32cBit_linear.iterate j, ofNat_split hv]

/-- A burst comes to zero only if it is zero: the zeros before it leave the register at zero. -/
theorem foldl_burst (hv : v < 2 ^ 32) (hn : v * 2 ^ k < 256 ^ n)
    (h : (encode n (v * 2 ^ k)).foldl crc32cByte 0 = 0) : v = 0 := by
  induction k using Nat.strong_induction_on generalizing n with
  | h k ih =>
    have hzero (m : ℕ) : crc32cZero^[m] 0 = 0 := (crc32cZero_linear.iterate m).zero
    by_cases hk : k < 8
    · -- five bytes hold it, and zeros behind them do not matter
      obtain ⟨j, hj⟩ : ∃ j, j + k = 8 := ⟨8 - k, by omega⟩
      have hfive : v * 2 ^ k < 256 ^ 5 := by
        calc v * 2 ^ k < 2 ^ 32 * 2 ^ k := Nat.mul_lt_mul_of_pos_right hv (Nat.two_pow_pos k)
          _ ≤ 2 ^ 32 * 2 ^ 8 := Nat.mul_le_mul_left _ (Nat.pow_le_pow_right (by decide) hk.le)
          _ = 256 ^ 5 := by decide
      have hlong := foldl_encode_add hn 5 0
      rw [h, hzero, Nat.add_comm, foldl_encode_add hfive, foldl_encode_five hv hj] at hlong
      have hback := crc32cZero_injective.iterate n (hlong.trans (hzero n).symm)
      have hback := crc32cZero_injective.iterate 4 (hback.trans (hzero 4).symm)
      have hback := crc32cBit_injective.iterate j
        (hback.trans (crc32cBit_linear.iterate j).zero.symm)
      have hnat := congrArg UInt32.toNat hback
      rw [UInt32.toNat_ofNat_of_lt' hv] at hnat
      exact hnat
    · -- a byte of zeros comes first
      obtain ⟨i, rfl⟩ : ∃ i, k = i + 8 := ⟨k - 8, by omega⟩
      have hbyte : v * 2 ^ (i + 8) = 256 * (v * 2 ^ i) := by
        rw [Nat.pow_add]
        ring
      cases n with
      | zero =>
        have hw : v * 2 ^ (i + 8) = 0 := Nat.lt_one_iff.mp hn
        exact (Nat.mul_eq_zero.mp hw).resolve_right (Nat.two_pow_pos _).ne'
      | succ n =>
        have hfirst : UInt8.ofNat (256 * (v * 2 ^ i)) = 0 := by
          apply UInt8.toNat_inj.mp
          rw [UInt8.toNat_ofNat']
          exact Nat.mul_mod_right 256 _
        rw [hbyte, encode_succ, List.foldl_cons, hfirst, crc32cByte_zero, crc32cZero_linear.zero,
          Nat.mul_div_cancel_left _ (by decide)] at h
        rw [hbyte, Nat.pow_succ, Nat.mul_comm] at hn
        exact ih i (by omega) (Nat.lt_of_mul_lt_mul_right hn) h

/-- The buffers have one length, and their bits differ within 32 consecutive ones at most. -/
def Burst (x y : List UInt8) : Prop :=
  x.length = y.length ∧ ∃ v k, v < 2 ^ 32 ∧ decode x ^^^ decode y = v * 2 ^ k

theorem eq_of_foldl_encode {x y : ℕ} (hx : x < 256 ^ n) (hy : y < 256 ^ n) (hv : v < 2 ^ 32)
    (hdiff : x ^^^ y = v * 2 ^ k)
    (h : (encode n x).foldl crc32cByte 0 = (encode n y).foldl crc32cByte 0) : x = y := by
  have hpow : 256 ^ n = 2 ^ (8 * n) := (pow_mul 2 8 n).symm
  have hlt : x ^^^ y < 256 ^ n := by
    rw [hpow] at hx hy ⊢
    exact Nat.xor_lt_two_pow hx hy
  have hreg : (encode n (x ^^^ y)).foldl crc32cByte (0 ^^^ 0) = 0 := by
    rw [foldl_encode_xor, h, UInt32.xor_self]
  rw [hdiff] at hlt hreg
  have hzero : x ^^^ y = 0 := by
    rw [hdiff, foldl_burst hv hlt hreg, Nat.zero_mul]
  calc x = x ^^^ y ^^^ y := by rw [Nat.xor_assoc, Nat.xor_self, Nat.xor_zero]
    _ = y := by rw [hzero, Nat.zero_xor]

theorem Burst.eq_of_crc32c (h : Burst x y) {crc : UInt32} (heq : crc32c crc x = crc32c crc y) :
    x = y := by
  obtain ⟨hlen, v, k, hv, hdiff⟩ := h
  have hx := encode_decode x
  have hy := encode_decode y
  have hlt := decode_lt x
  rw [hlen] at hx hlt
  have hreg := UInt32.not_inj.mp heq
  rw [foldl_crc32cByte_zero, foldl_crc32cByte_zero _ y, hlen] at hreg
  have hzero := (UInt32.xor_right_inj _).mp hreg
  rw [← hx, ← hy, length_encode] at hzero
  calc x = encode y.length (decode x) := hx.symm
    _ = encode y.length (decode y) := by
      rw [eq_of_foldl_encode hlt (decode_lt y) hv hdiff hzero]
    _ = y := hy

/-- Buffers that differ by a burst have one checksum only if they do not differ. -/
theorem crc32c_burst_iff (h : Burst x y) (crc : UInt32) :
    crc32c crc x = crc32c crc y ↔ x = y := by
  constructor
  · exact h.eq_of_crc32c
  · rintro rfl
    rfl

theorem crc32c_burst_two : Burst [5, 1, 7, 9] [5, 3, 7, 8] ∧
    crc32c 0 [5, 1, 7, 9] ≠ crc32c 0 [5, 3, 7, 8] := by
  have h : Burst [5, 1, 7, 9] [5, 3, 7, 8] := ⟨rfl, 2 + 2 ^ 16, 8, by decide, by decide⟩
  exact ⟨h, fun heq => absurd ((crc32c_burst_iff h 0).mp heq) (by decide)⟩

end Kcf
