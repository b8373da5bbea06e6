import Mathlib.Algebra.Group.Nat.Defs
import Mathlib.Logic.Function.Iterate

/-! # Maps that respect exclusive or

A word of 32 bits is a vector over the field of two elements, and a map that
respects exclusive or is given by its columns, the images of the single bits.
-/

namespace Xor

variable {f g : UInt32 → UInt32} {n : ℕ} {v x : UInt32}

theorem bits_split (k : ℕ) (x : BitVec 32) :
    x = (x &&& BitVec.ofNat 32 (2 ^ k - 1)) ^^^ ((x >>> k) <<< k) := by
  apply BitVec.eq_of_getLsbD_eq
  intro i hi
  simp only [BitVec.getLsbD_xor, BitVec.getLsbD_and, BitVec.getLsbD_ofNat,
    BitVec.getLsbD_shiftLeft, BitVec.getLsbD_ushiftRight, Nat.testBit_two_pow_sub_one, hi]
  by_cases h : i < k
  · simp [h]
  · simp [h, Nat.add_sub_cancel' (Nat.le_of_not_lt h)]

theorem split_one (x : UInt32) : (x &&& (1 : UInt32)) ^^^ ((x >>> 1) <<< 1) = x := by
  apply UInt32.toBitVec_inj.mp
  exact (bits_split 1 x.toBitVec).symm

theorem split_eight (x : UInt32) : (x &&& (0xff : UInt32)) ^^^ ((x >>> 8) <<< 8) = x := by
  apply UInt32.toBitVec_inj.mp
  exact (bits_split 8 x.toBitVec).symm

theorem xor_and (x y z : UInt32) : (x ^^^ y) &&& z = (x &&& z) ^^^ (y &&& z) := by
  apply UInt32.toBitVec_inj.mp
  ext i hi
  simp only [UInt32.toBitVec_and, UInt32.toBitVec_xor, BitVec.getElem_and, BitVec.getElem_xor,
    Bool.and_xor_distrib_right]

/-- A map that takes an exclusive or to the exclusive or of the images. -/
def Linear (f : UInt32 → UInt32) : Prop := ∀ x y, f (x ^^^ y) = f x ^^^ f y

namespace Linear

theorem zero (hf : Linear f) : f 0 = 0 := by
  have h := hf 0 0
  rw [UInt32.xor_self, UInt32.xor_self] at h
  exact h

theorem comp (hf : Linear f) (hg : Linear g) : Linear fun x => f (g x) := by
  intro x y
  simp only [hg x y, hf (g x) (g y)]

theorem iterate (hf : Linear f) (n : ℕ) : Linear f^[n] := by
  induction n with
  | zero => exact fun _ _ => rfl
  | succ n ih =>
    rw [Function.iterate_succ]
    exact ih.comp hf

theorem shiftLeft (k : UInt32) : Linear (· <<< k) := fun _ _ => UInt32.shiftLeft_xor

end Linear

/-- The images of the lowest bits. -/
def columns (f : UInt32 → UInt32) : ℕ → List UInt32
  | 0 => []
  | n + 1 => f 1 :: columns (fun x => f (x <<< 1)) n

/-- A matrix given by its columns, times a vector. -/
def times : List UInt32 → UInt32 → UInt32
  | [], _ => 0
  | c :: cs, v => (if v &&& 1 ≠ 0 then c else 0) ^^^ times cs (v >>> 1)

theorem and_one_cases (v : UInt32) : v &&& 1 = 0 ∨ v &&& 1 = 1 := by
  have h : (v &&& 1).toNat = v.toNat % 2 := by
    simp [Nat.and_one_is_mod]
  rcases Nat.mod_two_eq_zero_or_one v.toNat with h' | h'
  · exact .inl (UInt32.toNat_inj.mp (h.trans h'))
  · exact .inr (UInt32.toNat_inj.mp (h.trans h'))

theorem toNat_shiftRight_one (v : UInt32) : (v >>> 1).toNat = v.toNat / 2 := by
  simp [Nat.shiftRight_eq_div_pow]

theorem times_zero (cs : List UInt32) : times cs 0 = 0 := by
  induction cs with
  | nil => rfl
  | cons c cs ih => rw [times, if_neg (by decide), UInt32.zero_xor]; exact ih

/-- The columns of a map make up the map. -/
theorem times_columns (hf : Linear f) (hv : v.toNat < 2 ^ n) : times (columns f n) v = f v := by
  induction n generalizing f v with
  | zero =>
    have h : v = 0 := UInt32.toNat_inj.mp (Nat.lt_one_iff.mp hv)
    rw [h, hf.zero]
    rfl
  | succ n ih =>
    have hlt : (v >>> 1).toNat < 2 ^ n := by
      rw [toNat_shiftRight_one]
      omega
    have hrest := ih (hf.comp (Linear.shiftLeft 1)) hlt
    have hbit : (if v &&& 1 ≠ 0 then f 1 else 0) = f (v &&& 1) := by
      rcases and_one_cases v with h | h
      · rw [h, hf.zero]
        rfl
      · rw [h]
        rfl
    calc times (columns f (n + 1)) v
        = f (v &&& 1) ^^^ f ((v >>> 1) <<< 1) := by rw [columns, times, hbit, hrest]
      _ = f v := by rw [← hf, split_one]

theorem times_columns_all (hf : Linear f) (v : UInt32) : times (columns f 32) v = f v :=
  times_columns hf v.toNat_lt

theorem map_times_columns (hf : Linear f) (hg : Linear g) (n : ℕ) :
    (columns g n).map (times (columns f 32)) = columns (fun x => f (g x)) n := by
  induction n generalizing g with
  | zero => rfl
  | succ n ih =>
    have hrest := ih (hg.comp (Linear.shiftLeft 1))
    calc (columns g (n + 1)).map (times (columns f 32))
        = times (columns f 32) (g 1) ::
            (columns (fun x => g (x <<< 1)) n).map (times (columns f 32)) := rfl
      _ = columns (fun x => f (g x)) (n + 1) := by rw [times_columns_all hf, hrest]; rfl

end Xor
