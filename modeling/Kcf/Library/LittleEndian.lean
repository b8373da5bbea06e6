import Mathlib.Algebra.Order.Group.Nat
import Mathlib.Tactic.Ring
import Mathlib.Tactic.NormNum

/-! # Little-endian byte strings

A number is laid out in a fixed number of bytes, least significant first, and
read back from any byte string. A string that ends early reads as if zeros
followed it.
-/

namespace LittleEndian

/-- The low bytes of a number in the given width, least significant first. -/
def encode : ℕ → ℕ → List UInt8
  | 0, _ => []
  | w + 1, n => UInt8.ofNat n :: encode w (n / 256)

/-- The number spelt by a byte string, least significant byte first. -/
def decode : List UInt8 → ℕ
  | [] => 0
  | b :: bs => b.toNat + 256 * decode bs

variable {v w n m : ℕ} {bs cs : List UInt8}

@[simp] theorem encode_zero (n : ℕ) : encode 0 n = [] := rfl

theorem encode_succ (w n : ℕ) : encode (w + 1) n = UInt8.ofNat n :: encode w (n / 256) := rfl

@[simp] theorem decode_nil : decode [] = 0 := rfl

@[simp] theorem decode_cons (b : UInt8) (bs : List UInt8) :
    decode (b :: bs) = b.toNat + 256 * decode bs := rfl

@[simp] theorem length_encode (w n : ℕ) : (encode w n).length = w := by
  induction w generalizing n with
  | zero => rfl
  | succ w ih => simp [encode_succ, ih]

theorem decode_encode (w n : ℕ) : decode (encode w n) = n % 256 ^ w := by
  induction w generalizing n with
  | zero => simp [Nat.mod_one]
  | succ w ih =>
    rw [encode_succ, decode_cons, ih, pow_succ', Nat.mod_mul]
    simp

theorem encode_decode (bs : List UInt8) : encode bs.length (decode bs) = bs := by
  induction bs with
  | nil => rfl
  | cons b bs ih =>
    have hb : b.toNat < 256 := b.toNat_lt
    have hq : (b.toNat + 256 * decode bs) / 256 = decode bs := by omega
    have hr : UInt8.ofNat (b.toNat + 256 * decode bs) = b := by
      apply UInt8.toNat_inj.mp
      rw [UInt8.toNat_ofNat']
      omega
    rw [List.length_cons, encode_succ, decode_cons, hq, hr, ih]

theorem decode_lt (bs : List UInt8) : decode bs < 256 ^ bs.length := by
  induction bs with
  | nil => simp
  | cons b bs ih =>
    have hb : b.toNat < 256 := b.toNat_lt
    rw [decode_cons, List.length_cons, pow_succ]
    omega

theorem encode_add (v w n : ℕ) : encode (v + w) n = encode v n ++ encode w (n / 256 ^ v) := by
  induction v generalizing n with
  | zero => simp
  | succ v ih =>
    rw [Nat.add_right_comm, encode_succ, encode_succ, ih, Nat.div_div_eq_div_mul, pow_succ',
      List.cons_append]

theorem encode_mod (w n : ℕ) : encode w (n % 256 ^ w) = encode w n := by
  have h := encode_decode (encode w n)
  rwa [length_encode, decode_encode] at h

theorem decode_append (bs cs : List UInt8) :
    decode (bs ++ cs) = decode bs + 256 ^ bs.length * decode cs := by
  induction bs with
  | nil => simp
  | cons b bs ih =>
    rw [List.cons_append, decode_cons, decode_cons, ih, List.length_cons, pow_succ]
    ring

/-- The number in a field of the given width at an offset of a byte string. -/
def field (bs : List UInt8) (offset width : ℕ) : ℕ := decode ((bs.drop offset).take width)

theorem field_append_right (h : bs.length ≤ v) :
    field (bs ++ cs) v w = field cs (v - bs.length) w := by
  rw [field, field, List.drop_append, List.drop_eq_nil_of_le h, List.nil_append]

theorem field_append_add (bs cs : List UInt8) (v w : ℕ) :
    field (bs ++ cs) (bs.length + v) w = field cs v w := by
  rw [field_append_right (Nat.le_add_right ..), Nat.add_sub_cancel_left]

theorem field_encode_append (w n : ℕ) (bs : List UInt8) :
    field (encode w n ++ bs) 0 w = n % 256 ^ w := by
  rw [field, List.drop_zero, List.take_left' (length_encode w n), decode_encode]

theorem field_encode_middle (h : bs.length = v) (w n : ℕ) (cs : List UInt8) :
    field (bs ++ (encode w n ++ cs)) v w = n % 256 ^ w := by
  rw [field_append_right h.le, h, Nat.sub_self, field_encode_append]

theorem field_one (bs : List UInt8) (v : ℕ) : field bs v 1 = (bs.getD v 0).toNat := by
  rw [field, List.getD_eq_getElem?_getD, ← List.head?_drop]
  cases bs.drop v <;> simp

theorem decode_replicate_zero (n : ℕ) : decode (List.replicate n 0) = 0 := by
  induction n with
  | zero => rfl
  | succ n ih => simp [List.replicate_succ, ih]

theorem field_append_zeros (bs : List UInt8) (n v w : ℕ) :
    field (bs ++ List.replicate n 0) v w = field bs v w := by
  rw [field, List.drop_append, List.take_append, decode_append, List.drop_replicate,
    List.take_replicate, decode_replicate_zero, Nat.mul_zero, Nat.add_zero, field]

theorem field_take (h : v + w ≤ n) : field (bs.take n) v w = field bs v w := by
  rw [field, field, List.drop_take, List.take_take, Nat.min_eq_left (by omega)]

theorem field_append_left (h : v + w ≤ bs.length) (rest : List UInt8) :
    field (bs ++ rest) v w = field bs v w := by
  rw [← field_take h, List.take_left]

theorem field_zero (bs : List UInt8) (v : ℕ) : field bs v 0 = 0 := by
  rw [field, List.take_zero, decode_nil]

theorem field_add (bs : List UInt8) (i v w : ℕ) :
    field bs i (v + w) = field bs i v + 256 ^ v * field bs (i + v) w := by
  simp only [field, List.take_add, List.drop_drop, decode_append]
  by_cases h : v ≤ (bs.drop i).length
  · rw [List.length_take, Nat.min_eq_left h]
  · rw [List.length_drop] at h
    simp [List.drop_eq_nil_of_le (show bs.length ≤ i + v by omega)]

/-- A field within a byte string is laid out as the bytes it was read from. -/
theorem encode_field (h : v + w ≤ bs.length) : encode w (field bs v w) = (bs.drop v).take w := by
  have hl : ((bs.drop v).take w).length = w := by
    rw [List.length_take, List.length_drop]
    omega
  have he := encode_decode ((bs.drop v).take w)
  rwa [hl] at he

theorem field_lt (bs : List UInt8) (v w : ℕ) : field bs v w < 256 ^ w := by
  refine lt_of_lt_of_le (decode_lt _) (Nat.pow_le_pow_right (by norm_num) ?_)
  exact List.length_take_le ..

end LittleEndian
