import Kcf.Record.Crc32cSoftware

/-! # CRC-32C by instruction

The routine for processors with an instruction goes through a buffer in five
loops: bytes up to an aligned address, long and short blocks in three parts at a
time, eight-byte units and bytes. In one of its two compiler branches the units
are read without getting on, so that the routine ends exactly where there is
none; in the other it computes what the software does.
-/

namespace Kcf

open LittleEndian Loop Xor

/-- The branch with `__GNUC__` and the one without. -/
inductive Branch
  | gnuc
  | other
  deriving DecidableEq, Repr

/-- The instructions, on a register of 64 bits. -/
structure Instructions where
  crc32b : UInt64 → UInt8 → UInt64
  crc32q : UInt64 → UInt64 → UInt64

/-- The CRC-32C step over a byte, bit by bit. -/
def crc32cStep (crc : UInt32) (byte : UInt8) : UInt32 :=
  Nat.repeat crc32cBit 8 (crc ^^^ byte.toUInt32)

/-- What is documented of the instructions: they are the step over a byte, and over the eight bytes
of a word, least significant first, on the low half of the register. -/
structure Instructions.Steps (ins : Instructions) : Prop where
  byte : ∀ crc b, ins.crc32b crc b = (crc32cStep crc.toUInt32 b).toUInt64
  word : ∀ crc w, ins.crc32q crc w =
    ((encode 8 w.toNat).foldl crc32cStep crc.toUInt32).toUInt64

def gf2MatrixTimesLoop : List UInt32 → UInt32 → UInt32 → UInt32
  -- 32 rows are enough for the bits of any vector
  | [], _, sum => sum
  | row :: mat, vec, sum =>
    if vec = 0 then sum
    else gf2MatrixTimesLoop mat (vec >>> 1) (if vec &&& 1 ≠ 0 then sum ^^^ row else sum)

def gf2MatrixTimes (mat : List UInt32) (vec : UInt32) : UInt32 := gf2MatrixTimesLoop mat vec 0

def gf2MatrixSquare (mat : List UInt32) : List UInt32 := mat.map (gf2MatrixTimes mat)

/-- The loop of `crc32c_zeros_op`, from the operator in `odd`. -/
def crc32cZerosLoop (odd : List UInt32) (len : ℕ) : List UInt32 :=
  let even := gf2MatrixSquare odd
  if len / 2 = 0 then even
  else
    let odd := gf2MatrixSquare even
    if len / 2 / 2 = 0 then odd else crc32cZerosLoop odd (len / 2 / 2)
termination_by len
decreasing_by omega

def zeroBitRows : List UInt32 := POLY :: (List.range 31).map fun n => 1 <<< UInt32.ofNat n

def crc32cZerosOp (len : ℕ) : List UInt32 :=
  let even := gf2MatrixSquare zeroBitRows
  let odd := gf2MatrixSquare even
  crc32cZerosLoop odd len

/-- The entries of the four tables that `crc32c_zeros` fills. -/
def crc32cZeros (len : ℕ) (k n : UInt32) : UInt32 :=
  gf2MatrixTimes (crc32cZerosOp len) (n <<< (8 * k))

def crc32cShift (zeros : UInt32 → UInt32 → UInt32) (crc : UInt32) : UInt32 :=
  zeros 0 (crc &&& 0xff) ^^^ zeros 1 ((crc >>> 8) &&& 0xff) ^^^
    zeros 2 ((crc >>> 16) &&& 0xff) ^^^ zeros 3 (crc >>> 24)

def LONG : ℕ := 8192

def SHORT : ℕ := 256

def crc32cLong : UInt32 → UInt32 → UInt32 := crc32cZeros LONG

def crc32cShort : UInt32 → UInt32 → UInt32 := crc32cZeros SHORT

namespace Hardware

variable (ins : Instructions) (branch : Branch) (fuel : ℕ) (buf : List UInt8)

/-- A byte goes into the register. The intrinsic takes and gives back 32 bits. -/
def stepByte (crc0 : UInt64) (b : UInt8) : UInt64 :=
  match branch with
  | .gnuc => ins.crc32b crc0 b
  | .other => (ins.crc32b crc0.toUInt32.toUInt64 b).toUInt32.toUInt64

/-- The body of the loops over single bytes. -/
def byte (s : Scan UInt64) : Exec (Scan UInt64) := do
  let b ← loadByte buf s.next
  return ⟨stepByte ins branch s.crc b, s.next + 1, s.len - 1⟩

/-- The registers of three parts of a block, and the offset of the next word of the first. -/
structure Triple where
  crc0 : UInt64
  crc1 : UInt64
  crc2 : UInt64
  next : ℕ
  deriving DecidableEq, Repr

/-- The body of the loops over the words of three parts of the same size. -/
def triple (size : ℕ) (t : Triple) : Exec Triple := do
  let w₀ ← loadWord buf t.next
  let w₁ ← loadWord buf (t.next + size)
  let w₂ ← loadWord buf (t.next + 2 * size)
  return ⟨ins.crc32q t.crc0 w₀, ins.crc32q t.crc1 w₁, ins.crc32q t.crc2 w₂, t.next + 8⟩

/-- The body of the loops over blocks of three parts. -/
def block (size : ℕ) (zeros : UInt32 → UInt32 → UInt32) (s : Scan UInt64) :
    Exec (Scan UInt64) := do
  let t ← doWhile .outOfFuel (fun t => t.next < s.next + size) (triple ins buf size) fuel
    ⟨s.crc, 0, 0, s.next⟩
  let crc0 := (crc32cShift zeros t.crc0.toUInt32).toUInt64 ^^^ t.crc1
  let crc0 := (crc32cShift zeros crc0.toUInt32).toUInt64 ^^^ t.crc2
  return ⟨crc0, t.next + 2 * size, s.len - 3 * size⟩

def blocks (size : ℕ) (zeros : UInt32 → UInt32 → UInt32) (s : Scan UInt64) :
    Exec (Scan UInt64) :=
  while_ .outOfFuel (fun s => 3 * size ≤ s.len) (block ins fuel buf size zeros) fuel s

/-- The body of the loop over units of eight bytes. -/
def unit (s : Scan UInt64) : Exec (Scan UInt64) := do
  let w ← loadWord buf s.next
  match branch with
  -- what moves on to the next unit stands in the other branch only
  | .gnuc => return ⟨ins.crc32q s.crc w, s.next, s.len⟩
  | .other => return ⟨ins.crc32q s.crc w, s.next + 8, s.len⟩

def units (s : Scan UInt64) : Exec (Scan UInt64) := do
  let stop := s.next + (s.len - s.len % 8)
  let s ← while_ .outOfFuel (fun s => s.next < stop) (unit ins branch buf) fuel s
  return ⟨s.crc, s.next, s.len % 8⟩

end Hardware

/-- `crc32c_hw` on a buffer at an address. -/
def crc32cHw (ins : Instructions) (branch : Branch) (fuel addr : ℕ) (crc : UInt32)
    (buf : List UInt8) (len : ℕ) : Exec UInt32 := do
  let s ← while_ .outOfFuel (Scan.unaligned addr) (Hardware.byte ins branch buf) fuel
    ⟨(~~~ crc).toUInt64, 0, len⟩
  let s ← Hardware.blocks ins fuel buf LONG crc32cLong s
  let s ← Hardware.blocks ins fuel buf SHORT crc32cShort s
  let s ← Hardware.units ins branch fuel buf s
  let s ← while_ .outOfFuel (fun s => s.len ≠ 0) (Hardware.byte ins branch buf) fuel s
  return (~~~ s.crc).toUInt32

theorem gf2MatrixTimesLoop_eq (mat : List UInt32) (vec sum : UInt32) :
    gf2MatrixTimesLoop mat vec sum = sum ^^^ times mat vec := by
  induction mat generalizing vec sum with
  | nil => exact UInt32.xor_zero.symm
  | cons row mat ih =>
    rw [gf2MatrixTimesLoop]
    split
    · rename_i h
      rw [h, times_zero, UInt32.xor_zero]
    · rw [ih, times, ← UInt32.xor_assoc]
      split
      · rfl
      · rw [UInt32.xor_zero]

theorem gf2MatrixTimes_eq (mat : List UInt32) : gf2MatrixTimes mat = times mat :=
  funext fun vec => (gf2MatrixTimesLoop_eq mat vec 0).trans UInt32.zero_xor

variable {f : UInt32 → UInt32}

theorem gf2MatrixSquare_columns (hf : Linear f) :
    gf2MatrixSquare (columns f 32) = columns f^[2] 32 := by
  rw [gf2MatrixSquare, gf2MatrixTimes_eq]
  exact map_times_columns hf hf 32

/-- For a power of two the loop squares once more than the power. -/
theorem crc32cZerosLoop_columns (hf : Linear f) (k : ℕ) :
    crc32cZerosLoop (columns f 32) (2 ^ k) = columns f^[2 ^ (k + 1)] 32 := by
  have heven := gf2MatrixSquare_columns hf
  have hodd : gf2MatrixSquare (columns f^[2] 32) = columns f^[4] 32 := by
    rw [gf2MatrixSquare_columns (hf.iterate 2), ← Function.iterate_mul]
  induction k using Nat.strong_induction_on generalizing f with
  | _ k ih =>
    rw [crc32cZerosLoop, heven, hodd]
    match k with
    | 0 => rfl
    | 1 => rfl
    | k + 2 =>
      have hpos := Nat.two_pow_pos k
      have hfour : 2 ^ (k + 2) = 4 * 2 ^ k := by rw [Nat.pow_add, Nat.mul_comm]
      have hquarter : 2 ^ (k + 2) / 2 / 2 = 2 ^ k := by omega
      have hf₄ := hf.iterate 4
      rw [hquarter, if_neg (by omega), if_neg (by omega),
        ih k (by omega) hf₄ (gf2MatrixSquare_columns hf₄) _, ← Function.iterate_mul]
      · congr 2
        rw [Nat.pow_succ, Nat.pow_succ]
        omega
      · rw [gf2MatrixSquare_columns (hf₄.iterate 2), ← Function.iterate_mul]

theorem zeroBitRows_eq : zeroBitRows = columns crc32cBit 32 := by decide +kernel

theorem crc32cZerosOp_eq (k : ℕ) : crc32cZerosOp (2 ^ k) = columns crc32cZero^[2 ^ k] 32 := by
  have h₂ := crc32cBit_linear.iterate 2
  have h₄ := h₂.iterate 2
  rw [crc32cZerosOp, zeroBitRows_eq, gf2MatrixSquare_columns crc32cBit_linear,
    gf2MatrixSquare_columns h₂, crc32cZerosLoop_columns h₄, crc32cZero, ← Function.iterate_mul,
    ← Function.iterate_mul, ← Function.iterate_mul]
  congr 2
  rw [Nat.pow_succ]
  omega

theorem shiftRight_octets (x : UInt32) :
    x >>> 8 >>> 8 = x >>> 16 ∧ x >>> 16 >>> 8 = x >>> 24 := by
  constructor <;>
  · apply UInt32.toNat_inj.mp
    simp [Nat.shiftRight_eq_div_pow, Nat.div_div_eq_div_mul]

theorem shiftLeft_octets (x : UInt32) :
    x <<< 8 <<< 8 = x <<< 16 ∧ x <<< 8 <<< 16 = x <<< 24 := by
  constructor <;>
  · apply UInt32.toNat_inj.mp
    simp [Nat.shiftLeft_eq]
    omega

theorem octets_split (x : UInt32) :
    (x &&& (0xff : UInt32)) ^^^ ((x >>> 8) &&& (0xff : UInt32)) <<< 8 ^^^
      ((x >>> 16) &&& (0xff : UInt32)) <<< 16 ^^^ (x >>> 24) <<< 24 = x := by
  have h₁ := split_eight (x >>> 8)
  have h₂ := split_eight (x >>> 16)
  rw [(shiftRight_octets x).1] at h₁
  rw [(shiftRight_octets x).2] at h₂
  calc (x &&& (0xff : UInt32)) ^^^ ((x >>> 8) &&& (0xff : UInt32)) <<< 8 ^^^
        ((x >>> 16) &&& (0xff : UInt32)) <<< 16 ^^^ (x >>> 24) <<< 24
      = (x &&& (0xff : UInt32)) ^^^ ((x >>> 8) &&& (0xff : UInt32)) <<< 8 ^^^
          (x >>> 16) <<< 16 := by
        rw [UInt32.xor_assoc _ _ ((x >>> 24) <<< 24), ← (shiftLeft_octets (x >>> 24)).2,
          ← UInt32.shiftLeft_xor, h₂]
    _ = (x &&& (0xff : UInt32)) ^^^ (x >>> 8) <<< 8 := by
        rw [UInt32.xor_assoc, ← (shiftLeft_octets (x >>> 16)).1, ← UInt32.shiftLeft_xor, h₁]
    _ = x := split_eight x

theorem crc32cShift_eq (k : ℕ) (crc : UInt32) :
    crc32cShift (crc32cZeros (2 ^ k)) crc = crc32cZero^[2 ^ k] crc := by
  have hf := crc32cZero_linear.iterate (2 ^ k)
  have hentry (j n : UInt32) : crc32cZeros (2 ^ k) j n = crc32cZero^[2 ^ k] (n <<< (8 * j)) := by
    rw [crc32cZeros, gf2MatrixTimes_eq, crc32cZerosOp_eq, times_columns_all hf]
  have hfirst : (crc &&& (0xff : UInt32)) <<< (8 * 0) = crc &&& 0xff := UInt32.shiftLeft_zero
  simp only [crc32cShift, hentry, ← hf _ _, hfirst]
  exact congrArg _ (octets_split crc)

variable {ins : Instructions} {branch : Branch} {fuel len addr i : ℕ} {buf : List UInt8}

theorem crc32cStep_eq (crc : UInt32) (b : UInt8) : crc32cStep crc b = crc32cByte crc b :=
  (repeat_eq_iterate _ _ _).trans (crc32cByte_eq crc b).symm

namespace Hardware

theorem crc32q_wide (hins : ins.Steps) (c : UInt32) (h : i + 8 ≤ buf.length) :
    ins.crc32q c.toUInt64 (UInt64.ofNat (field buf i 8)) =
      (((buf.drop i).take 8).foldl crc32cByte c).toUInt64 := by
  rw [hins.word, encode_loaded h, UInt32.toUInt32_toUInt64, funext₂ crc32cStep_eq]

theorem stepByte_wide (hins : ins.Steps) (branch : Branch) (c : UInt32) (b : UInt8) :
    stepByte ins branch c.toUInt64 b = (crc32cByte c b).toUInt64 := by
  cases branch <;>
    simp only [stepByte, hins.byte, UInt32.toUInt32_toUInt64, crc32cStep_eq]

theorem byte_scanned (hins : ins.Steps) (reg : UInt32) (h : i < len) (hlen : len ≤ buf.length) :
    byte ins branch buf (scanned reg buf len i).wide =
      .ok (scanned reg buf len (i + 1)).wide := by
  have hi := Nat.lt_of_lt_of_le h hlen
  simp only [byte, scanned, Scan.wide, loadByte_of_lt hi, Exec.ok_bind, scanned_succ hi,
    stepByte_wide hins, Nat.sub_sub]
  rfl

theorem align_scanned (hins : ins.Steps) (branch : Branch) (reg : UInt32) (addr : ℕ)
    (hlen : len ≤ buf.length) (hfuel : len < fuel) :
    while_ .outOfFuel (Scan.unaligned addr) (byte ins branch buf) fuel
      (scanned reg buf len 0).wide = .ok (scanned reg buf len (leadLength addr len)).wide :=
  align_counted (f := fun i => (scanned reg buf len i).wide) (fun _ => rfl) (fun _ => rfl)
    (fun _ hi => byte_scanned hins reg hi hlen) hfuel

theorem rest_scanned (hins : ins.Steps) (branch : Branch) (reg : UInt32) (hi : i ≤ len)
    (hlen : len ≤ buf.length) (hfuel : len < fuel) :
    while_ .outOfFuel (fun s : Scan UInt64 => s.len ≠ 0) (byte ins branch buf) fuel
      (scanned reg buf len i).wide = .ok (scanned reg buf len len).wide :=
  rest_counted (f := fun i => (scanned reg buf len i).wide) (fun _ => rfl)
    (fun _ hi => byte_scanned hins reg hi hlen) hi hfuel

/-- A register after so many words from an offset on. -/
def part (buf : List UInt8) (c : UInt32) (i j : ℕ) : UInt32 :=
  ((buf.drop i).take (8 * j)).foldl crc32cByte c

theorem part_succ (buf : List UInt8) (c : UInt32) (i j : ℕ) :
    part buf c i (j + 1) = ((buf.drop (i + 8 * j)).take 8).foldl crc32cByte (part buf c i j) := by
  rw [part, Nat.mul_succ, List.take_add, List.foldl_append, List.drop_drop]
  rfl

/-- The registers of three parts after so many words of each. -/
def tripleAt (buf : List UInt8) (c : UInt32) (i size j : ℕ) : Triple :=
  ⟨(part buf c i j).toUInt64, (part buf 0 (i + size) j).toUInt64,
    (part buf 0 (i + 2 * size) j).toUInt64, i + 8 * j⟩

theorem triple_tripleAt (hins : ins.Steps) (c : UInt32) {size j : ℕ}
    (h : i + 2 * size + 8 * (j + 1) ≤ buf.length) :
    triple ins buf size (tripleAt buf c i size j) = .ok (tripleAt buf c i size (j + 1)) := by
  have h₁ : i + 8 * j + size = i + size + 8 * j := Nat.add_right_comm ..
  have h₂ : i + 8 * j + 2 * size = i + 2 * size + 8 * j := Nat.add_right_comm ..
  have hw₀ : i + 8 * j + 8 ≤ buf.length := by omega
  have hw₁ : i + size + 8 * j + 8 ≤ buf.length := by omega
  have hw₂ : i + 2 * size + 8 * j + 8 ≤ buf.length := by omega
  simp only [triple, tripleAt, h₁, h₂, loadWord_of_le hw₀, loadWord_of_le hw₁,
    loadWord_of_le hw₂, Exec.ok_bind, crc32q_wide hins _ hw₀, crc32q_wide hins _ hw₁,
    crc32q_wide hins _ hw₂, part_succ]
  rfl

theorem shift_part (reg : UInt32) {k : ℕ} (h : i + 2 ^ k ≤ buf.length) :
    crc32cShift (crc32cZeros (2 ^ k)) ((buf.take i).foldl crc32cByte reg) ^^^
        ((buf.drop i).take (2 ^ k)).foldl crc32cByte 0 =
      (buf.take (i + 2 ^ k)).foldl crc32cByte reg := by
  have hpart : ((buf.drop i).take (2 ^ k)).length = 2 ^ k := by
    rw [List.length_take, List.length_drop]
    omega
  rw [crc32cShift_eq, scanned_add, foldl_crc32cByte_zero ((buf.take i).foldl crc32cByte reg),
    hpart]

theorem block_scanned (hins : ins.Steps) (reg : UInt32) {k n : ℕ} (hk : 2 ^ k = 8 * (n + 1))
    (h : i + 3 * 2 ^ k ≤ len) (hlen : len ≤ buf.length) (hfuel : len < fuel) :
    block ins fuel buf (2 ^ k) (crc32cZeros (2 ^ k)) (scanned reg buf len i).wide =
      .ok (scanned reg buf len (i + 3 * 2 ^ k)).wide := by
  have hloop : doWhile .outOfFuel
      (fun t : Triple => t.next < (scanned reg buf len i).wide.next + 2 ^ k)
      (triple ins buf (2 ^ k)) fuel (tripleAt buf ((buf.take i).foldl crc32cByte reg) i (2 ^ k) 0) =
      .ok (tripleAt buf ((buf.take i).foldl crc32cByte reg) i (2 ^ k) (n + 1)) := by
    apply doWhile_counted
    · intro j hj
      exact decide_eq_true (show i + 8 * (j + 1) < i + 2 ^ k by omega)
    · exact decide_eq_false (show ¬ i + 8 * (n + 1) < i + 2 ^ k by omega)
    · intro j hj
      exact triple_tripleAt hins _ (by omega)
    · omega
  have hcrc : crc32cShift (crc32cZeros (2 ^ k)) (crc32cShift (crc32cZeros (2 ^ k))
      (part buf ((buf.take i).foldl crc32cByte reg) i (n + 1)) ^^^ part buf 0 (i + 2 ^ k) (n + 1))
      ^^^ part buf 0 (i + 2 * 2 ^ k) (n + 1) =
      (buf.take (i + 3 * 2 ^ k)).foldl crc32cByte reg := by
    have htwo : i + 2 * 2 ^ k = i + 2 ^ k + 2 ^ k := by omega
    have hthree : i + 3 * 2 ^ k = i + 2 ^ k + 2 ^ k + 2 ^ k := by omega
    simp only [part, ← hk]
    rw [← scanned_add, shift_part reg (by omega), htwo, hthree, shift_part reg (by omega)]
  have hstart : (⟨(scanned reg buf len i).wide.crc, 0, 0, (scanned reg buf len i).wide.next⟩ :
      Triple) = tripleAt buf ((buf.take i).foldl crc32cByte reg) i (2 ^ k) 0 := by
    simp [tripleAt, part, scanned, Scan.wide]
  unfold block
  rw [hstart, hloop, Exec.ok_bind]
  have hnext : i + 8 * (n + 1) + 2 * 2 ^ k = i + 3 * 2 ^ k := by omega
  have hleft : len - i - 3 * 2 ^ k = len - (i + 3 * 2 ^ k) := Nat.sub_sub ..
  simp only [scanned, Scan.wide, tripleAt, UInt32.toUInt32_toUInt64, ← UInt32.toUInt64_xor, hcrc,
    hnext, hleft]
  rfl

/-- The blocks leave less than three parts. -/
theorem blocks_scanned (hins : ins.Steps) (reg : UInt32) {k n : ℕ} (hk : 2 ^ k = 8 * (n + 1))
    (hi : i ≤ len) (hlen : len ≤ buf.length) (hfuel : len < fuel) :
    blocks ins fuel buf (2 ^ k) (crc32cZeros (2 ^ k)) (scanned reg buf len i).wide =
      .ok (scanned reg buf len (len - (len - i) % (3 * 2 ^ k))).wide := by
  have hend : len - (len - i) % (3 * 2 ^ k) = i + 3 * 2 ^ k * ((len - i) / (3 * 2 ^ k)) := by
    have hdiv := Nat.mod_add_div (len - i) (3 * 2 ^ k)
    omega
  have hround (j : ℕ) : i + 3 * 2 ^ k * (j + 1) = i + 3 * 2 ^ k * j + 3 * 2 ^ k := by
    rw [Nat.mul_succ, Nat.add_assoc]
  have hin (j : ℕ) (hj : j < (len - i) / (3 * 2 ^ k)) : i + 3 * 2 ^ k * j + 3 * 2 ^ k ≤ len := by
    have hmul := Nat.mul_le_mul_left (3 * 2 ^ k) (show j + 1 ≤ _ from hj)
    have hdiv := Nat.mul_div_le (len - i) (3 * 2 ^ k)
    rw [← hround]
    omega
  rw [hend]
  apply while_counted (f := fun j => (scanned reg buf len (i + 3 * 2 ^ k * j)).wide)
  · intro j hj
    have hle := hin j hj
    exact decide_eq_true (show 3 * 2 ^ k ≤ len - (i + 3 * 2 ^ k * j) by omega)
  · have hlt := Nat.mod_lt (len - i) (show 0 < 3 * 2 ^ k by omega)
    exact decide_eq_false (show ¬ 3 * 2 ^ k ≤ len - (i + 3 * 2 ^ k * ((len - i) / (3 * 2 ^ k))) by
      omega)
  · intro j hj
    rw [hround]
    exact block_scanned hins reg hk (hin j hj) hlen hfuel
  · have hle := Nat.div_le_self (len - i) (3 * 2 ^ k)
    omega

/-- A register after so many units from an offset on; the number of bytes left stays as it was. -/
def unitAt (reg : UInt32) (buf : List UInt8) (len i j : ℕ) : Scan UInt64 :=
  ⟨((buf.take (i + 8 * j)).foldl crc32cByte reg).toUInt64, i + 8 * j, len - i⟩

theorem unit_unitAt (hins : ins.Steps) (reg : UInt32) {j : ℕ} (h : i + 8 * j + 8 ≤ buf.length) :
    unit ins .other buf (unitAt reg buf len i j) = .ok (unitAt reg buf len i (j + 1)) := by
  have hround : i + 8 * (j + 1) = i + 8 * j + 8 := rfl
  simp only [unit, unitAt, loadWord_of_le h, Exec.ok_bind, crc32q_wide hins _ h, hround,
    scanned_add]
  rfl

theorem units_eq (ins : Instructions) (branch : Branch) (fuel : ℕ) (reg : UInt32)
    (buf : List UInt8) (len i : ℕ) :
    units ins branch fuel buf (scanned reg buf len i).wide =
      while_ .outOfFuel (fun s => s.next < i + (len - i - (len - i) % 8)) (unit ins branch buf)
        fuel (unitAt reg buf len i 0) >>= fun s => .ok ⟨s.crc, s.next, s.len % 8⟩ := rfl

theorem units_scanned (hins : ins.Steps) (reg : UInt32)
    (h : branch = .gnuc → len - i < 8) (hi : i ≤ len) (hlen : len ≤ buf.length)
    (hfuel : len < fuel) :
    units ins branch fuel buf (scanned reg buf len i).wide =
      .ok (scanned reg buf len (len - (len - i) % 8)).wide := by
  have hend : len - (len - i) % 8 = i + 8 * ((len - i) / 8) := by omega
  have hleft : len - (i + 8 * ((len - i) / 8)) = (len - i) % 8 := by omega
  have hloop : while_ .outOfFuel
      (fun s : Scan UInt64 => s.next < i + (len - i - (len - i) % 8)) (unit ins branch buf) fuel
      (unitAt reg buf len i 0) = .ok (unitAt reg buf len i ((len - i) / 8)) := by
    apply while_counted
    · intro j hj
      exact decide_eq_true (show i + 8 * j < i + (len - i - (len - i) % 8) by omega)
    · exact decide_eq_false
        (show ¬ i + 8 * ((len - i) / 8) < i + (len - i - (len - i) % 8) by omega)
    · intro j hj
      cases branch with
      | gnuc => exact absurd (h rfl) (by omega)
      | other => exact unit_unitAt hins reg (by omega)
    · omega
  rw [units_eq, hloop, Exec.ok_bind, hend]
  simp only [unitAt, scanned, Scan.wide, hleft]

theorem units_endless (ins : Instructions) (reg : UInt32) (h : i + 8 ≤ len)
    (hlen : len ≤ buf.length) (fuel : ℕ) :
    units ins .gnuc fuel buf (scanned reg buf len i).wide = .error .outOfFuel := by
  have hin : i + 8 ≤ buf.length := Nat.le_trans h hlen
  have hloop : while_ .outOfFuel (fun s : Scan UInt64 => s.next < i + (len - i - (len - i) % 8))
      (unit ins .gnuc buf) fuel (unitAt reg buf len i 0) = .error .outOfFuel := by
    apply while_endless (I := fun s => s.next = i)
    · intro s hs
      exact decide_eq_true (show s.next < i + (len - i - (len - i) % 8) by omega)
    · intro s hs
      refine ⟨⟨ins.crc32q s.crc (UInt64.ofNat (field buf i 8)), s.next, s.len⟩, ?_, hs⟩
      simp only [unit, hs, loadWord_of_le hin, Exec.ok_bind]
      rfl
    · rfl
  rw [units_eq, hloop]
  rfl

end Hardware

open Hardware

/-- The number of bytes that the blocks leave. -/
def tailLength (addr len : ℕ) : ℕ := (len - leadLength addr len) % (3 * SHORT)

/-- The first three loops leave the tail. -/
theorem crc32cHw_tail (hins : ins.Steps) (branch : Branch) (addr : ℕ) (crc : UInt32)
    (hlen : len ≤ buf.length) (hfuel : len < fuel) :
    crc32cHw ins branch fuel addr crc buf len = do
      let s ← units ins branch fuel buf
        (scanned (~~~ crc) buf len (len - tailLength addr len)).wide
      let s ← while_ .outOfFuel (fun s => s.len ≠ 0) (byte ins branch buf) fuel s
      return (~~~ s.crc).toUInt32 := by
  have hlead := leadLength_le addr len
  have hstart : (⟨(~~~ crc).toUInt64, 0, len⟩ : Scan UInt64) =
      (scanned (~~~ crc) buf len 0).wide := by
    simp [scanned, Scan.wide]
  have halign := align_scanned hins branch (~~~ crc) addr hlen hfuel
  have hlong : blocks ins fuel buf LONG crc32cLong
      (scanned (~~~ crc) buf len (leadLength addr len)).wide = .ok (scanned (~~~ crc) buf len
        (len - (len - leadLength addr len) % (3 * LONG))).wide :=
    blocks_scanned hins (~~~ crc) (show 2 ^ 13 = 8 * (1023 + 1) from rfl) hlead hlen hfuel
  have hshort : blocks ins fuel buf SHORT crc32cShort (scanned (~~~ crc) buf len
        (len - (len - leadLength addr len) % (3 * LONG))).wide = .ok (scanned (~~~ crc) buf len
        (len - (len - (len - (len - leadLength addr len) % (3 * LONG))) % (3 * SHORT))).wide :=
    blocks_scanned hins (~~~ crc) (show 2 ^ 8 = 8 * (31 + 1) from rfl) (Nat.sub_le _ _) hlen hfuel
  have htail : len - (len - (len - leadLength addr len) % (3 * LONG)) =
      (len - leadLength addr len) % (3 * LONG) := by
    have hle := Nat.mod_le (len - leadLength addr len) (3 * LONG)
    omega
  have hmod : (len - leadLength addr len) % (3 * LONG) % (3 * SHORT) = tailLength addr len :=
    Nat.mod_mod_of_dvd _ (by decide)
  rw [crc32cHw, hstart, halign, Exec.ok_bind, hlong, Exec.ok_bind, hshort, Exec.ok_bind, htail,
    hmod]

theorem tailLength_le (addr len : ℕ) : tailLength addr len ≤ len :=
  Nat.le_trans (Nat.mod_le _ _) (Nat.sub_le _ _)

theorem crc32cHw_eq (hins : ins.Steps) (crc : UInt32) (hlen : len ≤ buf.length)
    (h : branch = .gnuc → tailLength addr len < 8) (hfuel : len < fuel) :
    crc32cHw ins branch fuel addr crc buf len = .ok (crc32c crc (buf.take len)) := by
  have htail := tailLength_le addr len
  have hleft : len - (len - tailLength addr len) = tailLength addr len := Nat.sub_sub_self htail
  have hunits := units_scanned (i := len - tailLength addr len) hins (~~~ crc) (hleft ▸ h)
    (Nat.sub_le _ _) hlen hfuel
  have hrest := rest_scanned hins branch (~~~ crc)
    (Nat.sub_le len ((len - (len - tailLength addr len)) % 8)) hlen hfuel
  rw [crc32cHw_tail hins branch addr crc hlen hfuel, hunits, Exec.ok_bind, hrest, Exec.ok_bind]
  simp only [scanned, Scan.wide, UInt64.toUInt32_not, UInt32.toUInt32_toUInt64]
  rfl

theorem crc32cHw_endless (hins : ins.Steps) (crc : UInt32) (hlen : len ≤ buf.length)
    (h : 8 ≤ tailLength addr len) (hfuel : len < fuel) :
    crc32cHw ins .gnuc fuel addr crc buf len = .error .outOfFuel := by
  have htail := tailLength_le addr len
  rw [crc32cHw_tail hins .gnuc addr crc hlen hfuel,
    units_endless ins _ (show len - tailLength addr len + 8 ≤ len by omega) hlen]
  rfl

/-- The routines agree: with enough rounds both end, and with the same value. -/
def Agrees (ins : Instructions) (branch : Branch) (addr : ℕ) (crc : UInt32) (buf : List UInt8)
    (len : ℕ) : Prop :=
  ∃ rounds, ∀ fuel ≥ rounds, ∃ crc', crc32cHw ins branch fuel addr crc buf len = .ok crc' ∧
    crc32cSwLittle fuel addr crc buf len = .ok crc'

/-- The routines agree in the one branch always, in the other where the tail has no unit. -/
theorem agrees_iff (ins : Instructions) (hins : ins.Steps) (branch : Branch) (addr : ℕ)
    (crc : UInt32) (buf : List UInt8) (len : ℕ) (hlen : len ≤ buf.length) :
    Agrees ins branch addr crc buf len ↔ (branch = .gnuc → tailLength addr len < 8) := by
  constructor
  · rintro ⟨rounds, hagree⟩ rfl
    by_contra hunit
    obtain ⟨crc', hhw, -⟩ := hagree (rounds + len + 1) (by omega)
    rw [crc32cHw_endless hins crc hlen (Nat.le_of_not_lt hunit) (by omega)] at hhw
    cases hhw
  · intro h
    refine ⟨len + 1, fun fuel hfuel => ⟨crc32c crc (buf.take len), ?_, ?_⟩⟩
    · exact crc32cHw_eq hins crc hlen h hfuel
    · exact crc32cSwLittle_eq addr crc hlen hfuel

def Instructions.documented : Instructions where
  crc32b crc b := (crc32cStep crc.toUInt32 b).toUInt64
  crc32q crc w := ((encode 8 w.toNat).foldl crc32cStep crc.toUInt32).toUInt64

theorem Instructions.documented_steps : Instructions.documented.Steps :=
  ⟨fun _ _ => rfl, fun _ _ => rfl⟩

/-- Three bytes up to an aligned address, a long block, a short block, and seven bytes; the branch
that goes on over a unit agrees on eight more, the other one does not. -/
theorem agrees_iff_blocks :
    Agrees .documented .gnuc 5 0 (List.replicate 25354 0x61) 25354 ∧
      Agrees .documented .other 5 0 (List.replicate 25362 0x61) 25362 ∧
      ¬ Agrees .documented .gnuc 5 0 (List.replicate 25362 0x61) 25362 := by
  have hiff (branch : Branch) (n : ℕ) := agrees_iff .documented Instructions.documented_steps branch
    5 0 (List.replicate n 0x61) n (List.length_replicate ..).ge
  refine ⟨(hiff .gnuc 25354).mpr fun _ => by decide, (hiff .other 25362).mpr nofun, fun h => ?_⟩
  exact absurd ((hiff .gnuc 25362).mp h rfl) (by decide)

/-- Eight bytes at an aligned address are enough for the one branch not to end. -/
theorem eightBytes_endless :
    ¬ Agrees .documented .gnuc 0 0 [1, 2, 3, 4, 5, 6, 7, 8] 8 := by
  rintro ⟨rounds, hagree⟩
  obtain ⟨crc', hhw, -⟩ := hagree (rounds + 9) (by omega)
  rw [crc32cHw_endless Instructions.documented_steps 0 (by decide) (by decide) (by omega)] at hhw
  cases hhw

end Kcf
