import Kcf.Library.LittleEndian
import Kcf.Library.Loop
import Kcf.Memory.Basic
import Kcf.Record.Crc32cLinear

/-! # CRC-32C in software

The routine for machines that store the least significant byte first goes byte
by byte up to an address that eight divides, then eight bytes at a time through
eight tables, then byte by byte again. It computes the CRC-32C at every address.
-/

namespace Kcf

open LittleEndian Loop

/-- `*next`. -/
def loadByte (buf : List UInt8) (next : ℕ) : Exec UInt8 :=
  match buf[next]? with
  | some b => .ok b
  | none => .error .outOfBounds

/-- `*(uint64_t const *)next`, least significant byte first. -/
def loadWord (buf : List UInt8) (next : ℕ) : Exec UInt64 :=
  if next + 8 ≤ buf.length then .ok (UInt64.ofNat (field buf next 8)) else .error .outOfBounds

/-- A register, the offset of the next byte to go into it and the number of those that are left. -/
structure Scan (ρ : Type) where
  crc : ρ
  next : ℕ
  len : ℕ
  deriving DecidableEq, Repr

/-- Bytes are left, and the next one is not at an address that eight divides. -/
def Scan.unaligned {ρ : Type} (addr : ℕ) (s : Scan ρ) : Bool :=
  s.len ≠ 0 && (addr + s.next) % 8 ≠ 0

def Scan.wide (s : Scan UInt32) : Scan UInt64 := ⟨s.crc.toUInt64, s.next, s.len⟩

/-- The register is cut to 32 bits. -/
def Scan.narrow (s : Scan UInt64) : Scan UInt32 := ⟨s.crc.toUInt32, s.next, s.len⟩

/-- The entries of `crc32c_table_little`. -/
def crc32cTableLittle : ℕ → UInt32 → UInt32
  | 0, n => crc32cTable n
  | k + 1, n =>
    let crc := crc32cTableLittle k n
    crc32cTable (crc &&& 0xff) ^^^ (crc >>> 8)

namespace Software

/-- The body of the loops over single bytes. -/
def byte (buf : List UInt8) (s : Scan UInt32) : Exec (Scan UInt32) := do
  let b ← loadByte buf s.next
  return ⟨crc32cTableLittle 0 ((s.crc ^^^ b.toUInt32) &&& 0xff) ^^^ (s.crc >>> 8),
    s.next + 1, s.len - 1⟩

/-- The tables' entries for the bytes of a word. -/
def lookUp (crcw : UInt64) : UInt32 :=
  crc32cTableLittle 7 (crcw &&& 0xff).toUInt32 ^^^
    crc32cTableLittle 6 ((crcw >>> 8) &&& 0xff).toUInt32 ^^^
    crc32cTableLittle 5 ((crcw >>> 16) &&& 0xff).toUInt32 ^^^
    crc32cTableLittle 4 ((crcw >>> 24) &&& 0xff).toUInt32 ^^^
    crc32cTableLittle 3 ((crcw >>> 32) &&& 0xff).toUInt32 ^^^
    crc32cTableLittle 2 ((crcw >>> 40) &&& 0xff).toUInt32 ^^^
    crc32cTableLittle 1 ((crcw >>> 48) &&& 0xff).toUInt32 ^^^
    crc32cTableLittle 0 (crcw >>> 56).toUInt32

/-- The body of the loop over words. -/
def word (buf : List UInt8) (s : Scan UInt64) : Exec (Scan UInt64) := do
  let w ← loadWord buf s.next
  return ⟨(lookUp (s.crc ^^^ w)).toUInt64, s.next + 8, s.len - 8⟩

/-- The eight-byte units, when there are any. -/
def words (fuel : ℕ) (buf : List UInt8) (s : Scan UInt32) : Exec (Scan UInt32) :=
  if 8 ≤ s.len then do
    let s ← doWhile .outOfFuel (fun s => 8 ≤ s.len) (word buf) fuel s.wide
    return s.narrow
  else .ok s

end Software

/-- `crc32c_sw_little` on a buffer at an address. -/
def crc32cSwLittle (fuel addr : ℕ) (crc : UInt32) (buf : List UInt8) (len : ℕ) : Exec UInt32 := do
  let s ← while_ .outOfFuel (Scan.unaligned addr) (Software.byte buf) fuel ⟨~~~ crc, 0, len⟩
  let s ← Software.words fuel buf s
  let s ← while_ .outOfFuel (fun s => s.len ≠ 0) (Software.byte buf) fuel s
  return ~~~ s.crc

variable {buf : List UInt8} {next len addr : ℕ}

theorem loadByte_of_lt (h : next < buf.length) : loadByte buf next = .ok buf[next] := by
  simp only [loadByte, List.getElem?_eq_getElem h]

theorem loadWord_of_le (h : next + 8 ≤ buf.length) :
    loadWord buf next = .ok (UInt64.ofNat (field buf next 8)) := if_pos h

theorem encode_loaded (h : next + 8 ≤ buf.length) :
    encode 8 (UInt64.ofNat (field buf next 8)).toNat = (buf.drop next).take 8 := by
  rw [UInt64.toNat_ofNat_of_lt' (field_lt buf next 8), encode_field h]

theorem crc32cTableLittle_eq (k : ℕ) (n : UInt32) :
    crc32cTableLittle k n = crc32cZero^[k] (crc32cTable n) := by
  induction k with
  | zero => rfl
  | succ k ih =>
    rw [Function.iterate_succ_apply', ← ih, crc32cZero_eq]
    rfl

/-- The tables' entries for the lowest bytes of a number, from the given table down. -/
def tableSum : ℕ → ℕ → UInt32
  | 0, _ => 0
  | n + 1, x => crc32cTableLittle n (UInt32.ofNat (x % 256)) ^^^ tableSum n (x / 256)

theorem octet_xor {c : ℕ} (hc : c < 2 ^ 32) (w : ℕ) :
    (UInt32.ofNat c ^^^ (UInt8.ofNat w).toUInt32) &&& 0xff = UInt32.ofNat ((c ^^^ w) % 256) := by
  apply UInt32.toNat_inj.mp
  have hlow : (c ^^^ w % 256) % 2 ^ 8 = (c ^^^ w) % 2 ^ 8 := by
    rw [Nat.xor_mod_two_pow, Nat.xor_mod_two_pow, Nat.mod_mod]
  have hb : (UInt8.ofNat w).toUInt32.toNat = w % 256 := by
    rw [UInt8.toNat_toUInt32, UInt8.toNat_ofNat']
  rw [UInt32.toNat_and, UInt32.toNat_xor, UInt32.toNat_ofNat_of_lt' hc, hb,
    UInt32.toNat_ofNat_of_lt' (show (c ^^^ w) % 256 < 2 ^ 32 by omega)]
  exact (Nat.and_two_pow_sub_one_eq_mod _ 8).trans hlow

theorem tableSum_xor {n c : ℕ} (w : ℕ) (hc : c < 256 ^ n) (hc' : c < 2 ^ 32) :
    tableSum n (c ^^^ w) = (encode n w).foldl crc32cByte (UInt32.ofNat c) := by
  induction n generalizing c w with
  | zero =>
    have h : c = 0 := Nat.lt_one_iff.mp hc
    rw [h]
    rfl
  | succ n ih =>
    have hdiv : (c ^^^ w) / 256 = c / 256 ^^^ w / 256 := by
      have h := @Nat.xor_div_two_pow c w 8
      exact h
    have hhigh : UInt32.ofNat c >>> 8 = UInt32.ofNat (c / 256) := by
      apply UInt32.toNat_inj.mp
      rw [toNat_shiftRight_eight, UInt32.toNat_ofNat_of_lt' hc',
        UInt32.toNat_ofNat_of_lt' (show c / 256 < 2 ^ 32 by omega)]
    have hrest := ih (w / 256) (show c / 256 < 256 ^ n by rw [Nat.pow_succ] at hc; omega)
      (show c / 256 < 2 ^ 32 by omega)
    rw [tableSum, hdiv, hrest, crc32cTableLittle_eq, encode_succ, List.foldl_cons, crc32cByte,
      octet_xor hc', hhigh, foldl_crc32cByte_xor, length_encode]

theorem toUInt32_octet (x : UInt64) : (x &&& 0xff).toUInt32 = UInt32.ofNat (x.toNat % 256) := by
  apply UInt32.toNat_inj.mp
  have hand : (x &&& 0xff).toNat = x.toNat % 256 := by
    simp [Nat.and_two_pow_sub_one_eq_mod _ 8]
  rw [UInt64.toNat_toUInt32, hand, UInt32.toNat_ofNat_of_lt' (show x.toNat % 256 < 2 ^ 32 by omega)]
  omega

theorem toUInt32_top (x : UInt64) :
    (x >>> 56).toUInt32 = UInt32.ofNat ((x >>> 56).toNat % 256) := by
  have hx := x.toNat_lt
  have hlt : (x >>> 56).toNat < 256 := by
    simp only [UInt64.toNat_shiftRight, Nat.shiftRight_eq_div_pow, UInt64.reduceToNat,
      Nat.reduceMod, Nat.reducePow]
    omega
  apply UInt32.toNat_inj.mp
  rw [UInt64.toNat_toUInt32, Nat.mod_eq_of_lt hlt,
    UInt32.toNat_ofNat_of_lt' (show _ < 2 ^ 32 by omega)]
  omega

theorem lookUp_eq (crcw : UInt64) : Software.lookUp crcw = tableSum 8 crcw.toNat := by
  simp only [Software.lookUp, tableSum, toUInt32_octet, toUInt32_top, UInt64.toNat_shiftRight,
    Nat.shiftRight_eq_div_pow, Nat.div_div_eq_div_mul, UInt64.reduceToNat, Nat.reduceMod,
    Nat.reducePow, Nat.reduceMul, UInt32.xor_zero, UInt32.xor_assoc]

theorem lookUp_word (crc : UInt32) (w : UInt64) :
    Software.lookUp (crc.toUInt64 ^^^ w) = (encode 8 w.toNat).foldl crc32cByte crc := by
  have hc := crc.toNat_lt
  rw [lookUp_eq, UInt64.toNat_xor, UInt32.toNat_toUInt64, tableSum_xor _ (by omega) hc,
    UInt32.ofNat_toNat]

theorem narrow_wide (s : Scan UInt32) : s.wide.narrow = s := by
  simp only [Scan.wide, Scan.narrow, UInt32.toUInt32_toUInt64]

variable {reg : UInt32} {fuel i : ℕ}

/-- The number of bytes up to an address that eight divides. -/
def leadLength (addr len : ℕ) : ℕ := min len ((8 - addr % 8) % 8)

theorem leadLength_le (addr len : ℕ) : leadLength addr len ≤ len := Nat.min_le_left _ _

theorem unaligned_of_lt (h : i < leadLength addr len) : i < len ∧ (addr + i) % 8 ≠ 0 := by
  obtain ⟨hlen, hlead⟩ := Nat.lt_min.mp h
  exact ⟨hlen, by omega⟩

theorem leadLength_aligned (addr len : ℕ) :
    leadLength addr len = len ∨ (addr + leadLength addr len) % 8 = 0 := by
  unfold leadLength
  rcases Nat.le_total len ((8 - addr % 8) % 8) with h | h
  · exact .inl (Nat.min_eq_left h)
  · rw [Nat.min_eq_right h]
    exact .inr (by omega)

/-- A register that so many of the bytes went into. -/
def scanned (reg : UInt32) (buf : List UInt8) (len i : ℕ) : Scan UInt32 :=
  ⟨(buf.take i).foldl crc32cByte reg, i, len - i⟩

theorem scanned_succ (h : i < buf.length) : (buf.take (i + 1)).foldl crc32cByte reg =
    crc32cByte ((buf.take i).foldl crc32cByte reg) buf[i] := by
  rw [List.take_succ_eq_append_getElem h, List.foldl_append]
  rfl

theorem scanned_add (reg : UInt32) (buf : List UInt8) (i n : ℕ) :
    (buf.take (i + n)).foldl crc32cByte reg =
      ((buf.drop i).take n).foldl crc32cByte ((buf.take i).foldl crc32cByte reg) := by
  rw [List.take_add, List.foldl_append]

theorem align_counted {ρ : Type} {body : Scan ρ → Exec (Scan ρ)} {f : ℕ → Scan ρ}
    (hnext : ∀ i, (f i).next = i) (hleft : ∀ i, (f i).len = len - i)
    (hbody : ∀ i < len, body (f i) = .ok (f (i + 1))) (hfuel : len < fuel) :
    while_ .outOfFuel (Scan.unaligned addr) body fuel (f 0) =
      .ok (f (leadLength addr len)) := by
  apply while_counted
  · intro i hi
    obtain ⟨hlen, haddr⟩ := unaligned_of_lt hi
    have hpos : len - i ≠ 0 := by omega
    simp [Scan.unaligned, hnext, hleft, hpos, haddr]
  · rcases leadLength_aligned addr len with h | h <;> simp [Scan.unaligned, hnext, hleft, h]
  · intro i hi
    exact hbody i (unaligned_of_lt hi).1
  · exact Nat.lt_of_le_of_lt (leadLength_le addr len) hfuel

theorem rest_counted {ρ : Type} {body : Scan ρ → Exec (Scan ρ)} {f : ℕ → Scan ρ}
    (hleft : ∀ i, (f i).len = len - i) (hbody : ∀ i < len, body (f i) = .ok (f (i + 1)))
    (hi : i ≤ len) (hfuel : len < fuel) :
    while_ .outOfFuel (fun s : Scan ρ => s.len ≠ 0) body fuel (f i) = .ok (f len) := by
  obtain ⟨n, rfl⟩ := Nat.exists_eq_add_of_le hi
  apply while_counted (f := fun j => f (i + j))
  · intro j hj
    have hpos : i + n - (i + j) ≠ 0 := by omega
    simp [hleft, hpos]
  · simp [hleft]
  · intro j hj
    exact hbody (i + j) (by omega)
  · omega

namespace Software

theorem byte_scanned (h : i < len) (hlen : len ≤ buf.length) :
    byte buf (scanned reg buf len i) = .ok (scanned reg buf len (i + 1)) := by
  have hi := Nat.lt_of_lt_of_le h hlen
  simp only [byte, scanned, loadByte_of_lt hi, Exec.ok_bind, scanned_succ hi, crc32cByte,
    Nat.sub_sub]
  rfl

theorem word_scanned (h : i + 8 ≤ len) (hlen : len ≤ buf.length) :
    word buf (scanned reg buf len i).wide = .ok (scanned reg buf len (i + 8)).wide := by
  have hi := Nat.le_trans h hlen
  simp only [word, scanned, Scan.wide, loadWord_of_le hi, Exec.ok_bind, lookUp_word,
    encode_loaded hi, scanned_add, Nat.sub_sub]
  rfl

theorem align_scanned (reg : UInt32) (addr : ℕ) (hlen : len ≤ buf.length)
    (hfuel : len < fuel) :
    while_ .outOfFuel (Scan.unaligned addr) (byte buf) fuel (scanned reg buf len 0) =
      .ok (scanned reg buf len (leadLength addr len)) :=
  align_counted (fun _ => rfl) (fun _ => rfl) (fun _ hi => byte_scanned hi hlen) hfuel

/-- The eight-byte units leave less than one of them. -/
theorem words_scanned (reg : UInt32) (hi : i ≤ len) (hlen : len ≤ buf.length)
    (hfuel : len < fuel) :
    words fuel buf (scanned reg buf len i) =
      .ok (scanned reg buf len (i + 8 * ((len - i) / 8))) := by
  have htest (j : ℕ) : decide (8 ≤ (scanned reg buf len (i + 8 * j)).wide.len) =
      decide (8 * (j + 1) ≤ len - i) := by
    simp only [scanned, Scan.wide]
    congr 1
    exact propext (by omega)
  unfold words
  by_cases h : 8 ≤ len - i
  · obtain ⟨n, hn⟩ : ∃ n, (len - i) / 8 = n + 1 := ⟨(len - i) / 8 - 1, by omega⟩
    have hloop : doWhile .outOfFuel (fun s => 8 ≤ s.len) (word buf) fuel
        (scanned reg buf len i).wide = .ok (scanned reg buf len (i + 8 * (n + 1))).wide := by
      apply doWhile_counted (f := fun j => (scanned reg buf len (i + 8 * j)).wide)
      · intro j hj
        rw [htest]
        exact decide_eq_true (by omega)
      · rw [htest]
        exact decide_eq_false (by omega)
      · intro j hj
        exact word_scanned (by omega) hlen
      · omega
    rw [if_pos (show 8 ≤ (scanned reg buf len i).len from h), hn, hloop, Exec.ok_bind, narrow_wide]
    rfl
  · have hn : (len - i) / 8 = 0 := by omega
    rw [if_neg (show ¬ 8 ≤ (scanned reg buf len i).len from h), hn]
    rfl

theorem rest_scanned (reg : UInt32) (hi : i ≤ len) (hlen : len ≤ buf.length)
    (hfuel : len < fuel) :
    while_ .outOfFuel (fun s : Scan UInt32 => s.len ≠ 0) (byte buf) fuel
      (scanned reg buf len i) = .ok (scanned reg buf len len) :=
  rest_counted (fun _ => rfl) (fun _ hi => byte_scanned hi hlen) hi hfuel

end Software

theorem crc32cSwLittle_eq (addr : ℕ) (crc : UInt32) (hlen : len ≤ buf.length)
    (hfuel : len < fuel) :
    crc32cSwLittle fuel addr crc buf len = .ok (crc32c crc (buf.take len)) := by
  have hlead := leadLength_le addr len
  have halign := Software.align_scanned (~~~ crc) addr hlen hfuel
  have hwords := Software.words_scanned (~~~ crc) hlead hlen hfuel
  have hrest := Software.rest_scanned (~~~ crc)
    (show leadLength addr len + 8 * ((len - leadLength addr len) / 8) ≤ len by omega) hlen hfuel
  have hstart : (⟨~~~ crc, 0, len⟩ : Scan UInt32) = scanned (~~~ crc) buf len 0 := by
    simp [scanned]
  rw [crc32cSwLittle, hstart, halign, Exec.ok_bind, hwords, Exec.ok_bind, hrest]
  rfl

end Kcf
