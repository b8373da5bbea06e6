import Mathlib.Algebra.Order.Group.Nat
import Kcf.Library.Overwrite

/-! # Memory

What the C code takes from the language and its library: undefined behaviour,
`malloc`, `memcpy` and the conversions between signed and unsigned 64-bit
integers. A heap is the list of answers `malloc` has in store, with the bytes
each fresh block happens to hold.
-/

namespace Kcf

/-- Why a call does not come back: it leaves its memory, uses a local that was
never set, or is still looping when the rounds granted to it are over. -/
inductive Fault
  | outOfBounds
  | unset
  | outOfFuel
  deriving DecidableEq, Repr

/-- A computation that comes back with a value or runs into a fault. -/
abbrev Exec (α : Type) := Except Fault α

/-- A sequence that comes back went through its first part. -/
theorem Exec.bind_ok {α β : Type} {x : Exec α} {f : α → Exec β} {b : β} (h : (x >>= f) = .ok b) :
    ∃ a, x = .ok a ∧ f a = .ok b := by
  cases x with
  | error fault => cases h
  | ok a => exact ⟨a, rfl, h⟩

theorem Exec.ok_bind {α β : Type} (a : α) (f : α → Exec β) :
    ((.ok a : Exec α) >>= f) = f a := rfl

theorem Exec.ite_bind {α β : Type} {p : Prop} [Decidable p] (a : α) (fault : Fault)
    (f : α → Exec β) :
    ((if p then .ok a else .error fault : Exec α) >>= f) = if p then f a else .error fault := by
  split <;> rfl

theorem Exec.map_ok {α β : Type} {x : Exec α} {f : α → β} {b : β} (h : x.map f = .ok b) :
    ∃ a, x = .ok a ∧ f a = b := by
  cases x with
  | error fault => cases h
  | ok a => exact ⟨a, rfl, Except.ok.inj h⟩

/-- The answers `malloc` has in store: `none` for `NULL`, else the fresh block's contents. -/
abbrev Heap := ℕ → Option (ℕ → UInt8)

namespace Heap

/-- No answer in store is `NULL`. -/
def Grants (heap : Heap) : Prop := ∀ i, (heap i).isSome

/-- Every answer is a block of zeros. -/
def zeros : Heap := fun _ => some fun _ => 0

theorem grants_zeros : zeros.Grants := fun _ => rfl

/-- What is left after one answer. -/
def next (heap : Heap) : Heap := fun i => heap (i + 1)

theorem Grants.next {heap : Heap} (h : heap.Grants) : heap.next.Grants := fun i => h (i + 1)

end Heap

/-- The largest `ptrdiff_t`; no allocator grants more. -/
def PTRDIFF_MAX : ℕ := 2 ^ 63 - 1

/-- `malloc`: a fresh block of the size asked for, or `NULL`. -/
def malloc (heap : Heap) (size : ℕ) : Option (List UInt8) × Heap :=
  (if size ≤ PTRDIFF_MAX then (heap 0).map fun fresh => (List.range size).map fresh else none,
    heap.next)

@[simp] theorem malloc_snd (heap : Heap) (size : ℕ) : (malloc heap size).2 = heap.next := rfl

theorem malloc_granted {heap : Heap} {size : ℕ} (h : (heap 0).isSome) (hs : size ≤ PTRDIFF_MAX) :
    ∃ block, malloc heap size = (some block, heap.next) ∧ block.length = size := by
  obtain ⟨fresh, hf⟩ := Option.isSome_iff_exists.mp h
  exact ⟨(List.range size).map fresh, by simp [malloc, hf, hs], by simp⟩

theorem granted_of_malloc {heap : Heap} {size : ℕ} {block : List UInt8} {rest : Heap}
    (h : malloc heap size = (some block, rest)) :
    (heap 0).isSome ∧ size ≤ PTRDIFF_MAX ∧ block.length = size := by
  have hb : (malloc heap size).1 = some block := congrArg Prod.fst h
  rw [malloc] at hb
  split at hb
  · obtain ⟨fresh, hf, rfl⟩ := Option.map_eq_some_iff.mp hb
    exact ⟨by rw [hf]; rfl, ‹_›, by rw [List.length_map, List.length_range]⟩
  · cases hb

theorem length_of_malloc {heap : Heap} {size : ℕ} {block : List UInt8} {rest : Heap}
    (h : malloc heap size = (some block, rest)) : block.length = size :=
  (granted_of_malloc h).2.2

theorem malloc_eq_none {heap : Heap} {size : ℕ} (h : heap 0 = none) :
    (malloc heap size).1 = none := by
  simp [malloc, h]

theorem malloc_refused {heap : Heap} {size : ℕ} (h : PTRDIFF_MAX < size) :
    (malloc heap size).1 = none := by
  rw [malloc, if_neg (by omega)]

/-- `memcpy(buffer + offset, source, n)`. -/
def memcpy (buffer : List UInt8) (offset : ℕ) (source : Option (List UInt8)) (n : ℕ) :
    Exec (List UInt8) :=
  if n = 0 then .ok buffer
  else match source with
    | none => .error .outOfBounds
    | some source =>
      if n ≤ source.length ∧ offset + n ≤ buffer.length then
        .ok (buffer.overwrite offset (source.take n))
      else .error .outOfBounds

theorem memcpy_fits {buffer : List UInt8} {offset n : ℕ} {source : Option (List UInt8)}
    (hn : (source.getD []).length = n) (hb : offset + n ≤ buffer.length) :
    memcpy buffer offset source n = .ok (buffer.overwrite offset (source.getD [])) := by
  unfold memcpy
  split
  · rw [List.length_eq_zero_iff.mp (hn.trans ‹n = 0›), List.overwrite_nil]
  · cases source with
    | none => exact absurd hn.symm ‹¬ n = 0›
    | some block =>
      rw [Option.getD_some] at hn ⊢
      subst hn
      simp only [hb, le_refl, and_self, if_true, List.take_length]

theorem memcpy_take {buffer source : List UInt8} {offset n : ℕ} (hn : n ≤ source.length)
    (hb : offset + n ≤ buffer.length) :
    memcpy buffer offset (some source) n = .ok (buffer.overwrite offset (source.take n)) := by
  unfold memcpy
  split
  · rw [‹n = 0›, List.take_zero, List.overwrite_nil]
  · exact if_pos ⟨hn, hb⟩

theorem memcpy_faults {buffer : List UInt8} {offset n : ℕ} {source : Option (List UInt8)}
    (hn : n ≠ 0) (h : source = none ∨ buffer.length < n) :
    memcpy buffer offset source n = .error .outOfBounds := by
  unfold memcpy
  rw [if_neg hn]
  rcases h with rfl | h
  · rfl
  · cases source with
    | none => rfl
    | some block => exact if_neg (by omega)

/-- An `int64_t` taken for a `size_t`. -/
def toSize (x : ℤ) : ℕ := (x % UInt64.size).toNat

/-- A `size_t` taken for an `int64_t`. -/
def toInt64 (x : ℕ) : ℤ := Int.bmod x UInt64.size

/-- The largest `int`. -/
def INT_MAX : ℕ := 2 ^ 31 - 1

/-- A `size_t` taken for an `int`. -/
def toInt (x : ℕ) : ℤ := Int.bmod x (2 ^ 32)

theorem toSize_natCast (n : ℕ) : toSize n = n % UInt64.size := by
  unfold toSize
  omega

theorem toSize_of_nonneg {x : ℤ} (h₀ : 0 ≤ x) (h : x ≤ INT_MAX) : toSize x = x.toNat := by
  unfold INT_MAX at h
  unfold toSize UInt64.size
  omega

theorem toSize_of_neg {x : ℤ} (h₀ : x < 0) (h : -(INT_MAX : ℤ) - 1 ≤ x) :
    PTRDIFF_MAX < toSize x := by
  unfold INT_MAX at h
  unfold toSize UInt64.size PTRDIFF_MAX
  omega

theorem toInt_range (n : ℕ) : -(INT_MAX : ℤ) - 1 ≤ toInt n ∧ toInt n ≤ INT_MAX := by
  unfold INT_MAX
  have hle : -((2 ^ 32 / 2 : ℕ) : ℤ) ≤ toInt n := Int.le_bmod (by omega)
  have hlt : toInt n < (2 ^ 32 + 1 : ℕ) / 2 := Int.bmod_lt (by omega)
  omega

theorem toInt_le {n : ℕ} (h : 0 ≤ toInt n) : toInt n ≤ n := by
  unfold toInt at h ⊢
  rw [Int.bmod_def] at h ⊢
  split_ifs at h ⊢ <;> omega

theorem toInt_of_le {n : ℕ} (h : n ≤ INT_MAX) : toInt n = n := by
  unfold INT_MAX at h
  apply Int.bmod_eq_of_le_mul_two <;> omega

theorem toInt64_of_lt {n : ℕ} (h : n < 2 ^ 63) : toInt64 n = n := by
  apply Int.bmod_eq_of_le_mul_two <;> simp only [UInt64.size] <;> omega

theorem lt_of_toInt64 {n : ℕ} (hn : n < UInt64.size) (h : 0 ≤ toInt64 n) : n < 2 ^ 63 := by
  unfold toInt64 at h
  rw [Int.bmod_def] at h
  unfold UInt64.size at hn h
  split_ifs at h <;> omega

theorem toInt64_eq_iff {n : ℕ} : toInt64 n = n ↔ n < 2 ^ 63 := by
  refine ⟨fun h => ?_, toInt64_of_lt⟩
  have hlt : toInt64 n < (UInt64.size + 1) / 2 := Int.bmod_lt (by simp only [UInt64.size]; omega)
  rw [h, UInt64.size] at hlt
  omega

end Kcf
