import Kcf.Memory.Bytepack

/-! # Sequences of fields

Fields of one, two, four and eight bytes written one after another, each by the
call for its width. A field that does not fit is refused and cut at the end of
the buffer; where none is, reading the same widths gives the values back.
-/

namespace Kcf

open LittleEndian

/-- The widths that there are calls for. -/
inductive FieldWidth | u8 | u16 | u32 | u64
  deriving DecidableEq, Repr

def FieldWidth.bytes : FieldWidth → ℕ
  | u8 => 1
  | u16 => 2
  | u32 => 4
  | u64 => 8

/-- A field: the call that writes it, and the value that the call is given. -/
structure PackedField where
  width : FieldWidth
  value : ℕ
  deriving DecidableEq, Repr

/-- The call of the width writes the field; the value is cut to it. -/
def PackedField.write (size : ℕ) (c : Cursor) (f : PackedField) : Bool × Cursor :=
  match f.width with
  | .u8 => writeU8 size c (UInt8.ofNat f.value)
  | .u16 => writeU16LE size c (UInt16.ofNat f.value)
  | .u32 => writeU32LE size c (UInt32.ofNat f.value)
  | .u64 => writeU64LE size c (UInt64.ofNat f.value)

def FieldWidth.read (size : ℕ) (c : Cursor) : FieldWidth → Option ℕ × Cursor
  | u8 => ((readU8 size c).1.map UInt8.toNat, (readU8 size c).2)
  | u16 => ((readU16LE size c).1.map UInt16.toNat, (readU16LE size c).2)
  | u32 => ((readU32LE size c).1.map UInt32.toNat, (readU32LE size c).2)
  | u64 => ((readU64LE size c).1.map UInt64.toNat, (readU64LE size c).2)

/-- Fields are written in order; what each call returns, and the buffer with the offset after. -/
def packFields (size : ℕ) : Cursor → List PackedField → List Bool × Cursor
  | c, [] => ([], c)
  | c, f :: fs =>
    let (ok, c) := f.write size c
    let (oks, c) := packFields size c fs
    (ok :: oks, c)

/-- Fields are read in order; what each call gives, and the buffer with the offset after. -/
def unpackFields (size : ℕ) : Cursor → List FieldWidth → List (Option ℕ) × Cursor
  | c, [] => ([], c)
  | c, w :: ws =>
    let (value, c) := w.read size c
    let (values, c) := unpackFields size c ws
    (value :: values, c)

namespace PackedField

/-- The bytes of a field. -/
def encoding (f : PackedField) : List UInt8 := encode f.width.bytes f.value

/-- What is left of a field's value. -/
def stored (f : PackedField) : ℕ := f.value % 256 ^ f.width.bytes

/-- The bytes of fields one after another. -/
def encodings (fs : List PackedField) : List UInt8 := fs.flatMap encoding

/-- The sum of the widths. -/
def total (fs : List PackedField) : ℕ := (fs.map fun f => f.width.bytes).sum

@[simp] theorem encodings_nil : encodings [] = [] := rfl

@[simp] theorem encodings_cons (f : PackedField) (fs : List PackedField) :
    encodings (f :: fs) = f.encoding ++ encodings fs := rfl

@[simp] theorem total_nil : total [] = 0 := rfl

@[simp] theorem total_cons (f : PackedField) (fs : List PackedField) :
    total (f :: fs) = f.width.bytes + total fs := by
  simp [total]

@[simp] theorem length_encoding (f : PackedField) : f.encoding.length = f.width.bytes :=
  length_encode ..

@[simp] theorem length_encodings (fs : List PackedField) :
    (encodings fs).length = total fs := by
  induction fs with
  | nil => rfl
  | cons f fs ih => simp [ih]

theorem decode_encoding (f : PackedField) : decode f.encoding = f.stored := decode_encode ..

end PackedField

theorem FieldWidth.bytes_pos (w : FieldWidth) : 0 < w.bytes := by
  cases w <;> decide

open PackedField

variable {size j : ℕ} {c : Cursor} {bs : List UInt8} {f : PackedField} {fs : List PackedField}

theorem writeBytes_true_iff (hbs : bs ≠ []) :
    (writeBytes size c bs).1 = true ↔ c.offset + bs.length ≤ size := by
  induction bs generalizing c with
  | nil => exact absurd rfl hbs
  | cons b bs ih =>
    by_cases h : size ≤ c.offset
    · simp [writeBytes, writeU8, h]
      omega
    · cases bs with
      | nil =>
        simp [writeBytes, writeU8, h]
        omega
      | cons b' bs =>
        have hrest := ih (c := ⟨c.buffer.set c.offset b, c.offset + 1⟩) (List.cons_ne_nil b' bs)
        rw [writeBytes, writeU8_of_lt (Nat.lt_of_not_le h)]
        simp only [hrest, List.length_cons]
        omega

theorem offset_writeBytes_le (size : ℕ) (c : Cursor) (bs : List UInt8) :
    c.offset ≤ (writeBytes size c bs).2.offset := by
  induction bs generalizing c with
  | nil => exact Nat.le_refl _
  | cons b bs ih =>
    by_cases h : size ≤ c.offset
    · simp [writeBytes, writeU8, h]
    · rw [writeBytes, writeU8_of_lt (Nat.lt_of_not_le h)]
      exact Nat.le_of_succ_le (ih ⟨c.buffer.set c.offset b, c.offset + 1⟩)

theorem getElem?_writeBytes (hj : j < c.offset ∨ size ≤ j) :
    (writeBytes size c bs).2.buffer[j]? = c.buffer[j]? := by
  induction bs generalizing c with
  | nil => rfl
  | cons b bs ih =>
    by_cases h : size ≤ c.offset
    · simp [writeBytes, writeU8, h]
    · have hne : c.offset ≠ j := by omega
      rw [writeBytes, writeU8_of_lt (Nat.lt_of_not_le h)]
      refine (ih (c := ⟨c.buffer.set c.offset b, c.offset + 1⟩) ?_).trans ?_
      · simp only
        omega
      · exact List.getElem?_set_ne hne

theorem write_eq (size : ℕ) (c : Cursor) (f : PackedField) :
    f.write size c = writeBytes size c f.encoding := by
  rcases f with ⟨_ | _ | _ | _, value⟩
  · simp only [PackedField.write, writeU8_eq, UInt8.toNat_ofNat']
    exact congrArg (writeBytes size c) (encode_mod 1 value)
  · simp only [PackedField.write, writeU16LE_eq, UInt16.toNat_ofNat']
    exact congrArg (writeBytes size c) (encode_mod 2 value)
  · simp only [PackedField.write, writeU32LE_eq, UInt32.toNat_ofNat']
    exact congrArg (writeBytes size c) (encode_mod 4 value)
  · simp only [PackedField.write, writeU64LE_eq, UInt64.toNat_ofNat']
    exact congrArg (writeBytes size c) (encode_mod 8 value)

theorem write_true_iff : (f.write size c).1 = true ↔ c.offset + f.width.bytes ≤ size := by
  have hne : f.encoding ≠ [] := List.ne_nil_of_length_pos (by simp [f.width.bytes_pos])
  simp only [write_eq, writeBytes_true_iff hne, length_encoding]

theorem write_fits (h : c.offset + f.width.bytes ≤ size) (hs : size ≤ c.buffer.length) :
    f.write size c =
      (true, ⟨c.buffer.overwrite c.offset f.encoding, c.offset + f.width.bytes⟩) := by
  rw [write_eq, writeBytes_fits (by simpa using h) hs, length_encoding]

theorem getElem?_packFields (hj : j < c.offset ∨ size ≤ j) :
    (packFields size c fs).2.buffer[j]? = c.buffer[j]? := by
  induction fs generalizing c with
  | nil => rfl
  | cons f fs ih =>
    have hle := offset_writeBytes_le size c f.encoding
    rw [← write_eq] at hle
    refine (ih (c := (f.write size c).2) (by omega)).trans ?_
    rw [write_eq]
    exact getElem?_writeBytes hj

def PackedField.storedIn (f : PackedField) (c : Cursor) : Cursor :=
  ⟨c.buffer.overwrite c.offset f.encoding, c.offset + f.width.bytes⟩

theorem packFields_cons_true (hs : size ≤ c.buffer.length)
    (h : ∀ ok ∈ (packFields size c (f :: fs)).1, ok = true) :
    c.offset + f.width.bytes ≤ size ∧ f.write size c = (true, f.storedIn c) ∧
      size ≤ (f.storedIn c).buffer.length ∧
      ∀ ok ∈ (packFields size (f.storedIn c) fs).1, ok = true := by
  have hok : (f.write size c).1 = true := h _ List.mem_cons_self
  have hfits := write_true_iff.mp hok
  have hwrite : f.write size c = (true, f.storedIn c) := write_fits hfits hs
  have hlength : (f.storedIn c).buffer.length = c.buffer.length := by
    apply List.length_overwrite_of_le
    rw [length_encoding]
    omega
  refine ⟨hfits, hwrite, hlength.symm ▸ hs, fun ok hmem => ?_⟩
  apply h ok
  simp only [packFields, hwrite]
  exact List.mem_cons_of_mem _ hmem

theorem fits_of_true (hs : size ≤ c.buffer.length)
    (h : ∀ ok ∈ (packFields size c fs).1, ok = true) : fs = [] ∨ c.offset + total fs ≤ size := by
  induction fs generalizing c with
  | nil => exact .inl rfl
  | cons f fs ih =>
    obtain ⟨hfits, -, hlength, hrest⟩ := packFields_cons_true hs h
    right
    rcases ih hlength hrest with rfl | hle
    · simpa using hfits
    · simpa [storedIn, Nat.add_assoc] using hle

theorem packFields_true (hs : size ≤ c.buffer.length)
    (h : ∀ ok ∈ (packFields size c fs).1, ok = true) :
    (packFields size c fs).2 =
      ⟨c.buffer.overwrite c.offset (encodings fs), c.offset + total fs⟩ := by
  induction fs generalizing c with
  | nil => simp [packFields]
  | cons f fs ih =>
    obtain ⟨hfits, hwrite, hlength, hrest⟩ := packFields_cons_true hs h
    have hover := List.overwrite_overwrite (l := c.buffer) (d := f.encoding) (e := encodings fs)
      (show c.offset ≤ c.buffer.length by omega)
    rw [length_encoding] at hover
    simp only [packFields, hwrite, ih hlength hrest]
    simp only [storedIn, hover, encodings_cons, total_cons, Nat.add_assoc]

theorem read_fits {w : FieldWidth} (h : c.offset + w.bytes ≤ size) :
    w.read size c =
      (some (field c.buffer c.offset w.bytes), { c with offset := c.offset + w.bytes }) := by
  cases w with
  | u8 =>
    have hlt : field c.buffer c.offset 1 < 2 ^ 8 := field_lt ..
    simp only [FieldWidth.read, readU8_of_le size h, Option.map_some,
      UInt8.toNat_ofNat_of_lt' hlt, FieldWidth.bytes]
  | u16 =>
    have hlt : field c.buffer c.offset 2 < 2 ^ 16 := field_lt ..
    simp only [FieldWidth.read, readU16LE_of_le size h, Option.map_some,
      UInt16.toNat_ofNat_of_lt' hlt, FieldWidth.bytes]
  | u32 =>
    have hlt : field c.buffer c.offset 4 < 2 ^ 32 := field_lt ..
    simp only [FieldWidth.read, readU32LE_of_le size h, Option.map_some,
      UInt32.toNat_ofNat_of_lt' hlt, FieldWidth.bytes]
  | u64 =>
    have hlt : field c.buffer c.offset 8 < 2 ^ 64 := field_lt ..
    simp only [FieldWidth.read, readU64LE_of_le size h, Option.map_some,
      UInt64.toNat_ofNat_of_lt' hlt, FieldWidth.bytes]

theorem read_short {w : FieldWidth} (h : size < c.offset + w.bytes) :
    (w.read size c).1 = none := by
  cases w with
  | u8 => simp only [FieldWidth.read, readU8_short h, Option.map_none]
  | u16 => simp only [FieldWidth.read, readU16LE_short h, Option.map_none]
  | u32 => simp only [FieldWidth.read, readU32LE_short h, Option.map_none]
  | u64 => simp only [FieldWidth.read, readU64LE_short h, Option.map_none]

theorem read_true_iff {w : FieldWidth} :
    (w.read size c).1.isSome = true ↔ c.offset + w.bytes ≤ size := by
  by_cases h : c.offset + w.bytes ≤ size
  · simp [read_fits h, h]
  · simp [read_short (Nat.lt_of_not_le h), h]

/-- Fields that lie one after another in a buffer are read back. -/
theorem unpackFields_laid {buffer : List UInt8} {offset : ℕ}
    (hlaid : encodings fs <+: buffer.drop offset) (h : offset + total fs ≤ size) :
    unpackFields size ⟨buffer, offset⟩ (fs.map PackedField.width) =
      (fs.map fun f => some f.stored, ⟨buffer, offset + total fs⟩) := by
  induction fs generalizing offset with
  | nil => rfl
  | cons f fs ih =>
    simp only [encodings_cons, total_cons] at hlaid h
    obtain ⟨rest, hrest⟩ := hlaid
    have hfield : field buffer offset f.width.bytes = f.stored := by
      rw [field, ← hrest, List.append_assoc, List.take_left' f.length_encoding, decode_encoding]
    have hnext : encodings fs <+: buffer.drop (offset + f.width.bytes) := by
      rw [← List.drop_drop, ← hrest, List.append_assoc, List.drop_left' f.length_encoding]
      exact List.prefix_append _ _
    have hread : f.width.read size ⟨buffer, offset⟩ =
        (some f.stored, ⟨buffer, offset + f.width.bytes⟩) := by
      rw [← hfield]
      apply read_fits
      simp only
      omega
    simp only [unpackFields, List.map_cons, hread, ih hnext (by omega), total_cons,
      Nat.add_assoc]

/-- What is promised of a sequence of fields: each call goes through exactly when its field fits, no
byte outside the space from the offset to the size is ever touched, and where all of them go
through, nothing else is touched and reading the widths gives back the values. -/
structure PacksFields (size : ℕ) (c : Cursor) (fs : List PackedField) : Prop where
  writes : ∀ pre f, pre ++ [f] <+: fs →
    ((f.write size (packFields size c pre).2).1 = true ↔
      (packFields size c pre).2.offset + f.width.bytes ≤ size)
  inside : ∀ pre, pre <+: fs → ∀ j, j < c.offset ∨ size ≤ j →
    (packFields size c pre).2.buffer[j]? = c.buffer[j]?
  outside : (∀ ok ∈ (packFields size c fs).1, ok = true) →
    ∀ j, j < c.offset ∨ c.offset + total fs ≤ j →
      (packFields size c fs).2.buffer[j]? = c.buffer[j]?
  advances : (∀ ok ∈ (packFields size c fs).1, ok = true) →
    (packFields size c fs).2.offset = c.offset + total fs
  recovers : (∀ ok ∈ (packFields size c fs).1, ok = true) →
    unpackFields size ⟨(packFields size c fs).2.buffer, c.offset⟩ (fs.map PackedField.width) =
      (fs.map fun f => some f.stored, (packFields size c fs).2)
  reads : ∀ (c : Cursor) (w : FieldWidth),
    (w.read size c).1.isSome = true ↔ c.offset + w.bytes ≤ size

/-- Every sequence of fields is packed so into a buffer of at least the size. -/
theorem packsFields (size : ℕ) (c : Cursor) (fs : List PackedField)
    (hs : size ≤ c.buffer.length) : PacksFields size c fs := by
  constructor
  · intro pre f hpre
    exact write_true_iff
  · intro pre hpre j hj
    exact getElem?_packFields hj
  · intro h j hj
    rw [packFields_true hs h]
    rcases fits_of_true hs h with rfl | hle
    · simp
    · have hoffset : c.offset ≤ c.buffer.length := by omega
      rcases hj with hj | hj
      · exact List.getElem?_overwrite_of_lt hj hoffset
      · exact List.getElem?_overwrite_of_le (by simpa using hj) hoffset
  · intro h
    rw [packFields_true hs h]
  · intro h
    rw [packFields_true hs h]
    rcases fits_of_true hs h with rfl | hle
    · simp [unpackFields]
    · apply unpackFields_laid _ hle
      rw [List.drop_overwrite (by omega)]
      exact List.prefix_append _ _
  · intro c w
    exact read_true_iff

theorem packsFields_three :
    PacksFields 9 ⟨List.replicate 9 0xFF, 1⟩ [⟨.u8, 7⟩, ⟨.u16, 65538⟩, ⟨.u32, 3⟩] :=
  packsFields 9 ⟨List.replicate 9 0xFF, 1⟩ [⟨.u8, 7⟩, ⟨.u16, 65538⟩, ⟨.u32, 3⟩] (by decide)

end Kcf
