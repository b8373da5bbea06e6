import Kcf.Reader.Drain

/-! # Reading is exact

Every byte string that is long enough for the record it starts with is the
layout of a record: of the one that is read from it. So whatever stands on the
stream, a record is read as it stands, and laying it out again gives back its
bytes.
-/

namespace Kcf

open LittleEndian

/-- The flags of the record that a byte string starts with. -/
def flagsAt (a : List UInt8) : UInt8 := UInt8.ofNat (field a 3 1)

def sizeAt (a : List UInt8) : ℕ := field a 4 2

def addedSizeAt (a : List UInt8) : ℕ := field a 6 (addedSizeWidth (flagsAt a))

/-- A byte string holds the record it starts with, up to its added data, and the record is no
smaller than its header fields. -/
structure HoldsRecord (a : List UInt8) : Prop where
  header : headerLength (flagsAt a) ≤ sizeAt a
  data : sizeAt a ≤ a.length

/-- A byte string holds the record's added data as well. -/
structure HoldsWhole (a : List UInt8) : Prop extends HoldsRecord a where
  added : sizeAt a + addedSizeAt a ≤ a.length

instance (a : List UInt8) : Decidable (HoldsRecord a) :=
  decidable_of_iff (_ ∧ _) ⟨fun h => ⟨h.1, h.2⟩, fun h => ⟨h.header, h.data⟩⟩

instance (a : List UInt8) : Decidable (HoldsWhole a) :=
  decidable_of_iff (HoldsRecord a ∧ _) ⟨fun h => ⟨h.1, h.2⟩, fun h => ⟨h.toHoldsRecord, h.added⟩⟩

theorem sizeAt_lt (a : List UInt8) : sizeAt a < 65536 := field_lt ..

theorem addedSizeAt_lt (a : List UInt8) : addedSizeAt a < 2 ^ 64 :=
  lt_of_lt_of_le (field_lt ..) (Nat.pow_le_pow_right (by norm_num) (addedSizeWidth_le _))

namespace Record

variable {a : List UInt8}

@[simp] theorem parsed_headFlags (R : Record) (a : List UInt8) :
    (R.parsed a).headFlags = flagsAt a := rfl

theorem toNat_parsed_headSize (R : Record) (a : List UInt8) :
    (R.parsed a).headSize.toNat = sizeAt a :=
  (UInt16.toNat_ofNat' ..).trans (Nat.mod_eq_of_lt (sizeAt_lt a))

theorem toNat_parsed_addedSize (R : Record) (a : List UInt8) :
    (R.parsed a).addedSize.toNat = addedSizeAt a :=
  (UInt64.toNat_ofNat' ..).trans (Nat.mod_eq_of_lt (addedSizeAt_lt a))

theorem header_parsed (R : Record) (h : headerLength (flagsAt a) ≤ a.length) :
    (R.parsed a).header = a.take (headerLength (flagsAt a)) := by
  have hw := addedSizeWidth_le (flagsAt a)
  have hc := addedDataCRCWidth_le (flagsAt a)
  have hcrc : (R.parsed a).headCRC.toNat = field a 0 2 :=
    (UInt16.toNat_ofNat' ..).trans (Nat.mod_eq_of_lt (field_lt ..))
  have hac : (R.parsed a).addedDataCRC32.toNat =
      field a (6 + addedSizeWidth (flagsAt a)) (addedDataCRCWidth (flagsAt a)) := by
    have hle : 256 ^ addedDataCRCWidth (flagsAt a) ≤ 256 ^ 4 :=
      Nat.pow_le_pow_right (by norm_num) hc
    exact (UInt32.toNat_ofNat' ..).trans (Nat.mod_eq_of_lt (lt_of_lt_of_le (field_lt ..) hle))
  have htype : [(R.parsed a).headType] = LittleEndian.encode 1 (field a 2 1) := rfl
  have hflags : [flagsAt a] = LittleEndian.encode 1 (field a 3 1) := rfl
  unfold headerLength at h ⊢
  rw [header, fields, parsed_headFlags, ← List.singleton_append, htype,
    ← List.singleton_append (x := flagsAt a), hflags, hcrc, toNat_parsed_headSize,
    toNat_parsed_addedSize, hac, sizeAt, addedSizeAt, encode_field (by omega),
    encode_field (by omega), encode_field (by omega), encode_field (by omega),
    encode_field (by omega), encode_field (by omega), List.take_add, List.take_add,
    show a.take 6 = a.take (2 + 1 + 1 + 2) from rfl, List.take_add, List.take_add, List.take_add]
  simp only [List.append_assoc, List.drop_zero]

/-- The record that a byte string starts with, with the data behind its header. -/
def whole (R : Record) (a : List UInt8) : Record :=
  (R.parsed a).withData
    ((a.drop (headerLength (flagsAt a))).take (sizeAt a - headerLength (flagsAt a)))

@[simp] theorem whole_headFlags (R : Record) (a : List UInt8) :
    (R.whole a).headFlags = flagsAt a := rfl

theorem toNat_whole_headSize (R : Record) (a : List UInt8) :
    (R.whole a).headSize.toNat = sizeAt a := R.toNat_parsed_headSize a

theorem whole_dataSize (R : Record) (h : HoldsRecord a) :
    (R.whole a).dataSize = sizeAt a - headerLength (flagsAt a) := by
  have := h.data
  change ((a.drop _).take _).length = _
  rw [List.length_take, List.length_drop]
  omega

theorem whole_headSize (R : Record) (h : HoldsRecord a) :
    (R.whole a).headSize.toNat =
      headerLength (R.whole a).headFlags + (R.whole a).dataSize := by
  have := h.header
  rw [toNat_whole_headSize, whole_dataSize R h, whole_headFlags]
  omega

theorem whole_fits (R : Record) (h : HoldsRecord a) : (R.whole a).Fits := by
  have hs := R.whole_headSize h
  have hlt := (R.whole a).headSize.toNat_lt
  exact ⟨by rintro ⟨⟩, by omega⟩

theorem encode_whole (R : Record) (h : HoldsRecord a) : (R.whole a).encode = a.take (sizeAt a) := by
  have hh := h.header
  have hw := h.data
  rw [encode, show (R.whole a).header = (R.parsed a).header from rfl,
    R.header_parsed (by omega)]
  conv_rhs => rw [← Nat.add_sub_cancel' hh, List.take_add]
  rfl

theorem length_encode_whole (R : Record) (h : HoldsRecord a) :
    (R.whole a).encode.length = sizeAt a := by
  rw [encode_whole R h, List.length_take, Nat.min_eq_left h.data]

theorem split_whole (R : Record) (h : HoldsRecord a) (n : ℕ) :
    a = (R.whole a).encode ++ ((a.drop (sizeAt a)).take n ++ (a.drop (sizeAt a)).drop n) := by
  rw [R.encode_whole h, List.take_append_drop, List.take_append_drop]

theorem shown_whole (R : Record) (h : HoldsRecord a) : (R.whole a).shown = R.whole a := by
  have hp := R.parsed_encode (R.whole a) (a.drop (sizeAt a))
  rw [encode_whole R h, List.take_append_drop] at hp
  exact hp.symm

theorem recValidate_iff_encode (F : Record) : recValidate F = true ↔
    field F.encode 0 2 = (crc32c 0 (F.encode.drop 2)).toNat % 2 ^ 16 := by
  have hcrc := F.field_headCRC []
  have hb : F.encode.drop 2 = F.fields ++ F.bytes := by
    rw [encode, header, List.append_assoc]
    exact List.drop_left' (LittleEndian.length_encode ..)
  rw [List.append_nil] at hcrc
  rw [recValidate, beq_iff_eq, recCalculateCRC_eq, ← UInt16.toNat_inj, hcrc, hb,
    UInt32.toNat_toUInt16]
  exact eq_comm

theorem recValidate_whole (R : Record) (h : HoldsRecord a) :
    recValidate (R.whole a) = true ↔
      field a 0 2 = (crc32c 0 ((a.take (sizeAt a)).drop 2)).toNat % 2 ^ 16 := by
  have h₆ := (six_le_headerLength _).trans h.header
  rw [recValidate_iff_encode, encode_whole R h, field_take (by omega)]

end Record

theorem recFix_of_valid {R : Record} (h : R.Fits)
    (hs : R.headSize.toNat = headerLength R.headFlags + R.dataSize) (hv : recValidate R = true) :
    recFix R = R := by
  have hsize : (recFix R).headSize = R.headSize :=
    UInt16.toNat_inj.mp ((recFix_headSize_of_fits h).trans hs.symm)
  have hcrc : (recFix R).headCRC = R.headCRC := by
    change recCalculateCRC { R with headSize := (recFix R).headSize } = _
    rw [hsize]
    exact beq_iff_eq.mp hv
  calc recFix R
      = { R with headSize := (recFix R).headSize, headCRC := (recFix R).headCRC } := rfl
    _ = R := by rw [hsize, hcrc]

/-- What reading a record from a byte string leaves and returns: the stream behind the record, and
a record that is laid out as it stood, checks what stood there and is followed by its added data. -/
structure ReadsExactly (a : List UInt8) (kcf k : KCF) (R : Record) : Prop where
  consumed : k.stream.pos = kcf.stream.pos + sizeAt a
  headSize : R.headSize.toNat = sizeAt a
  laid : ∀ buffer : List UInt8, buffer.length = sizeAt a →
    recToBuffer R buffer (sizeAt a) = .ok (true, a.take (sizeAt a))
  valid_iff : recValidate R = true ↔
    field a 0 2 = (crc32c 0 ((a.take (sizeAt a)).drop 2)).toNat % 2 ^ 16
  fixed : recValidate R = true → recFix R = R
  drained : ∀ (fuel : ℕ) (sizes : ℕ → ℕ), (∀ i, 0 < sizes i) → addedSizeAt a ≤ fuel →
    ∃ k', k.drain fuel sizes = .ok (.ok, k', (a.drop (sizeAt a)).take (addedSizeAt a)) ∧
      k'.stream.pos = kcf.stream.pos + sizeAt a + addedSizeAt a

section Whole

variable {a pre : List UInt8} {kcf k : KCF}

theorem HoldsRecord.ne_nil (h : HoldsRecord a) : a ≠ [] := by
  have h₆ := six_le_headerLength (flagsAt a)
  have hh := h.header
  have hd := h.data
  exact List.ne_nil_of_length_pos (by omega)

theorem HoldsWhole.length_added (h : HoldsWhole a) :
    ((a.drop (sizeAt a)).take (addedSizeAt a)).length = addedSizeAt a := by
  have hw := h.added
  rw [List.length_take, List.length_drop]
  omega

theorem HoldsWhole.delivering (h : HoldsWhole a) {R : Record}
    (hat : ReaderAt (pre ++ (R.whole a).encode) ((a.drop (sizeAt a)).take (addedSizeAt a) ++
      (a.drop (sizeAt a)).drop (addedSizeAt a)) k)
    (hav : k.availableAddedData = (R.whole a).addedSize) (hcrc : k.actualAddedDataCRC32 = 0)
    (hstate : k.parserState =
      if recHasAddedSize (R.whole a) then .readAddedData else .readRecordHeader) :
    Delivering (pre ++ (R.whole a).encode) ((a.drop (sizeAt a)).take (addedSizeAt a))
      ((a.drop (sizeAt a)).drop (addedSizeAt a)) 0 k := by
  refine ⟨hat, ?_, fun hne => ?_, hcrc⟩
  · rw [hav, h.length_added]
    exact R.toNat_parsed_addedSize a
  · rw [hstate, if_pos]
    rw [recHasAddedSize_iff]
    intro h₀
    apply hne (List.length_eq_zero_iff.mp (h.length_added.trans _))
    rw [addedSizeAt, ← R.whole_headFlags, h₀, field_zero]

/-- Where the stream holds a record, it is read exactly. -/
theorem readRecord_exact {kcf : KCF} (hp : kcf.parserState = .readRecordHeader)
    (hm : kcf.heap.Grants) (hr : kcf.stream.ReadsFully) (h : HoldsWhole kcf.stream.ahead)
    (R : Record) :
    ∃ k R', kcf.readRecord (some R) = (.ok, k, some R') ∧
      ReadsExactly kcf.stream.ahead kcf k R' := by
  set a := kcf.stream.ahead with ha
  have hrec := h.toHoldsRecord
  have hfits := R.whole_fits hrec
  have hsize := R.whole_headSize hrec
  have hlen := R.length_encode_whole hrec
  have hat : ReaderAt (kcf.stream.bytes.take kcf.stream.pos) a kcf :=
    ⟨hm, hr, kcf.stream.at_ahead hrec.ne_nil⟩
  have hpos := hat.stream.pos
  rw [R.split_whole hrec (addedSizeAt a)] at hat
  obtain ⟨k, hk, hat', hav, hcrc, hstate⟩ := KCF.readRecord_laid hp hat hfits hsize R
  rw [R.shown_whole hrec] at hk hav
  refine ⟨k, R.whole a, hk, ?_, R.toNat_whole_headSize a, fun buffer hb => ?_,
    R.recValidate_whole hrec, recFix_of_valid hfits hsize, fun fuel sizes hs hf => ?_⟩
  · rw [hat'.stream.pos, List.length_append, hlen, ← hpos]
  · have hb' := recToBuffer_of_fits hfits hsize (hb.trans (R.toNat_whole_headSize a).symm)
    rwa [R.toNat_whole_headSize, R.encode_whole hrec] at hb'
  · have hdel := h.delivering hat' hav hcrc hstate
    have hle := h.length_added.le.trans hf
    obtain ⟨k', hk', hend, -⟩ := hdel.drain hs hle
    refine ⟨k', hk', ?_⟩
    rw [hend.reader.stream.pos, List.length_append, List.length_append, hlen, h.length_added,
      ← hpos]

end Whole

theorem readRecord_exact_ten :
    ∃ k R,
      (KCF.reading (.ofBytes [52, 18, 0, 128, 15, 0, 2, 0, 0, 0, 1, 2, 3, 4, 5, 6, 7])).readRecord
        (some Record.zero) = (.ok, k, some R) ∧
      ReadsExactly [52, 18, 0, 128, 15, 0, 2, 0, 0, 0, 1, 2, 3, 4, 5, 6, 7]
        (.reading (.ofBytes [52, 18, 0, 128, 15, 0, 2, 0, 0, 0, 1, 2, 3, 4, 5, 6, 7])) k R :=
  readRecord_exact rfl Heap.grants_zeros (fun _ => rfl) (by decide +kernel) Record.zero

end Kcf
