import Kcf.Archive.Unpacking
import Kcf.Library.SelfDelimiting
import Kcf.Reader.Exact

/-! # Byte strings that are records

Records with their added data form a self-delimiting code: the header tells
where the record ends, and how much is added to it. So a byte string is made of
records in at most one way, and a decoder finds it.
-/

namespace Kcf

namespace Record

variable {F : Record}

theorem shown_fits (h : F.Fits) : F.shown.Fits := by
  refine ⟨nofun, ?_⟩
  change headerLength F.headFlags + F.bytes.length ≤ 65535
  rw [F.length_bytes h.1]
  exact h.2

theorem shown_dataSize (h : F.Fits) : F.shown.dataSize = F.dataSize := F.length_bytes h.1

theorem encode_shown (F : Record) : F.shown.encode = F.encode := by
  rw [encode, encode, header, header, shown_fields]
  rfl

theorem shown_shown (F : Record) : F.shown.shown = F.shown := by
  have hsize : UInt64.ofNat (F.shown.addedSize.toNat % 256 ^ addedSizeWidth F.headFlags) =
      F.shown.addedSize := by
    rw [toNat_shown_addedSize, Nat.mod_mod]
    rfl
  have hcrc : (if recHasAddedDataCRC F then F.shown.addedDataCRC32 else 0) =
      F.shown.addedDataCRC32 := by
    change (if recHasAddedDataCRC F then if recHasAddedDataCRC F then _ else _ else _) = _
    split
    · rename_i h
      exact (if_pos h).symm
    · rename_i h
      exact (if_neg h).symm
  change ({ F.shown with
    addedSize := UInt64.ofNat (F.shown.addedSize.toNat % 256 ^ addedSizeWidth F.headFlags)
    addedDataCRC32 := if recHasAddedDataCRC F then F.shown.addedDataCRC32 else 0 } :
      Record).withData F.bytes = _
  rw [hsize, hcrc]
  rfl

end Record

/-- A piece whose record is the one that its header shows. -/
structure Stored extends Piece where
  shown : record.shown = record

namespace Stored

variable {p : Piece} {s t : Stored} {ss : List Stored} {bs : List UInt8}

theorem eq_of_record (hr : s.record = t.record) (ha : s.added = t.added) : s = t := by
  obtain ⟨⟨R, added, _, _, _⟩, _⟩ := s
  obtain ⟨⟨S, more, _, _, _⟩, _⟩ := t
  subst hr ha
  rfl

/-- A piece as its header shows it. -/
def ofPiece (p : Piece) : Stored where
  record := p.record.shown
  added := p.added
  fits := Record.shown_fits p.fits
  headSize := by
    rw [Record.shown_dataSize p.fits]
    exact p.headSize
  addedSize := by
    rw [Record.shown_shown]
    exact p.addedSize
  shown := p.record.shown_shown

@[simp] theorem ofPiece_bytes (p : Piece) : (ofPiece p).bytes = p.bytes :=
  congrArg (· ++ p.added) p.record.encode_shown

/-- The piece that a byte string starts with. -/
def front (bs : List UInt8) (h : HoldsWhole bs) : Stored where
  record := Record.zero.whole bs
  added := (bs.drop (sizeAt bs)).take (addedSizeAt bs)
  fits := Record.zero.whole_fits h.toHoldsRecord
  headSize := Record.zero.whole_headSize h.toHoldsRecord
  addedSize := by
    rw [Record.shown_whole _ h.toHoldsRecord, h.length_added]
    exact Record.zero.toNat_parsed_addedSize bs
  shown := Record.zero.shown_whole h.toHoldsRecord

/-- Take a piece off the front of a byte string. -/
def takeOff (bs : List UInt8) : Option (Stored × List UInt8) :=
  if h : HoldsWhole bs then some (front bs h, (bs.drop (sizeAt bs)).drop (addedSizeAt bs))
  else none

theorem sizes_append (p : Piece) (bs : List UInt8) :
    flagsAt (p.bytes ++ bs) = p.record.headFlags ∧ sizeAt (p.bytes ++ bs) = p.record.encode.length ∧
      addedSizeAt (p.bytes ++ bs) = p.added.length := by
  have hb : p.bytes ++ bs = p.record.encode ++ (p.added ++ bs) := List.append_assoc ..
  have hflags : flagsAt (p.bytes ++ bs) = p.record.headFlags := by
    rw [hb, flagsAt, Record.field_headFlags, UInt8.ofNat_toNat]
  refine ⟨hflags, ?_, ?_⟩
  · rw [hb, sizeAt, Record.field_headSize, p.headSize, Record.length_encode p.fits]
  · rw [addedSizeAt, hflags, hb, Record.field_addedSize, ← Record.toNat_shown_addedSize,
      p.addedSize]

theorem holdsWhole_append (p : Piece) (bs : List UInt8) : HoldsWhole (p.bytes ++ bs) := by
  obtain ⟨hflags, hsize, hadded⟩ := sizes_append p bs
  have hlen : (p.bytes ++ bs).length = p.record.encode.length + p.added.length + bs.length := by
    rw [List.length_append, Piece.bytes, List.length_append]
  refine ⟨⟨?_, ?_⟩, ?_⟩
  · rw [hflags, hsize, Record.length_encode p.fits]
    omega
  · rw [hsize, hlen]
    omega
  · rw [hsize, hadded, hlen]
    omega

theorem takeOff_append (s : Stored) (bs : List UInt8) : takeOff (s.bytes ++ bs) = some (s, bs) := by
  have h := holdsWhole_append s.toPiece bs
  obtain ⟨-, hsize, hadded⟩ := sizes_append s.toPiece bs
  have hdrop : (s.bytes ++ bs).drop s.record.encode.length = s.added ++ bs := by
    rw [Piece.bytes, List.append_assoc, List.drop_left]
  have hfront : front (s.bytes ++ bs) h = s := by
    apply eq_of_record
    · change Record.zero.whole (s.bytes ++ bs) = s.record
      rw [Piece.bytes, List.append_assoc, Record.whole_encode s.fits s.headSize, s.shown]
    · change ((s.bytes ++ bs).drop _).take _ = s.added
      rw [hsize, hadded, hdrop, List.take_left]
  rw [takeOff, dif_pos h, hfront, hsize, hadded, hdrop, List.drop_left]

theorem bytes_of_takeOff {rest : List UInt8} (h : takeOff bs = some (s, rest)) :
    s.bytes ++ rest = bs := by
  unfold takeOff at h
  split at h
  · rename_i hw
    cases h
    change (Record.zero.whole bs).encode ++ (bs.drop (sizeAt bs)).take (addedSizeAt bs) ++ _ = bs
    rw [List.append_assoc]
    exact (Record.zero.split_whole hw.toHoldsRecord (addedSizeAt bs)).symm
  · cases h

/-- Records with their added data, as a code. -/
def code : SelfDelimiting Stored UInt8 where
  encode s := s.bytes
  decode := takeOff
  decode_encode := takeOff_append
  encode_decode := bytes_of_takeOff
  encode_ne_nil s := by
    have h := holdsWhole_append s.toPiece []
    rw [List.append_nil] at h
    exact h.toHoldsRecord.ne_nil

theorem encodeAll_eq (ss : List Stored) : code.encodeAll ss = Piece.layout (ss.map toPiece) := by
  rw [SelfDelimiting.encodeAll, Piece.layout, List.flatMap_map]
  rfl

theorem layout_ofPiece (ps : List Piece) : code.encodeAll (ps.map ofPiece) = Piece.layout ps := by
  rw [SelfDelimiting.encodeAll, Piece.layout, List.flatMap_map]
  exact List.flatMap_congr fun p _ => ofPiece_bytes p

end Stored

/-- The pieces that a byte string is made of. -/
def decodeArchive (bs : List UInt8) : Option (List Stored) := Stored.code.decodeAll bs

variable {bs : List UInt8} {ss : List Stored}

theorem decodeArchive_eq_some_iff :
    decodeArchive bs = some ss ↔ Piece.layout (ss.map Stored.toPiece) = bs := by
  rw [decodeArchive, SelfDelimiting.decodeAll_eq_some_iff, Stored.encodeAll_eq]

theorem decodeArchive_layout (ps : List Piece) :
    decodeArchive (Piece.layout ps) = some (ps.map Stored.ofPiece) :=
  SelfDelimiting.decodeAll_eq_some_iff.mpr (Stored.layout_ofPiece ps)

/-- The pieces that a byte string starts with, and what is left behind them. -/
def decodeFront (bs : List UInt8) : List Stored × List UInt8 := Stored.code.front bs

/-- Behind them no piece is held whole. -/
theorem decodeFront_eq_iff {rest : List UInt8} : decodeFront bs = (ss, rest) ↔
    Piece.layout (ss.map Stored.toPiece) ++ rest = bs ∧ ¬ HoldsWhole rest := by
  have hnone : Stored.takeOff rest = none ↔ ¬ HoldsWhole rest := by
    unfold Stored.takeOff
    split <;> simp_all
  rw [decodeFront, SelfDelimiting.front_eq_iff, Stored.encodeAll_eq, ← hnone]
  rfl

end Kcf
