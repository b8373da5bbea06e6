import Kcf.Reader.Drain
import Kcf.Writer.Append
import Kcf.Writer.Session

/-! # Writing an archive and reading it back

A client writes items, each a record with its added data in chunks, and another
one reads records and drains what is added to them. The items come back exactly
when every header can tell the size of what was added, and every item with a
size to tell but the last one has something added to it.
-/

namespace Kcf

/-- A record to be written, the chunks to be added to it when its flags announce added data, and
whether its finish is asked for or left to the next record. -/
structure Item where
  record : Record
  chunks : List (List UInt8)
  finishes : Bool

namespace Item

def added (item : Item) : List UInt8 :=
  if recHasAddedSize item.record then item.chunks.flatten else []

/-- The header can tell how much is added: a size that stays as declared is the right one, and one
that is counted fits its field and the declared bound. -/
def Sized (item : Item) : Prop :=
  recHasAddedSize item.record = true →
    if item.record.Keeps then
      item.record.addedSize.toNat % 256 ^ addedSizeWidth item.record.headFlags = item.added.length
    else
      item.added.length < 256 ^ addedSizeWidth item.record.headFlags ∧
        (item.record.addedSize ≠ 0 → item.added.length ≤ item.record.addedSize.toNat)

/-- The reader gets past the item: added data that is announced is not empty. -/
def Passes (item : Item) : Prop := recHasAddedSize item.record = true → item.added ≠ []

instance (item : Item) : Decidable item.Sized := inferInstanceAs (Decidable (_ → _))

instance (item : Item) : Decidable item.Passes := inferInstanceAs (Decidable (_ → _))

end Item

/-- Every record fits its size field, every header can tell how much is added, and the reader gets
past every item but the last one. -/
def Deliverable : List Item → Prop
  | [] => True
  | item :: items =>
    item.record.Fits ∧ item.Sized ∧ (items ≠ [] → item.Passes) ∧ Deliverable items

instance : (items : List Item) → Decidable (Deliverable items)
  | [] => .isTrue trivial
  | item :: items =>
    haveI : Decidable (Deliverable items) := instDecidableDeliverable items
    inferInstanceAs (Decidable (item.record.Fits ∧ item.Sized ∧ (items ≠ [] → item.Passes) ∧
      Deliverable items))

namespace KCF

/-- Write an item; the last one is finished in any case. -/
def writeItem (kcf : KCF) (item : Item) (last : Bool) : Exec (KcfError × KCF) := do
  let (error, kcf, _) ← kcf.writeRecord item.record
  if error ≠ .ok then return (error, kcf)
  else if recHasAddedSize item.record then
    let (error, kcf) ← kcf.writeChunks item.chunks
    if error ≠ .ok then return (error, kcf)
    else if item.finishes || last then kcf.finishAddedData
    else return (.ok, kcf)
  else return (.ok, kcf)

/-- Write the items in order, up to the first error. -/
def writeItems (kcf : KCF) : List Item → Exec (KcfError × KCF)
  | [] => .ok (.ok, kcf)
  | item :: items => do
    let (error, kcf) ← kcf.writeItem item items.isEmpty
    if error ≠ .ok then return (error, kcf) else kcf.writeItems items

end KCF

/-- What a reader gets of an item: the record, the bytes added to it and the checksum that the
handle computed of them. -/
structure Delivery where
  record : Record
  addedData : List UInt8
  actualAddedDataCRC32 : UInt32

namespace KCF

/-- Read a record and drain its added data. -/
def readItem (fuel : ℕ) (sizes : ℕ → ℕ) (kcf : KCF) (R : Record) :
    Exec (KcfError × KCF × Delivery) :=
  match kcf.readRecord (some R) with
  | (error, kcf, record) =>
    if error ≠ .ok then .ok (error, kcf, ⟨record.getD R, [], kcf.actualAddedDataCRC32⟩)
    else do
      let (error, kcf, addedData) ← kcf.drain fuel sizes
      return (error, kcf, ⟨record.getD R, addedData, kcf.actualAddedDataCRC32⟩)

/-- Read so many items into one variable for the record, up to the first error. -/
def readItems (fuel : ℕ) : ℕ → (ℕ → ℕ → ℕ) → KCF → Record → Exec (KcfError × KCF × List Delivery)
  | 0, _, kcf, _ => .ok (.ok, kcf, [])
  | n + 1, sizes, kcf, R => do
    let (error, kcf, delivery) ← kcf.readItem fuel (sizes 0) R
    if error ≠ .ok then return (error, kcf, [])
    else
      let (error, kcf, deliveries) ← readItems fuel n (fun i => sizes (i + 1)) kcf delivery.record
      return (error, kcf, delivery :: deliveries)

end KCF

/-- The item comes back: the record as it was but for what was counted, and the added bytes. -/
structure Item.Returned (item : Item) (delivery : Delivery) : Prop where
  headType : delivery.record.headType = item.record.headType
  headFlags : delivery.record.headFlags = item.record.headFlags
  data : delivery.record.bytes = item.record.bytes
  valid : recValidate delivery.record = true
  addedSize : delivery.record.addedSize.toNat = item.added.length
  addedData : delivery.addedData = item.added
  actualCRC : delivery.actualAddedDataCRC32 = crc32c 0 item.added
  /-- The checksum is the one of the added bytes, where there can be some. -/
  addedDataCRC32 : recHasAddedDataCRC item.record = true →
    delivery.record.addedDataCRC32 =
      if recHasAddedSize item.record then crc32c 0 item.added else item.record.addedDataCRC32

/-- The items written to this handle come back to every reader with memory on a stream with these
bytes that delivers all of them, whatever the sizes of its buffers. -/
def RoundTrips (s : KCF) (items : List Item) : Prop :=
  ∃ w, s.writeItems items = .ok (.ok, w) ∧
    ∀ r R sizes fuel, r.parserState = .readRecordHeader → ReaderAt [] w.stream.bytes r →
      (∀ i j, 0 < sizes i j) → (∀ item ∈ items, item.added.length ≤ fuel) →
      ∃ t deliveries, KCF.readItems fuel items.length sizes r R = .ok (.ok, t, deliveries) ∧
        List.Forall₂ Item.Returned items deliveries ∧ t.stream.pos = t.stream.bytes.length

namespace Item

/-- The bytes that the declared size admits. -/
def stored (item : Item) : List UInt8 := item.record.accepts item.added

/-- The record with what its header has to tell in the end. -/
def settled (item : Item) : Record :=
  if recHasAddedSize item.record then item.record.final 0 0 item.stored else item.record

/-- The record whose header the item ends up with. -/
def finalRecord (item : Item) : Record := recFix item.settled

/-- What is on the stream in the end. -/
def bytes (item : Item) : List UInt8 := item.finalRecord.encode ++ item.stored

variable {item : Item}

theorem stored_of_sized (h : recHasAddedSize item.record = true) :
    item.stored = item.record.accepts item.chunks.flatten := by
  rw [stored, added, if_pos h]

theorem bytes_of_unsized (h : recHasAddedSize item.record = false) :
    item.bytes = (recFix item.record).encode := by
  simp [bytes, finalRecord, settled, stored, added, h, Record.accepts]

end Item

variable {a b : List UInt8} {kcf k : KCF} {item : Item} {items : List Item}

/-- An item is written behind what is there, and the handle takes the next one. -/
theorem Ready.writeItem (h : Ready a [] kcf) (hf : item.record.Fits) (last : Bool) :
    ∃ k, kcf.writeItem item last = .ok (.ok, k) ∧ k.Obliging ∧ Ready (a ++ item.bytes) [] k ∧
      (last = true → Idle (a ++ item.bytes) [] k) := by
  unfold KCF.writeItem
  cases ha : recHasAddedSize item.record with
  | false =>
    obtain ⟨k, hk, ho, hi⟩ := h.writeRecord_unsized hf ha
    rw [List.drop_nil, ← Item.bytes_of_unsized ha] at hi
    exact ⟨k, by rw [hk]; rfl, ho, hi.ready ho, fun _ => hi⟩
  | true =>
    obtain ⟨k, hk, ho, hs⟩ := h.writeRecord hf ha
    obtain ⟨k₁, hk₁, ho₁, hs₁⟩ := hs.writeChunks ho (fun _ => ⟨rfl, Nat.zero_le _⟩)
      (by simp [Record.accepts]) item.chunks
    have hb : a ++ item.bytes = a ++
        (recFix (item.record.final 0 0 item.stored)).encode ++ item.stored := by
      rw [Item.bytes, Item.finalRecord, Item.settled, if_pos ha, List.append_assoc]
    rw [List.nil_append, ← Item.stored_of_sized ha, List.drop_nil] at hs₁
    rw [hk, hb]
    change ∃ k', (k.writeChunks item.chunks >>= fun r => if r.1 ≠ .ok then _ else
      if item.finishes || last then r.2.finishAddedData else _) = _ ∧ _
    rw [hk₁]
    by_cases hl : (item.finishes || last) = true
    · obtain ⟨k₂, hk₂, ho₂, hi⟩ := hs₁.finish ho₁
      rw [List.drop_nil] at hi
      exact ⟨k₂, (if_pos hl).trans hk₂.eq, ho₂, hi.ready ho₂, fun _ => hi⟩
    · have hr := hs₁.ready ho₁
      rw [List.drop_nil] at hr
      exact ⟨k₁, if_neg hl, ho₁, hr, fun h => absurd (by rw [h, Bool.or_true]) hl⟩

theorem Ready.writeItems (h : Ready a [] kcf) (hi : items = [] → Idle a [] kcf)
    (hf : ∀ item ∈ items, item.record.Fits) :
    ∃ k, kcf.writeItems items = .ok (.ok, k) ∧ Idle (a ++ items.flatMap Item.bytes) [] k := by
  induction items generalizing a kcf with
  | nil =>
    rw [List.flatMap_nil, List.append_nil]
    exact ⟨kcf, rfl, hi rfl⟩
  | cons item items ih =>
    obtain ⟨k, hk, -, hr, hend⟩ := h.writeItem (hf item (.head _)) items.isEmpty
    obtain ⟨k', hk', hi'⟩ := ih hr (fun he => hend (by rw [he]; rfl))
      fun item hm => hf item (.tail _ hm)
    rw [List.flatMap_cons, ← List.append_assoc]
    refine ⟨k', ?_, hi'⟩
    rw [KCF.writeItems, hk]
    exact hk'

theorem KCF.fits_of_writeItem {last : Bool} (h : kcf.writeItem item last = .ok (.ok, k)) :
    item.record.Fits := by
  obtain ⟨⟨e, k₁, R⟩, h₁, h₂⟩ := Exec.bind_ok h
  cases KCF.writeRecord_of_eq h₁ with
  | refused => cases h₂
  | noMemory => cases h₂
  | failed _ _ hf => exact hf
  | written _ _ hf => exact hf

theorem KCF.writeItems_cons (h : kcf.writeItems (item :: items) = .ok (.ok, k)) :
    ∃ k₁, kcf.writeItem item items.isEmpty = .ok (.ok, k₁) ∧
      k₁.writeItems items = .ok (.ok, k) := by
  obtain ⟨⟨e, k₁⟩, h₁, h₂⟩ := Exec.bind_ok h
  dsimp only at h₂
  split at h₂
  · cases h₂
    contradiction
  · rename_i he
    obtain rfl : e = .ok := not_not.mp he
    exact ⟨k₁, h₁, h₂⟩

theorem KCF.fits_of_writeItems (h : kcf.writeItems items = .ok (.ok, k)) :
    ∀ item ∈ items, item.record.Fits := by
  induction items generalizing kcf with
  | nil => simp
  | cons item items ih =>
    obtain ⟨k₁, h₁, h₂⟩ := writeItems_cons h
    exact List.forall_mem_cons.mpr ⟨fits_of_writeItem h₁, ih h₂⟩

namespace Item

theorem settled_eq (item : Item) :
    item.settled.headType = item.record.headType ∧
      item.settled.headFlags = item.record.headFlags ∧
      item.settled.bytes = item.record.bytes ∧ (item.settled.Fits ↔ item.record.Fits) := by
  unfold settled Record.final
  split_ifs <;> exact ⟨rfl, rfl, rfl, Iff.rfl⟩

theorem recHasAddedSize_settled (item : Item) :
    recHasAddedSize item.settled = recHasAddedSize item.record := by
  rw [recHasAddedSize, recHasAddedSize, item.settled_eq.2.1]

theorem added_of_unsized (h : recHasAddedSize item.record = false) : item.added = [] := by
  simp [added, h]

theorem stored_eq_added (h : item.Sized) : item.stored = item.added := by
  cases ha : recHasAddedSize item.record with
  | false => simp [stored, added_of_unsized ha, Record.accepts]
  | true =>
    have hs := h ha
    unfold stored Record.accepts
    by_cases hD : item.record.addedSize = 0
    · rw [if_pos hD]
    · rw [if_neg hD]
      refine List.take_of_length_le ?_
      split at hs
      · rw [← hs]
        exact Nat.mod_le ..
      · exact hs.2 hD

/-- The header shows the size of what is added exactly when it can tell it. -/
theorem shown_addedSize_iff (item : Item) :
    item.finalRecord.shown.addedSize.toNat = item.added.length ↔ item.Sized := by
  have hflags : item.finalRecord.headFlags = item.record.headFlags := item.settled_eq.2.1
  rw [Record.toNat_shown_addedSize, hflags]
  cases ha : recHasAddedSize item.record with
  | false =>
    have hw : addedSizeWidth item.record.headFlags = 0 := by
      by_contra hw
      rw [recHasAddedSize_iff.mpr hw] at ha
      cases ha
    simp [Sized, ha, hw, Nat.mod_one, added_of_unsized ha]
  | true =>
    have hw := addedSizeWidth_cases (recHasAddedSize_iff.mp ha)
    by_cases hk : item.record.Keeps
    · simp [Sized, ha, hk, finalRecord, settled, Record.final]
    · have hv : item.finalRecord.addedSize = 0 + UInt64.ofNat item.stored.length := by
        rw [finalRecord, recFix_addedSize, settled, if_pos ha, Record.final, if_neg hk]
        rfl
      have hs : item.Sized ↔ item.added.length < 256 ^ addedSizeWidth item.record.headFlags ∧
          (item.record.addedSize ≠ 0 → item.added.length ≤ item.record.addedSize.toNat) := by
        simp [Sized, ha, hk]
      rw [hs, hv, UInt64.zero_add, UInt64.toNat_ofNat', stored, Record.accepts]
      by_cases hD : item.record.addedSize = 0
      · rw [if_pos hD]
        simp only [hD, ne_eq, not_true_eq_false, false_imp_iff, and_true]
        rcases hw with hw | hw <;> rw [hw] <;> omega
      · rw [if_neg hD, List.length_take]
        simp only [ne_eq, hD, not_false_eq_true, forall_const]
        rcases hw with hw | hw <;> rw [hw] <;> omega

theorem finalRecord_addedDataCRC32 (hs : item.Sized)
    (hc : recHasAddedDataCRC item.record = true) :
    item.finalRecord.shown.addedDataCRC32 =
      if recHasAddedSize item.record then crc32c 0 item.added else item.record.addedDataCRC32 := by
  have hf : recHasAddedDataCRC item.finalRecord = true := by
    rw [recHasAddedDataCRC, finalRecord, recFix_headFlags, item.settled_eq.2.1]
    exact hc
  have hk : ¬ item.record.Keeps := fun hk => absurd (hk.2.symm.trans hc) nofun
  have hv : item.finalRecord.shown.addedDataCRC32 = item.settled.addedDataCRC32 := if_pos hf
  rw [hv, settled, stored_eq_added hs, Record.final, if_neg hk]
  split
  · exact if_pos hc
  · rfl

theorem returned (hs : item.Sized) :
    item.Returned ⟨item.finalRecord.shown, item.added, crc32c 0 item.added⟩ where
  headType := item.settled_eq.1
  headFlags := item.settled_eq.2.1
  data := item.settled_eq.2.2.1
  valid := (Record.recValidate_shown _).trans (recValidate_recFix _)
  addedSize := item.shown_addedSize_iff.mpr hs
  addedData := rfl
  actualCRC := rfl
  addedDataCRC32 := finalRecord_addedDataCRC32 hs

end Item

theorem ReaderAt.readItemRecord (h : ReaderAt a (item.bytes ++ b) kcf)
    (hp : kcf.parserState = .readRecordHeader) (hf : item.record.Fits) (R : Record) :
    ∃ k, kcf.readRecord (some R) = (.ok, k, some item.finalRecord.shown) ∧
      ReaderAt (a ++ item.finalRecord.encode) (item.stored ++ b) k ∧
      k.availableAddedData = item.finalRecord.shown.addedSize ∧ k.actualAddedDataCRC32 = 0 ∧
      k.parserState =
        if recHasAddedSize item.record then .readAddedData else .readRecordHeader := by
  have hf := item.settled_eq.2.2.2.mpr hf
  rw [Item.bytes, List.append_assoc] at h
  rw [← item.recHasAddedSize_settled]
  exact KCF.readRecord_laid hp h hf (recFix_headSize_of_fits hf) R

/-- An item whose header can tell its size is read, and the reader is ready for the next record
exactly when it gets past this one. -/
theorem ReaderAt.readItem (h : ReaderAt a (item.bytes ++ b) kcf)
    (hp : kcf.parserState = .readRecordHeader) (hf : item.record.Fits) (hs : item.Sized)
    {sizes : ℕ → ℕ} (hsizes : ∀ i, 0 < sizes i) {fuel : ℕ} (hfuel : item.added.length ≤ fuel)
    (R : Record) :
    ∃ k, kcf.readItem fuel sizes R =
        .ok (.ok, k, ⟨item.finalRecord.shown, item.added, crc32c 0 item.added⟩) ∧
      ReaderAt (a ++ item.bytes) b k ∧ (k.parserState = .readRecordHeader ↔ item.Passes) := by
  obtain ⟨k, hk, hr, hv, hc, hstate⟩ := h.readItemRecord hp hf R
  rw [Item.stored_eq_added hs] at hr
  have hd : Delivering (a ++ item.finalRecord.encode) item.added b 0 k := by
    refine ⟨hr, by rw [hv, item.shown_addedSize_iff.mpr hs], fun hne => ?_, hc⟩
    rw [hstate, if_pos]
    by_contra ha
    exact hne (Item.added_of_unsized (Bool.not_eq_true _ ▸ ha))
  obtain ⟨k', hk', hd', hend⟩ := hd.drain hsizes hfuel
  have hr' := hd'.reader
  rw [List.nil_append, List.append_assoc, ← Item.stored_eq_added hs] at hr'
  refine ⟨k', ?_, hr', ?_⟩
  · unfold KCF.readItem
    rw [hk]
    change (k.drain fuel sizes >>= fun r => Except.ok (r.1, r.2.1, _)) = _
    rw [hk', ← hd'.crc]
    rfl
  · rw [hend, hstate, Item.Passes]
    by_cases hne : item.added = [] <;> cases recHasAddedSize item.record <;> simp [hne]

theorem KCF.parserState_of_readItem {sizes : ℕ → ℕ} {fuel : ℕ} {R : Record} {d : Delivery}
    (h : kcf.readItem fuel sizes R = .ok (.ok, k, d)) :
    kcf.parserState = .readRecordHeader := by
  by_contra hp
  unfold readItem at h
  rw [readRecord_of_ne hp] at h
  cases h

theorem ReaderAt.sized_of_readItem (h : ReaderAt a (item.bytes ++ b) kcf)
    (hf : item.record.Fits) {sizes : ℕ → ℕ} {fuel : ℕ} {R : Record} {d : Delivery}
    (hk : kcf.readItem fuel sizes R = .ok (.ok, k, d)) (hd : item.Returned d) : item.Sized := by
  obtain ⟨k₁, hk₁, -⟩ := h.readItemRecord (KCF.parserState_of_readItem hk) hf R
  unfold KCF.readItem at hk
  rw [hk₁] at hk
  obtain ⟨⟨e, k₂, bytes⟩, -, hr⟩ := Exec.bind_ok (x := k₁.drain fuel sizes) hk
  cases hr
  exact item.shown_addedSize_iff.mp hd.addedSize

section Run

variable {sizes : ℕ → ℕ → ℕ} {fuel : ℕ}

theorem KCF.readItems_succ {n : ℕ} {R : Record} {ds : List Delivery}
    (h : readItems fuel (n + 1) sizes kcf R = .ok (.ok, k, ds)) :
    ∃ k₁ d ds', kcf.readItem fuel (sizes 0) R = .ok (.ok, k₁, d) ∧
      readItems fuel n (fun i => sizes (i + 1)) k₁ d.record = .ok (.ok, k, ds') ∧
      ds = d :: ds' := by
  obtain ⟨⟨e, k₁, d⟩, h₁, h₂⟩ := Exec.bind_ok h
  dsimp only at h₂
  split at h₂
  · cases h₂
    contradiction
  · rename_i he
    obtain rfl : e = .ok := not_not.mp he
    obtain ⟨⟨e, k₂, ds'⟩, hk₂, hds⟩ := Exec.bind_ok h₂
    cases hds
    exact ⟨k₁, d, ds', h₁, hk₂, rfl⟩

/-- Items that can be delivered are read one behind the other. -/
theorem ReaderAt.readItems (h : ReaderAt a (items.flatMap Item.bytes) kcf)
    (hp : items ≠ [] → kcf.parserState = .readRecordHeader) (hd : Deliverable items)
    (hs : ∀ i j, 0 < sizes i j) (hf : ∀ item ∈ items, item.added.length ≤ fuel) (R : Record) :
    ∃ t ds, KCF.readItems fuel items.length sizes kcf R = .ok (.ok, t, ds) ∧
      List.Forall₂ Item.Returned items ds ∧ ReaderAt (a ++ items.flatMap Item.bytes) [] t := by
  induction items generalizing a kcf sizes R with
  | nil =>
    rw [List.flatMap_nil] at h ⊢
    exact ⟨kcf, [], rfl, .nil, by rwa [List.append_nil]⟩
  | cons item items ih =>
    obtain ⟨hfits, hsized, hpass, hd⟩ := hd
    rw [List.flatMap_cons] at h
    obtain ⟨k, hk, hr, hend⟩ := h.readItem (hp (by simp)) hfits hsized (hs 0) (hf item (.head _)) R
    obtain ⟨t, ds, ht, hds, hlast⟩ := ih hr (fun hne => hend.mpr (hpass hne)) hd
      (fun i => hs (i + 1)) (fun item hm => hf item (.tail _ hm)) item.finalRecord.shown
    rw [List.append_assoc, ← List.flatMap_cons] at hlast
    refine ⟨t, _ :: ds, ?_, .cons (Item.returned hsized) hds, hlast⟩
    rw [List.length_cons, KCF.readItems, hk]
    change (KCF.readItems fuel items.length _ k _ >>= fun r =>
      Except.ok (r.1, r.2.1, _ :: r.2.2)) = _
    rw [ht]
    rfl

/-- Items that come back could be delivered. -/
theorem ReaderAt.deliverable (h : ReaderAt a (items.flatMap Item.bytes) kcf)
    (hfits : ∀ item ∈ items, item.record.Fits) (hs : ∀ i j, 0 < sizes i j)
    (hf : ∀ item ∈ items, item.added.length ≤ fuel) {R : Record} {ds : List Delivery}
    (hr : KCF.readItems fuel items.length sizes kcf R = .ok (.ok, k, ds))
    (hds : List.Forall₂ Item.Returned items ds) : Deliverable items := by
  induction items generalizing a kcf sizes R ds with
  | nil => trivial
  | cons item items ih =>
    rw [List.flatMap_cons] at h
    obtain ⟨k₁, d, ds', h₁, h₂, rfl⟩ := KCF.readItems_succ hr
    cases hds with
    | cons hd hds =>
      have hfit := hfits item (.head _)
      have hsized := h.sized_of_readItem hfit h₁ hd
      obtain ⟨k', hk', hr', hend⟩ := h.readItem (KCF.parserState_of_readItem h₁) hfit hsized (hs 0)
        (hf item (.head _)) R
      cases hk'.symm.trans h₁
      refine ⟨hfit, hsized, fun hne => hend.mp ?_, ih hr' (fun item hm => hfits item (.tail _ hm))
        (fun i => hs (i + 1)) (fun item hm => hf item (.tail _ hm)) h₂ hds⟩
      cases items with
      | nil => exact absurd rfl hne
      | cons next rest =>
        obtain ⟨_, _, _, hnext, _⟩ := KCF.readItems_succ h₂
        exact KCF.parserState_of_readItem hnext

end Run

theorem Deliverable.fits (h : Deliverable items) : ∀ item ∈ items, item.record.Fits := by
  induction items with
  | nil => simp
  | cons item items ih => exact List.forall_mem_cons.mpr ⟨h.1, ih h.2.2.2⟩

/-- Items written to a handle that is ready come back to every reader exactly when every record
fits, every header can tell how much is added, and the reader gets past every item but the last. -/
theorem roundTrips_iff {s : KCF} (hi : Idle [] [] s) (ho : s.Obliging) :
    RoundTrips s items ↔ Deliverable items := by
  have hready := hi.ready ho
  constructor
  · rintro ⟨w, hw, hr⟩
    have hfits := KCF.fits_of_writeItems hw
    obtain ⟨w', hw', hi'⟩ := hready.writeItems (fun _ => hi) hfits
    cases hw'.symm.trans hw
    have hfuel : ∀ item ∈ items, item.added.length ≤ (items.map Item.added).flatten.length :=
      fun item hm => (List.sublist_flatten_of_mem (List.mem_map_of_mem hm)).length_le
    have hreader : ReaderAt [] w.stream.bytes (.reading (.ofBytes w.stream.bytes)) :=
      ⟨Heap.grants_zeros, fun _ => rfl, rfl, rfl⟩
    obtain ⟨t, ds, ht, hds, -⟩ := hr _ Record.zero (fun _ _ => 1) _ rfl hreader
      (fun _ _ => one_pos) hfuel
    rw [hi'.stream.bytes, List.nil_append, List.append_nil] at hreader
    rw [hi'.stream.bytes, List.nil_append, List.append_nil] at ht
    exact hreader.deliverable hfits (fun _ _ => one_pos) hfuel ht hds
  · intro hd
    obtain ⟨w, hw, hi'⟩ := hready.writeItems (fun _ => hi) hd.fits
    refine ⟨w, hw, fun r R sizes fuel hp hr hs hf => ?_⟩
    rw [hi'.stream.bytes, List.nil_append, List.append_nil] at hr
    obtain ⟨t, ds, ht, hds, hend⟩ := hr.readItems (fun _ => hp) hd hs hf R
    exact ⟨t, ds, ht, hds, hend.stream.atEnd⟩

/-- Three bytes in two chunks with a checksum, a record without added data, and one with a declared
size of eight bytes in its header. -/
theorem roundTrips_three :
    RoundTrips (.writing (.ofBytes []))
      [⟨{ Record.zero with headFlags := 0xA0 }.withData [1, 2], [[3, 4], [], [5]], false⟩,
        ⟨Record.zero, [], false⟩,
        ⟨{ Record.zero with headFlags := 0xC0, addedSize := 2 }, [[6, 7]], true⟩] :=
  (roundTrips_iff ⟨rfl, ⟨rfl, rfl⟩, rfl, rfl, rfl⟩
    ⟨Heap.grants_zeros, fun _ => rfl, fun _ => rfl⟩).mpr (by decide +kernel)

/-- A record that announces added data and gets none, and another record. -/
def nothingAdded : List Item := [⟨Record.unsized, [], true⟩, ⟨Record.zero, [], false⟩]

/-- These two are written with success, and then the reader refuses to read the second one. -/
theorem roundTrips_broken :
    Idle [] [] (.writing (.ofBytes [])) ∧ (KCF.writing (.ofBytes [])).Obliging ∧
      (∃ w, KCF.writeItems (.writing (.ofBytes [])) nothingAdded = .ok (.ok, w)) ∧
      ¬ RoundTrips (.writing (.ofBytes [])) nothingAdded := by
  obtain ⟨w, hw, hb⟩ : ∃ w, KCF.writeItems (.writing (.ofBytes [])) nothingAdded = .ok (.ok, w) ∧
      w.stream.bytes = (recFix Record.unsized).encode ++ (recFix Record.zero).encode :=
    ⟨_, rfl, by decide +kernel⟩
  refine ⟨⟨rfl, ⟨rfl, rfl⟩, rfl, rfl, rfl⟩, ⟨Heap.grants_zeros, fun _ => rfl, fun _ => rfl⟩,
    ⟨w, hw⟩, ?_⟩
  rintro ⟨w', hw', hr⟩
  cases hw'.symm.trans hw
  rw [hb] at hr
  obtain ⟨t, ds, ht, -⟩ := hr (.reading (.ofBytes _)) Record.zero (fun _ _ => 1) 0 rfl
    ⟨Heap.grants_zeros, fun _ => rfl, rfl, rfl⟩ (fun _ _ => one_pos) (by decide)
  have hrefused : (KCF.readItems 0 2 (fun _ _ => 1) (.reading (.ofBytes
      ((recFix Record.unsized).encode ++ (recFix Record.zero).encode))) Record.zero).toOption.map
        Prod.fst = some .invalidState := by
    decide +kernel
  have hok := congrArg (fun r => r.toOption.map Prod.fst) ht
  have hne : some KcfError.invalidState = some KcfError.ok := hrefused.symm.trans hok
  cases hne

end Kcf
