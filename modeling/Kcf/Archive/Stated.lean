import Kcf.Archive.Declared

/-! # Sizes beyond four bytes

The size of the added data has 64 bits in a record and in the writer's limit,
but a header with the flag 0x80 alone has four bytes for it. Nothing keeps the
added data within what these can state: a larger declared size is cut where it
is laid out, and a larger counted one where it is patched in.
-/

namespace Kcf

open LittleEndian Record

/-- A byte string starts with a record, and as many bytes as are counted here hold it and no more
added data than its header states. -/
def StatesAdded (s : List UInt8) (count : ℕ) : Prop := count ≤ sizeAt s + addedSizeAt s

instance (s : List UInt8) (count : ℕ) : Decidable (StatesAdded s count) :=
  inferInstanceAs (Decidable (_ ≤ _))

namespace Record

variable {R : Record} {w₀ : UInt64} {c₀ : UInt32} {bs cs : List UInt8}

/-- The number of added bytes that are taken, on top of the counter's start, of so many. -/
def admitted (R : Record) (w₀ : UInt64) (total : ℕ) : ℕ :=
  if R.addedSize = 0 then total else min total (R.addedSize - w₀).toNat

/-- The four bytes for the size have room for what is taken of so many bytes: a header that is kept
has the declared size in them, cut to 32 bits, and one that is patched the counter. -/
def HasRoom (R : Record) (w₀ : UInt64) (total : ℕ) : Prop :=
  if R.Keeps then R.admitted w₀ total ≤ R.addedSize.toNat % 2 ^ 32
  else w₀.toNat % 2 ^ 32 + R.admitted w₀ total < 2 ^ 32

instance (R : Record) (w₀ : UInt64) (total : ℕ) : Decidable (R.HasRoom w₀ total) :=
  inferInstanceAs (Decidable (ite _ _ _))

theorem length_admits (R : Record) (w₀ : UInt64) (bs : List UInt8) :
    (R.admits w₀ bs).length = R.admitted w₀ bs.length := by
  unfold admits admitted
  split
  · rfl
  · rw [List.length_take, Nat.min_comm]

theorem hasRoom_zero_iff (R : Record) (total : ℕ) : R.HasRoom 0 total ↔
    R.addedSize ≠ 0 ∧ R.addedSize.toNat < 2 ^ 32 ∨
      if R.Keeps then total ≤ R.addedSize.toNat % 2 ^ 32 else total < 2 ^ 32 := by
  unfold HasRoom admitted
  rw [UInt64.sub_zero, UInt64.toNat_zero, Nat.zero_mod, Nat.zero_add]
  by_cases hD : R.addedSize = 0
  · have hk : ¬ R.Keeps := fun hk => hk.1 hD
    simp [hD, hk]
  · rw [if_neg hD]
    by_cases hk : R.Keeps
    · rw [if_pos hk, if_pos hk]
      simp only [ne_eq, hD, not_false_eq_true, true_and]
      omega
    · rw [if_neg hk, if_neg hk]
      simp only [ne_eq, hD, not_false_eq_true, true_and]
      omega

theorem final_room_iff (R : Record) (w₀ : UInt64) (c₀ : UInt32) (bs : List UInt8) :
    (R.admits w₀ bs).length ≤ (R.final w₀ c₀ (R.admits w₀ bs)).addedSize.toNat % 2 ^ 32 ↔
      R.HasRoom w₀ bs.length := by
  unfold HasRoom
  by_cases hk : R.Keeps
  · rw [final, if_pos hk, if_pos hk, length_admits]
  · have hcount : (R.counted w₀ c₀ (R.admits w₀ bs)).addedSize.toNat % 2 ^ 32 =
        (w₀.toNat + R.admitted w₀ bs.length) % 2 ^ 32 := by
      change (w₀ + UInt64.ofNat _).toNat % _ = _
      rw [UInt64.toNat_add, UInt64.toNat_ofNat', length_admits]
      omega
    rw [final, if_neg hk, if_neg hk, hcount, length_admits]
    omega

end Record

variable {kcf u : KCF} {R : Record} {chunks : List (List UInt8)}

/-- A run that succeeds leaves a header that states no less than was added exactly when there was
room for it. -/
theorem statesAdded_iff_hasRoom {k : KCF} (hacc : kcf.Accept .ok u) (ho : u.Obliging)
    (hflags : R.headFlags &&& KCF_HAS_ADDED_SIZE_8 = KCF_HAS_ADDED_SIZE_4) (hf : R.Fits)
    (hk : kcf.streamRecord R chunks = .ok (.ok, k)) :
    StatesAdded (k.stream.bytes.drop u.stream.pos) (k.stream.pos - u.stream.pos) ↔
      R.HasRoom u.writtenAddedData chunks.flatten.length := by
  have ha : recHasAddedSize R = true := recHasAddedSize_iff.mpr (by simp [addedSizeWidth, hflags])
  obtain ⟨k', hrun, -, hi⟩ := hacc.streamRecord ho hf ha chunks
  obtain rfl := congrArg Prod.snd (Except.ok.inj (hrun.symm.trans hk))
  set F := R.final u.writtenAddedData u.addedDataCRC32 (R.admits u.writtenAddedData chunks.flatten)
  have hfits : F.Fits := final_fits.mpr hf
  have hwidth : addedSizeWidth F.headFlags = 4 := by
    rw [final_headFlags, addedSizeWidth, if_pos hflags]
  have hb := hi.stream.bytes
  have hp := hi.stream.pos
  rw [List.length_append, List.length_append, u.stream.length_behind] at hp
  rw [List.append_assoc, List.append_assoc] at hb
  obtain ⟨tail, hd⟩ : ∃ tail, k'.stream.bytes.drop u.stream.pos = (recFix F).encode ++ tail :=
    ⟨_, by rw [hb]; exact List.drop_left' u.stream.length_behind⟩
  rw [← final_room_iff R _ u.addedDataCRC32, StatesAdded, hd,
    sizeAt_encode (F := recFix F) hfits (recFix_headSize_of_fits hfits), addedSizeAt_encode,
    recFix_headFlags, recFix_addedSize, hwidth, hp]
  change _ ↔ _ ≤ F.addedSize.toNat % 2 ^ 32
  omega

end Kcf
