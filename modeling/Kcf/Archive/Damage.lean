import Kcf.Archive.Playback
import Kcf.Record.Crc32cBurst

/-! # Damage to added data

A record that declares the checksum of what is added to it lets the reader tell a burst
in the added data: once all of it is delivered, in portions of any size, the handle's two
checksums agree only if what was delivered is what was written.
-/

namespace Kcf

open CallMachine

variable {p : Piece} {added : List UInt8} {kcf : KCF} {c : PlaybackCall} {cs : List PlaybackCall}
  {t : Playback}

/-- The call does not go on to another record. -/
def PlaybackCall.Stays (c : PlaybackCall) : Prop := ∀ R, c ≠ .record (some R)

theorem PlaybackCall.Stays.not_asks (h : c.Stays) : ¬ c.asks = true := by
  cases c with
  | record R =>
    cases R with
    | none => exact Bool.false_ne_true
    | some R => exact absurd rfl (h R)
  | added | available | start => exact Bool.false_ne_true

/-- So far a part of this was delivered, under this declared checksum. -/
structure Playback.Delivers (added : List UInt8) (declared : UInt32) (t : Playback) : Prop where
  part : ∃ n, t.left = added.drop n ∧ t.actual = crc32c 0 (added.take n)
  declared : t.declared = declared

namespace Playback.Delivers

variable {declared : UInt32}

theorem passed (h : t.Delivers added declared) (m : ℕ) : (t.passed m).Delivers added declared := by
  obtain ⟨⟨n, hleft, hactual⟩, hdeclared⟩ := h
  refine ⟨⟨n + m, ?_, ?_⟩, hdeclared⟩
  · rw [Playback.passed, hleft, List.drop_drop]
  · rw [Playback.passed, hleft, hactual, ← crc32c_append, List.take_add]

theorem reply (hc : c.Stays) (h : t.Delivers added declared) :
    (playbackReply c t).2.Delivers added declared := by
  cases c with
  | record R =>
    cases R with
    | none => exact h
    | some R => exact absurd rfl (hc R)
  | added n =>
    cases n with
    | none => exact h
    | some n =>
      unfold playbackReply
      dsimp only
      split
      · exact h.passed n
      · exact h
  | available => exact h
  | start => exact h

theorem actual (h : t.Delivers added declared) (hleft : t.left = []) :
    t.actual = crc32c 0 added := by
  obtain ⟨⟨n, hdrop, hactual⟩, -⟩ := h
  have hall : added.take n = added := by
    rw [List.take_eq_self_iff]
    exact List.drop_eq_nil_iff.mp (hdrop.symm.trans hleft)
  rw [hactual, hall]

end Playback.Delivers

namespace Piece

/-- The piece with something else of the same length added to its record. -/
def damaged (p : Piece) (h : added.length = p.added.length) : Piece where
  record := p.record
  added := added
  fits := p.fits
  headSize := p.headSize
  addedSize := p.addedSize.trans h.symm

/-- A record with two bytes added to it and their checksum. -/
def checked : Piece where
  record := recFix { Record.adding 2 with
    headFlags := 0xA0
    addedDataCRC32 := crc32c 0 [7, 8] }
  added := [7, 8]
  fits := ⟨fun _ => rfl, by decide⟩
  headSize := recFix_headSize_of_fits ⟨fun _ => rfl, by decide⟩
  addedSize := rfl

end Piece

/-- A burst in the added data of a record that declares its checksum is told by the end of the
added data, whatever calls deliver it and whatever stands behind it. -/
theorem damage_shows {a b : List UInt8} (hp : kcf.parserState = .readRecordHeader)
    (h : ReaderAt a (p.record.encode ++ (added ++ b)) kcf)
    (h₀ : kcf.availableAddedData = 0) (hflag : recHasAddedDataCRC p.record)
    (hcrc : p.record.addedDataCRC32 = crc32c 0 p.added) (hburst : Burst added p.added)
    (R : Record) (hcs : ∀ c ∈ cs, c.Stays) :
    ∃ as k, answers playbackStep (.record (some R) :: cs) kcf = (as, .ok k) ∧
      (k.isAddedDataAvailable = false →
        (k.actualAddedDataCRC32 = k.addedDataCRC32 ↔ added = p.added)) := by
  have hlayout : p.record.encode ++ (added ++ b) = Piece.layout [p.damaged hburst.1] ++ b := by
    rw [Piece.layout_cons, Piece.layout_nil, Piece.bytes, List.append_nil, List.append_assoc]
    rfl
  rw [hlayout] at h
  have hasks : (PlaybackCall.record (some R) :: cs).countP PlaybackCall.asks ≤ 1 := by
    rw [List.countP_cons, List.countP_eq_zero.mpr fun c hc => (hcs c hc).not_asks]
    rfl
  obtain ⟨k, hk, hend⟩ := (Playing.front hp h h₀).answers (.inr hasks)
  have hstart : (Playback.past (p.damaged hburst.1) []).Delivers added (crc32c 0 p.added) :=
    ⟨⟨0, rfl, (crc32c_nil 0).symm⟩, (if_pos hflag).trans hcrc⟩
  have hdelivers := replies_invariant (fun _ _ => Playback.Delivers.reply) hcs hstart
  refine ⟨_, k, hk, fun hnone => ?_⟩
  have hleft : (replies playbackReply cs (.past (p.damaged hburst.1) [])).2.left = [] := by
    rw [hend.isAddedDataAvailable, decide_eq_false_iff_not, not_not] at hnone
    exact hnone
  have hactual : k.actualAddedDataCRC32 = crc32c 0 added :=
    hend.actual.trans (hdelivers.actual hleft)
  have hdeclared : k.addedDataCRC32 = crc32c 0 p.added := hend.declared.trans hdelivers.declared
  rw [hactual, hdeclared]
  exact ⟨hburst.eq_of_crc32c, fun heq => by rw [heq]⟩

theorem damage_shows_checked :
    ∃ as k, answers playbackStep [.record (some Record.zero), .added (some 1), .added (some 1)]
        (.reading (.ofBytes (Piece.checked.record.encode ++ [7, 9]))) = (as, .ok k) ∧
      k.isAddedDataAvailable = false ∧ k.actualAddedDataCRC32 ≠ k.addedDataCRC32 := by
  have hr : ReaderAt [] (Piece.checked.record.encode ++ ([7, 9] ++ []))
      (.reading (.ofBytes (Piece.checked.record.encode ++ [7, 9]))) :=
    ⟨Heap.grants_zeros, fun _ => rfl, rfl, rfl⟩
  have hburst : Burst [7, 9] Piece.checked.added := ⟨rfl, 1, 8, by decide, by decide⟩
  have hcs : ∀ c ∈ [PlaybackCall.added (some 1), .added (some 1)], c.Stays := by
    simp [PlaybackCall.Stays]
  obtain ⟨as, k, hk, htold⟩ :=
    damage_shows (p := Piece.checked) rfl hr rfl (by decide) rfl hburst Record.zero hcs
  have hdone : (answers playbackStep
      [.record (some Record.zero), .added (some 1), .added (some 1)]
      (.reading (.ofBytes (Piece.checked.record.encode ++ [7, 9])))).2.map
        KCF.isAddedDataAvailable = .ok false := by
    decide +kernel
  rw [hk] at hdone
  have hnone : k.isAddedDataAvailable = false := Except.ok.inj hdone
  exact ⟨as, k, hk, hnone, fun heq => absurd ((htold hnone).mp heq) (by decide)⟩

end Kcf
