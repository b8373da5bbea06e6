import Kcf.Archive.Extraction

/-! # Extracting fragmented files

The loop over the records of a file looks at the continuation flag of the
record it has just read to see whether to go on, and so it ends before the
added data of the last fragment is copied. A file is extracted as a whole
exactly when it has no fragments.
-/

namespace Kcf

namespace KCF

variable {kcf k : KCF} {output out : IOStream} {x : Consumed} {p : Piece} {qs : List Piece}
  {a c d : List UInt8}

/-- With rounds enough the loop ends well, with these bytes in the output and the stream at this
position. -/
def ExtractsAll (kcf : KCF) (output : IOStream) (added : List UInt8) (pos : ℕ) : Prop :=
  ∃ N, ∀ rounds ≥ N, ∀ fuel ≥ N, ∃ k out,
    extractLoop fuel rounds kcf output = .ok (.ok, k, out) ∧
      out.behind = output.behind ++ added ∧ k.stream.pos = pos

/-- Behind a record of the file that was read stand its added data and the rest. -/
structure StandsIn (x : Consumed) (p : Piece) (a c : List UInt8) (kcf : KCF) : Prop where
  entered : kcf.Entered x
  record : x.record = p.record.shown
  reads : kcf.stream.ReadsFully
  stream : kcf.stream.At a (p.added ++ c)

theorem StandsIn.continues_iff (h : StandsIn x p a c kcf) :
    x.record.Continues ↔ p.record.Continues := by
  rw [h.record, Record.shown_continues]

theorem StandsIn.available (h : StandsIn x p a c kcf) :
    kcf.availableAddedData.toNat = p.added.length := by
  rw [h.entered.available, (readRecord_announces x.read).available, h.record, p.addedSize]

theorem StandsIn.copied (h : StandsIn x p a c kcf) (hd : kcf.Copied output d k out) :
    d = p.added ∧ k.stream.At (a ++ p.added) c := by
  have hd' : d = p.added := by
    rw [hd.taken, h.available, h.stream.ahead_eq, List.take_left]
  refine ⟨hd', ?_, ?_⟩
  · rw [hd.bytes, h.stream.bytes, List.append_assoc]
  · rw [hd.pos, h.stream.pos, hd', List.length_append]

theorem StandsIn.copied_continues_iff (h : StandsIn x p a c kcf)
    (hd : kcf.Copied output d k out) : k.lastRecord.Continues ↔ p.record.Continues := by
  rw [hd.same.lastRecord, h.entered.continues_iff, h.continues_iff]

theorem standsIn_loaded (hs : x.before.stream.ReadsFully)
    (hat : x.before.stream.At a (p.bytes ++ c)) :
    StandsIn x p (a ++ p.record.encode) c x.loaded := by
  rw [Piece.bytes, List.append_assoc] at hat
  obtain ⟨hrec, hat', hs'⟩ := readRecord_standing x.read hs hat p.fits p.headSize
  exact ⟨entered_loaded x, hrec, hs', hat'⟩

theorem StandsIn.loaded {y : Consumed} {q : Piece} (hat : kcf.stream.At a (q.bytes ++ c))
    (hs : kcf.stream.ReadsFully) (hy : kcf.Continued y) :
    StandsIn y q (a ++ q.record.encode) c y.loaded := by
  obtain ⟨rfl, -, -⟩ := hy
  exact standsIn_loaded hs hat

theorem Copied.behind (h : kcf.Copied output d k out) (hw : output.WritesFully) :
    out.WritesFully ∧ out.behind = output.behind ++ d := by
  obtain ⟨pieces, rfl, rfl⟩ := h.given
  exact IOStream.behind_given hw pieces

end KCF

open KCF

/-- A run over a file that stands on the stream gives all added data but that of the last
fragment. -/
theorem Extracts.behind {x : Consumed} {kcf k : KCF} {output out : IOStream}
    {tr : List (Consumed × List UInt8)} (h : Extracts x kcf output tr k out) {p : Piece}
    {qs : List Piece} {a c : List UInt8} (hx : StandsIn x p a (Piece.layout qs ++ c) kcf)
    (hc : Chained p qs) (hw : output.WritesFully) :
    out.behind = output.behind ++ Piece.addedTo (p :: qs.dropLast) := by
  induction h generalizing p qs a with
  | last hd hstop =>
    obtain ⟨rfl, -⟩ := hx.copied hd
    cases qs with
    | nil => simpa using (hd.behind hw).2
    | cons q qs => exact absurd (hx.continues_iff.mpr hc.1) hstop
  | stop hd hcont hy hstop =>
    obtain ⟨rfl, hat⟩ := hx.copied hd
    cases qs with
    | nil => exact absurd (hx.continues_iff.mp hcont) hc
    | cons q qs =>
      rw [Piece.layout_cons, List.append_assoc] at hat
      have hq := StandsIn.loaded hat (hd.reads hx.reads) hy
      cases qs with
      | nil => simpa using (hd.behind hw).2
      | cons r rs => exact absurd (hq.continues_iff.mpr hc.2.2.1) hstop
  | next hd hcont hy hcy _ ih =>
    obtain ⟨rfl, hat⟩ := hx.copied hd
    obtain ⟨hw', hb⟩ := hd.behind hw
    cases qs with
    | nil => exact absurd (hx.continues_iff.mp hcont) hc
    | cons q qs =>
      rw [Piece.layout_cons, List.append_assoc] at hat
      have hq := StandsIn.loaded hat (hd.reads hx.reads) hy
      cases qs with
      | nil => exact absurd (hq.continues_iff.mp hcy) hc.2.2
      | cons r rs =>
        rw [ih hq hc.2.2 hw', hb, List.append_assoc]
        rfl

namespace KCF

variable {kcf : KCF} {output : IOStream} {x : Consumed} {p : Piece} {qs : List Piece}
  {a b : List UInt8}

theorem copyAddedData_step {remaining fuel toRead n : ℕ}
    (hn : (if remaining < toRead then remaining else toRead) = n)
    (hp : kcf.parserState = .readAddedData) (h₀ : kcf.availableAddedData ≠ 0)
    (hg : (ioRead kcf.stream (kcf.asked n)).1 = kcf.asked n) (hw : output.writes 0 = .full) :
    copyAddedData remaining (fuel + 1) kcf output toRead =
      copyAddedData remaining fuel (kcf.tookAdded (kcf.asked n))
        (ioWrite output (kcf.stream.ahead.take (kcf.asked n))).2 n := by
  subst hn
  rw [copyAddedData_round h₀ (readAddedData_gets hp h₀ hg) (ioWrite_full hw _),
    if_neg (by simp), if_neg (by omega), Option.getD_some, List.take_take, Nat.min_self,
    ioWrite_full hw]

/-- With rounds enough all that is left is copied, where input and output go through in full. -/
theorem copyAddedData_full {remaining fuel toRead : ℕ} (hs : kcf.stream.ReadsFully)
    (hw : output.WritesFully)
    (hp : kcf.availableAddedData ≠ 0 → kcf.parserState = .readAddedData)
    (hl : kcf.availableAddedData.toNat ≤ kcf.stream.ahead.length)
    (hr : kcf.availableAddedData.toNat ≤ remaining) (ht : 0 < toRead)
    (hf : kcf.availableAddedData.toNat ≤ fuel) :
    ∃ k out, copyAddedData remaining fuel kcf output toRead = .ok (.ok, k, out) := by
  induction fuel generalizing kcf output toRead with
  | zero =>
    have h₀ : kcf.availableAddedData = 0 := UInt64.toNat_inj.mp (Nat.le_zero.mp hf)
    exact ⟨kcf, output, copyAddedData_nothing h₀ ..⟩
  | succ fuel ih =>
    by_cases h₀ : kcf.availableAddedData = 0
    · exact ⟨kcf, output, copyAddedData_nothing h₀ ..⟩
    · have hpos := availableAddedData_pos h₀
      set n := if remaining < toRead then remaining else toRead with hn
      have hnpos : 0 < n := toRead_pos h₀ hr ht
      have hasked : kcf.asked n = min n kcf.availableAddedData.toNat := rfl
      have hg : (ioRead kcf.stream (kcf.asked n)).1 = kcf.asked n := by
        rw [ioRead_full (hs 0), Nat.min_eq_left (by omega)]
      have htakes := tookAdded_takes (n := kcf.asked n) (hp h₀) (by omega) (by omega)
      have havail := htakes.available
      have hl' : (kcf.tookAdded (kcf.asked n)).availableAddedData.toNat ≤
          (kcf.tookAdded (kcf.asked n)).stream.ahead.length := by
        rw [htakes.ahead, List.length_drop]
        omega
      have hp' : (kcf.tookAdded (kcf.asked n)).availableAddedData ≠ 0 →
          (kcf.tookAdded (kcf.asked n)).parserState = .readAddedData := by
        intro hne
        rw [htakes.state, if_neg hne]
      obtain ⟨k, out, hrest⟩ := ih (htakes.reads hs) (hw.ioWrite _) hp' hl' (by omega) hnpos
        (by omega)
      exact ⟨k, out, (copyAddedData_step hn.symm (hp h₀) h₀ hg (hw 0)).trans hrest⟩

theorem not_extractsAll (hx : StandsIn x p a (Piece.layout qs ++ b) kcf) (hc : Chained p qs)
    (hne : ∀ q ∈ qs, q.added ≠ []) (hw : output.WritesFully) (hqs : qs ≠ []) (pos : ℕ) :
    ¬ kcf.ExtractsAll output (Piece.addedTo (p :: qs)) pos := by
  rintro ⟨N, hN⟩
  obtain ⟨k, out, hrun, hout, -⟩ := hN N le_rfl N le_rfl
  obtain ⟨tr, htr, -⟩ := extracts_of_loop hx.entered hrun
  have hall := hout.symm.trans (htr.behind hx hc hw)
  rcases List.eq_nil_or_concat qs with rfl | ⟨ys, y, rfl⟩
  · exact hqs rfl
  · rw [List.concat_eq_append, List.dropLast_concat, List.append_cancel_left_eq,
      Piece.addedTo_cons, Piece.addedTo_cons, List.append_cancel_left_eq] at hall
    have hy : y.added = [] := by simpa [Piece.addedTo] using hall
    exact hne y (by simp) hy

theorem StandsIn.state {c : List UInt8} (hx : StandsIn x p a c kcf) :
    kcf.parserState =
      if recHasAddedSize p.record then .readAddedData else .readRecordHeader := by
  rw [hx.entered.state, (readRecord_announces x.read).state, hx.record]
  rfl

/-- The added data of a piece that was read is copied, with rounds enough. -/
theorem StandsIn.copies {c : List UInt8} {fuel : ℕ} (hx : StandsIn x p a c kcf)
    (hw : output.WritesFully) (hf : p.added.length ≤ fuel) :
    ∃ k out, copyAddedData kcf.lastRecord.addedSize.toNat fuel kcf output EXTRACT_BUFFER_SIZE =
      .ok (.ok, k, out) := by
  have hav := hx.available
  have hstate : kcf.availableAddedData ≠ 0 → kcf.parserState = .readAddedData := by
    intro h₀
    have hne : p.added ≠ [] := by
      rintro h
      rw [h, List.length_nil] at hav
      exact h₀ (UInt64.toNat_inj.mp hav)
    rw [hx.state, if_pos (Piece.hasAddedSize hne)]
  have hahead : kcf.stream.ahead.length = p.added.length + c.length := by
    rw [hx.stream.ahead_eq, List.length_append]
  have hsize : kcf.lastRecord.addedSize.toNat = p.added.length := by
    rw [hx.entered.addedSize, hx.record, p.addedSize]
  apply copyAddedData_full hx.reads hw hstate
  · omega
  · omega
  · exact (by decide : 0 < EXTRACT_BUFFER_SIZE)
  · omega

theorem extractLoop_last {k : KCF} {out : IOStream} {rounds fuel : ℕ}
    (hcopy : copyAddedData kcf.lastRecord.addedSize.toNat fuel kcf output EXTRACT_BUFFER_SIZE =
      .ok (.ok, k, out)) (hstop : ¬ k.lastRecord.Continues) :
    extractLoop fuel (rounds + 1) kcf output = .ok (.ok, k, out) := by
  have hnext : k.nextFragment = (.ok, k) := if_neg hstop
  unfold extractLoop
  rw [hcopy, Exec.ok_bind]
  dsimp only
  rw [if_neg (by simp), hnext]
  exact if_neg hstop

/-- A file is extracted as a whole exactly when it has no fragments. -/
theorem extractsAll_iff (hx : StandsIn x p a (Piece.layout qs ++ b) kcf) (hc : Chained p qs)
    (hne : ∀ q ∈ p :: qs, q.added ≠ []) (hw : output.WritesFully) :
    kcf.ExtractsAll output (Piece.addedTo (p :: qs)) (a ++ p.added ++ Piece.layout qs).length ↔
      qs = [] := by
  constructor
  · intro h
    by_contra hqs
    exact not_extractsAll hx hc (fun q hq => hne q (.tail _ hq)) hw hqs _ h
  · rintro rfl
    refine ⟨p.added.length + 1, ?_⟩
    intro rounds hrounds fuel hfuel
    have hf : p.added.length ≤ fuel := by omega
    have hr : 1 ≤ rounds := by omega
    obtain ⟨k, out, hcopy⟩ := hx.copies hw hf
    obtain ⟨d, hd⟩ := hx.entered.copied hcopy
    obtain ⟨rfl, hat⟩ := hx.copied hd
    have hstop : ¬ k.lastRecord.Continues := mt (hx.copied_continues_iff hd).mp hc
    obtain ⟨rounds, rfl⟩ := Nat.exists_eq_add_of_le' hr
    refine ⟨k, out, extractLoop_last hcopy hstop, ?_, ?_⟩
    · rw [(hd.behind hw).2, Piece.addedTo_cons, Piece.addedTo_nil, List.append_nil]
    · rw [hat.pos, Piece.layout_nil, List.append_nil]

theorem readLastRecord_standsIn {c : List UInt8} (hp : kcf.parserState = .readRecordHeader)
    (hm : (kcf.heap 0).isSome) (hs : kcf.stream.ReadsFully)
    (hat : kcf.stream.At a (p.bytes ++ c)) :
    ∃ y : Consumed, kcf.readLastRecord = (.ok, y.loaded) ∧ y.before = kcf ∧
      StandsIn y p (a ++ p.record.encode) c y.loaded := by
  have hbytes := hat
  rw [Piece.bytes, List.append_assoc] at hbytes
  obtain ⟨k, hk⟩ := readRecord_stands hp hm hs hbytes p.fits p.headSize kcf.lastRecord
  refine ⟨⟨kcf, kcf.lastRecord, k, p.record.shown, hk⟩, ?_, rfl, standsIn_loaded hs hat⟩
  unfold readLastRecord
  rw [hk]
  rfl

/-- A handle that has read the first of these pieces. -/
def entering (ps : List Piece) : KCF := (unpacking (.ofBytes (Piece.layout ps))).readLastRecord.2

theorem entering_standsIn (p : Piece) (qs : List Piece) :
    ∃ x, StandsIn x p p.record.encode (Piece.layout qs ++ []) (entering (p :: qs)) := by
  have hat : (unpacking (.ofBytes (Piece.layout (p :: qs)))).stream.At []
      (p.bytes ++ (Piece.layout qs ++ [])) := by
    rw [List.append_nil]
    exact ⟨Piece.layout_cons p qs, rfl⟩
  obtain ⟨x, hx, -, hstands⟩ := readLastRecord_standsIn (by rfl) (by rfl) (fun _ => rfl) hat
  have hk : entering (p :: qs) = x.loaded := congrArg Prod.snd hx
  exact ⟨x, by rwa [hk]⟩

theorem extractsAll_iff_single :
    (entering [.oneByte KCF_FILE_HEADER false 7]).ExtractsAll (.ofBytes []) [7] 11 := by
  obtain ⟨x, hx⟩ := entering_standsIn (.oneByte KCF_FILE_HEADER false 7) []
  have hw : (IOStream.ofBytes []).WritesFully := fun _ => rfl
  exact (extractsAll_iff hx (by decide) (by simp [Piece.oneByte]) hw).mpr rfl

/-- The byte of a file's only fragment is lost. -/
theorem lastFragment_lost :
    (extractLoop 2 2 (entering [.oneByte KCF_FILE_HEADER true 7,
          .oneByte KCF_DATA_FRAGMENT false 8]) (.ofBytes [])).map
        (fun r => (r.1, r.2.2.bytes, r.2.1.stream.pos)) = .ok (.ok, [7], 21) ∧
      ¬ (entering [.oneByte KCF_FILE_HEADER true 7,
          .oneByte KCF_DATA_FRAGMENT false 8]).ExtractsAll (.ofBytes []) [7, 8] 22 := by
  obtain ⟨x, hx⟩ := entering_standsIn (.oneByte KCF_FILE_HEADER true 7)
    [.oneByte KCF_DATA_FRAGMENT false 8]
  exact ⟨by decide +kernel, not_extractsAll hx (by decide) (by simp [Piece.oneByte])
    (fun _ => rfl) (by simp) 22⟩

end KCF

end Kcf
