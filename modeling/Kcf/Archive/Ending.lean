import Kcf.Archive.Extraction

/-! # How extraction comes to an end

Every round of the loops takes something from the stream: a piece of added data
is asked for only where some is left, and one that is cut short ends the
extraction; a record that is continued has a header of which four bytes at least
were delivered, since the flags in a buffer of zeros say otherwise. So the loops
end on every stream whose reads do not fail.
-/

namespace Kcf

open LittleEndian

namespace IOStream

variable {s t u : IOStream}

/-- The second stream is the first one further on. -/
structure FurtherOn (s t : IOStream) : Prop where
  bytes : t.bytes = s.bytes
  pos : s.pos ≤ t.pos
  reads : ∃ n, t.reads = fun i => s.reads (i + n)

theorem FurtherOn.refl (s : IOStream) : s.FurtherOn s := ⟨rfl, le_rfl, 0, rfl⟩

theorem FurtherOn.trans (h : s.FurtherOn t) (h' : t.FurtherOn u) : s.FurtherOn u := by
  obtain ⟨n, hn⟩ := h.reads
  obtain ⟨m, hm⟩ := h'.reads
  refine ⟨h'.bytes.trans h.bytes, h.pos.trans h'.pos, m + n, hm.trans (funext fun i => ?_)⟩
  simp only [hn, Nat.add_assoc]

theorem furtherOn_took (s : IOStream) (n : ℕ) : s.FurtherOn (s.took n) :=
  ⟨rfl, Nat.le_add_right .., 1, rfl⟩

theorem furtherOn_after (s : IOStream) (counts : List ℕ) : s.FurtherOn (s.after counts) := by
  induction counts generalizing s with
  | nil => exact .refl s
  | cons n counts ih => exact (s.furtherOn_took _).trans (ih (ioRead s n).2.2)

theorem FurtherOn.neverFails (h : s.FurtherOn t) (hs : s.NeverFails) : t.NeverFails := by
  obtain ⟨n, hn⟩ := h.reads
  intro i
  rw [hn]
  exact hs (i + n)

theorem FurtherOn.length_le (h : s.FurtherOn t) : t.ahead.length ≤ s.ahead.length := by
  have hpos := h.pos
  rw [ahead, ahead, List.length_drop, List.length_drop, h.bytes]
  omega

theorem four_le_of_headFlags (h : s.headFlags ≠ 0) : 4 ≤ (ioRead s 6).2.1.length := by
  by_contra hlt
  apply h
  have hdrop : (ioRead s 6).2.1.drop 3 = [] := List.drop_eq_nil_of_le (by omega)
  rw [headFlags, field, hdrop]
  rfl

theorem length_ahead_ioRead (s : IOStream) (n : ℕ) :
    (ioRead s n).2.2.ahead.length + (ioRead s n).2.1.length = s.ahead.length := by
  have hlen : s.ahead.length = s.bytes.length - s.pos := List.length_drop ..
  have hm := (s.reads 0).moved_le (min n (s.bytes.length - s.pos))
  change (s.took _).ahead.length + (s.ahead.take _).length = _
  rw [ahead_took, List.length_drop, List.length_take]
  omega

end IOStream

namespace KCF

variable {kcf k : KCF} {R R' : Record} {output : IOStream}

theorem readRecord_furtherOn (h : kcf.readRecord (some R) = (.ok, k, some R')) :
    kcf.stream.FurtherOn k.stream ∧
      (R'.Continues → k.stream.ahead.length + 4 ≤ kcf.stream.ahead.length) := by
  obtain ⟨hstream, -, -⟩ := readRecord_follows h
  obtain ⟨hflags, -, -⟩ := readRecord_returned h
  rw [hstream]
  refine ⟨kcf.stream.furtherOn_after _, fun hc => ?_⟩
  have hne : kcf.stream.headFlags ≠ 0 := by
    rintro h₀
    rw [Record.Continues, hflags, h₀] at hc
    exact hc rfl
  have hfour := IOStream.four_le_of_headFlags hne
  have hread := kcf.stream.length_ahead_ioRead 6
  have hrest : (kcf.stream.after kcf.stream.recordCounts).ahead.length ≤
      (ioRead kcf.stream 6).2.2.ahead.length :=
    ((ioRead kcf.stream 6).2.2.furtherOn_after _).length_le
  omega

theorem readAddedData_returns (hs : kcf.stream.NeverFails) (n : ℕ) :
    ∃ e k bytes m, kcf.readAddedData (some n) = .ok (e, k, bytes, m) := by
  by_cases hp : kcf.parserState = .readAddedData
  · rw [readAddedData_of_added hp]
    split
    · exact ⟨_, _, _, _, rfl⟩
    · obtain ⟨m, -, -, hr⟩ := ioRead_delivered (hs 0) (min n kcf.availableAddedData.toNat)
      unfold readAvailable
      rw [hr]
      dsimp only
      split
      · exact ⟨_, _, _, _, rfl⟩
      · rw [if_neg (by omega)]
        exact ⟨_, _, _, _, rfl⟩
  · exact ⟨_, _, _, _, readAddedData_of_ne hp n⟩

theorem readAddedData_furtherOn {n : ℕ} {bytes : List UInt8} {m : Option ℕ} (hn : 0 < n)
    (h₀ : kcf.availableAddedData ≠ 0)
    (hread : kcf.readAddedData (some n) = .ok (.ok, k, bytes, m)) :
    kcf.stream.FurtherOn k.stream ∧ k.stream.ahead.length < kcf.stream.ahead.length ∧
      k.availableAddedData.toNat ≤ kcf.availableAddedData.toNat := by
  obtain ⟨htakes, -, -⟩ := readAddedData_ok h₀ hread
  have hav := availableAddedData_pos h₀
  have hasked : 0 < kcf.asked n := Nat.lt_min.mpr ⟨hn, hav⟩
  have hwithin := htakes.within
  have havail := htakes.available
  refine ⟨?_, ?_, by omega⟩
  · rw [htakes.stream]
    exact kcf.stream.furtherOn_took _
  · rw [htakes.ahead, List.length_drop]
    omega

theorem copyAddedData_ends {remaining toRead : ℕ} (hs : kcf.stream.NeverFails)
    (hr : kcf.availableAddedData.toNat ≤ remaining) (ht : 0 < toRead) (output : IOStream) :
    ∃ e k out, (∀ fuel > kcf.stream.ahead.length,
        copyAddedData remaining fuel kcf output toRead = .ok (e, k, out)) ∧
      (e = .ok → kcf.stream.FurtherOn k.stream) := by
  induction hl : kcf.stream.ahead.length using Nat.strong_induction_on
    generalizing kcf output toRead with
  | h left ih =>
    by_cases h₀ : kcf.availableAddedData = 0
    · exact ⟨_, _, _, fun fuel _ => copyAddedData_nothing h₀ .., fun _ => .refl _⟩
    set n := if remaining < toRead then remaining else toRead with hn
    have hnpos : 0 < n := toRead_pos h₀ hr ht
    obtain ⟨e, k, bytes, m, hread⟩ := readAddedData_returns hs n
    rcases hwrite : ioWrite output (bytes.take (m.getD 0)) with ⟨ret, output'⟩
    have hround := copyAddedData_round h₀ hread hwrite
    by_cases he : e = .ok
    · subst he
      obtain ⟨hfurther, hshorter, havail⟩ := readAddedData_furtherOn hnpos h₀ hread
      rw [hl] at hshorter
      by_cases hw : ret < 0
      · refine ⟨.write, k, output', fun fuel hf => ?_, fun h => absurd h (by decide)⟩
        obtain ⟨fuel, rfl⟩ := Nat.exists_eq_add_of_lt hf
        rw [hround, if_neg (by simp), if_pos hw]
      · obtain ⟨e, k', out, hrest, hend⟩ := ih _ hshorter (hfurther.neverFails hs)
          (by omega) hnpos output' rfl
        refine ⟨e, k', out, fun fuel hf => ?_, fun he => hfurther.trans (hend he)⟩
        obtain ⟨fuel, rfl⟩ := Nat.exists_eq_add_of_lt hf
        rw [hround, if_neg (by simp), if_neg hw]
        exact hrest (left + fuel) (by omega)
    · refine ⟨e, k, output, fun fuel hf => ?_, fun h => absurd h he⟩
      obtain ⟨fuel, rfl⟩ := Nat.exists_eq_add_of_lt hf
      rw [hround, if_pos he]

def fragmentsRead (kcf : KCF) : ℕ := if kcf.lastRecord.Continues then 1 else 0

theorem fragmentsRead_le (kcf : KCF) : kcf.fragmentsRead ≤ 1 := by
  unfold fragmentsRead
  split <;> omega

/-- `extractLoop`, with the number of records that it reads. -/
def extractLoopCounted (fuel : ℕ) :
    ℕ → KCF → IOStream → Exec (ℕ × KcfError × KCF × IOStream)
  | 0, _, _ => .error .outOfFuel
  | rounds + 1, kcf, output => do
    let (error, kcf, output) ←
      copyAddedData kcf.lastRecord.addedSize.toNat fuel kcf output EXTRACT_BUFFER_SIZE
    if error ≠ .ok then return (0, error, kcf, output)
    else
      let n := kcf.fragmentsRead
      match kcf.nextFragment with
      | (.ok, kcf) =>
        if kcf.lastRecord.Continues then do
          let (m, result) ← extractLoopCounted fuel rounds kcf output
          return (n + m, result)
        else return (n, .ok, kcf, output)
      | (error, kcf) => return (n, error, kcf, output)

/-- Counting does not change what the loop does. -/
theorem extractLoopCounted_snd (fuel rounds : ℕ) (kcf : KCF) (output : IOStream) :
    (extractLoopCounted fuel rounds kcf output).map Prod.snd =
      extractLoop fuel rounds kcf output := by
  induction rounds generalizing kcf output with
  | zero => rfl
  | succ rounds ih =>
    unfold extractLoopCounted extractLoop
    rcases copyAddedData kcf.lastRecord.addedSize.toNat fuel kcf output EXTRACT_BUFFER_SIZE with
      fault | ⟨e, k, out⟩
    · rfl
    · rw [Exec.ok_bind, Exec.ok_bind]
      dsimp only
      split
      · rfl
      · rcases k.nextFragment with ⟨e', k'⟩
        cases e' with
        | ok =>
          dsimp only
          split
          · rw [← ih]
            rcases extractLoopCounted fuel rounds k' out with fault | r
            · rfl
            · rfl
          · rfl
        | _ => rfl

section Rounds

variable {fuel : ℕ} {e : KcfError} {k' : KCF} {out : IOStream}

theorem extractLoopCounted_failed (hcopy : copyAddedData kcf.lastRecord.addedSize.toNat fuel kcf
      output EXTRACT_BUFFER_SIZE = .ok (e, k, out)) (he : e ≠ .ok) (rounds : ℕ) :
    extractLoopCounted fuel (rounds + 1) kcf output = .ok (0, e, k, out) := by
  unfold extractLoopCounted
  rw [hcopy, Exec.ok_bind]
  exact if_pos he

theorem extractLoopCounted_stops (hcopy : copyAddedData kcf.lastRecord.addedSize.toNat fuel kcf
      output EXTRACT_BUFFER_SIZE = .ok (.ok, k, out))
    (hn : ∀ k', k.nextFragment = (.ok, k') → ¬ k'.lastRecord.Continues) (rounds : ℕ) :
    extractLoopCounted fuel (rounds + 1) kcf output =
      .ok (k.fragmentsRead, k.nextFragment.1, k.nextFragment.2, out) := by
  unfold extractLoopCounted
  rw [hcopy, Exec.ok_bind]
  dsimp only
  rw [if_neg (by simp)]
  rcases hnext : k.nextFragment with ⟨e, k'⟩
  cases e with
  | ok => exact if_neg (hn k' hnext)
  | _ => rfl

theorem extractLoopCounted_continues (hcopy : copyAddedData kcf.lastRecord.addedSize.toNat fuel kcf
      output EXTRACT_BUFFER_SIZE = .ok (.ok, k, out)) (hn : k.nextFragment = (.ok, k'))
    (hc : k'.lastRecord.Continues) {rounds n : ℕ} {result : KcfError × KCF × IOStream}
    (h : extractLoopCounted fuel rounds k' out = .ok (n, result)) :
    extractLoopCounted fuel (rounds + 1) kcf output = .ok (k.fragmentsRead + n, result) := by
  unfold extractLoopCounted
  rw [hcopy, Exec.ok_bind]
  dsimp only
  rw [if_neg (by simp), hn]
  dsimp only
  rw [if_pos hc, h]
  rfl

end Rounds

theorem nextFragment_continues (h : kcf.nextFragment = (.ok, k)) (hc : k.lastRecord.Continues) :
    kcf.stream.FurtherOn k.stream ∧ k.stream.ahead.length + 4 ≤ kcf.stream.ahead.length ∧
      k.availableAddedData = k.lastRecord.addedSize := by
  rcases nextFragment_ok h with ⟨hn, rfl⟩ | ⟨-, y, hy, rfl⟩
  · exact absurd hc hn
  · have hread := y.read
    rw [hy.before] at hread
    obtain ⟨hfurther, hfour⟩ := readRecord_furtherOn hread
    exact ⟨hfurther, hfour hc, (readRecord_announces hread).available⟩

/-- The loop ends on so many rounds for its records and for the pieces of each, and on more with the
same outcome, having read at most so many records. -/
def EndsWithin (kcf : KCF) (output : IOStream) (rounds fuel records : ℕ) : Prop :=
  ∃ n result, n ≤ records ∧
    ∀ rounds' ≥ rounds, ∀ fuel' ≥ fuel,
      extractLoopCounted fuel' rounds' kcf output = .ok (n, result)

/-- The loop ends where the added data that is left is what the record announces. -/
theorem extractLoop_ends (hs : kcf.stream.NeverFails)
    (ha : kcf.availableAddedData = kcf.lastRecord.addedSize) (output : IOStream) :
    kcf.EndsWithin output (kcf.stream.ahead.length / 4 + 1) (kcf.stream.ahead.length + 1)
      (kcf.stream.ahead.length / 4 + 1) := by
  induction hl : kcf.stream.ahead.length using Nat.strong_induction_on
    generalizing kcf output with
  | h left ih =>
    obtain ⟨e, k, out, hcopy, hfurther⟩ := copyAddedData_ends hs
      (congrArg UInt64.toNat ha).le (by decide : 0 < EXTRACT_BUFFER_SIZE) output
    rw [hl] at hcopy
    have hread := k.fragmentsRead_le
    by_cases he : e = .ok
    · subst he
      by_cases hn : ∃ k', k.nextFragment = (.ok, k') ∧ k'.lastRecord.Continues
      · obtain ⟨k', hnext, hc⟩ := hn
        obtain ⟨hf, hfour, ha'⟩ := nextFragment_continues hnext hc
        have hle := (hfurther rfl).length_le
        obtain ⟨n, result, hle', hrest⟩ := ih _ (by omega)
          (((hfurther rfl).trans hf).neverFails hs) ha' out rfl
        refine ⟨k.fragmentsRead + n, result, by omega, fun rounds hr fuel hfuel => ?_⟩
        obtain _ | rounds := rounds
        · omega
        · exact extractLoopCounted_continues (hcopy fuel hfuel) hnext hc
            (hrest rounds (by omega) fuel (by omega))
      · push Not at hn
        refine ⟨k.fragmentsRead, (k.nextFragment.1, k.nextFragment.2, out), by omega,
          fun rounds hr fuel hfuel => ?_⟩
        obtain _ | rounds := rounds
        · omega
        · exact extractLoopCounted_stops (hcopy fuel hfuel) hn rounds
    · refine ⟨0, (e, k, out), Nat.zero_le _, fun rounds hr fuel hfuel => ?_⟩
      obtain _ | rounds := rounds
      · omega
      · exact extractLoopCounted_failed (hcopy fuel hfuel) he rounds

/-- Once the first record was read the loops of the extraction end, on every stream whose reads do
not fail, and the number of records that they read is at most a quarter of the bytes ahead and
one. -/
theorem extraction_ends {x : Consumed} (hx : kcf.Entered x) (hs : kcf.stream.NeverFails)
    (output : IOStream) :
    ∃ n result, n ≤ kcf.stream.ahead.length / 4 + 1 ∧
      ∀ rounds > kcf.stream.ahead.length / 4, ∀ fuel > kcf.stream.ahead.length,
        extractLoopCounted fuel rounds kcf output = .ok (n, result) ∧
          extractLoop fuel rounds kcf output = .ok result := by
  obtain ⟨n, result, hle, hrun⟩ := extractLoop_ends hs hx.available_eq output
  refine ⟨n, result, hle, fun rounds hr fuel hf => ?_⟩
  have hcounted := hrun rounds hr fuel hf
  refine ⟨hcounted, ?_⟩
  rw [← extractLoopCounted_snd, hcounted]
  rfl

/-- A file record that is continued, read from before four bytes of a fragment that is, too. -/
def cutOffRecord : Consumed where
  before := unpacking (.ofBytes [0, 0, 0x46, 1, 6, 0, 0, 0, 0x44, 1])
  into := Record.zero
  after := ((unpacking (.ofBytes [0, 0, 0x46, 1, 6, 0, 0, 0, 0x44, 1])).readRecord
    (some Record.zero)).2.1
  record := Record.zero.whole [0, 0, 0x46, 1, 6, 0]
  read := rfl

theorem extraction_ends_cutOff :
    ∃ n result, n ≤ 2 ∧ ∀ rounds > 1, ∀ fuel > 4,
      extractLoopCounted fuel rounds cutOffRecord.loaded (.ofBytes []) = .ok (n, result) ∧
        extractLoop fuel rounds cutOffRecord.loaded (.ofBytes []) = .ok result :=
  extraction_ends (entered_loaded cutOffRecord) (fun _ => Transfer.not_fails_full) (.ofBytes [])

end KCF

end Kcf
