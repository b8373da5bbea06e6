import Kcf.Archive.Basic
import Kcf.Library.Window
import Kcf.Reader.Cases

/-! # Opening an archive

The scan for the marker stops right behind its first occurrence, whatever comes
before it, and at the end of a stream that has none. But it leaves the parser
where starting to read has put it, before the marker, and there no record is
read.
-/

namespace Kcf

open Window

/-- The bytes up to the first marker and the bytes behind it. -/
structure FirstMarker (bytes pre post : List UInt8) : Prop where
  split : bytes = pre ++ MARKER ++ post
  first : ∀ a b, bytes = a ++ MARKER ++ b → pre.length ≤ a.length

variable {s : IOStream} {c d pre post bytes : List UInt8}

theorem FirstMarker.not_suffix (h : FirstMarker bytes pre post) (hc : c ++ d = pre ++ MARKER)
    (hd : d ≠ []) : ¬ MARKER <:+ c := by
  rintro ⟨a, rfl⟩
  have hb := h.first a (d ++ post) (by rw [h.split, ← hc, List.append_assoc])
  have hl := congrArg List.length hc
  have hd := List.length_pos_of_ne_nil hd
  simp only [List.length_append] at hl
  omega

theorem window_eq_marker_iff : window 0 6 c = MARKER ↔ MARKER <:+ c :=
  window_eq_iff rfl (by decide)

theorem window_shift (c : List UInt8) (x : UInt8) :
    ((window 0 6 c).drop 1 ++ (window 0 6 c).drop 5).overwrite 5 [x] = window 0 6 (c ++ [x]) := by
  have hl : ((window 0 6 c).drop 1).length = 5 := by simp
  have hr : ((window 0 6 c).drop 1 ++ (window 0 6 c).drop 5).drop (5 + [x].length) = [] :=
    List.drop_eq_nil_of_le (by simp)
  rw [window_snoc (by omega), List.overwrite, List.take_left' hl, hr, List.append_nil]

namespace IOStream

/-- The stream after so many reads that delivered one byte each. -/
def bytewise (s : IOStream) (n : ℕ) : IOStream :=
  { s with pos := s.pos + n, reads := fun i => s.reads (i + n) }

theorem took_bytewise (s : IOStream) (n : ℕ) : (s.took 1).bytewise n = s.bytewise (n + 1) := by
  simp only [took, bytewise, Nat.add_assoc, Nat.add_comm 1 n]

theorem ahead_bytewise (s : IOStream) (n : ℕ) : (s.bytewise n).ahead = s.ahead.drop n := by
  rw [ahead, ahead, List.drop_drop]
  rfl

theorem ReadsOn.bytewise (h : s.ReadsOn) (n : ℕ) : (s.bytewise n).ReadsOn := fun i => h (i + n)

theorem ReadsFully.bytewise_eq (h : s.ReadsFully) (n : ℕ) : s.bytewise n = s.advanced n := by
  have hr : (fun i => s.reads (i + n)) = s.reads := funext fun i => (h (i + n)).trans (h i).symm
  rw [bytewise, hr]
  rfl

theorem ReadsOn.ioRead_one {x : UInt8} (h : s.ReadsOn) (ha : s.ahead = x :: d) :
    Kcf.ioRead s 1 = (1, [x], s.took 1) := by
  obtain ⟨n, hn, -, hpos, hr⟩ := ioRead_on h 1
  obtain rfl : n = 1 := by
    have := hpos one_pos (by simp [ha])
    omega
  rw [hr, ha]
  rfl

theorem ReadsOn.ioRead_end (h : s.ReadsOn) (ha : s.ahead = []) (size : ℕ) :
    Kcf.ioRead s size = (0, [], s.took 0) := by
  obtain ⟨n, -, hn, -, hr⟩ := ioRead_on h size
  obtain rfl : n = 0 := by simpa [ha] using hn
  exact hr

end IOStream

/-- The scan passes bytes as long as those read do not end with a marker. -/
theorem findMarkerLoop_passes (hs : s.ReadsOn) (ha : s.ahead = d ++ post)
    (hd : ∀ a b, d = a ++ b → b ≠ [] → ¬ MARKER <:+ c ++ a) (fuel : ℕ) :
    KCF.findMarkerLoop (fuel + d.length) s (window 0 6 c) =
      KCF.findMarkerLoop fuel (s.bytewise d.length) (window 0 6 (c ++ d)) := by
  induction d generalizing s c with
  | nil =>
    rw [List.append_nil]
    rfl
  | cons x d ih =>
    have hw : window 0 6 c ≠ MARKER := by
      rw [Ne, window_eq_marker_iff, ← List.append_nil c]
      exact hd [] (x :: d) rfl (List.cons_ne_nil x d)
    have ha' : (s.took 1).ahead = d ++ post := by
      rw [IOStream.ahead_took, ha]
      rfl
    have hd' : ∀ a b, d = a ++ b → b ≠ [] → ¬ MARKER <:+ (c ++ [x]) ++ a := by
      intro a b hab hb
      rw [List.append_assoc]
      exact hd ([x] ++ a) b (by rw [hab]; rfl) hb
    rw [List.length_cons, ← Nat.add_assoc, KCF.findMarkerLoop, if_neg hw, hs.ioRead_one ha]
    dsimp only
    rw [window_shift, if_pos Int.one_pos, ih (hs.took 1) ha' hd', IOStream.took_bytewise,
      List.append_assoc, List.singleton_append]

theorem findMarkerLoop_found (h : FirstMarker s.ahead pre post) (hs : s.ReadsOn) (fuel : ℕ) :
    KCF.findMarkerLoop (fuel + (pre ++ MARKER).length + 1) s (window 0 6 []) =
      .ok (true, 1, s.bytewise (pre ++ MARKER).length) := by
  have hd : ∀ a b, pre ++ MARKER = a ++ b → b ≠ [] → ¬ MARKER <:+ [] ++ a :=
    fun a b hab hb => h.not_suffix hab.symm hb
  have hw : window 0 6 ([] ++ (pre ++ MARKER)) = MARKER := window_eq_marker_iff.mpr ⟨pre, rfl⟩
  rw [Nat.add_right_comm, findMarkerLoop_passes hs h.split hd, KCF.findMarkerLoop, if_pos hw]

theorem findMarkerLoop_none (h : ¬ MARKER <:+: s.ahead) (hs : s.ReadsOn) :
    KCF.findMarkerLoop (s.ahead.length + 1) s (window 0 6 []) =
      .ok (false, 0, (s.bytewise s.ahead.length).took 0) := by
  have hd : ∀ a b, s.ahead = a ++ b → b ≠ [] → ¬ MARKER <:+ [] ++ a := by
    rintro a b hab - ⟨e, he⟩
    exact h ⟨e, b, by rw [hab, ← List.nil_append a, ← he]⟩
  have hw : window 0 6 ([] ++ s.ahead) ≠ MARKER := by
    rw [Ne, window_eq_marker_iff, List.nil_append]
    exact fun hsuf => h hsuf.isInfix
  have hend : (s.bytewise s.ahead.length).ahead = [] := by
    rw [IOStream.ahead_bytewise, List.drop_length]
  rw [Nat.add_comm, findMarkerLoop_passes hs (List.append_nil _).symm hd, KCF.findMarkerLoop,
    if_neg hw, (hs.bytewise _).ioRead_end hend]
  rfl

theorem KCF.findMarker_found (kcf : KCF) (h : FirstMarker kcf.stream.ahead pre post)
    (hs : kcf.stream.ReadsOn) (hw : kcf.isWriting = false) (hr : kcf.readerState = .marker) :
    kcf.findMarker = .ok (.ok,
      { kcf with
        stream := kcf.stream.bytewise (pre.length + 6)
        readerState := .recordHeader }) := by
  have hl := findMarkerLoop_found h hs post.length
  have hlen : kcf.stream.ahead.length + 1 = post.length + (pre ++ MARKER).length + 1 := by
    rw [h.split, List.length_append, Nat.add_comm post.length]
  unfold KCF.findMarker
  rw [if_neg (by simp [hw, hr])]
  dsimp only
  rw [hlen, ← window_nil, hl, List.length_append]
  rfl

theorem KCF.findMarker_none (kcf : KCF) (h : ¬ MARKER <:+: kcf.stream.ahead)
    (hs : kcf.stream.ReadsOn) (hw : kcf.isWriting = false) (hr : kcf.readerState = .marker) :
    kcf.findMarker = .ok (.invalidFormat,
      { kcf with stream := (kcf.stream.bytewise kcf.stream.ahead.length).took 0 }) := by
  unfold KCF.findMarker
  rw [if_neg (by simp [hw, hr])]
  dsimp only
  rw [← window_nil, findMarkerLoop_none h hs]
  rfl

theorem exists_firstMarker (h : MARKER <:+: bytes) : ∃ pre post, FirstMarker bytes pre post := by
  have hex : ∃ n a b, bytes = a ++ MARKER ++ b ∧ a.length = n := by
    obtain ⟨a, b, hab⟩ := h
    exact ⟨_, a, b, hab.symm, rfl⟩
  classical
  obtain ⟨a, b, hab, hlen⟩ := Nat.find_spec hex
  refine ⟨a, b, hab, fun a' b' h' => ?_⟩
  rw [hlen]
  exact Nat.find_min' hex ⟨a', b', h', rfl⟩

/-- What the scan does to a stream: it comes back with success exactly where there is a marker
ahead, right behind the first one, and else with a format error at the end. -/
structure ScansTo (kcf : KCF) (e : KcfError) (k : KCF) : Prop where
  bytes : k.stream.bytes = kcf.stream.bytes
  ok_iff : e = .ok ↔ MARKER <:+: kcf.stream.ahead
  found : e = .ok → ∃ pre post, FirstMarker kcf.stream.ahead pre post ∧
    k.stream.pos = kcf.stream.pos + (pre ++ MARKER).length
  missing : e ≠ .ok → e = .invalidFormat ∧
    k.stream.pos = kcf.stream.pos + kcf.stream.ahead.length

/-- Past its guard the scan comes back from every stream, and finds the first marker. -/
theorem findMarker_scans {kcf : KCF} (hs : kcf.stream.ReadsOn) (hw : kcf.isWriting = false)
    (hr : kcf.readerState = .marker) : ∃ e k, kcf.findMarker = .ok (e, k) ∧ ScansTo kcf e k := by
  by_cases h : MARKER <:+: kcf.stream.ahead
  · obtain ⟨pre, post, hfirst⟩ := exists_firstMarker h
    refine ⟨_, _, kcf.findMarker_found hfirst hs hw hr, rfl, iff_of_true rfl h,
      fun _ => ⟨pre, post, hfirst, ?_⟩, fun hne => absurd rfl hne⟩
    rw [List.length_append]
    rfl
  · exact ⟨_, _, kcf.findMarker_none h hs hw hr, rfl, iff_of_false (by simp) h,
      nofun, fun _ => ⟨rfl, rfl⟩⟩

theorem findMarker_scans_cutOff :
    ∃ e k, (KCF.zero (.ofBytes (MARKER.take 5 ++ MARKER)) Heap.zeros).findMarker = .ok (e, k) ∧
      ScansTo (KCF.zero (.ofBytes (MARKER.take 5 ++ MARKER)) Heap.zeros) e k :=
  findMarker_scans (IOStream.ReadsFully.readsOn fun _ => rfl) rfl rfl

/-- A record as `KCF_read_record` returns it: the fields of the format and the data. -/
def Record.SameContents (R S : Record) : Prop :=
  R.headCRC = S.headCRC ∧ R.headType = S.headType ∧ R.headFlags = S.headFlags ∧
    R.headSize = S.headSize ∧ R.addedSize = S.addedSize ∧
    R.addedDataCRC32 = S.addedDataCRC32 ∧ R.bytes = S.bytes

/-- Opening a stream and reading the first record into the caller's one gives this record. -/
def Opens (s : IOStream) (heap : Heap) (R₀ R : Record) : Prop :=
  ∃ k₀ k₁ k₂ k₃ R', KCF.create (some s) heap = (.ok, some k₀) ∧
    k₀.startReading = .ok (.ok, k₁) ∧ k₁.findMarker = .ok (.ok, k₂) ∧
    k₂.readRecord (some R₀) = (.ok, k₃, some R') ∧ R'.SameContents R

theorem KCF.findMarker_parserState {kcf k : KCF} {e : KcfError}
    (h : kcf.findMarker = .ok (e, k)) : k.parserState = kcf.parserState := by
  unfold KCF.findMarker at h
  split at h
  · cases h
    rfl
  · obtain ⟨⟨found, ret, stream⟩, _, h⟩ := Exec.bind_ok h
    dsimp only at h
    split at h
    · cases h
      rfl
    · split at h
      · cases h
        rfl
      · cases h
        rfl

theorem KCF.create_eq {heap : Heap} (h : (heap 0).isSome) (s : IOStream) :
    KCF.create (some s) heap = (.ok, some (.zero s heap.next)) := by
  obtain ⟨fresh, hf⟩ := Option.isSome_iff_exists.mp h
  simp only [KCF.create, hf]

theorem KCF.startReading_zero (s : IOStream) (heap : Heap) :
    (zero s heap).startReading = .ok (.ok, (zero s heap).setState .readMarker) := rfl

theorem not_opens (s : IOStream) (heap : Heap) (R₀ R : Record) : ¬ Opens s heap R₀ R := by
  rintro ⟨k₀, k₁, k₂, k₃, R', h₀, h₁, h₂, h₃, -⟩
  have hk₀ : k₀ = .zero s heap.next := by
    cases hm : heap 0 with
    | none => simp [KCF.create, hm] at h₀
    | some fresh =>
      rw [KCF.create_eq (by simp [hm])] at h₀
      exact (Option.some.inj (congrArg Prod.snd h₀)).symm
  rw [hk₀, KCF.startReading_zero] at h₁
  cases h₁
  have hp : k₂.parserState = .readMarker := KCF.findMarker_parserState h₂
  rw [KCF.readRecord_of_ne (by simp [hp])] at h₃
  cases h₃

/-- No archive is opened: on a stream that holds a marker, creating the handle, starting to read
and finding the marker succeed, and then reading the record behind it is refused. -/
theorem open_refused (s : IOStream) (heap : Heap) (R₀ : Record) :
    (∀ R, ¬ Opens s heap R₀ R) ∧
      (s.ReadsFully → (heap 0).isSome → FirstMarker s.ahead pre post →
        ∃ k₀ k₁ k₂, KCF.create (some s) heap = (.ok, some k₀) ∧
          k₀.startReading = .ok (.ok, k₁) ∧ k₁.findMarker = .ok (.ok, k₂) ∧
          k₂.stream = s.advanced (pre.length + 6) ∧
          k₂.readRecord (some R₀) = (.invalidState, k₂, some R₀)) := by
  refine ⟨not_opens s heap R₀, fun hs h₀ hm => ?_⟩
  refine ⟨_, _, _, KCF.create_eq h₀ s, rfl,
    ((KCF.zero s heap.next).setState .readMarker).findMarker_found hm hs.readsOn rfl rfl,
    hs.bytewise_eq _, ?_⟩
  exact KCF.readRecord_of_ne (show ParserState.readMarker ≠ .readRecordHeader by decide) R₀

/-- An archive with one byte before its marker and a well-formed record behind it. -/
def smallArchive : IOStream := .ofBytes ([1] ++ MARKER ++ (recFix Record.zero).encode)

theorem firstMarker_smallArchive :
    FirstMarker smallArchive.ahead [1] (recFix Record.zero).encode := by
  refine ⟨rfl, fun a b h => ?_⟩
  cases a with
  | nil => cases h
  | cons x a => simp

theorem open_refused_smallArchive :
    ∃ k₀ k₁ k₂, KCF.create (some smallArchive) Heap.zeros = (.ok, some k₀) ∧
      k₀.startReading = .ok (.ok, k₁) ∧ k₁.findMarker = .ok (.ok, k₂) ∧
      k₂.stream = smallArchive.advanced 7 ∧
      k₂.readRecord (some Record.zero) = (.invalidState, k₂, some Record.zero) :=
  (open_refused smallArchive Heap.zeros Record.zero).2 (fun _ => rfl) rfl firstMarker_smallArchive

/-- The small archive is not opened. -/
theorem smallArchive_not_opened :
    FirstMarker smallArchive.ahead [1] (recFix Record.zero).encode ∧ smallArchive.ReadsFully ∧
      recValidate (recFix Record.zero) ∧
      ¬ Opens smallArchive Heap.zeros Record.zero (recFix Record.zero) :=
  ⟨firstMarker_smallArchive, fun _ => rfl, recValidate_recFix _, not_opens _ _ _ _⟩

end Kcf
