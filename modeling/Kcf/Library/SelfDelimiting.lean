import Mathlib.Data.List.Basic
import Mathlib.Data.List.Infix
import Mathlib.Data.Option.Basic

/-! # Codes that tell where they end

A code is self-delimiting when a decoder finds the end of a code word in
whatever follows it. Then a byte string is made of code words in at most one
way, so that sequences of them are decoded one word after the other.
-/

/-- A code of nonempty words, with a decoder that takes one off the front of a string. -/
structure SelfDelimiting (α β : Type*) where
  encode : α → List β
  decode : List β → Option (α × List β)
  decode_encode : ∀ x bs, decode (encode x ++ bs) = some (x, bs)
  encode_decode : ∀ {bs x rest}, decode bs = some (x, rest) → encode x ++ rest = bs
  encode_ne_nil : ∀ x, encode x ≠ []

namespace SelfDelimiting

variable {α β : Type*} (C : SelfDelimiting α β)

/-- One word after the other. -/
def encodeAll (xs : List α) : List β := xs.flatMap C.encode

/-- Take words off the front until nothing is left, for a number of rounds. -/
def decodeFor : ℕ → List β → Option (List α)
  | _, [] => some []
  | 0, _ :: _ => none
  | n + 1, b :: bs =>
    match C.decode (b :: bs) with
    | none => none
    | some (x, rest) => (decodeFor n rest).map (x :: ·)

/-- The words a string is made of; no word is empty, so there are no more than it has letters. -/
def decodeAll (bs : List β) : Option (List α) := C.decodeFor bs.length bs

/-- Take words off the front for a number of rounds, or until there is none. -/
def frontFor : ℕ → List β → List α × List β
  | 0, bs => ([], bs)
  | n + 1, bs =>
    match C.decode bs with
    | none => ([], bs)
    | some (x, rest) =>
      let (xs, rest) := frontFor n rest
      (x :: xs, rest)

/-- The words that a string starts with, and what is left behind them. -/
def front (bs : List β) : List α × List β := C.frontFor bs.length bs

variable {C} {x y : α} {xs ys : List α} {as bs : List β} {n : ℕ}

@[simp] theorem encodeAll_nil : C.encodeAll [] = [] := rfl

@[simp] theorem encodeAll_cons : C.encodeAll (x :: xs) = C.encode x ++ C.encodeAll xs :=
  List.flatMap_cons ..

/-- Words that start the same string are the same, with the same rest. -/
theorem encode_append_inj (h : C.encode x ++ as = C.encode y ++ bs) : x = y ∧ as = bs := by
  have hd := C.decode_encode x as
  rw [h, C.decode_encode, Option.some.injEq, Prod.mk.injEq] at hd
  exact ⟨hd.1.symm, hd.2.symm⟩

theorem decodeFor_nil (n : ℕ) : C.decodeFor n [] = some [] := by
  cases n <;> rfl

theorem decodeFor_succ (h : as ≠ []) :
    C.decodeFor (n + 1) as = (C.decode as).bind fun r => (C.decodeFor n r.2).map (r.1 :: ·) := by
  obtain ⟨b, bs, rfl⟩ := List.exists_cons_of_ne_nil h
  rw [decodeFor]
  rcases C.decode (b :: bs) with _ | ⟨x, rest⟩
  · rfl
  · rfl

theorem encodeAll_of_decodeFor (h : C.decodeFor n bs = some xs) : C.encodeAll xs = bs := by
  induction n generalizing bs xs with
  | zero =>
    cases bs with
    | nil =>
      cases h
      rfl
    | cons b bs => cases h
  | succ n ih =>
    by_cases hne : bs = []
    · subst hne
      cases h
      rfl
    · rw [decodeFor_succ hne, Option.bind_eq_some_iff] at h
      obtain ⟨⟨x, rest⟩, hx, h⟩ := h
      obtain ⟨ys, hys, rfl⟩ := Option.map_eq_some_iff.mp h
      rw [encodeAll_cons, ih hys]
      exact C.encode_decode hx

theorem decodeFor_encodeAll (h : (C.encodeAll xs).length ≤ n) :
    C.decodeFor n (C.encodeAll xs) = some xs := by
  induction xs generalizing n with
  | nil => exact decodeFor_nil n
  | cons x xs ih =>
    have hpos := List.length_pos_of_ne_nil (C.encode_ne_nil x)
    rw [encodeAll_cons, List.length_append] at h
    obtain ⟨n, rfl⟩ : ∃ m, n = m + 1 := ⟨n - 1, by omega⟩
    rw [encodeAll_cons, decodeFor_succ (by simp [C.encode_ne_nil x]), C.decode_encode,
      Option.bind_some, ih (by omega)]
    rfl

/-- Decoding finds exactly the words a string is made of. -/
theorem decodeAll_eq_some_iff : C.decodeAll bs = some xs ↔ C.encodeAll xs = bs := by
  constructor
  · exact encodeAll_of_decodeFor
  · rintro rfl
    exact decodeFor_encodeAll le_rfl

theorem decode_nil : C.decode [] = none := by
  cases h : C.decode [] with
  | none => rfl
  | some r =>
    obtain ⟨hx, -⟩ := List.append_eq_nil_iff.mp (C.encode_decode h)
    exact absurd hx (C.encode_ne_nil r.1)

theorem length_decode {rest : List β} (h : C.decode bs = some (x, rest)) :
    rest.length < bs.length := by
  have hpos := List.length_pos_of_ne_nil (C.encode_ne_nil x)
  rw [← C.encode_decode h, List.length_append]
  omega

theorem frontFor_spec (h : bs.length ≤ n) :
    C.encodeAll (C.frontFor n bs).1 ++ (C.frontFor n bs).2 = bs ∧
      C.decode (C.frontFor n bs).2 = none := by
  induction n generalizing bs with
  | zero =>
    obtain rfl := List.length_eq_zero_iff.mp (Nat.le_zero.mp h)
    exact ⟨rfl, decode_nil⟩
  | succ n ih =>
    unfold frontFor
    cases hd : C.decode bs with
    | none => exact ⟨rfl, hd⟩
    | some r =>
      obtain ⟨x, rest⟩ := r
      have hlt := length_decode hd
      obtain ⟨hsplit, hnone⟩ := ih (show rest.length ≤ n by omega)
      refine ⟨?_, hnone⟩
      rw [encodeAll_cons, List.append_assoc, hsplit]
      exact C.encode_decode hd

/-- A string starts with words in one way only, as far as it does. -/
theorem encodeAll_append_inj (h : C.encodeAll xs ++ as = C.encodeAll ys ++ bs)
    (ha : C.decode as = none) (hb : C.decode bs = none) : xs = ys ∧ as = bs := by
  induction xs generalizing ys with
  | nil =>
    cases ys with
    | nil => exact ⟨rfl, h⟩
    | cons y ys =>
      rw [encodeAll_nil, List.nil_append, encodeAll_cons, List.append_assoc] at h
      rw [h, C.decode_encode] at ha
      cases ha
  | cons x xs ih =>
    rw [encodeAll_cons, List.append_assoc] at h
    cases ys with
    | nil =>
      rw [encodeAll_nil, List.nil_append] at h
      rw [← h, C.decode_encode] at hb
      cases hb
    | cons y ys =>
      rw [encodeAll_cons, List.append_assoc] at h
      obtain ⟨rfl, hrest⟩ := encode_append_inj h
      obtain ⟨rfl, hend⟩ := ih hrest
      exact ⟨rfl, hend⟩

/-- The words at the front are all there are, up to something that is none. -/
theorem front_eq_iff : C.front bs = (xs, as) ↔ C.encodeAll xs ++ as = bs ∧ C.decode as = none := by
  obtain ⟨hsplit, hnone⟩ := frontFor_spec (C := C) (le_refl bs.length)
  constructor
  · intro h
    rw [← front, h] at hsplit hnone
    exact ⟨hsplit, hnone⟩
  · rintro ⟨h, ha⟩
    obtain ⟨rfl, rfl⟩ := encodeAll_append_inj (h.trans hsplit.symm) ha hnone
    rfl

end SelfDelimiting
