import Mathlib.Data.Nat.Notation
import Mathlib.Logic.Basic

/-! # Loops with a bounded number of rounds

A loop goes through its rounds until one of them leaves it, and fails where the
rounds it was given do not suffice. A loop of which each round brings a measure
down ends, and one that can always go on does not.
-/

namespace Loop

variable {σ β ε : Type*}

/-- A loop: a round goes on to the next one from a state, or leaves the loop with a result. -/
def loop (outOfFuel : ε) (round : σ → Except ε (σ ⊕ β)) : ℕ → σ → Except ε β
  | 0, _ => .error outOfFuel
  | fuel + 1, s =>
    match round s with
    | .error e => .error e
    | .ok (.inl s') => loop outOfFuel round fuel s'
    | .ok (.inr b) => .ok b

/-- `while (test) body`. -/
def while_ (outOfFuel : ε) (test : σ → Bool) (body : σ → Except ε σ) : ℕ → σ → Except ε σ :=
  loop outOfFuel fun s => if test s then (body s).map .inl else .ok (.inr s)

/-- `do body while (test)`. -/
def doWhile (outOfFuel : ε) (test : σ → Bool) (body : σ → Except ε σ) (fuel : ℕ) (s : σ) :
    Except ε σ :=
  body s >>= while_ outOfFuel test body fuel

variable {outOfFuel : ε} {round : σ → Except ε (σ ⊕ β)} {test : σ → Bool}
  {body : σ → Except ε σ} {fuel n : ℕ} {s : σ}

/-- A loop ends when each round keeps the invariant and brings the measure down, or leaves the loop
with what is wanted. -/
theorem loop_ends {I : σ → Prop} {Q : β → Prop} (m : σ → ℕ)
    (hround : ∀ s, I s → (∃ s', round s = .ok (.inl s') ∧ I s' ∧ m s' < m s) ∨
      ∃ b, round s = .ok (.inr b) ∧ Q b)
    (hs : I s) (hfuel : m s < fuel) : ∃ b, loop outOfFuel round fuel s = .ok b ∧ Q b := by
  induction fuel generalizing s with
  | zero => exact absurd hfuel (Nat.not_lt_zero _)
  | succ fuel ih =>
    rcases hround s hs with ⟨s', hr, hs', hm⟩ | ⟨b, hr, hb⟩
    · rw [loop, hr]
      exact ih hs' (Nat.lt_of_lt_of_le hm (Nat.le_of_lt_succ hfuel))
    · rw [loop, hr]
      exact ⟨b, rfl, hb⟩

/-- A loop does not end when each round that keeps the invariant goes on to the next. -/
theorem loop_endless {I : σ → Prop} (hround : ∀ s, I s → ∃ s', round s = .ok (.inl s') ∧ I s')
    (hs : I s) (fuel : ℕ) : loop outOfFuel round fuel s = .error outOfFuel := by
  induction fuel generalizing s with
  | zero => rfl
  | succ fuel ih =>
    obtain ⟨s', hr, hs'⟩ := hround s hs
    rw [loop, hr]
    exact ih hs'

theorem while_succ (fuel : ℕ) (s : σ) : while_ outOfFuel test body (fuel + 1) s =
    if test s then body s >>= while_ outOfFuel test body fuel else .ok s := by
  unfold while_
  rw [loop]
  cases test s with
  | false => rfl
  | true => cases h : body s <;> rfl

theorem while_counted {f : ℕ → σ} (htest : ∀ i < n, test (f i) = true)
    (hlast : test (f n) = false) (hbody : ∀ i < n, body (f i) = .ok (f (i + 1)))
    (hfuel : n < fuel) : while_ outOfFuel test body fuel (f 0) = .ok (f n) := by
  induction n generalizing f fuel with
  | zero =>
    obtain ⟨fuel, rfl⟩ := Nat.exists_eq_add_of_lt hfuel
    rw [Nat.zero_add, while_succ, hlast]
    rfl
  | succ n ih =>
    obtain ⟨fuel, rfl⟩ : ∃ k, fuel = k + 1 := ⟨fuel - 1, by omega⟩
    rw [while_succ, htest 0 (Nat.zero_lt_succ n), hbody 0 (Nat.zero_lt_succ n)]
    exact ih (fun i hi => htest (i + 1) (Nat.succ_lt_succ hi)) hlast
      (fun i hi => hbody (i + 1) (Nat.succ_lt_succ hi)) (Nat.lt_of_succ_lt_succ hfuel)

theorem doWhile_counted {f : ℕ → σ} (htest : ∀ i < n, test (f (i + 1)) = true)
    (hlast : test (f (n + 1)) = false) (hbody : ∀ i ≤ n, body (f i) = .ok (f (i + 1)))
    (hfuel : n < fuel) : doWhile outOfFuel test body fuel (f 0) = .ok (f (n + 1)) := by
  unfold doWhile
  rw [hbody 0 (Nat.zero_le n)]
  exact while_counted htest hlast (fun i hi => hbody (i + 1) hi) hfuel

/-- A loop that goes through the images of another one's states ends with the image of its end. -/
theorem while_map {τ : Type*} {test' : τ → Bool} {body' : τ → Except ε τ} (φ : σ → τ)
    (htest : ∀ s, test' (φ s) = test s) (hbody : ∀ s, body' (φ s) = (body s).map φ) (fuel : ℕ)
    (s : σ) :
    while_ outOfFuel test' body' fuel (φ s) = (while_ outOfFuel test body fuel s).map φ := by
  induction fuel generalizing s with
  | zero => rfl
  | succ fuel ih =>
    rw [while_succ, while_succ, htest, hbody]
    cases test s with
    | false => rfl
    | true =>
      cases body s with
      | error e => rfl
      | ok t => exact ih t

theorem doWhile_map {τ : Type*} {test' : τ → Bool} {body' : τ → Except ε τ} (φ : σ → τ)
    (htest : ∀ s, test' (φ s) = test s) (hbody : ∀ s, body' (φ s) = (body s).map φ) (fuel : ℕ)
    (s : σ) :
    doWhile outOfFuel test' body' fuel (φ s) = (doWhile outOfFuel test body fuel s).map φ := by
  unfold doWhile
  rw [hbody]
  cases body s with
  | error e => rfl
  | ok t => exact while_map φ htest hbody fuel t

/-- A loop whose test stays true does not end. -/
theorem while_endless {I : σ → Prop} (htest : ∀ s, I s → test s = true)
    (hbody : ∀ s, I s → ∃ s', body s = .ok s' ∧ I s') (hs : I s) (fuel : ℕ) :
    while_ outOfFuel test body fuel s = .error outOfFuel := by
  apply loop_endless (I := I) _ hs
  intro s hs
  obtain ⟨s', hb, hs'⟩ := hbody s hs
  refine ⟨s', ?_, hs'⟩
  rw [htest s hs, hb]
  rfl

end Loop
