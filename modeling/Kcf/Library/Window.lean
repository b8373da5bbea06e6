import Mathlib.Data.List.Infix

/-! # Sliding windows

The last elements of a sequence, with padding in front of a short one. A window
that starts out as padding shows a pattern exactly when the sequence ends with
it, unless the pattern starts like the padding.
-/

namespace Window

variable {α : Type*} {z : α} {n : ℕ} {c p : List α}

/-- The last `n` elements of a sequence, padded in front. -/
def window (z : α) (n : ℕ) (c : List α) : List α := (List.replicate n z ++ c).drop c.length

theorem window_nil (z : α) (n : ℕ) : window z n [] = List.replicate n z := by
  simp [window]

@[simp] theorem length_window (z : α) (n : ℕ) (c : List α) : (window z n c).length = n := by
  simp [window]

theorem window_snoc (hn : 0 < n) (x : α) :
    window z n (c ++ [x]) = (window z n c).drop 1 ++ [x] := by
  have hl : c.length + 1 ≤ (List.replicate n z ++ c).length := by
    rw [List.length_append, List.length_replicate]
    omega
  rw [window, window, List.drop_drop, List.length_append, List.length_singleton,
    ← List.append_assoc, List.drop_append_of_le_length hl]

/-- A window shows a pattern when the sequence ends with it. -/
theorem window_eq_iff (hp : p.length = n) (hz : p.head? ≠ some z) :
    window z n c = p ↔ p <:+ c := by
  subst hp
  constructor
  · intro h
    rcases Nat.lt_or_ge c.length p.length with hlt | hge
    · refine absurd ?_ hz
      rw [← h, window, List.drop_append_of_le_length (by simpa using hlt.le), List.drop_replicate,
        List.head?_append, List.head?_replicate, if_neg (by omega)]
      rfl
    · rw [← h, window, List.drop_append, List.drop_replicate, Nat.sub_eq_zero_of_le hge,
        List.length_replicate]
      exact List.drop_suffix ..
  · rintro ⟨a, rfl⟩
    rw [window, ← List.append_assoc, List.drop_left']
    simp [Nat.add_comm]

end Window
