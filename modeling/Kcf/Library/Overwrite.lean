import Mathlib.Data.List.Basic

/-! # Overwriting a stretch of a list

Storing a block at an offset replaces what stood there and extends the list
when the block reaches past its end. Everything before and after the block
stays in place.
-/

namespace List

variable {α : Type*} {l p q d e : List α} {i j : ℕ}

/-- Store a block at an offset, over what is there and past the end if need be. -/
def overwrite (l : List α) (i : ℕ) (d : List α) : List α :=
  l.take i ++ d ++ l.drop (i + d.length)

@[simp] theorem overwrite_nil (l : List α) (i : ℕ) : l.overwrite i [] = l := by
  simp [overwrite]

theorem overwrite_append (p q d : List α) :
    (p ++ q).overwrite p.length d = p ++ d ++ q.drop d.length := by
  simp [overwrite, List.drop_append]

theorem overwrite_block (h : e.length = d.length) :
    (p ++ e ++ q).overwrite p.length d = p ++ d ++ q := by
  rw [append_assoc, overwrite_append, drop_left' h]

theorem length_overwrite (h : i ≤ l.length) :
    (l.overwrite i d).length = max l.length (i + d.length) := by
  simp only [overwrite, length_append, length_take, length_drop]
  omega

theorem length_overwrite_of_le (h : i + d.length ≤ l.length) :
    (l.overwrite i d).length = l.length := by
  rw [length_overwrite (by omega), Nat.max_eq_left h]

theorem getElem?_overwrite_of_lt (h : j < i) (hi : i ≤ l.length) :
    (l.overwrite i d)[j]? = l[j]? := by
  rw [overwrite, append_assoc, getElem?_append_left (by rw [length_take]; omega),
    getElem?_take_of_lt h]

theorem getElem?_overwrite_of_le (h : i + d.length ≤ j) (hi : i ≤ l.length) :
    (l.overwrite i d)[j]? = l[j]? := by
  have hl : (l.take i ++ d).length = i + d.length := by
    rw [length_append, length_take, Nat.min_eq_left hi]
  rw [overwrite, getElem?_append_right (by omega), hl, getElem?_drop]
  congr 1
  omega

/-- Exchanging a block for one of its length shows only inside the block. -/
theorem getElem?_exchange (h : e.length = d.length)
    (hj : j < p.length ∨ p.length + e.length ≤ j) : (p ++ d ++ q)[j]? = (p ++ e ++ q)[j]? := by
  rw [← overwrite_block h]
  have hp : p.length ≤ (p ++ e ++ q).length := by simp only [length_append]; omega
  rcases hj with hj | hj
  · exact getElem?_overwrite_of_lt hj hp
  · exact getElem?_overwrite_of_le (h ▸ hj) hp

theorem overwrite_overwrite (h : i ≤ l.length) :
    (l.overwrite i d).overwrite (i + d.length) e = l.overwrite i (d ++ e) := by
  have hl : (l.take i ++ d).length = i + d.length := by
    rw [length_append, length_take, Nat.min_eq_left h]
  calc (l.overwrite i d).overwrite (i + d.length) e
      = (l.take i ++ d ++ l.drop (i + d.length)).overwrite (l.take i ++ d).length e := by
        rw [hl, overwrite.eq_def l]
    _ = l.overwrite i (d ++ e) := by
        rw [overwrite_append, drop_drop, overwrite, length_append, ← append_assoc, Nat.add_assoc]

theorem set_eq_overwrite {a : α} (h : i < l.length) : l.set i a = l.overwrite i [a] := by
  rw [set_eq_take_append_cons_drop, if_pos h, overwrite, append_assoc, singleton_append,
    length_singleton]

theorem take_overwrite (h : i + d.length ≤ l.length) :
    (l.overwrite i d).take (i + d.length) = l.take i ++ d := by
  refine take_left' ?_
  rw [length_append, length_take, Nat.min_eq_left (by omega)]

theorem drop_overwrite (h : i ≤ l.length) :
    (l.overwrite i d).drop i = d ++ l.drop (i + d.length) := by
  rw [overwrite, append_assoc, drop_left' (length_take_of_le h)]

theorem drop_overwrite_of_le (h : i ≤ l.length) (hj : i + d.length ≤ j) :
    (l.overwrite i d).drop j = l.drop j := by
  have hl : (l.take i ++ d).length = i + d.length := by
    rw [length_append, length_take_of_le h]
  rw [overwrite, drop_append, drop_eq_nil_of_le (hl ▸ hj), nil_append, hl, drop_drop,
    Nat.add_sub_cancel' hj]

theorem take_overwrite_left (h : i ≤ l.length) : (l.overwrite i d).take i = l.take i := by
  rw [overwrite, append_assoc, take_left' (length_take_of_le h)]

end List
