import Mathlib.Data.List.Basic
import Mathlib.Order.Basic

/-! Positional edits of a list: cutting or padding to a length, overwriting a
window, and inserting at a position. Positions past the end pad with a filler. -/
namespace MGFileSystem.Overlay
variable {α : Type*} (fill : α)

/-- The first `n` elements, padded to length `n`. -/
def fit (n : Nat) (c : List α) : List α := c.take n ++ List.replicate (n - c.length) fill

/-- Overwrite the window that starts at `offset` with `d`. -/
def overwrite (c : List α) (offset : Nat) (d : List α) : List α :=
  fit fill offset c ++ d ++ c.drop (offset + d.length)

/-- Insert `d` at `offset`, moving the rest up. -/
def insert (c : List α) (offset : Nat) (d : List α) : List α :=
  fit fill offset c ++ d ++ c.drop offset

@[simp] theorem length_fit (n : Nat) (c : List α) : (fit fill n c).length = n := by
  simp only [fit, List.length_append, List.length_take, List.length_replicate]
  omega

theorem fit_of_le {n : Nat} {c : List α} (h : n ≤ c.length) : fit fill n c = c.take n := by
  rw [fit, Nat.sub_eq_zero_of_le h, List.replicate_zero, List.append_nil]

@[simp] theorem fit_length (c : List α) : fit fill c.length c = c := by
  rw [fit_of_le fill (Nat.le_refl _), List.take_length]

theorem fit_of_ge {n : Nat} {c : List α} (h : c.length ≤ n) :
    fit fill n c = c ++ List.replicate (n - c.length) fill := by
  rw [fit, List.take_of_length_le h]

/-- The window and what it replaces give the larger of the two extents. -/
theorem length_overwrite (c : List α) (offset : Nat) (d : List α) :
    (overwrite fill c offset d).length = max c.length (offset + d.length) := by
  simp only [overwrite, List.length_append, length_fit, List.length_drop]
  omega

theorem getElem?_overwrite_window (c d : List α) {offset i : Nat} (hi : i < d.length) :
    (overwrite fill c offset d)[offset + i]? = d[i]? := by
  rw [overwrite, List.append_assoc, List.getElem?_append_right (by simp), length_fit,
    Nat.add_sub_cancel_left, List.getElem?_append_left hi]

theorem getElem?_overwrite_before (l d : List α) {offset i : Nat} (hi : i < offset) (hl : i < l.length) :
    (overwrite fill l offset d)[i]? = l[i]? := by
  rw [overwrite, List.append_assoc, List.getElem?_append_left (by simpa using hi), fit,
    List.getElem?_append_left (by rw [List.length_take]; omega), List.getElem?_take_of_lt hi]

theorem getElem?_overwrite_after (l d : List α) {offset i : Nat} (hi : offset + d.length ≤ i) :
    (overwrite fill l offset d)[i]? = l[i]? := by
  rw [overwrite, List.getElem?_append_right (by simpa using hi), List.getElem?_drop,
    List.length_append, length_fit, Nat.add_sub_cancel' hi]

theorem insert_at_or_past_end {c : List α} {offset : Nat} (h : c.length ≤ offset) (d : List α) :
    insert fill c offset d = fit fill offset c ++ d := by
  rw [insert, List.drop_of_length_le h, List.append_nil]

theorem insert_at_end (c d : List α) : insert fill c c.length d = c ++ d := by
  rw [insert_at_or_past_end fill (Nat.le_refl _), fit_length]

theorem length_insert (c d : List α) (offset : Nat) :
    (insert fill c offset d).length = max c.length offset + d.length := by
  simp only [insert, List.length_append, length_fit, List.length_drop]
  omega

/-- Inserting nothing leaves the list as it is, but for a position past the end, which it fills up to. -/
theorem insert_nil_eq_self_iff (c : List α) (offset : Nat) : insert fill c offset [] = c ↔ offset ≤ c.length := by
  constructor
  · intro h
    have hl := congrArg List.length h
    rw [length_insert, List.length_nil] at hl
    omega
  · intro h
    rw [insert, fit_of_le fill h, List.append_nil, List.take_append_drop]

/-- Inserting overwrites exactly when there is nothing at or after the position
to move, or nothing to insert. -/
theorem insert_eq_overwrite_iff (c d : List α) (offset : Nat) :
    insert fill c offset d = overwrite fill c offset d ↔ c.length ≤ offset ∨ d = [] := by
  constructor
  · intro h
    have hl := congrArg List.length h
    rw [length_insert, length_overwrite] at hl
    rcases Nat.lt_or_ge offset c.length with ho | ho
    · exact .inr (List.length_eq_zero_iff.mp (by omega))
    · exact .inl ho
  · rintro (h | rfl)
    · rw [insert, overwrite, List.drop_of_length_le h, List.drop_of_length_le (by omega)]
    · rfl

end MGFileSystem.Overlay
