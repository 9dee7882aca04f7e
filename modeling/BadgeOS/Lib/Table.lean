import Mathlib

/-!
# Append-only tables

A list used as a table: an entry is named by its position, new entries go to the end, and a
step replaces one entry.  The lemmas say what a lookup, a count and a sum see of a
replacement and of a new entry.
-/

namespace Table

variable {α : Type*}

theorem lt_of_get {l : List α} {i : ℕ} {a : α} (h : l[i]? = some a) : i < l.length :=
  (List.getElem?_eq_some_iff.1 h).1

/-- A lookup after entry `i` was replaced. -/
theorem get_set {l : List α} {i j : ℕ} {a b : α} (h : l[i]? = some a) :
    (l.set i b)[j]? = if i = j then some b else l[j]? := by
  rw [List.getElem?_set]
  split
  · rw [if_pos (lt_of_get h)]
  · rfl

/-- A lookup after an entry was added. -/
theorem get_push (l : List α) (j : ℕ) (a : α) :
    (l ++ [a])[j]? = if j = l.length then some a else l[j]? := by
  rw [List.getElem?_append]
  by_cases hj : j = l.length
  · simp [hj]
  · by_cases hlt : j < l.length
    · simp [hlt, hj]
    · have hlen : l.length ≤ j := Nat.le_of_not_lt hlt
      have hpos : j - l.length ≠ 0 := by omega
      rw [if_neg hlt, if_neg hj, List.getElem?_eq_none hlen]
      exact List.getElem?_eq_none (by simp; omega)

/-- Replacing entry `i` moves the count by what the old and the new entry contribute. -/
theorem countP_set {l : List α} {i : ℕ} {a b : α} (p : α → Bool) (h : l[i]? = some a) :
    (l.set i b).countP p + (if p a then 1 else 0) = l.countP p + if p b then 1 else 0 := by
  induction l generalizing i with
  | nil => simp at h
  | cons x xs ih =>
      cases i with
      | zero =>
          obtain rfl : x = a := by simpa using h
          simp only [List.set_cons_zero, List.countP_cons]
          omega
      | succ i =>
          have := ih (i := i) (by simpa using h)
          simp only [List.set_cons_succ, List.countP_cons]
          omega

/-- Replacing entry `i` moves a sum by what the old and the new entry contribute. -/
theorem sum_map_set {l : List α} {i : ℕ} {a b : α} (f : α → ℕ) (h : l[i]? = some a) :
    ((l.set i b).map f).sum + f a = (l.map f).sum + f b := by
  induction l generalizing i with
  | nil => simp at h
  | cons x xs ih =>
      cases i with
      | zero =>
          obtain rfl : x = a := by simpa using h
          simp only [List.set_cons_zero, List.map_cons, List.sum_cons]
          omega
      | succ i =>
          have := ih (i := i) (by simpa using h)
          simp only [List.set_cons_succ, List.map_cons, List.sum_cons]
          omega

end Table
