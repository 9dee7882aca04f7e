import Mathlib

/-!
# A list as a circle

`data.rotate i` is the circle read from index `i` on, and `(data.rotate i).take n` the `n` elements
from there.  Indices count on past the end of the list.

* `rotate_mod_double` — indices are as good modulo twice the length;
* `take_rotate` — the elements in two parts;
* `rotate_splice`, `rotate_wrapped`, `rotate_set` — what is written at an index, by the ways to
  write it;
* `take_rotate_append`, `drop_take_rotate` — what a write and a read leave of a window.
-/

namespace Ring

variable {α : Type*} {data written bytes : List α} {i k n : ℕ}

/-- A number below twice the modulus. -/
theorem mod_cases {x m : ℕ} (h : x < 2 * m) : x % m = x ∧ x < m ∨ x % m = x - m ∧ m ≤ x := by
  by_cases hlt : x < m
  · exact .inl ⟨Nat.mod_eq_of_lt hlt, hlt⟩
  · refine .inr ⟨?_, not_lt.mp hlt⟩
    rw [Nat.mod_eq_sub_mod (not_lt.mp hlt), Nat.mod_eq_of_lt (by omega)]

theorem rotate_mod_double (data : List α) (i : ℕ) :
    data.rotate (i % (2 * data.length)) = data.rotate i := by
  rw [← List.rotate_mod data (i % _), Nat.mod_mod_of_dvd _ (Dvd.intro_left 2 rfl), List.rotate_mod]

/-- The elements up to the end of the list, and those from its start. -/
theorem take_rotate (h : n ≤ data.length) : (data.rotate i).take n =
    (data.drop (i % data.length)).take n ++ data.take (n - (data.length - i % data.length)) := by
  rw [List.rotate_eq_drop_append_take_mod, List.take_append, List.length_drop, List.take_take]
  congr 2
  omega

theorem drop_rotate (data : List α) (i n : ℕ) : (data.rotate i).drop n =
    (data.drop (i % data.length)).drop n ++
      (data.take (i % data.length)).drop (n - (data.length - i % data.length)) := by
  rw [List.rotate_eq_drop_append_take_mod, List.drop_append, List.length_drop]

/-- What fits before the end is written in one part. -/
theorem rotate_splice (h : i % data.length + bytes.length ≤ data.length) :
    (data.take (i % data.length) ++ bytes ++ data.drop (i % data.length + bytes.length)).rotate i =
      bytes ++ (data.rotate i).drop bytes.length := by
  have hleft : (data.take (i % data.length)).length = i % data.length :=
    List.length_take_of_le (by omega)
  have hlen : (data.take (i % data.length) ++ bytes ++
      data.drop (i % data.length + bytes.length)).length = data.length := by
    rw [List.length_append, List.length_append, hleft, List.length_drop]
    omega
  have hnone : bytes.length - (data.length - i % data.length) = 0 := by omega
  rw [List.rotate_eq_drop_append_take_mod, hlen, List.append_assoc, List.drop_left' hleft,
    List.take_left' hleft, drop_rotate, List.drop_drop, hnone, List.drop_zero,
    List.append_assoc]

/-- What does not is written in two. -/
theorem rotate_wrapped (hpos : 0 < data.length) (h : bytes.length ≤ data.length)
    (hwrap : data.length < i % data.length + bytes.length) :
    (bytes.drop (data.length - i % data.length) ++
        (data.take (i % data.length)).drop (bytes.length - (data.length - i % data.length)) ++
        bytes.take (data.length - i % data.length)).rotate i =
      bytes ++ (data.rotate i).drop bytes.length := by
  have hlt : i % data.length < data.length := Nat.mod_lt _ hpos
  have hleft : (bytes.drop (data.length - i % data.length) ++
      (data.take (i % data.length)).drop (bytes.length - (data.length - i % data.length))).length =
        i % data.length := by
    rw [List.length_append, List.length_drop, List.length_drop, List.length_take]
    omega
  have hlen : (bytes.drop (data.length - i % data.length) ++
      (data.take (i % data.length)).drop (bytes.length - (data.length - i % data.length)) ++
        bytes.take (data.length - i % data.length)).length = data.length := by
    rw [List.length_append, hleft, List.length_take]
    omega
  have hpast : (data.drop (i % data.length)).drop bytes.length = [] := by
    rw [List.drop_drop]
    exact List.drop_of_length_le hwrap.le
  rw [List.rotate_eq_drop_append_take_mod, hlen, List.drop_left' hleft, List.take_left' hleft,
    drop_rotate, hpast, List.nil_append, ← List.append_assoc, List.take_append_drop]

/-- One element is written in its place. -/
theorem rotate_set (h : data ≠ []) (b : α) :
    (data.set (i % data.length) b).rotate i = [b] ++ (data.rotate i).drop 1 := by
  have hlt : i % data.length < data.length := Nat.mod_lt _ (List.length_pos_iff.mpr h)
  have hset : data.set (i % data.length) b = data.take (i % data.length) ++ [b] ++
      data.drop (i % data.length + [b].length) := by
    rw [List.set_eq_take_append_cons_drop, if_pos hlt, List.append_assoc]
    rfl
  rw [hset]
  exact rotate_splice (by simpa using hlt)

/-- **A write** behind a window lengthens it. -/
theorem take_rotate_append (hlen : written.length = data.length)
    (hroom : n + bytes.length ≤ data.length)
    (h : written.rotate (i + n) = bytes ++ (data.rotate (i + n)).drop bytes.length) :
    (written.rotate i).take (n + bytes.length) = (data.rotate i).take n ++ bytes := by
  rw [← List.rotate_rotate, ← List.rotate_rotate,
    List.rotate_eq_drop_append_take (l := written.rotate i) (by rw [List.length_rotate]; omega),
    List.rotate_eq_drop_append_take (l := data.rotate i) (by rw [List.length_rotate]; omega)] at h
  -- the window and what stands behind it
  generalize hw : written.rotate i = w at h ⊢
  generalize hd : data.rotate i = d at h ⊢
  have hwlen : w.length = data.length := by rw [← hw, List.length_rotate, hlen]
  have hdlen : d.length = data.length := by rw [← hd, List.length_rotate]
  rw [List.drop_append_of_le_length (by rw [List.length_drop]; omega), ← List.append_assoc] at h
  obtain ⟨hdrop, htake⟩ := List.append_inj h (by
    rw [List.length_append, List.length_drop, List.length_drop, List.length_drop]
    omega)
  rw [List.take_add, htake, hdrop, List.take_left' rfl]

/-- **A read** shortens it. -/
theorem drop_take_rotate (h : n ≤ data.length) (hk : k ≤ n) :
    ((data.rotate i).take n).drop k = (data.rotate (i + k)).take (n - k) := by
  have hlen := List.length_rotate data i
  rw [← List.rotate_rotate, List.rotate_eq_drop_append_take (l := data.rotate i) (by omega),
    List.drop_take, List.take_append_of_le_length (by rw [List.length_drop]; omega)]

end Ring
