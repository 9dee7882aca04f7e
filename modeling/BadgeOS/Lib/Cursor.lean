import Mathlib

/-!
# A memory behind a cursor

A device memory that is written one element at a time: every element goes to the cell under the
cursor, and a rule moves the cursor on.  Cells and elements are of any type, and the rule is any
function.

* `Mem.storeAll` — a list of elements, one after the other;
* `Mem.storeAll_get`, `Mem.storeAll_keep` — when the cursor comes to no cell twice, the `j`-th
  element is in the cell it was at then, and every cell it was not at is as it was;
* `iterate_raster` — the rule that walks a rectangle row by row.
-/

namespace Cursor

open Function

variable {κ α : Type*} [DecidableEq κ]

/-- The cells, and the one that is written next. -/
structure Mem (κ α : Type*) where
  cells : κ → α
  cursor : κ

def Mem.store (next : κ → κ) (m : Mem κ α) (x : α) : Mem κ α :=
  { cells := update m.cells m.cursor x, cursor := next m.cursor }

def Mem.storeAll (next : κ → κ) (m : Mem κ α) (xs : List α) : Mem κ α :=
  xs.foldl (Mem.store next) m

variable {next : κ → κ} {m : Mem κ α} {xs : List α}

theorem Mem.store_cells (next : κ → κ) (m : Mem κ α) (x : α) :
    (m.store next x).cells = update m.cells m.cursor x := rfl

theorem Mem.storeAll_concat (next : κ → κ) (m : Mem κ α) (xs : List α) (x : α) :
    m.storeAll next (xs ++ [x]) = (m.storeAll next xs).store next x := by
  rw [Mem.storeAll, List.foldl_append]
  rfl

theorem Mem.storeAll_cursor (next : κ → κ) (m : Mem κ α) (xs : List α) :
    (m.storeAll next xs).cursor = next^[xs.length] m.cursor := by
  induction xs using List.reverseRecOn with
  | nil => rfl
  | append_singleton xs x ih =>
      rw [Mem.storeAll_concat, List.length_append, List.length_singleton, iterate_succ_apply',
        ← ih]
      rfl

/-- **Frame.**  A cell the cursor is never at keeps its element. -/
theorem Mem.storeAll_keep {k : κ} (hk : ∀ j < xs.length, next^[j] m.cursor ≠ k) :
    (m.storeAll next xs).cells k = m.cells k := by
  induction xs using List.reverseRecOn with
  | nil => rfl
  | append_singleton xs x ih =>
      have hlast : (m.storeAll next xs).cursor ≠ k := by
        rw [Mem.storeAll_cursor]
        exact hk xs.length (by simp)
      rw [Mem.storeAll_concat, Mem.store_cells, update_of_ne hlast.symm]
      refine ih fun j hj => hk j ?_
      rw [List.length_append]
      omega

/-- **Readback.**  Each element is where the cursor was. -/
theorem Mem.storeAll_get
    (hinj : ∀ i j, i < xs.length → j < xs.length → next^[i] m.cursor = next^[j] m.cursor → i = j)
    {j : ℕ} (hj : j < xs.length) :
    (m.storeAll next xs).cells (next^[j] m.cursor) = xs[j] := by
  induction xs using List.reverseRecOn with
  | nil => simp at hj
  | append_singleton xs x ih =>
      have hlen : (xs ++ [x]).length = xs.length + 1 := by simp
      rw [Mem.storeAll_concat, Mem.store_cells]
      by_cases hlast : j = xs.length
      · subst hlast
        rw [← Mem.storeAll_cursor, update_self]
        simp
      · have hlt : j < xs.length := by omega
        have hne : next^[j] m.cursor ≠ (m.storeAll next xs).cursor := by
          rw [Mem.storeAll_cursor]
          intro heq
          exact hlast (hinj j xs.length hj (by omega) heq)
        have hinit := ih (fun i j hi hj => hinj i j (by omega) (by omega)) hlt
        rw [update_of_ne hne, hinit, List.getElem_append_left hlt]

/-! ### Rows and rectangles -/

section Row

variable {α : Type*} {next : ℕ × ℕ → ℕ × ℕ} {m : Mem (ℕ × ℕ) α} {xs : List α} {row col : ℕ}

/-- **A row.**  A cursor that goes along a row leaves the elements there, in order. -/
theorem Mem.storeAll_row_get (hpos : ∀ j < xs.length, next^[j] m.cursor = (row, col + j)) {j : ℕ}
    (hj : j < xs.length) : (m.storeAll next xs).cells (row, col + j) = xs[j] := by
  rw [← hpos j hj]
  refine Mem.storeAll_get (fun i k hi hk heq => ?_) hj
  rw [hpos i hi, hpos k hk] at heq
  exact Nat.add_left_cancel (Prod.mk.inj heq).2

theorem Mem.storeAll_row_keep (hpos : ∀ j < xs.length, next^[j] m.cursor = (row, col + j))
    {r c : ℕ} (h : ¬ (r = row ∧ col ≤ c ∧ c < col + xs.length)) :
    (m.storeAll next xs).cells (r, c) = m.cells (r, c) := by
  refine Mem.storeAll_keep fun j hj heq => h ?_
  rw [hpos j hj] at heq
  obtain ⟨rfl, rfl⟩ := Prod.mk.inj heq
  exact ⟨rfl, by omega, by omega⟩

end Row

/-- The next cell of the rectangle of rows `r0` to `r1` and columns `c0` to `c1`, and from its
end back to its start. -/
def raster (r0 r1 c0 c1 : ℕ) (k : ℕ × ℕ) : ℕ × ℕ :=
  if k.2 = c1 then (if k.1 = r1 then r0 else k.1 + 1, c0) else (k.1, k.2 + 1)

/-- **Row by row**, as far as the rectangle goes. -/
theorem iterate_raster {r0 r1 c0 c1 w h : ℕ} (hw : c0 + w = c1 + 1) (hh : r0 + h = r1 + 1)
    (hwpos : 0 < w) {j : ℕ} (hj : j < w * h) :
    (raster r0 r1 c0 c1)^[j] (r0, c0) = (r0 + j / w, c0 + j % w) := by
  induction j with
  | zero => simp
  | succ j ih =>
      have hprev := ih (by omega)
      have hmod := Nat.mod_lt j hwpos
      have hdm := Nat.div_add_mod j w
      rw [iterate_succ_apply', hprev]
      by_cases hend : j % w = w - 1
      · -- the end of a row, and not of the last
        have hrow : j + 1 = w * (j / w + 1) := by
          rw [Nat.mul_add, Nat.mul_one]
          omega
        have hlast : j / w + 1 < h := by
          rw [hrow] at hj
          exact Nat.lt_of_mul_lt_mul_left hj
        have hdiv : (j + 1) / w = j / w + 1 := by
          rw [hrow, Nat.mul_div_cancel_left _ hwpos]
        have hzero : (j + 1) % w = 0 := by
          rw [hrow, Nat.mul_mod_right]
        rw [hdiv, hzero, raster, if_pos (show c0 + j % w = c1 by omega),
          if_neg (show r0 + j / w ≠ r1 by omega)]
        rfl
      · have hdiv : (j + 1) / w = j / w := by
          rw [Nat.div_eq_iff hwpos]
          rw [Nat.mul_comm] at hdm
          omega
        have hone : (j + 1) % w = j % w + 1 := by
          have hdm' := Nat.div_add_mod (j + 1) w
          rw [hdiv] at hdm'
          omega
        rw [hdiv, hone, raster, if_neg (show c0 + j % w ≠ c1 by omega), Nat.add_assoc]

end Cursor
