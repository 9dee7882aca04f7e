import Mathlib

/-!
# The prediction of motion vectors in H.264

The motion around a partition, in one list, and the vectors that are predicted from it.  A picture
of `width` macroblocks in a row is decoded in raster order, one slice for all of it; blocks have
4x4 samples.

* `Motion`, `Field` — the motion of a block, and of the blocks of a macroblock;
* `neighbour`, `predict`, `skipMotion` — what is around a partition, and what is predicted there;
* `motionAt`, `neighbour_eq` — the motion of the picture, in which the neighbours are found.
-/

namespace AvcMotion

/-- The motion of a block, in its reference; what does not use the list has reference -1. -/
structure Motion where
  ref : ℤ
  mv : ℤ × ℤ
  deriving DecidableEq, Repr

/-- The motion of the blocks of a macroblock; `none` is a block that is not decoded yet. -/
abbrev Field := ℕ → ℕ → Option Motion

/-- The motion of the block at `x`, `y` from the corner of the current macroblock, behind the
macroblocks `done`: in the macroblock to the left, above, above to the right, above to the left, or
in the current one.  `none` is "not available". -/
def neighbour (width : ℕ) (done : List Field) (current : Field) (x y : ℤ) : Option Motion :=
  let addr := done.length
  if y < 0 then
    if x < 0 then
      if addr % width ≠ 0 ∧ width < addr then
        done[addr - width - 1]?.bind fun mb => mb (x + 4).toNat (y + 4).toNat
      else none
    else if x < 4 then
      if width ≤ addr then done[addr - width]?.bind fun mb => mb x.toNat (y + 4).toNat
      else none
    else if width ≤ addr ∧ (addr + 1) % width ≠ 0 then
      done[addr - width + 1]?.bind fun mb => mb (x - 4).toNat (y + 4).toNat
    else none
  else if x < 0 then
    if addr % width ≠ 0 then done[addr - 1]?.bind fun mb => mb (x + 4).toNat y.toNat
    else none
  else if x < 4 then current x.toNat y.toNat
  else none

def median (a b c : ℤ) : ℤ := a + b + c - min a (min b c) - max a (max b c)

/-- The vector of the only one of three with the same reference, or the median of all. -/
def oneOrMedian (a b c : Motion) (ref : ℤ) : ℤ × ℤ :=
  match [a, b, c].filter fun m => decide (m.ref = ref) with
  | [m] => m.mv
  | _ => (median a.mv.1 b.mv.1 c.mv.1, median a.mv.2 b.mv.2 c.mv.2)

/-- The prediction from the blocks to the left, above, above to the right and above to the left. -/
def mvPrediction (a b c d : Option Motion) (ref : ℤ) : ℤ × ℤ :=
  let c := if c.isNone then d else c
  let (b, c) := if b.isNone ∧ c.isNone ∧ a.isSome then (a, a) else (b, c)
  oneOrMedian (a.getD ⟨-1, (0, 0)⟩) (b.getD ⟨-1, (0, 0)⟩) (c.getD ⟨-1, (0, 0)⟩) ref

/-- What is predicted for a partition of width `w`. -/
def predict (width : ℕ) (done : List Field) (current : Field) (x y w : ℕ) (ref : ℤ) : ℤ × ℤ :=
  mvPrediction (neighbour width done current (x - 1) y) (neighbour width done current x (y - 1))
    (neighbour width done current (x + w) (y - 1))
    (neighbour width done current (x - 1) (y - 1)) ref

/-- Nothing of a macroblock is decoded. -/
def undecoded : Field := fun _ _ => none

/-- The motion of a skipped macroblock. -/
def skipMotion (width : ℕ) (done : List Field) : ℤ × ℤ :=
  let a := neighbour width done undecoded (-1) 0
  let b := neighbour width done undecoded 0 (-1)
  if a = none ∨ b = none ∨ a = some ⟨0, (0, 0)⟩ ∨ b = some ⟨0, (0, 0)⟩ then (0, 0)
  else predict width done undecoded 0 0 4 0

/-! ### Where the neighbours are -/

section Neighbours

variable {width : ℕ} {done : List Field} {current : Field}

/-- The motion of a block of the picture. -/
def motionAt (width : ℕ) (done : List Field) (current : Field) (i j : ℕ) : Option Motion :=
  let m := j / 4 * width + i / 4
  if m < done.length then done[m]?.bind fun mb => mb (i % 4) (j % 4)
  else if m = done.length then current (i % 4) (j % 4)
  else none

theorem motionAt_done {i j m : ℕ} (hm : j / 4 * width + i / 4 = m) (h : m < done.length) :
    motionAt width done current i j = done[m]?.bind fun mb => mb (i % 4) (j % 4) := by
  rw [motionAt, hm]
  exact if_pos h

theorem motionAt_current {i j : ℕ} (hm : j / 4 * width + i / 4 = done.length) :
    motionAt width done current i j = current (i % 4) (j % 4) := by
  rw [motionAt, hm]
  simp only [lt_irrefl, if_false, if_true]

theorem motionAt_later {i j : ℕ} (hm : done.length < j / 4 * width + i / 4) :
    motionAt width done current i j = none := by
  rw [motionAt, if_neg (by omega), if_neg (by omega)]

/-- More of the current macroblock. -/
theorem motionAt_update (current' : Field) (i j : ℕ) :
    motionAt width done current' i j =
      if j / 4 * width + i / 4 = done.length then current' (i % 4) (j % 4)
      else motionAt width done current i j := by
  rcases Nat.lt_trichotomy (j / 4 * width + i / 4) done.length with hlt | heq | hgt
  · rw [motionAt_done rfl hlt, motionAt_done rfl hlt, if_neg hlt.ne]
  · rw [motionAt_current heq, if_pos heq]
  · rw [motionAt_later hgt, motionAt_later hgt, if_neg hgt.ne']

/-- One more macroblock. -/
theorem motionAt_append (mb : Field) (i j : ℕ) :
    motionAt width (done ++ [mb]) undecoded i j =
      if j / 4 * width + i / 4 = done.length then mb (i % 4) (j % 4)
      else motionAt width done current i j := by
  have hlen : (done ++ [mb]).length = done.length + 1 := by simp
  rcases Nat.lt_trichotomy (j / 4 * width + i / 4) done.length with hlt | heq | hgt
  · rw [motionAt_done rfl (by omega), motionAt_done rfl hlt, if_neg hlt.ne,
      List.getElem?_append_left hlt]
  · rw [motionAt_done heq (by omega), if_pos heq, List.getElem?_concat_length]
    rfl
  · rw [motionAt_later hgt, if_neg hgt.ne']
    rcases Nat.lt_or_ge (done.length + 1) (j / 4 * width + i / 4) with hfar | hnext
    · rw [motionAt_later (by omega)]
    · rw [motionAt_current (by omega)]
      rfl

/-- A block of the row of macroblocks above. -/
theorem motionAt_above {q r i m : ℕ} (hlength : done.length = (q + 1) * width + r)
    (hm : m + width + r = done.length + i / 4) (h : i / 4 < width) :
    motionAt width done current i (4 * ((q + 1 : ℕ) : ℤ) + -1).toNat =
      done[m]?.bind fun mb => mb (i % 4) 3 := by
  have hj : (4 * ((q + 1 : ℕ) : ℤ) + -1).toNat / 4 = q ∧
      (4 * ((q + 1 : ℕ) : ℤ) + -1).toNat % 4 = 3 := by omega
  have hlen : done.length = q * width + width + r := by rw [hlength, Nat.succ_mul]
  rw [motionAt_done (m := m) (by rw [hj.1]; omega) (by omega), hj.2]

/-- **The neighbours are those of the picture**, where the current macroblock is number `r` of row
`q`. -/
theorem neighbour_eq {q r : ℕ} (hlength : done.length = q * width + r) (hr : r < width) {x y : ℤ}
    (hx : -1 ≤ x) (hx' : x ≤ 4) (hy : -1 ≤ y) (hy' : y < 4) :
    neighbour width done current x y =
      if 0 ≤ 4 * r + x ∧ 4 * r + x < 4 * width ∧ 0 ≤ 4 * q + y then
        motionAt width done current (4 * r + x).toNat (4 * q + y).toNat
      else none := by
  have hleft : done.length % width = r := by
    rw [hlength, Nat.mul_add_mod_self_right, Nat.mod_eq_of_lt hr]
  have hright : (done.length + 1) % width ≠ 0 ↔ r + 1 < width := by
    rw [hlength, Nat.add_assoc, Nat.mul_add_mod_self_right]
    rcases Nat.lt_or_ge (r + 1) width with hlt | hge
    · simp [Nat.mod_eq_of_lt hlt, hlt]
    · simp [show r + 1 = width by omega]
  rw [neighbour]
  simp only [hleft, hright]
  by_cases hrow : y < 0
  · obtain rfl : y = -1 := by omega
    rw [if_pos hrow]
    rcases q with _ | q
    · rw [Nat.zero_mul, Nat.zero_add] at hlength
      simp only [hlength, show ¬ width < r by omega, show ¬ width ≤ r by omega, and_false,
        false_and, if_false, ite_self]
      rw [if_neg (by omega)]
    · have hlen : done.length = q * width + width + r := by rw [hlength, Nat.succ_mul]
      have hup : 0 ≤ 4 * ((q + 1 : ℕ) : ℤ) + -1 := by omega
      have habove : width ≤ done.length := by omega
      simp only [hup, and_true, habove, true_and, if_true]
      by_cases hleftOf : x < 0
      · obtain rfl : x = -1 := by omega
        rw [if_pos hleftOf]
        by_cases hedge : r = 0
        · rw [if_neg (by omega), if_neg (by omega)]
        · rw [if_pos (by omega), if_pos (by omega),
            motionAt_above (m := done.length - width - 1) hlength (by omega) (by omega),
            show (4 * (r : ℤ) + -1).toNat % 4 = 3 by omega]
          rfl
      · rw [if_neg hleftOf]
        by_cases hown : x < 4
        · rw [if_pos hown, if_pos (by omega),
            motionAt_above (m := done.length - width) hlength (by omega) (by omega),
            show (4 * (r : ℤ) + x).toNat % 4 = x.toNat by omega]
          rfl
        · rw [if_neg hown]
          obtain rfl : x = 4 := by omega
          by_cases hlast : r + 1 < width
          · rw [if_pos hlast, if_pos (by omega),
              motionAt_above (m := done.length - width + 1) hlength (by omega) (by omega),
              show (4 * (r : ℤ) + 4).toNat % 4 = 0 by omega]
            rfl
          · rw [if_neg hlast, if_neg (by omega)]
  · have hdown : 0 ≤ 4 * (q : ℤ) + y := by omega
    have hj : (4 * (q : ℤ) + y).toNat / 4 = q ∧ (4 * (q : ℤ) + y).toNat % 4 = y.toNat := by omega
    rw [if_neg hrow]
    simp only [hdown, and_true]
    by_cases hleftOf : x < 0
    · obtain rfl : x = -1 := by omega
      rw [if_pos hleftOf]
      by_cases hedge : r = 0
      · rw [if_neg (by omega), if_neg (by omega)]
      · rw [if_pos hedge, if_pos (by omega),
          motionAt_done (m := done.length - 1) (by rw [hj.1]; omega) (by omega), hj.2,
          show (4 * (r : ℤ) + -1).toNat % 4 = 3 by omega]
        rfl
    · rw [if_neg hleftOf]
      by_cases hown : x < 4
      · rw [if_pos hown, if_pos (by omega), motionAt_current (by rw [hj.1]; omega), hj.2,
          show (4 * (r : ℤ) + x).toNat % 4 = x.toNat by omega]
      · rw [if_neg hown]
        split
        · rw [motionAt_later (by rw [hj.1]; omega)]
        · rfl

end Neighbours

end AvcMotion
