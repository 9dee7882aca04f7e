import BadgeOS.Lib.AvcMotion
import Mathlib

/-!
# The motion around a block

The neighbour state of `coda-cube.c`, a cell for each block of 4x4 samples, and the motion vectors
that are predicted from it.  While it holds what a decoder has decoded, both predict the same.

* `MbSize`, `Cell`, `Grid` — the picture, and its cells;
* `nb`, `mvp`, `pskipMv`, `setblk` — the prediction of motion vectors;
* `Agrees` — the grid is that of a decoder, `Agrees.setblk` and `Agrees.whole`;
* `mvp_eq`, `pskipMv_eq` — the predictions are those of a decoder.
-/

namespace BadgeOS.CodaCube

open AvcMotion

structure MbSize where
  WMB : ℕ
  HMB : ℕ
  WMB_pos : 0 < WMB
  HMB_pos : 0 < HMB

namespace MbSize

variable (S : MbSize)

/-- `x4`, `y4` -/
def x4 (m : ℕ) : ℕ := m % S.WMB * 4
def y4 (m : ℕ) : ℕ := m / S.WMB * 4

/-- The macroblocks of the picture. -/
def mbs : ℕ := S.WMB * S.HMB

/-- `W` and `H` -/
def W : ℕ := S.WMB * 16
def H : ℕ := S.HMB * 16

theorem mbs_pos : 0 < S.mbs := Nat.mul_pos S.WMB_pos S.HMB_pos

end MbSize

/-- The casts to `int8_t` and `int16_t`. -/
def int8 (v : ℤ) : ℤ := Int.bmod v (2 ^ 8)

def int16 (v : ℤ) : ℤ := Int.bmod v (2 ^ 16)

/-- A value that the cast keeps. -/
def Is16 (v : ℤ) : Prop := -2 ^ 15 ≤ v ∧ v < 2 ^ 15

instance (v : ℤ) : Decidable (Is16 v) := by
  unfold Is16
  infer_instance

theorem is16_zero : Is16 0 := ⟨by decide, by decide⟩

/-- `sdone`, `sref` and `smv` of a block of 4x4 samples. -/
structure Cell where
  done : Bool
  ref : ℤ
  mv : ℤ × ℤ
  deriving DecidableEq, Repr

abbrev Grid := ℕ → ℕ → Cell

section Prediction

variable (S : MbSize) (g : Grid)

/-- `nb` -/
def nb (x y : ℤ) : Bool × Motion :=
  if x < 0 ∨ y < 0 ∨ x ≥ S.WMB * 4 ∨ y ≥ S.HMB * 4 ∨ (g x.toNat y.toNat).done = false then
    (false, ⟨-1, (0, 0)⟩)
  else (true, ⟨(g x.toNat y.toNat).ref, (g x.toNat y.toNat).mv⟩)

/-- `med` -/
def med (a b c : ℤ) : ℤ :=
  let (a, b) := if a > b then (b, a) else (a, b)
  let b := if b > c then c else b
  if a > b then a else b

/-- `mvp` -/
def mvp (x y : ℤ) (w : ℕ) (r : ℤ) : ℤ × ℤ :=
  let (A, a) := nb S g (x - 1) y
  let (B, b) := nb S g x (y - 1)
  let (C, c) := nb S g (x + w) (y - 1)
  let (C, c) := if C then (C, c) else nb S g (x - 1) (y - 1)
  let (b, c) := if !B && !C && A then (a, a) else (b, c)
  let n := (if a.ref = r then 1 else 0) + (if b.ref = r then 1 else 0) + if c.ref = r then 1 else 0
  if n = 1 then
    if a.ref = r then a.mv else if b.ref = r then b.mv else c.mv
  else (med a.mv.1 b.mv.1 c.mv.1, med a.mv.2 b.mv.2 c.mv.2)

/-- `pskip_mv` -/
def pskipMv (x y : ℤ) : ℤ × ℤ :=
  let (A, a) := nb S g (x - 1) y
  let (B, b) := nb S g x (y - 1)
  if !A || !B || (a.ref = 0 && a.mv.1 = 0 && a.mv.2 = 0) || (b.ref = 0 && b.mv.1 = 0 && b.mv.2 = 0)
  then (0, 0)
  else mvp S g x y 4 0

/-- `setblk`, and `setmb` of four blocks each way. -/
def setblk (x y w : ℕ) (r : ℤ) (mv : ℤ × ℤ) : Grid := fun i j =>
  if x ≤ i ∧ i < x + w ∧ y ≤ j ∧ j < y + w then ⟨true, int8 r, (int16 mv.1, int16 mv.2)⟩
  else g i j

end Prediction

/-! ### What a decoder has decoded -/

/-- The motion of a cell, once it is done. -/
def Cell.motion (c : Cell) : Option Motion := if c.done then some ⟨c.ref, c.mv⟩ else none

/-- The grid holds the motion of the macroblocks `done`, and what is decoded of the next. -/
def Agrees (S : MbSize) (done : List Field) (current : Field) (g : Grid) : Prop :=
  ∀ i < 4 * S.WMB, ∀ j < 4 * S.HMB, (g i j).motion = motionAt S.WMB done current i j

/-- What `nb` returns of a neighbour. -/
def available (o : Option Motion) : Bool × Motion := (o.isSome, o.getD ⟨-1, (0, 0)⟩)

section Prediction

variable {S : MbSize} {done : List Field} {current : Field} {g : Grid}

/-- A macroblock of the picture. -/
theorem place_lt {m : ℕ} (hm : m < S.mbs) : m % S.WMB < S.WMB ∧ m / S.WMB < S.HMB :=
  ⟨Nat.mod_lt _ S.WMB_pos, Nat.div_lt_of_lt_mul hm⟩

theorem nb_eq (h : Agrees S done current g) (hlt : done.length < S.mbs) {x y : ℤ}
    (hx : -1 ≤ x) (hx' : x ≤ 4) (hy : -1 ≤ y) (hy' : y < 4) :
    nb S g (S.x4 done.length + x) (S.y4 done.length + y) =
      available (neighbour S.WMB done current x y) := by
  obtain ⟨hr, hq⟩ := place_lt hlt
  rw [neighbour_eq (Nat.div_add_mod' _ _).symm hr hx hx' hy hy', nb, MbSize.x4, MbSize.y4]
  generalize done.length % S.WMB = r at *
  generalize done.length / S.WMB = q at *
  rw [show ((r * 4 : ℕ) : ℤ) + x = 4 * r + x by push_cast; ring,
    show ((q * 4 : ℕ) : ℤ) + y = 4 * q + y by push_cast; ring]
  by_cases hin : 0 ≤ 4 * (r : ℤ) + x ∧ 4 * (r : ℤ) + x < 4 * S.WMB ∧ 0 ≤ 4 * (q : ℤ) + y
  · rw [if_pos hin, ← h _ (by omega) _ (by omega), Cell.motion]
    have hinside : ¬ (4 * (r : ℤ) + x < 0) ∧ ¬ (4 * (q : ℤ) + y < 0) ∧
        ¬ (4 * (r : ℤ) + x ≥ S.WMB * 4) ∧ ¬ (4 * (q : ℤ) + y ≥ S.HMB * 4) := by omega
    simp only [hinside, false_or]
    cases (g (4 * (r : ℤ) + x).toNat (4 * (q : ℤ) + y).toNat).done <;> rfl
  · rw [if_neg hin, if_pos (by omega)]
    rfl

theorem med_eq (a b c : ℤ) : med a b c = median a b c := by
  rw [med, median]
  by_cases hab : a > b
  · simp only [hab, if_true]
    split <;> split <;> omega
  · simp only [hab, if_false]
    by_cases hbc : b > c
    · simp only [hbc, if_true]
      split <;> omega
    · simp only [hbc, if_false]
      omega

/-- How `mvp` chooses, once the neighbours are known. -/
theorem choice_eq (a b c : Motion) (ref : ℤ) :
    (if (if a.ref = ref then 1 else 0) + (if b.ref = ref then 1 else 0) +
        (if c.ref = ref then 1 else 0) = 1 then
      if a.ref = ref then a.mv else if b.ref = ref then b.mv else c.mv
    else (med a.mv.1 b.mv.1 c.mv.1, med a.mv.2 b.mv.2 c.mv.2)) = oneOrMedian a b c ref := by
  rw [oneOrMedian, med_eq, med_eq]
  by_cases ha : a.ref = ref <;> by_cases hb : b.ref = ref <;> by_cases hc : c.ref = ref <;>
    simp [ha, hb, hc]

/-- **The prediction** of the encoder. -/
theorem mvp_eq (h : Agrees S done current g) (hlt : done.length < S.mbs) {x y w : ℕ}
    (hx : x + w ≤ 4) (hy : y < 4) (ref : ℤ) :
    mvp S g (S.x4 done.length + x) (S.y4 done.length + y) w ref =
      predict S.WMB done current x y w ref := by
  have hnb (x' y' : ℤ) (hx : -1 ≤ x') (hx' : x' ≤ 4) (hy : -1 ≤ y') (hy' : y' < 4) :=
    nb_eq h hlt hx hx' hy hy'
  rw [mvp, predict, mvPrediction]
  simp only [add_sub_assoc, add_assoc ((S.x4 done.length : ℕ) : ℤ)]
  rw [hnb (x - 1) y (by omega) (by omega) (by omega) (by omega),
    hnb x (y - 1) (by omega) (by omega) (by omega) (by omega),
    hnb (x + w) (y - 1) (by omega) (by omega) (by omega) (by omega),
    hnb (x - 1) (y - 1) (by omega) (by omega) (by omega) (by omega)]
  generalize neighbour S.WMB done current (x - 1) y = a
  generalize neighbour S.WMB done current x (y - 1) = b
  generalize neighbour S.WMB done current (x + w) (y - 1) = c
  generalize neighbour S.WMB done current (x - 1) (y - 1) = d
  -- what is left asks only which of the four are there
  cases a <;> cases b <;> cases c <;> cases d <;> exact choice_eq _ _ _ ref

theorem still_iff (a : Motion) : a = ⟨0, (0, 0)⟩ ↔ (a.ref = 0 ∧ a.mv.1 = 0) ∧ a.mv.2 = 0 := by
  obtain ⟨r, x, y⟩ := a
  simp [and_assoc]

/-- **The motion of a skipped macroblock**, for the encoder. -/
theorem pskipMv_eq (h : Agrees S done undecoded g) (hlt : done.length < S.mbs) :
    pskipMv S g (S.x4 done.length) (S.y4 done.length) = skipMotion S.WMB done := by
  have hmvp := mvp_eq h hlt (x := 0) (y := 0) (w := 4) (by omega) (by omega) 0
  have hleft := nb_eq h hlt (x := -1) (y := 0) (by omega) (by omega) (by omega) (by omega)
  have habove := nb_eq h hlt (x := 0) (y := -1) (by omega) (by omega) (by omega) (by omega)
  simp only [Nat.cast_zero, add_zero, ← sub_eq_add_neg] at hmvp hleft habove
  rw [pskipMv, skipMotion, hleft, habove, hmvp]
  generalize neighbour S.WMB done undecoded (-1) 0 = a
  generalize neighbour S.WMB done undecoded 0 (-1) = b
  refine if_congr ?_ rfl rfl
  cases a <;> cases b <;> simp [still_iff]

/-! ### Blocks that are set -/

theorem int8_eq {v : ℤ} (h : -1 ≤ v) (h' : v < 2 ^ 7) : int8 v = v := by
  rw [int8, Int.bmod_eq_iff (by decide)]
  omega

theorem int16_eq {v : ℤ} (h : Is16 v) : int16 v = v := by
  obtain ⟨hlow, hhigh⟩ := h
  rw [int16, Int.bmod_eq_iff (by decide)]
  omega

theorem setblk_motion (x y w : ℕ) (r : ℤ) (mv : ℤ × ℤ) (i j : ℕ) :
    (setblk g x y w r mv i j).motion =
      if x ≤ i ∧ i < x + w ∧ y ≤ j ∧ j < y + w then some ⟨int8 r, (int16 mv.1, int16 mv.2)⟩
      else (g i j).motion := by
  rw [setblk]
  split <;> rfl

/-- The blocks of a macroblock. -/
theorem inside_iff {W m i j x y w : ℕ} (hi : i < 4 * W) (hx : x + w ≤ 4) (hy : y + w ≤ 4) :
    (m % W * 4 + x ≤ i ∧ i < m % W * 4 + x + w ∧ m / W * 4 + y ≤ j ∧ j < m / W * 4 + y + w) ↔
      j / 4 * W + i / 4 = m ∧ x ≤ i % 4 ∧ i % 4 < x + w ∧ y ≤ j % 4 ∧ j % 4 < y + w := by
  have hm : j / 4 * W + i / 4 = m ↔ i / 4 = m % W ∧ j / 4 = m / W := by
    constructor
    · rintro rfl
      have hlt : i / 4 < W := by omega
      rw [Nat.mul_add_mod_self_right, Nat.mod_eq_of_lt hlt, Nat.add_comm,
        Nat.add_mul_div_right _ _ (by omega), Nat.div_eq_of_lt hlt, Nat.zero_add]
      exact ⟨rfl, rfl⟩
    · rintro ⟨hr, hq⟩
      rw [hr, hq, Nat.div_add_mod']
  rw [hm]
  omega

/-- **A partition** that is set. -/
theorem Agrees.setblk (h : Agrees S done current g) {x y w : ℕ} (hx : x + w ≤ 4) (hy : y + w ≤ 4)
    {r : ℤ} (hr : -1 ≤ r) (hr' : r < 2 ^ 7) {mv : ℤ × ℤ} (hmv : Is16 mv.1 ∧ Is16 mv.2)
    {current' : Field} (hcurrent : ∀ i < 4, ∀ j < 4, current' i j =
      if x ≤ i ∧ i < x + w ∧ y ≤ j ∧ j < y + w then some ⟨r, mv⟩ else current i j) :
    Agrees S done current'
      (setblk g (S.x4 done.length + x) (S.y4 done.length + y) w r mv) := by
  intro i hi j hj
  rw [setblk_motion, @motionAt_update _ _ current, h i hi j hj, int8_eq hr hr',
    int16_eq hmv.1, int16_eq hmv.2, MbSize.x4, MbSize.y4,
    hcurrent _ (Nat.mod_lt _ (by decide)) _ (Nat.mod_lt _ (by decide))]
  by_cases hm : j / 4 * S.WMB + i / 4 = done.length
  · simp only [inside_iff hi hx hy, hm, true_and, if_true]
    rw [motionAt_current hm]
  · simp only [inside_iff hi hx hy, hm, false_and, if_false]

/-- **A macroblock** that is decoded. -/
theorem Agrees.next (h : Agrees S done current g) : Agrees S (done ++ [current]) undecoded g := by
  intro i hi j hj
  rw [h i hi j hj, @motionAt_append _ _ current]
  split
  · rename_i hm
    rw [motionAt_current hm]
  · rfl

/-- **A macroblock** that is set as a whole. -/
theorem Agrees.whole (h : Agrees S done current g) {r : ℤ} (hr : -1 ≤ r) (hr' : r < 2 ^ 7)
    {mv : ℤ × ℤ} (hmv : Is16 mv.1 ∧ Is16 mv.2) :
    Agrees S (done ++ [fun _ _ => some ⟨r, mv⟩]) undecoded
      (CodaCube.setblk g (S.x4 done.length) (S.y4 done.length) 4 r mv) := by
  refine Agrees.next (h.setblk (x := 0) (y := 0) le_rfl le_rfl hr hr' hmv ?_)
  intro i hi j hj
  rw [if_pos ⟨Nat.zero_le _, by omega, Nat.zero_le _, by omega⟩]

/-- Before the first macroblock. -/
theorem agrees_nil (old : Grid) :
    Agrees S [] undecoded (fun i j => { old i j with done := false }) := by
  intro i _ j _
  rcases Nat.eq_zero_or_pos (j / 4 * S.WMB + i / 4) with hm | hm
  · rw [motionAt_current hm]
    rfl
  · rw [motionAt_later hm]
    rfl

end Prediction

end BadgeOS.CodaCube
