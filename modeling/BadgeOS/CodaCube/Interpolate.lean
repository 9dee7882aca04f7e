import BadgeOS.CodaCube.MotionComp
import Mathlib

/-!
# Interpolation

What a predicted sample is, over a plane whose samples go on beyond its borders, and that the C
code computes it: sample by sample, and a block from one window.

* `tapH`, `tapV`, `lumaAt` — the 6-tap values and the sample at a quarter position;
* `Page` — a page that may be read, and the samples of its planes;
* `lumaQpel_eq`, `mcLumaBlock_eq` — the two ways to the same samples.
-/

namespace BadgeOS.CodaCube

open Memory Neon

/-! ### The samples -/

/-- Six samples in a row. -/
def tapH (L : ℤ → ℤ → ℤ) (x y : ℤ) : ℤ :=
  tap6 (L (x - 2) y) (L (x - 1) y) (L x y) (L (x + 1) y) (L (x + 2) y) (L (x + 3) y)

/-- Six samples in a column. -/
def tapV (L : ℤ → ℤ → ℤ) (x y : ℤ) : ℤ :=
  tap6 (L x (y - 2)) (L x (y - 1)) (L x y) (L x (y + 1)) (L x (y + 2)) (L x (y + 3))

/-- The sample between four others, at `(x, y)` and a half to the right and below. -/
def centre (L : ℤ → ℤ → ℤ) (x y : ℤ) : ℤ := clip10 (tapV (tapH L) x y)

/-- A row's or a column's half position. -/
def halfH (L : ℤ → ℤ → ℤ) (x y : ℤ) : ℤ := clip5 (tapH L x y)

def halfV (L : ℤ → ℤ → ℤ) (x y : ℤ) : ℤ := clip5 (tapV L x y)

/-- **The sample** at `(x, y)` and `fx`, `fy` quarters. -/
def lumaAt (L : ℤ → ℤ → ℤ) (x y fx fy : ℤ) : ℤ :=
  if fx = 0 ∧ fy = 0 then L x y
  else if fy = 0 then
    if fx = 1 then avg2 (L x y) (halfH L x y) else if fx = 2 then halfH L x y
    else avg2 (L (x + 1) y) (halfH L x y)
  else if fx = 0 then
    if fy = 1 then avg2 (L x y) (halfV L x y) else if fy = 2 then halfV L x y
    else avg2 (L x (y + 1)) (halfV L x y)
  else if fx = 2 ∨ fy = 2 then
    if fx = 2 then
      if fy = 1 then avg2 (halfH L x y) (centre L x y) else if fy = 2 then centre L x y
      else avg2 (centre L x y) (halfH L x (y + 1))
    else if fx = 1 then avg2 (halfV L x y) (centre L x y)
    else avg2 (centre L x y) (halfV L (x + 1) y)
  else if fy = 1 then
    if fx = 1 then avg2 (halfH L x y) (halfV L x y) else avg2 (halfH L x y) (halfV L (x + 1) y)
  else if fx = 1 then avg2 (halfV L x y) (halfH L x (y + 1))
  else avg2 (halfV L (x + 1) y) (halfH L x (y + 1))

theorem avg2_comm (a b : ℤ) : avg2 a b = avg2 b a := by
  rw [avg2, avg2, Int.add_comm a b]

/-! ### A page -/

/-- A page of `W × H`, `Y`, `U` and `V` one behind the other, with `bytes` in it; nothing else
may be read. -/
structure Page extends Size where
  bytes : ℕ → UInt8
  W_pos : 0 < W
  H_pos : 0 < H
  W_even : W % 2 = 0
  H_even : H % 2 = 0

namespace Page

variable (pg : Page)

/-- The buffer of the page. -/
def mem : Mem := ⟨fun a => decide (a < pg.W * pg.H * 3 / 2), fun a => some (pg.bytes a)⟩

/-- `PGY`, `PGU` and `PGV` of it. -/
def Y : Ptr := ⟨pg.mem, 0⟩

def U : Ptr := ⟨pg.mem, pg.W * pg.H⟩

def V : Ptr := ⟨pg.mem, pg.W * pg.H * 5 / 4⟩

/-- The byte at `i` of the Y plane. -/
def at' (i : ℕ) : ℤ := (pg.bytes i).toNat

/-- The Y plane, beyond its borders too. -/
def luma (x y : ℤ) : ℤ := pg.at' (clampTo pg.H y * pg.W + clampTo pg.W x).toNat

end Page

variable {pg : Page} {x y fx fy : ℤ}

theorem clampTo_bounds {n : ℕ} (hn : 0 < n) (x : ℤ) : 0 ≤ clampTo n x ∧ clampTo n x ≤ n - 1 := by
  unfold clampTo
  split
  · omega
  · split <;> omega

theorem clampTo_of_mem {n : ℕ} {x : ℤ} (hlow : 0 ≤ x) (hhigh : x < n) : clampTo n x = x := by
  unfold clampTo
  rw [if_neg (by omega), if_neg (by omega)]

/-- A read of the page. -/
theorem load_page (off : ℕ) {i : ℕ} (hi : off + i < pg.W * pg.H * 3 / 2) :
    (⟨pg.mem, off⟩ : Ptr).load i = some (pg.bytes (off + i)) :=
  if_pos (decide_eq_true hi)

theorem sample_page (off : ℕ) {i : ℕ} (hi : off + i < pg.W * pg.H * 3 / 2) :
    sample ⟨pg.mem, off⟩ i = some (pg.at' (off + i)) := by
  unfold sample
  rw [if_neg (by omega), Int.toNat_natCast, load_page off hi]
  rfl

theorem sample_Y {i : ℕ} (hi : i < pg.W * pg.H * 3 / 2) : sample pg.Y i = some (pg.at' i) := by
  rw [Page.Y, sample_page 0 (by omega), Nat.zero_add]

/-- An index into the Y plane. -/
theorem index_lt {W H : ℕ} {x y : ℤ} (hx : 0 ≤ x ∧ x ≤ W - 1) (hy : 0 ≤ y ∧ y ≤ H - 1) :
    ∃ i : ℕ, (i : ℤ) = y * W + x ∧ i < W * H := by
  obtain ⟨a, rfl⟩ := Int.eq_ofNat_of_zero_le hx.1
  obtain ⟨b, rfl⟩ := Int.eq_ofNat_of_zero_le hy.1
  refine ⟨b * W + a, by push_cast; rfl, ?_⟩
  have hrow : (b + 1) * W ≤ H * W := Nat.mul_le_mul_right W (by omega)
  rw [Nat.mul_comm W H]
  rw [Nat.add_mul] at hrow
  omega

theorem pyx_eq (pg : Page) (x y : ℤ) : pyx pg.toSize pg.Y x y = some (pg.luma x y) := by
  obtain ⟨i, hi, hlt⟩ := index_lt (clampTo_bounds pg.W_pos x) (clampTo_bounds pg.H_pos y)
  unfold pyx Page.luma
  rw [← hi, Int.toNat_natCast]
  exact sample_Y (by omega)

/-! ### Sample by sample -/

theorem b1At_eq (pg : Page) (x y : ℤ) : b1At pg.toSize pg.Y x y = some (tapH pg.luma x y) := by
  unfold b1At
  simp only [pyx_eq]
  rfl

theorem h1At_eq (pg : Page) (x y : ℤ) : h1At pg.toSize pg.Y x y = some (tapV pg.luma x y) := by
  unfold h1At
  simp only [pyx_eq]
  rfl

theorem j1At_eq (pg : Page) (x y : ℤ) :
    j1At pg.toSize pg.Y x y = some (tapV (tapH pg.luma) x y) := by
  unfold j1At
  simp only [b1At_eq]
  rfl

/-- **`luma_qpel`** is the sample. -/
theorem lumaQpel_eq (pg : Page) (x y fx fy : ℤ) :
    lumaQpel pg.toSize pg.Y x y fx fy = some (lumaAt pg.luma x y fx fy) := by
  unfold lumaQpel lumaAt
  simp only [pyx_eq, b1At_eq, h1At_eq, Option.bind_eq_bind, Option.bind_some, Option.map_some]
  split
  · rfl
  split
  · split
    · rfl
    split
    · rfl
    · rfl
  split
  · split
    · rfl
    split
    · rfl
    · rfl
  unfold lumaQpelInner
  simp only [j1At_eq, b1At_eq, h1At_eq, Option.bind_eq_bind, Option.bind_some]
  split
  · rfl
  · rfl

/-! ### A block from one window -/

/-- **The window** holds the samples around the block. -/
theorem window_eq (pg : Page) (xi yi : ℤ) (WW HH : ℕ) :
    window pg.toSize pg.Y xi yi WW HH = some ((List.range HH).map fun r : ℕ =>
      (List.range WW).map fun c : ℕ => pg.luma (xi - 2 + c) (yi - 2 + r)) := by
  unfold window
  apply mapM_eq_some
  intro r hr
  apply mapM_eq_some
  intro c hc
  rw [List.mem_range] at hr hc
  split
  · rename_i hin
    obtain ⟨i, hi, hlt⟩ := index_lt (W := pg.W) (H := pg.H) (x := xi - 2 + c) (y := yi - 2 + r)
      (by omega) (by omega)
    have hindex : (yi - 2 + r) * (pg.W : ℤ) + xi - 2 + c = i := by rw [hi]; ring
    rw [hindex, sample_Y (by omega), Page.luma, clampTo_of_mem (by omega) (by omega),
      clampTo_of_mem (by omega) (by omega), ← hi, Int.toNat_natCast]
  · exact pyx_eq pg _ _

section Block

variable {L : ℤ → ℤ → ℤ} {win : ℕ → ℕ → ℤ} {xi yi : ℤ} {i j : ℕ}

/-- The window around row `j` and column `i`. -/
def Around (L : ℤ → ℤ → ℤ) (win : ℕ → ℕ → ℤ) (xi yi : ℤ) (j i : ℕ) : Prop :=
  ∀ r c, r ≤ j + 5 → c ≤ i + 5 → win r c = L (xi - 2 + c) (yi - 2 + r)

theorem Around.tapH (h : Around L win xi yi j i) {r : ℕ} (hr : r ≤ j + 5) {y : ℤ}
    (hy : y = yi - 2 + r) :
    tap6 (win r i) (win r (i + 1)) (win r (i + 2)) (win r (i + 3)) (win r (i + 4))
      (win r (i + 5)) = tapH L (xi + i) y := by
  rw [h r i hr (by omega), h r (i + 1) hr (by omega), h r (i + 2) hr (by omega),
    h r (i + 3) hr (by omega), h r (i + 4) hr (by omega), h r (i + 5) hr (by omega), ← hy]
  unfold CodaCube.tapH
  congr 2 <;> push_cast <;> ring

theorem Around.tapV (h : Around L win xi yi j i) {c : ℕ} (hc : c ≤ i + 5) {x : ℤ}
    (hx : x = xi - 2 + c) :
    tap6 (win j c) (win (j + 1) c) (win (j + 2) c) (win (j + 3) c) (win (j + 4) c)
      (win (j + 5) c) = tapV L x (yi + j) := by
  rw [h j c (by omega) hc, h (j + 1) c (by omega) hc, h (j + 2) c (by omega) hc,
    h (j + 3) c (by omega) hc, h (j + 4) c (by omega) hc, h (j + 5) c (by omega) hc, ← hx]
  unfold CodaCube.tapV
  congr 2 <;> push_cast <;> ring

/-- The sample that the window gives. -/
theorem Around.centre_eq (h : Around L win xi yi j i) :
    win (j + 2) (i + 2) = L (xi + i) (yi + j) := by
  rw [h (j + 2) (i + 2) (by omega) (by omega)]
  congr 1 <;> push_cast <;> ring

/-- **A sample of the block** is the sample. -/
theorem Around.blockSample_eq (h : Around L win xi yi j i) {fx fy : ℤ}
    (hfx : 0 ≤ fx ∧ fx < 4) (hfy : 0 ≤ fy ∧ fy < 4) :
    blockSample win fx fy j i = lumaAt L (xi + i) (yi + j) fx fy := by
  have hright : win (j + 2) (i + 3) = L (xi + i + 1) (yi + j) := by
    rw [h (j + 2) (i + 3) (by omega) (by omega)]
    congr 1 <;> push_cast <;> ring
  have hbelow : win (j + 3) (i + 2) = L (xi + i) (yi + j + 1) := by
    rw [h (j + 3) (i + 2) (by omega) (by omega)]
    congr 1 <;> push_cast <;> ring
  have hrow := h.tapH (r := j + 2) (by omega) (y := yi + j) (by push_cast; ring)
  have hnextRow := h.tapH (r := j + 3) (by omega) (y := yi + j + 1) (by push_cast; ring)
  have hcol := h.tapV (c := i + 2) (by omega) (x := xi + i) (by push_cast; ring)
  have hnextCol := h.tapV (c := i + 3) (by omega) (x := xi + i + 1) (by push_cast; ring)
  have hcentre : clip10 (tap6
      (tap6 (win j i) (win j (i + 1)) (win j (i + 2)) (win j (i + 3)) (win j (i + 4))
        (win j (i + 5)))
      (tap6 (win (j + 1) i) (win (j + 1) (i + 1)) (win (j + 1) (i + 2)) (win (j + 1) (i + 3))
        (win (j + 1) (i + 4)) (win (j + 1) (i + 5)))
      (tap6 (win (j + 2) i) (win (j + 2) (i + 1)) (win (j + 2) (i + 2)) (win (j + 2) (i + 3))
        (win (j + 2) (i + 4)) (win (j + 2) (i + 5)))
      (tap6 (win (j + 3) i) (win (j + 3) (i + 1)) (win (j + 3) (i + 2)) (win (j + 3) (i + 3))
        (win (j + 3) (i + 4)) (win (j + 3) (i + 5)))
      (tap6 (win (j + 4) i) (win (j + 4) (i + 1)) (win (j + 4) (i + 2)) (win (j + 4) (i + 3))
        (win (j + 4) (i + 4)) (win (j + 4) (i + 5)))
      (tap6 (win (j + 5) i) (win (j + 5) (i + 1)) (win (j + 5) (i + 2)) (win (j + 5) (i + 3))
        (win (j + 5) (i + 4)) (win (j + 5) (i + 5)))) = centre L (xi + i) (yi + j) := by
    rw [h.tapH (r := j) (by omega) (y := yi + j - 2) (by ring),
      h.tapH (r := j + 1) (by omega) (y := yi + j - 1) (by push_cast; ring), hrow, hnextRow,
      h.tapH (r := j + 4) (by omega) (y := yi + j + 2) (by push_cast; ring),
      h.tapH (r := j + 5) (by omega) (y := yi + j + 3) (by push_cast; ring)]
    rfl
  obtain rfl | rfl | rfl | rfl : fx = 0 ∨ fx = 1 ∨ fx = 2 ∨ fx = 3 := by omega
  all_goals obtain rfl | rfl | rfl | rfl : fy = 0 ∨ fy = 1 ∨ fy = 2 ∨ fy = 3 := by omega
  all_goals
    norm_num [blockSample, lumaAt, halfH, halfV]
    simp only [h.centre_eq, hright, hbelow, ↓hrow, ↓hnextRow, ↓hcol, ↓hnextCol, ↓hcentre,
      avg2_comm]

end Block

/-- An entry of a block, row by row. -/
theorem getElem?_block {α : Type*} (g : ℕ → ℕ → α) {w h i j : ℕ} (hi : i < w) (hj : j < h) :
    ((List.range h).flatMap fun j => (List.range w).map fun i => g j i)[j * w + i]? =
      some (g j i) := by
  induction h with
  | zero => omega
  | succ h ih =>
      have hlen : ((List.range h).flatMap fun j => (List.range w).map fun i => g j i).length =
          h * w := by
        rw [List.length_flatMap]
        simp
      rw [List.range_succ, List.flatMap_append, List.flatMap_singleton]
      by_cases hlast : j = h
      · subst hlast
        rw [List.getElem?_append_right (by omega), hlen, Nat.add_sub_cancel_left,
          List.getElem?_map, List.getElem?_range hi]
        rfl
      · have hlt : j * w + i < h * w := by
          have hrow : (j + 1) * w ≤ h * w := Nat.mul_le_mul_right w (by omega)
          rw [Nat.add_mul] at hrow
          omega
        rw [List.getElem?_append_left (by omega)]
        exact ih (by omega)

/-- **`mc_luma_block`** is the samples of the block. -/
theorem mcLumaBlock_eq (pg : Page) (x y : ℤ) (w h : ℕ) (mvx mvy : ℤ) :
    mcLumaBlock pg.toSize pg.Y x y w h mvx mvy = some ((List.range h).flatMap fun j : ℕ =>
      (List.range w).map fun i : ℕ =>
        lumaAt pg.luma (x + mvx / 4 + i) (y + mvy / 4 + j) (mvx % 4) (mvy % 4)) := by
  unfold mcLumaBlock
  rw [window_eq, Option.bind_eq_bind, Option.bind_some]
  dsimp only
  congr 1
  apply List.flatMap_congr
  intro j hj
  apply List.map_congr_left
  intro i hi
  rw [List.mem_range] at hj hi
  apply Around.blockSample_eq
  · intro r c hr hc
    show (((List.range (h + 5)).map _).getD r []).getD c 0 = _
    rw [List.getD_eq_getElem?_getD, List.getD_eq_getElem?_getD, List.getElem?_map,
      List.getElem?_range (by omega), Option.map_some, Option.getD_some, List.getElem?_map,
      List.getElem?_range (by omega)]
    rfl
  · omega
  · omega

end BadgeOS.CodaCube
