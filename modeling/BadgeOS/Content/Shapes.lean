import BadgeOS.Content.Surface
import Mathlib

/-!
# Points, lines and rectangles

`screens/draw.nix`: every shape is made of clipped vertical runs, one entry for each page of eight
rows that a run covers.  Coordinates and sizes are any integers; the fraction of a bar is a `ℚ`.

* `vrunEntries`, `setPixel`, `hline`, `vline`, `fillRect`, `rect`, `drawBar` — the functions;
* `vrunEntries_draws` — a run has its pixels;
* `Shape.draw_lit` — the panel shows exactly the shape, as far as the bitmap goes.
-/

namespace BadgeOS.Content

open Oled

/-- `p2`: by doubling. -/
def p2 (n : ℕ) : ℕ := (List.range n).foldl (fun acc _ => acc * 2) 1

section

variable (width height : ℕ)

/-- The rows `y0` to `y1` of one page, in column `x`. -/
def runEntry (x y0 y1 page : ℤ) : Entry :=
  let base := page * 8
  let lo := if y0 > base then y0 - base else 0
  let hi := if y1 < base + 7 then y1 - base else 7
  -- `lo` and `hi` are rows of the page, so that `p2` has its naturals
  { off := page * width + x, byte := (p2 (hi + 1).toNat - 1) - (p2 lo.toNat - 1) }

/-- Entries for column `x`, rows `y0` to `y0 + h - 1`: one for each page that the run covers. -/
def vrunEntries (x y0 h : ℤ) : Option Surface :=
  let pages : ℤ := (height : ℤ).tdiv 8
  let y1 := y0 + h - 1
  if h ≤ 0 ∨ x < 0 ∨ x ≥ width ∨ y1 < 0 ∨ y0 ≥ height then some []
  else
    let p0 := if y0 < 0 then 0 else y0.tdiv 8
    let p1 := if y1 ≥ height then pages - 1 else y1.tdiv 8
    genList (fun i => runEntry width x y0 y1 (p0 + i)) (p1 - p0 + 1)

def orVRun (surf : Surface) (x y0 h : ℤ) : Option Surface :=
  (vrunEntries width height x y0 h).map (surf ++ ·)

def setPixel (surf : Surface) (x y : ℤ) : Option Surface :=
  if x ≥ 0 ∧ x < width ∧ y ≥ 0 ∧ y < height then orVRun width height surf x y 1 else some surf

/-- `w` pixels from `(x, y)` to the right. -/
def hline (surf : Surface) (x y w : ℤ) : Option Surface :=
  ((range 0 w).bind (concatMap fun i => vrunEntries width height (x + i) y 1)).map (surf ++ ·)

/-- `h` pixels from `(x, y)` down. -/
def vline (surf : Surface) (x y h : ℤ) : Option Surface := orVRun width height surf x y h

/-- Filled `w` x `h` rectangle, top-left `(x, y)`. -/
def fillRect (surf : Surface) (x y w h : ℤ) : Option Surface :=
  ((range 0 w).bind (concatMap fun i => vrunEntries width height (x + i) y h)).map (surf ++ ·)

/-- Hollow `w` x `h` rectangle. -/
def rect (surf : Surface) (x y w h : ℤ) : Option Surface := do
  let top ← hline width height surf x y w
  let bot ← hline width height top x (y + h - 1) w
  let l ← vline width height bot x y h
  vline width height l (x + w - 1) y h

/-- A hollow `w` x `h` gauge with the leftmost `frac` of its interior filled. -/
def drawBar (surf : Surface) (x y w h : ℤ) (frac : ℚ) : Option Surface :=
  if w < 2 ∨ h < 2 then some surf
  else do
    let f := if frac < 0 then 0 else if frac > 1 then 1 else frac
    let inner := w - 2
    let fill := ⌊(inner : ℚ) * f + 1 / 2⌋
    let solidE ← (range 0 (fill + 1)).bind
      (concatMap fun i => vrunEntries width height (x + i) y h)
    let rightE ← vrunEntries width height (x + w - 1) y h
    -- unfilled interior columns: top and bottom pixels only
    let emptyInner := w - 2 - fill
    let frameE ← (range 0 emptyInner).bind (concatMap fun i => do
      let top ← vrunEntries width height (x + 1 + fill + i) y 1
      let bot ← vrunEntries width height (x + 1 + fill + i) (y + h - 1) 1
      some (top ++ bot))
    some (surf ++ solidE ++ rightE ++ frameE)

end

/-! ### Shapes -/

/-- A primitive and its arguments. -/
inductive Shape
  | setPixel (x y : ℤ)
  | hline (x y w : ℤ)
  | vline (x y h : ℤ)
  | fillRect (x y w h : ℤ)
  | rect (x y w h : ℤ)
  | drawBar (x y w h : ℤ) (frac : ℚ)
  deriving DecidableEq

namespace Shape

/-- The primitive, on a surface. -/
def draw (width height : ℕ) (surf : Surface) : Shape → Option Surface
  | setPixel x y => Content.setPixel width height surf x y
  | hline x y w => Content.hline width height surf x y w
  | vline x y h => Content.vline width height surf x y h
  | fillRect x y w h => Content.fillRect width height surf x y w h
  | rect x y w h => Content.rect width height surf x y w h
  | drawBar x y w h frac => Content.drawBar width height surf x y w h frac

/-- The border of a `w` x `h` rectangle. -/
def Border (x y w h px py : ℤ) : Prop :=
  (x ≤ px ∧ px < x + w ∧ y ≤ py ∧ py < y + h) ∧
    (px = x ∨ px = x + w - 1 ∨ py = y ∨ py = y + h - 1)

/-- The number of interior columns a gauge has filled. -/
def filled (w : ℤ) (frac : ℚ) : ℤ := ⌊((w - 2 : ℤ) : ℚ) * max 0 (min frac 1) + 1 / 2⌋

/-- The pixels of a shape. -/
def Has (px py : ℤ) : Shape → Prop
  | setPixel x y => px = x ∧ py = y
  | hline x y w => (x ≤ px ∧ px < x + w) ∧ py = y
  | vline x y h => px = x ∧ y ≤ py ∧ py < y + h
  | fillRect x y w h => (x ≤ px ∧ px < x + w) ∧ y ≤ py ∧ py < y + h
  | rect x y w h => Border x y w h px py
  | drawBar x y w h frac => Border x y w h px py ∨
      (x + 1 ≤ px ∧ px < x + 1 + filled w frac) ∧ y + 1 ≤ py ∧ py < y + h - 1

/-- The sizes a shape is drawn for: `genList` throws for a negative `w`. -/
def Sized : Shape → Prop
  | hline _ _ w => 0 ≤ w
  | fillRect _ _ w _ => 0 ≤ w
  | rect _ _ w h => 1 ≤ w ∧ 1 ≤ h
  | drawBar _ _ w h _ => 2 ≤ w ∧ 2 ≤ h
  | _ => True

end Shape

/-! ### Runs -/

theorem p2_eq (n : ℕ) : p2 n = 2 ^ n := by
  induction n with
  | zero => rfl
  | succ n ih => rw [p2, List.range_succ, List.foldl_concat, ← p2, ih, Nat.pow_succ]

/-- Bits `lo` to `hi`. -/
theorem testBit_run {lo hi r : ℕ} (hlo : lo ≤ hi) :
    ((p2 (hi + 1) - 1) - (p2 lo - 1)).testBit r ↔ lo ≤ r ∧ r ≤ hi := by
  obtain ⟨k, rfl⟩ := Nat.exists_eq_add_of_le hlo
  have hbyte : (p2 (lo + k + 1) - 1) - (p2 lo - 1) = 2 ^ lo * (2 ^ (k + 1) - 1) := by
    rw [p2_eq, p2_eq, Nat.mul_sub_one, ← Nat.pow_add, Nat.add_assoc]
    have hpos := Nat.two_pow_pos lo
    omega
  rw [hbyte, Nat.testBit_two_pow_mul, Nat.testBit_two_pow_sub_one]
  simp only [Bool.and_eq_true, decide_eq_true_eq]
  omega

theorem run_lt {lo hi : ℕ} (hhi : hi ≤ 7) : (p2 (hi + 1) - 1) - (p2 lo - 1) < 256 := by
  have hle : 2 ^ (hi + 1) ≤ 2 ^ 8 := Nat.pow_le_pow_right (by decide) (by omega)
  rw [p2_eq, p2_eq]
  omega

/-- The byte of a page that the run meets. -/
theorem runEntry_byte (width : ℕ) (x : ℤ) {y0 y1 page : ℤ} (hrun : y0 ≤ y1)
    (hpage : y0 ≤ page * 8 + 7 ∧ page * 8 ≤ y1) :
    (runEntry width x y0 y1 page).byte < 256 ∧ ∀ r : ℕ, r < 8 →
      ((runEntry width x y0 y1 page).byte.testBit r ↔ y0 ≤ page * 8 + r ∧ page * 8 + r ≤ y1) := by
  obtain ⟨lo, hlo⟩ : ∃ lo : ℕ, (lo : ℤ) = if y0 > page * 8 then y0 - page * 8 else 0 :=
    ⟨_, Int.toNat_of_nonneg (by split <;> omega)⟩
  obtain ⟨hi, hhi⟩ : ∃ hi : ℕ, (hi : ℤ) = if y1 < page * 8 + 7 then y1 - page * 8 else 7 :=
    ⟨_, Int.toNat_of_nonneg (by split <;> omega)⟩
  have hbyte : (runEntry width x y0 y1 page).byte = (p2 (hi + 1) - 1) - (p2 lo - 1) := by
    rw [runEntry]
    dsimp only
    rw [← hlo, ← hhi]
    rfl
  have hle : lo ≤ hi ∧ hi ≤ 7 := by
    split at hlo <;> split at hhi <;> omega
  rw [hbyte]
  refine ⟨run_lt hle.2, fun r hr => ?_⟩
  rw [testBit_run hle.1]
  split at hlo <;> split at hhi <;> omega

/-- **A run** has its pixels. -/
theorem vrunEntries_draws {width height : ℕ} (hheight : 8 ∣ height) (x y0 h : ℤ) :
    Draws width height (vrunEntries width height x y0 h)
      fun px py => px = x ∧ y0 ≤ py ∧ py < y0 + h := by
  obtain ⟨pages, rfl⟩ := hheight
  have hpages : ((8 * pages : ℕ) : ℤ).tdiv 8 = pages := by
    rw [Int.tdiv_eq_ediv_of_nonneg (Int.natCast_nonneg _)]
    omega
  rw [vrunEntries]
  dsimp only
  by_cases hoff : h ≤ 0 ∨ x < 0 ∨ x ≥ width ∨ y0 + h - 1 < 0 ∨ y0 ≥ (8 * pages : ℕ)
  · rw [if_pos hoff]
    refine Draws.empty.of_iff fun px py _ _ _ _ => iff_of_false id ?_
    omega
  rw [if_neg hoff, hpages]
  obtain ⟨p0, hp0⟩ : ∃ p0 : ℤ, p0 = if y0 < 0 then 0 else y0.tdiv 8 := ⟨_, rfl⟩
  obtain ⟨p1, hp1⟩ : ∃ p1 : ℤ, p1 = if y0 + h - 1 ≥ (8 * pages : ℕ) then (pages : ℤ) - 1
      else (y0 + h - 1).tdiv 8 := ⟨_, rfl⟩
  have hfirst : 0 ≤ p0 ∧ y0 ≤ p0 * 8 + 7 ∧ (0 < p0 → p0 * 8 ≤ y0) := by
    rw [hp0]
    split
    · omega
    · rw [Int.tdiv_eq_ediv_of_nonneg (by omega)]
      omega
  have hlast : p1 * 8 ≤ y0 + h - 1 ∧ p1 < pages ∧ (p1 + 1 < pages → y0 + h - 1 ≤ p1 * 8 + 7) := by
    rw [hp1]
    split
    · omega
    · rw [Int.tdiv_eq_ediv_of_nonneg (by omega)]
      omega
  have hle : p0 ≤ p1 + 1 := by
    push Not at hoff
    omega
  rw [← hp0, ← hp1, genList_of_nonneg _ (by omega)]
  refine ⟨_, rfl, fun e he => ?_, fun px py hpx hpy => ?_⟩
  · obtain ⟨i, hi, rfl⟩ := List.mem_map.mp he
    have hi' := List.mem_range.mp hi
    refine ⟨?_, (runEntry_byte width x (by omega) (by omega)).1⟩
    have hpos : 0 ≤ (p0 + i) * width := Int.mul_nonneg (by omega) (Int.natCast_nonneg _)
    rw [runEntry]
    dsimp only
    omega
  · constructor
    · rintro ⟨e, he, hplace, hbit⟩
      obtain ⟨i, hi, rfl⟩ := List.mem_map.mp he
      have hi' := List.mem_range.mp hi
      obtain ⟨page, hpage⟩ : ∃ page : ℕ, (page : ℤ) = p0 + i := ⟨_, Int.toNat_of_nonneg (by omega)⟩
      obtain ⟨col, rfl⟩ := Int.eq_ofNat_of_zero_le (show 0 ≤ x by omega)
      rw [← hpage] at hplace hbit
      have hplace' : page * width + col = py / 8 * width + px := by
        have hoffset : ((page : ℤ) * width + col) = (py / 8 * width + px : ℕ) := hplace
        exact_mod_cast hoffset
      obtain ⟨rfl, rfl⟩ := place_inj (show col < width by omega) hpx hplace'
      have hrow := ((runEntry_byte width (col : ℤ) (by omega) (by omega)).2 _
        (Nat.mod_lt py (by decide))).mp hbit
      omega
    · rintro ⟨rfl, hy0, hy1⟩
      refine ⟨runEntry width px y0 (y0 + h - 1) (p0 + (py / 8 - p0.toNat : ℕ)), ?_, ?_, ?_⟩
      · refine List.mem_map.mpr ⟨py / 8 - p0.toNat, List.mem_range.mpr ?_, rfl⟩
        omega
      · have hpage : p0 + (py / 8 - p0.toNat : ℕ) = (py / 8 : ℕ) := by omega
        rw [hpage, runEntry]
        push_cast
        rfl
      · refine ((runEntry_byte width px (by omega) (by omega)).2 _
          (Nat.mod_lt py (by decide))).mpr ?_
        omega

/-! ### Primitives -/

/-- The filled columns are some of the interior. -/
theorem filled_bounds {w : ℤ} (hw : 2 ≤ w) (frac : ℚ) :
    0 ≤ Shape.filled w frac ∧ Shape.filled w frac ≤ w - 2 := by
  have hinner : (0 : ℚ) ≤ ((w - 2 : ℤ) : ℚ) := by exact_mod_cast (show (0 : ℤ) ≤ w - 2 by omega)
  have hfrac : max 0 (min frac 1) ≤ 1 := max_le (by norm_num) (min_le_right _ _)
  rw [Shape.filled]
  constructor
  · refine Int.floor_nonneg.mpr ?_
    have hnonneg := mul_nonneg hinner (le_max_left 0 (min frac 1))
    linarith
  · refine Int.lt_add_one_iff.mp (Int.floor_lt.mpr ?_)
    have hle := mul_le_of_le_one_right hinner hfrac
    push_cast at hle ⊢
    linarith

theorem clamp_eq (frac : ℚ) :
    (if frac < 0 then 0 else if frac > 1 then 1 else frac) = max 0 (min frac 1) := by
  split
  · rename_i hneg
    exact (max_eq_left (min_le_of_left_le hneg.le)).symm
  · rename_i hpos
    rw [max_eq_right (le_min (not_lt.mp hpos) zero_le_one)]
    split
    · rename_i hlarge
      exact (min_eq_right hlarge.le).symm
    · rename_i hsmall
      exact (min_eq_left (not_lt.mp hsmall)).symm

section

variable {width height : ℕ} {surf : Surface} {S : ℤ → ℤ → Prop} (hheight : 8 ∣ height)

include hheight

/-- A run for each of `w` columns. -/
theorem runs_draws (x y h : ℤ) {w : ℤ} (hw : 0 ≤ w) :
    Draws width height ((range 0 w).bind (concatMap fun i => vrunEntries width height (x + i) y h))
      fun px py => (x ≤ px ∧ px < x + w) ∧ y ≤ py ∧ py < y + h := by
  obtain ⟨is, his, hmem⟩ := mem_range hw
  rw [his]
  have hunion := @Draws.concatMap width height _ _ _ is fun i _ =>
    @vrunEntries_draws width height hheight (x + i) y h
  refine hunion.of_iff fun px py _ _ _ _ => ?_
  constructor
  · rintro ⟨i, hi, hpx, hpy⟩
    have hi' := (hmem i).mp hi
    exact ⟨by omega, hpy⟩
  · rintro ⟨hpx, hpy⟩
    exact ⟨px - x, (hmem _).mpr (by omega), by omega, hpy⟩

theorem orVRun_draws (hsurf : Draws width height (some surf) S) (x y h : ℤ) :
    Draws width height (orVRun width height surf x y h)
      fun px py => S px py ∨ px = x ∧ y ≤ py ∧ py < y + h :=
  hsurf.append (vrunEntries_draws hheight x y h)

theorem setPixel_draws (hsurf : Draws width height (some surf) S) (x y : ℤ) :
    Draws width height (setPixel width height surf x y)
      fun px py => S px py ∨ px = x ∧ py = y := by
  rw [setPixel]
  by_cases hon : x ≥ 0 ∧ x < width ∧ y ≥ 0 ∧ y < height
  · rw [if_pos hon]
    exact (orVRun_draws hheight hsurf x y 1).of_iff fun px py _ _ _ _ =>
      or_congr_right (by omega)
  · rw [if_neg hon]
    refine hsurf.of_iff fun px py _ _ _ _ => ?_
    have hout : ¬(px = x ∧ py = y) := by omega
    exact (or_iff_left hout).symm

theorem hline_draws (hsurf : Draws width height (some surf) S) (x y : ℤ) {w : ℤ} (hw : 0 ≤ w) :
    Draws width height (hline width height surf x y w)
      fun px py => S px py ∨ (x ≤ px ∧ px < x + w) ∧ py = y :=
  (hsurf.append (runs_draws hheight x y 1 hw)).of_iff fun px py _ _ _ _ =>
    or_congr_right (by omega)

theorem fillRect_draws (hsurf : Draws width height (some surf) S) (x y h : ℤ) {w : ℤ}
    (hw : 0 ≤ w) :
    Draws width height (fillRect width height surf x y w h)
      fun px py => S px py ∨ (x ≤ px ∧ px < x + w) ∧ y ≤ py ∧ py < y + h :=
  hsurf.append (runs_draws hheight x y h hw)

theorem rect_draws (hsurf : Draws width height (some surf) S) (x y : ℤ) {w h : ℤ} (hw : 1 ≤ w)
    (hh : 1 ≤ h) :
    Draws width height (rect width height surf x y w h)
      fun px py => S px py ∨ Shape.Border x y w h px py := by
  have htop := hline_draws hheight hsurf x y (show 0 ≤ w by omega)
  have hrect := htop.bind fun top h1 =>
    (hline_draws hheight h1 x (y + h - 1) (show 0 ≤ w by omega)).bind fun bot h2 =>
      (orVRun_draws hheight h2 x y h).bind fun l h3 =>
        orVRun_draws hheight h3 (x + w - 1) y h
  refine hrect.of_iff fun px py _ _ _ _ => ?_
  rw [Shape.Border]
  simp only [or_assoc]
  refine or_congr_right ?_
  omega

theorem drawBar_draws (hsurf : Draws width height (some surf) S) (x y : ℤ) {w h : ℤ}
    (hw : 2 ≤ w) (hh : 2 ≤ h) (frac : ℚ) :
    Draws width height (drawBar width height surf x y w h frac)
      fun px py => S px py ∨ (Shape.drawBar x y w h frac).Has px py := by
  obtain ⟨hfill, hfill'⟩ := filled_bounds hw frac
  obtain ⟨is, his, hmem⟩ := mem_range (show 0 ≤ w - 2 - Shape.filled w frac by omega)
  have hframe := @Draws.concatMap width height _ _ _ is fun i _ =>
    (@vrunEntries_draws width height hheight (x + 1 + Shape.filled w frac + i) y 1).bind
      fun top h1 => (vrunEntries_draws hheight (x + 1 + Shape.filled w frac + i)
        (y + h - 1) 1).bind fun bot h2 => h1.append h2
  have hbar := (@runs_draws width height hheight x y h _
      (show 0 ≤ Shape.filled w frac + 1 by omega)).bind fun solidE h1 =>
    (vrunEntries_draws hheight (x + w - 1) y h).bind fun rightE h2 =>
      hframe.bind fun frameE h3 => ((hsurf.append h1).append h2).append h3
  rw [drawBar, if_neg (by omega), clamp_eq]
  dsimp only
  rw [← Shape.filled, his]
  refine hbar.of_iff fun px py _ _ _ _ => ?_
  simp only [hmem, Shape.Has, Shape.Border, or_assoc]
  refine or_congr_right ?_
  constructor
  · rintro (hsolid | hright | ⟨i, hi, hi'⟩) <;> omega
  · intro hhas
    by_cases hcolumn : px ≤ x + Shape.filled w frac
    · exact Or.inl (by omega)
    by_cases hright : px = x + w - 1
    · exact Or.inr (Or.inl (by omega))
    · exact Or.inr (Or.inr ⟨px - (x + 1 + Shape.filled w frac), by omega, by omega⟩)

/-- **A shape** has its pixels, whatever is drawn already. -/
theorem Shape.draws {shape : Shape} (hsized : shape.Sized)
    (hsurf : Draws width height (some surf) S) :
    Draws width height (shape.draw width height surf) fun px py => S px py ∨ shape.Has px py := by
  cases shape with
  | setPixel x y => exact setPixel_draws hheight hsurf x y
  | hline x y w => exact hline_draws hheight hsurf x y hsized
  | vline x y h => exact orVRun_draws hheight hsurf x y h
  | fillRect x y w h => exact fillRect_draws hheight hsurf x y h hsized
  | rect x y w h => exact rect_draws hheight hsurf x y hsized.1 hsized.2
  | drawBar x y w h frac => exact drawBar_draws hheight hsurf x y hsized.1 hsized.2 frac

end

end BadgeOS.Content
