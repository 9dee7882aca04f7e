import BadgeOS.CodaCube.Interpolate
import Mathlib

/-!
# Interpolation with NEON

The vector code computes eight samples of a row at once, of which a block of four uses four.
Bytes are small: no 16-bit lane of it wraps, in the lanes that are used and in the others.

* `tap6h_of`, `tapRows_of`, `jRow_of` — the 6-tap values, lane by lane;
* `luma4Row_of` — a row of a block is what the window code computes;
* `mcLuma4Neon_eq` — the block.
-/

namespace BadgeOS.CodaCube

open Memory Neon Lanes

theorem clip5_eq (v : ℤ) : saturated 8 (rounded 5 v) = clip5 v := by
  unfold saturated rounded clip5 clip1
  split
  · omega
  · split <;> omega

theorem clip10_eq (v : ℤ) : saturated 8 (saturated 16 (rounded 10 v)) = clip10 v := by
  unfold saturated rounded clip10 clip1
  split
  · omega
  · split <;> omega

theorem avg2_eq (a b : ℤ) : rounded 1 (a + b) = avg2 a b := rfl

/-- Values of bytes. -/
def Bytes (f : ℕ → ℤ) : Prop := ∀ i, 0 ≤ f i ∧ f i ≤ 255

variable {f : ℕ → ℤ}

theorem tap6_bounds {a b c d e g : ℤ} (ha : 0 ≤ a ∧ a ≤ 255) (hb : 0 ≤ b ∧ b ≤ 255)
    (hc : 0 ≤ c ∧ c ≤ 255) (hd : 0 ≤ d ∧ d ≤ 255) (he : 0 ≤ e ∧ e ≤ 255)
    (hg : 0 ≤ g ∧ g ≤ 255) : -2550 ≤ tap6 a b c d e g ∧ tap6 a b c d e g ≤ 10710 := by
  unfold tap6
  omega

/-- **`tap6v`**: no step of it leaves 16 bits. -/
theorem tap6v_of {a b c d e g : ℕ → ℤ} (ha : Bytes a) (hb : Bytes b) (hc : Bytes c)
    (hd : Bytes d) (he : Bytes e) (hg : Bytes g) :
    tap6v (of 8 a) (of 8 b) (of 8 c) (of 8 d) (of 8 e) (of 8 g) =
      some (of 8 fun i => tap6 (a i) (b i) (c i) (d i) (e i) (g i)) := by
  have hbytes (i : ℕ) := And.intro (And.intro (ha i) (hb i)) (And.intro (And.intro (hc i) (hd i))
    (And.intro (he i) (hg i)))
  have houter : (of 8 a).vadd 16 (of 8 g) = of 8 fun i => a i + g i :=
    vadd_of (by decide) fun i _ => by have := hbytes i; omega
  have hinner : (of 8 c).vadd 16 (of 8 d) = of 8 fun i => c i + d i :=
    vadd_of (by decide) fun i _ => by have := hbytes i; omega
  have hmiddle : (of 8 b).vadd 16 (of 8 e) = of 8 fun i => b i + e i :=
    vadd_of (by decide) fun i _ => by have := hbytes i; omega
  have hmla : (of 8 fun i => a i + g i).vmlaN 16 (of 8 fun i => c i + d i) 20 =
      of 8 fun i => a i + g i + (c i + d i) * 20 :=
    vmlaN_of (by decide) fun i _ => by have := hbytes i; omega
  have hmls : (of 8 fun i => a i + g i + (c i + d i) * 20).vmlsN 16 (of 8 fun i => b i + e i) 5 =
      of 8 fun i => a i + g i + (c i + d i) * 20 - (b i + e i) * 5 :=
    vmlsN_of (by decide) fun i _ => by have := hbytes i; omega
  unfold tap6v
  rw [houter, hinner, hmiddle]
  simp only [exact_of, Option.bind_eq_bind, Option.bind_some, hmla, hmls]
  congr 1
  apply of_congr
  intro i _
  unfold tap6
  ring

theorem vext_row (f : ℕ → ℤ) (k : Fin 9) :
    (of 8 f).vext (of 8 fun i => f (8 + i)) k = of 8 fun i => f (i + k) := by
  rw [vext_of]
  apply of_congr
  intro i _
  split
  · rfl
  · congr 1
    omega

/-- **`tap6h`**: the values of eight columns. -/
theorem tap6h_of (hf : Bytes f) :
    tap6h (of 16 f) = some (of 8 fun i =>
      tap6 (f i) (f (i + 1)) (f (i + 2)) (f (i + 3)) (f (i + 4)) (f (i + 5))) := by
  have hshift (k : ℕ) : Bytes fun i => f (i + k) := fun i => hf (i + k)
  have hext := vext_row f
  show tap6v (of 8 f) ((of 8 f).vext (of 8 fun i => f (8 + i)) 1)
    ((of 8 f).vext (of 8 fun i => f (8 + i)) 2) ((of 8 f).vext (of 8 fun i => f (8 + i)) 3)
    ((of 8 f).vext (of 8 fun i => f (8 + i)) 4) ((of 8 f).vext (of 8 fun i => f (8 + i)) 5) = _
  rw [hext, hext, hext, hext, hext]
  exact tap6v_of hf (hshift 1) (hshift 2) (hshift 3) (hshift 4) (hshift 5)

section Rows

variable {R : ℕ → ℕ → ℤ} {j : ℕ}

/-- Rows of bytes. -/
def rowsOf (R : ℕ → ℕ → ℤ) (r : ℕ) : Lanes 16 := of 16 (R r)

theorem tapRows_of (hR : ∀ r, Bytes (R r)) (j : ℕ) :
    tapRows (rowsOf R) j = some (of 8 fun i => clip5
      (tap6 (R j i) (R (j + 1) i) (R (j + 2) i) (R (j + 3) i) (R (j + 4) i) (R (j + 5) i))) := by
  have htap := tap6v_of (hR j) (hR (j + 1)) (hR (j + 2)) (hR (j + 3)) (hR (j + 4)) (hR (j + 5))
  show (tap6v (of 8 (R j)) (of 8 (R (j + 1))) (of 8 (R (j + 2))) (of 8 (R (j + 3)))
    (of 8 (R (j + 4))) (of 8 (R (j + 5)))).bind _ = _
  rw [htap, Option.bind_some, vqrshrun_of]
  congr 1
  apply of_congr
  intro i _
  exact clip5_eq _

/-- **`jj`**: the 32-bit sums of 16-bit values. -/
theorem jRow_of {g : ℕ → ℕ → ℤ} (hg : ∀ r i, -2550 ≤ g r i ∧ g r i ≤ 10710) (j : ℕ) :
    jRow (fun r => of 8 (g r)) j = some (of 8 fun i =>
      if i < 4 then clip10 (tap6 (g j i) (g (j + 1) i) (g (j + 2) i) (g (j + 3) i) (g (j + 4) i)
        (g (j + 5) i))
      else clip10 (tap6 (g j (i - 4)) (g (j + 1) (i - 4)) (g (j + 2) (i - 4)) (g (j + 3) (i - 4))
        (g (j + 4) (i - 4)) (g (j + 5) (i - 4)))) := by
  have hb (i : ℕ) := And.intro (And.intro (hg j i) (hg (j + 1) i))
    (And.intro (And.intro (hg (j + 2) i) (hg (j + 3) i)) (And.intro (hg (j + 4) i) (hg (j + 5) i)))
  have houter : (of 4 (g j)).vadd 32 (of 4 (g (j + 5))) = of 4 fun i => g j i + g (j + 5) i :=
    vadd_of (by decide) fun i _ => by have := hb i; omega
  have hinner : (of 4 (g (j + 2))).vadd 16 (of 4 (g (j + 3))) =
      of 4 fun i => g (j + 2) i + g (j + 3) i :=
    vadd_of (by decide) fun i _ => by have := hb i; omega
  have hmiddle : (of 4 (g (j + 1))).vadd 16 (of 4 (g (j + 4))) =
      of 4 fun i => g (j + 1) i + g (j + 4) i :=
    vadd_of (by decide) fun i _ => by have := hb i; omega
  have hmla : (of 4 fun i => g j i + g (j + 5) i).vmlaN 32
      (of 4 fun i => g (j + 2) i + g (j + 3) i) 20 =
        of 4 fun i => g j i + g (j + 5) i + (g (j + 2) i + g (j + 3) i) * 20 :=
    vmlaN_of (by decide) fun i _ => by have := hb i; omega
  have hmls : (of 4 fun i => g j i + g (j + 5) i + (g (j + 2) i + g (j + 3) i) * 20).vmlsN 32
      (of 4 fun i => g (j + 1) i + g (j + 4) i) 5 =
        of 4 fun i => g j i + g (j + 5) i + (g (j + 2) i + g (j + 3) i) * 20 -
          (g (j + 1) i + g (j + 4) i) * 5 :=
    vmlsN_of (by decide) fun i _ => by have := hb i; omega
  have hlow (r : ℕ) : vgetLow 4 (of 8 (g r)) = of 4 (g r) := rfl
  have hvalue (i : ℕ) : saturated 8 (saturated 16 (rounded 10
      (g j i + g (j + 5) i + (g (j + 2) i + g (j + 3) i) * 20 - (g (j + 1) i + g (j + 4) i) * 5))) =
        clip10 (tap6 (g j i) (g (j + 1) i) (g (j + 2) i) (g (j + 3) i) (g (j + 4) i)
          (g (j + 5) i)) := by
    rw [clip10_eq]
    congr 1
    unfold tap6
    ring
  unfold jRow vmlalN vmlslN
  dsimp only
  rw [hlow, hlow, hlow, hlow, hlow, hlow, houter, hinner, hmiddle]
  simp only [exact_of, Option.bind_eq_bind, Option.bind_some, hmla, hmls]
  rw [vqrshrun_of, vcombine_of]
  show some ((of 8 _).vqmovn 8) = _
  rw [vqmovn_of]
  congr 1
  apply of_congr
  intro i _
  split
  · exact hvalue i
  · exact hvalue (i - 4)

theorem columns_of (f : ℕ → ℤ) (k : Fin 9) : columns (of 16 f) k = of 8 fun i => f (i + k) :=
  vext_row f k

/-- A vector turned by some lanes: the lower ones are those behind it. -/
theorem vext_self (f : ℕ → ℤ) (k : Fin 9) :
    (of 8 f).vext (of 8 f) k = of 8 fun i => if i + k < 8 then f (i + k) else f (i + k - 8) :=
  vext_of f f k

theorem narrow5 (g : ℕ → ℤ) : (of 8 g).vqrshrun 8 5 = of 8 fun i => clip5 (g i) := by
  rw [vqrshrun_of]
  exact of_congr fun i _ => clip5_eq _

/-- What is taken of the rows `B1` for row `j`. -/
theorem jRow_congr {B B' : ℕ → Lanes 8} (h : ∀ r < j + 6, B r = B' r) : jRow B j = jRow B' j := by
  unfold jRow
  dsimp only
  rw [h j (by omega), h (j + 1) (by omega), h (j + 2) (by omega), h (j + 3) (by omega),
    h (j + 4) (by omega), h (j + 5) (by omega)]

/-- **A row of a block** is what the window code computes, in the lanes that are used. -/
theorem luma4Row_of (hR : ∀ r, Bytes (R r)) (hj : j < 4) (fx fy : ℤ) :
    ∃ v, luma4Row (rowsOf R) fx fy j = some (of 8 v) ∧
      ∀ i < 4, v i = blockSample R fx fy j i := by
  have hcols (r i : ℕ) := tap6_bounds (hR r i) (hR r (i + 1)) (hR r (i + 2)) (hR r (i + 3))
    (hR r (i + 4)) (hR r (i + 5))
  have hrow (r : ℕ) : tap6h (rowsOf R r) = _ := tap6h_of (hR r)
  have htap := tapRows_of hR j
  have hcol (r : ℕ) (k : Fin 9) : columns (rowsOf R r) k = of 8 fun i => R r (i + k) :=
    columns_of _ _
  unfold luma4Row
  by_cases h00 : fx = 0 ∧ fy = 0
  · rw [if_pos h00, hcol]
    refine ⟨_, rfl, fun i _ => ?_⟩
    unfold blockSample
    rw [if_pos h00]
    rfl
  by_cases hy : fy = 0
  · rw [if_neg h00, if_pos hy, hrow, Option.bind_eq_bind, Option.bind_some, narrow5, hcol]
    dsimp only
    by_cases hx : fx = 2
    · rw [if_pos hx]
      refine ⟨_, rfl, fun i _ => ?_⟩
      simp [blockSample, hx, hy]
    · rw [if_neg hx, vrhadd_of]
      refine ⟨_, rfl, fun i _ => ?_⟩
      by_cases hx1 : fx = 1
      · simp [blockSample, hx1, hy, avg2_eq, avg2_comm]
      · have hx0 : fx ≠ 0 := fun h => h00 ⟨h, hy⟩
        simp [blockSample, hx, hx0, hx1, hy, avg2_eq, avg2_comm]
  by_cases hx : fx = 0
  · rw [if_neg h00, if_neg hy, if_pos hx, htap, Option.bind_eq_bind, Option.bind_some, hcol]
    dsimp only
    rw [vext_self]
    by_cases hy2 : fy = 2
    · rw [if_pos hy2]
      refine ⟨_, rfl, fun i hi => ?_⟩
      have hlane : i + 2 < 8 := by omega
      simp [blockSample, hx, hy2, hlane]
    · rw [if_neg hy2, vrhadd_of]
      refine ⟨_, rfl, fun i hi => ?_⟩
      have hlane : i + 2 < 8 := by omega
      simp [blockSample, hx, hy, hy2, avg2_eq, avg2_comm, hlane]
  by_cases h2 : fx = 2 ∨ fy = 2
  · have hB1 : (List.range 9).mapM (fun r => tap6h (rowsOf R r)) = some ((List.range 9).map
        fun r => of 8 fun i => tap6 (R r i) (R r (i + 1)) (R r (i + 2)) (R r (i + 3))
          (R r (i + 4)) (R r (i + 5))) := mapM_eq_some fun r _ => hrow r
    have hat (r : ℕ) (hr : r < 9) : ((List.range 9).map fun r => of 8 fun i =>
        tap6 (R r i) (R r (i + 1)) (R r (i + 2)) (R r (i + 3)) (R r (i + 4)) (R r (i + 5))).getD r
          (vdup 8 0) = of 8 fun i => tap6 (R r i) (R r (i + 1)) (R r (i + 2)) (R r (i + 3))
            (R r (i + 4)) (R r (i + 5)) := by
      rw [List.getD_eq_getElem?_getD, List.getElem?_map, List.getElem?_range hr]
      rfl
    have hcentre := (jRow_congr fun r hr => hat r (by omega)).trans (jRow_of hcols j)
    rw [if_neg h00, if_neg hy, if_neg hx, if_pos h2, hB1, Option.bind_eq_bind, Option.bind_some]
    dsimp only
    rw [hcentre, Option.bind_eq_bind, Option.bind_some]
    by_cases hx2 : fx = 2
    · rw [if_pos hx2]
      by_cases hy2 : fy = 2
      · rw [if_pos hy2]
        refine ⟨_, rfl, fun i hi => ?_⟩
        rw [if_pos hi]
        simp [blockSample, hx2, hy2]
      · rw [if_neg hy2, hat _ (by split <;> omega), narrow5, vrhadd_of]
        refine ⟨_, rfl, fun i hi => ?_⟩
        rw [if_pos hi]
        simp [blockSample, hx2, hy, hy2, avg2_eq]
    · have hy2 : fy = 2 := h2.resolve_left hx2
      rw [if_neg hx2, htap, Option.bind_some, vext_self, vext_self]
      by_cases hx1 : fx = 1
      · rw [if_pos hx1, vrhadd_of]
        refine ⟨_, rfl, fun i hi => ?_⟩
        have hlane : i + 2 < 8 := by omega
        simp [blockSample, hx1, hy2, avg2_eq, hi, hlane]
      · rw [if_neg hx1, vrhadd_of]
        refine ⟨_, rfl, fun i hi => ?_⟩
        have hlane : i + 3 < 8 := by omega
        simp [blockSample, hx, hx1, hx2, hy2, avg2_eq, hi, hlane]
  · rw [if_neg h00, if_neg hy, if_neg hx, if_neg h2, hrow, Option.bind_eq_bind, Option.bind_some,
      narrow5, htap]
    dsimp only
    rw [Option.bind_some, vext_self, vext_self]
    by_cases hx1 : fx = 1
    · rw [if_pos hx1, vrhadd_of]
      refine ⟨_, rfl, fun i hi => ?_⟩
      have hlane : i + 2 < 8 := by omega
      have hy2 : fy ≠ 2 := fun h => h2 (.inr h)
      simp [blockSample, hx1, hy, hy2, avg2_eq, hlane]
    · rw [if_neg hx1, vrhadd_of]
      refine ⟨_, rfl, fun i hi => ?_⟩
      have hlane : i + 3 < 8 := by omega
      simp [blockSample, hx, hx1, hy, h2, avg2_eq, hlane]

end Rows

/-! ### The luma block -/

variable {pg : Page}

theorem at'_bounds (pg : Page) (i : ℕ) : 0 ≤ pg.at' i ∧ pg.at' i ≤ 255 := by
  have hlt := (pg.bytes i).toNat_lt
  unfold Page.at'
  omega

theorem clip1_bounds (v : ℤ) : 0 ≤ clip1 v ∧ clip1 v ≤ 255 := by
  unfold clip1
  split
  · omega
  · split <;> omega

theorem avg2_bounds {a b : ℤ} (ha : 0 ≤ a ∧ a ≤ 255) (hb : 0 ≤ b ∧ b ≤ 255) :
    0 ≤ avg2 a b ∧ avg2 a b ≤ 255 := by
  unfold avg2
  omega

/-- A sample is a byte. -/
theorem lumaAt_bounds {L : ℤ → ℤ → ℤ} (hL : ∀ x y, 0 ≤ L x y ∧ L x y ≤ 255) (x y fx fy : ℤ) :
    0 ≤ lumaAt L x y fx fy ∧ lumaAt L x y fx fy ≤ 255 := by
  have hh (x y : ℤ) : 0 ≤ halfH L x y ∧ halfH L x y ≤ 255 := clip1_bounds _
  have hv (x y : ℤ) : 0 ≤ halfV L x y ∧ halfV L x y ≤ 255 := clip1_bounds _
  have hc (x y : ℤ) : 0 ≤ centre L x y ∧ centre L x y ≤ 255 := clip1_bounds _
  unfold lumaAt
  -- as functions, so that no proof below looks into them
  generalize halfH L = half at hh ⊢
  generalize halfV L = half' at hv ⊢
  generalize centre L = middle at hc ⊢
  split_ifs
  all_goals first
    | exact hL _ _
    | exact hh _ _
    | exact hv _ _
    | exact hc _ _
    | exact avg2_bounds (hL _ _) (hh _ _)
    | exact avg2_bounds (hL _ _) (hv _ _)
    | exact avg2_bounds (hh _ _) (hc _ _)
    | exact avg2_bounds (hc _ _) (hh _ _)
    | exact avg2_bounds (hv _ _) (hc _ _)
    | exact avg2_bounds (hc _ _) (hv _ _)
    | exact avg2_bounds (hh _ _) (hv _ _)
    | exact avg2_bounds (hv _ _) (hh _ _)

/-- A byte, through memory. -/
theorem toNat_ofNat {v : ℤ} (h : 0 ≤ v ∧ v ≤ 255) : ((UInt8.ofNat v.toNat).toNat : ℤ) = v := by
  rw [UInt8.toNat_ofNat']
  omega

theorem getD_rows {α : Type*} (g : ℕ → α) (d : α) {n i : ℕ} (hi : i < n) :
    ((List.range n).map g).getD i d = g i := by
  rw [List.getD_eq_getElem?_getD, List.getElem?_map, List.getElem?_range hi]
  rfl

/-- The rows that the vector code loads around a block that lies inside the picture. -/
theorem luma_rows (pg : Page) {xi yi : ℤ} (hx : 0 ≤ xi - 2 ∧ xi + 6 ≤ pg.W - 1)
    (hy : 0 ≤ yi - 2 ∧ yi + 6 ≤ pg.H - 1) :
    ∃ base : ℕ, (base : ℤ) = (yi - 2) * pg.W + (xi - 2) ∧
      ∀ r < 9, pg.Y.loads (base + r * pg.W) 16 =
        some ((List.range 16).map fun c => pg.bytes (base + r * pg.W + c)) := by
  obtain ⟨a, ha⟩ := Int.eq_ofNat_of_zero_le hx.1
  obtain ⟨b, hb⟩ := Int.eq_ofNat_of_zero_le hy.1
  refine ⟨b * pg.W + a, by rw [ha, hb]; push_cast; rfl, ?_⟩
  intro r hr
  apply Ptr.loads_eq
  intro c hc
  have hrow : (b + r + 1) * pg.W ≤ pg.H * pg.W := Nat.mul_le_mul_right _ (by omega)
  have harea : 9 * 9 ≤ pg.H * pg.W := Nat.mul_le_mul (by omega) (by omega)
  have hload := load_page 0 (i := b * pg.W + a + r * pg.W + c) (by
    rw [Nat.mul_comm pg.W, Nat.zero_add]
    rw [Nat.add_mul, Nat.add_mul] at hrow
    omega)
  rw [Nat.zero_add] at hload
  exact hload

/-- A block that went through memory: four bytes of each eight. -/
theorem spread_block (t : List ℤ) {g : ℕ → ℕ → ℤ}
    (ht : ∀ j < 4, ∀ i < 4, t[j * 4 + i]? = some (g j i))
    (hg : ∀ j i, 0 ≤ g j i ∧ g j i ≤ 255) :
    ∃ v : ℕ → ℕ → ℤ, ((List.range 4).map fun j => Lanes.vld1 8 (((List.range 32).map fun k =>
        if k % 8 < 4 then UInt8.ofNat (t.getD (k / 8 * 4 + k % 8) 0).toNat else 0).drop (8 * j))) =
        ((List.range 4).map fun j => of 8 (v j)) ∧ ∀ j < 4, ∀ i < 4, v j i = g j i := by
  refine ⟨fun j i => ((((List.range 32).map fun k =>
    if k % 8 < 4 then UInt8.ofNat (t.getD (k / 8 * 4 + k % 8) 0).toNat else 0).drop
      (8 * j)).getD i 0).toNat, rfl, ?_⟩
  intro j hj i hi
  have hplace : (8 * j + i) / 8 * 4 + (8 * j + i) % 8 = j * 4 + i := by omega
  have hlane : (8 * j + i) % 8 < 4 := by omega
  dsimp only
  rw [List.getD_eq_getElem?_getD, List.getElem?_drop, List.getElem?_map,
    List.getElem?_range (by omega), Option.map_some, Option.getD_some, if_pos hlane, hplace,
    List.getD_eq_getElem?_getD, ht j hj i hi, Option.getD_some]
  exact toNat_ofNat (hg j i)

/-- What was loaded, as numbers. -/
def loaded (rows : List (List UInt8)) (r c : ℕ) : ℤ := ((rows.getD r []).getD c 0).toNat

theorem loaded_bytes (rows : List (List UInt8)) (r : ℕ) : Bytes (loaded rows r) := by
  intro c
  have hlt := UInt8.toNat_lt ((rows.getD r []).getD c 0)
  unfold loaded
  omega

/-- The four rows of a block, from the rows that were loaded. -/
theorem luma4Rows (rows : List (List UInt8)) (fx fy : ℤ) :
    ∃ v : ℕ → ℕ → ℤ, (List.range 4).mapM (fun j =>
        luma4Row (fun r => Lanes.vld1 16 (rows.getD r [])) fx fy j) =
          some ((List.range 4).map fun j => of 8 (v j)) ∧
      ∀ j < 4, ∀ i < 4, v j i = blockSample (loaded rows) fx fy j i := by
  have hrow (j : ℕ) : ∃ v, j < 4 → luma4Row (rowsOf (loaded rows)) fx fy j = some (of 8 v) ∧
      ∀ i < 4, v i = blockSample (loaded rows) fx fy j i := by
    by_cases hj : j < 4
    · obtain ⟨v, hv⟩ := luma4Row_of (loaded_bytes rows) hj fx fy
      exact ⟨v, fun _ => hv⟩
    · exact ⟨fun _ => 0, fun h => absurd h hj⟩
  choose v hv using hrow
  exact ⟨v, mapM_eq_some fun j hj => (hv j (List.mem_range.1 hj)).1, fun j hj => (hv j hj).2⟩

/-- **`mc_luma4_neon`** is the samples of the block, in the lanes that are used. -/
theorem mcLuma4Neon_eq (pg : Page) (x y mvx mvy : ℤ) :
    ∃ v : ℕ → ℕ → ℤ, mcLuma4Neon pg.toSize pg.Y x y mvx mvy =
        some ((List.range 4).map fun j => of 8 (v j)) ∧
      ∀ j < 4, ∀ i < 4, v j i =
        lumaAt pg.luma (x + mvx / 4 + i) (y + mvy / 4 + j) (mvx % 4) (mvy % 4) := by
  unfold mcLuma4Neon
  dsimp only
  split
  · -- the block reaches the border: the C code, through memory
    obtain ⟨v, hv, hsame⟩ := spread_block _
      (fun j hj i hi => getElem?_block (fun j i : ℕ =>
        lumaAt pg.luma (x + mvx / 4 + i) (y + mvy / 4 + j) (mvx % 4) (mvy % 4)) hi hj)
      (fun j i => lumaAt_bounds (fun _ _ => at'_bounds pg _) _ _ _ _)
    rw [mcLumaBlock_eq, Option.bind_eq_bind, Option.bind_some, hv]
    exact ⟨v, rfl, hsame⟩
  · rename_i hinside
    obtain ⟨base, hbase, hrows⟩ := luma_rows pg (show 0 ≤ x + mvx / 4 - 2 ∧ _ from by omega)
      (show 0 ≤ y + mvy / 4 - 2 ∧ _ from by omega)
    have hload : (List.range 9).mapM (fun r => pg.Y.loads (((y + mvy / 4 - 2) * (pg.W : ℤ) +
        (x + mvx / 4 - 2)).toNat + r * pg.W) 16) = some ((List.range 9).map fun r =>
          (List.range 16).map fun c => pg.bytes (base + r * pg.W + c)) := by
      rw [← hbase, Int.toNat_natCast]
      exact mapM_eq_some fun r hr => hrows r (List.mem_range.1 hr)
    obtain ⟨v, hv, hsame⟩ := luma4Rows ((List.range 9).map fun r =>
      (List.range 16).map fun c => pg.bytes (base + r * pg.W + c)) (mvx % 4) (mvy % 4)
    rw [hload, Option.bind_eq_bind, Option.bind_some, hv]
    refine ⟨v, rfl, ?_⟩
    intro j hj i hi
    rw [hsame j hj i hi]
    apply Around.blockSample_eq
    · intro r c hr hc
      have hindex : (y + mvy / 4 - 2 + r) * (pg.W : ℤ) + (x + mvx / 4 - 2 + c) =
          ((base + r * pg.W + c : ℕ) : ℤ) := by
        push_cast
        rw [hbase]
        ring
      rw [loaded, getD_rows _ _ (by omega), getD_rows _ _ (by omega), Page.luma,
        clampTo_of_mem (by omega) (by omega), clampTo_of_mem (by omega) (by omega), hindex,
        Int.toNat_natCast]
      rfl
    · omega
    · omega

end BadgeOS.CodaCube
