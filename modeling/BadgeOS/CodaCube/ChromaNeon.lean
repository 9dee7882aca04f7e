import BadgeOS.CodaCube.InterpolateNeon
import Mathlib

/-!
# Chroma, and the fast paths together

A chroma sample is a mean of four, with weights that sum up to 64, so that its sum keeps in 16
bits; the vector code has two samples of two rows of both planes in one register.

* `chromaAt`, `chromaPred_eq` — the sample, and the C code;
* `mcChroma2Neon_eq`, `wp6Neon_eq` — the vector code, and the weighting;
* `fast_paths_agree` — all paths to the same samples.
-/

namespace BadgeOS.CodaCube

open Memory Neon Lanes

variable {pg : Page}

/-! ### The chroma block -/

/-- A chroma plane, which starts at `off` in the page, beyond its borders too. -/
def Page.chroma (pg : Page) (off : ℕ) (x y : ℤ) : ℤ :=
  pg.at' (off + (clampTo (pg.H / 2) y * (pg.W / 2 : ℕ) + clampTo (pg.W / 2) x).toNat)

/-- A chroma plane lies in the page. -/
def Page.HasPlane (pg : Page) (off : ℕ) : Prop :=
  off + pg.W / 2 * (pg.H / 2) ≤ pg.W * pg.H * 3 / 2

theorem plane_U (pg : Page) : pg.HasPlane (pg.W * pg.H) := by
  obtain ⟨a, ha⟩ : ∃ a, pg.W = 2 * a := ⟨pg.W / 2, by have := pg.W_even; omega⟩
  obtain ⟨b, hb⟩ : ∃ b, pg.H = 2 * b := ⟨pg.H / 2, by have := pg.H_even; omega⟩
  have harea : pg.W * pg.H = 4 * (a * b) := by rw [ha, hb]; ring
  unfold Page.HasPlane
  rw [harea, ha, hb, Nat.mul_div_cancel_left a two_pos, Nat.mul_div_cancel_left b two_pos]
  omega

theorem plane_V (pg : Page) : pg.HasPlane (pg.W * pg.H * 5 / 4) := by
  obtain ⟨a, ha⟩ : ∃ a, pg.W = 2 * a := ⟨pg.W / 2, by have := pg.W_even; omega⟩
  obtain ⟨b, hb⟩ : ∃ b, pg.H = 2 * b := ⟨pg.H / 2, by have := pg.H_even; omega⟩
  have harea : pg.W * pg.H = 4 * (a * b) := by rw [ha, hb]; ring
  unfold Page.HasPlane
  rw [harea, ha, hb, Nat.mul_div_cancel_left a two_pos, Nat.mul_div_cancel_left b two_pos]
  omega

theorem half_W_pos (pg : Page) : 0 < pg.W / 2 := by
  have hpos := pg.W_pos
  have heven := pg.W_even
  omega

theorem half_H_pos (pg : Page) : 0 < pg.H / 2 := by
  have hpos := pg.H_pos
  have heven := pg.H_even
  omega

section Chroma

variable {off : ℕ} {x y : ℤ}

theorem pcyx_eq (hoff : pg.HasPlane off) (x y : ℤ) :
    pcyx pg.toSize ⟨pg.mem, off⟩ x y = some (pg.chroma off x y) := by
  obtain ⟨i, hi, hlt⟩ := index_lt (clampTo_bounds (half_W_pos pg) x)
    (clampTo_bounds (half_H_pos pg) y)
  unfold Page.HasPlane at hoff
  unfold pcyx Page.chroma
  rw [← hi, Int.toNat_natCast]
  exact sample_page off (by omega)

/-- A sample inside the plane, read without a clamp. -/
theorem sample_chroma (hoff : pg.HasPlane off) {i : ℤ} (hx : 0 ≤ x ∧ x < (pg.W / 2 : ℕ))
    (hy : 0 ≤ y ∧ y < (pg.H / 2 : ℕ)) (hi : i = y * (pg.W / 2 : ℕ) + x) :
    sample ⟨pg.mem, off⟩ i = some (pg.chroma off x y) := by
  have hclamp := pcyx_eq hoff x y
  unfold pcyx at hclamp
  rw [clampTo_of_mem hx.1 hx.2, clampTo_of_mem hy.1 hy.2, ← hi] at hclamp
  exact hclamp

/-- The chroma sample at `(x, y)`, between its neighbours. -/
def chromaAt (c : ℤ → ℤ → ℤ) (x y fx fy : ℤ) : ℤ :=
  chromaMean fx fy (c x y) (c (x + 1) y) (c x (y + 1)) (c (x + 1) (y + 1))

/-- **`chroma_pred`** is the sample, whichever way it reads. -/
theorem chromaPred_eq (hoff : pg.HasPlane off) (xc yc mvx mvy : ℤ) :
    chromaPred pg.toSize ⟨pg.mem, off⟩ xc yc mvx mvy =
      some (chromaAt (pg.chroma off) (xc + mvx / 8) (yc + mvy / 8) (mvx % 8) (mvy % 8)) := by
  unfold chromaPred
  dsimp only
  split
  · rw [sample_chroma hoff (x := xc + mvx / 8) (y := yc + mvy / 8) (by omega) (by omega) rfl,
      sample_chroma hoff (x := xc + mvx / 8 + 1) (y := yc + mvy / 8) (by omega) (by omega)
        (by ring),
      sample_chroma hoff (x := xc + mvx / 8) (y := yc + mvy / 8 + 1) (by omega) (by omega)
        (by ring),
      sample_chroma hoff (x := xc + mvx / 8 + 1) (y := yc + mvy / 8 + 1) (by omega) (by omega)
        (by ring)]
    rfl
  · simp only [pcyx_eq hoff]
    rfl

/-- Four bytes with weights that sum up to 64. -/
theorem weighted_bounds {a b c d w₁ w₂ w₃ w₄ : ℤ} (ha : 0 ≤ a ∧ a ≤ 255) (hb : 0 ≤ b ∧ b ≤ 255)
    (hc : 0 ≤ c ∧ c ≤ 255) (hd : 0 ≤ d ∧ d ≤ 255) (h₁ : 0 ≤ w₁) (h₂ : 0 ≤ w₂) (h₃ : 0 ≤ w₃)
    (h₄ : 0 ≤ w₄) (hsum : w₁ + w₂ + w₃ + w₄ = 64) :
    0 ≤ a * w₁ ∧ 0 ≤ b * w₂ ∧ 0 ≤ c * w₃ ∧ 0 ≤ d * w₄ ∧
      a * w₁ + b * w₂ + c * w₃ + d * w₄ ≤ 255 * 64 := by
  have hle {v w : ℤ} (hv : v ≤ 255) (hw : 0 ≤ w) : v * w ≤ 255 * w :=
    Int.mul_le_mul_of_nonneg_right hv hw
  have hp₁ := hle ha.2 h₁
  have hp₂ := hle hb.2 h₂
  have hp₃ := hle hc.2 h₃
  have hp₄ := hle hd.2 h₄
  refine ⟨Int.mul_nonneg ha.1 h₁, Int.mul_nonneg hb.1 h₂, Int.mul_nonneg hc.1 h₃,
    Int.mul_nonneg hd.1 h₄, ?_⟩
  omega

/-- **The accumulation** keeps in 16 bits, and is the weighted mean. -/
theorem chromaAcc_of {a b c d : ℕ → ℤ} (ha : Bytes a) (hb : Bytes b) (hc : Bytes c) (hd : Bytes d)
    {fx fy : ℤ} (hfx : 0 ≤ fx ∧ fx < 8) (hfy : 0 ≤ fy ∧ fy < 8) :
    chromaAcc (of 8 a) (of 8 b) (of 8 c) (of 8 d) fx fy =
      some (of 8 fun i => chromaMean fx fy (a i) (b i) (c i) (d i)) := by
  obtain ⟨w₁, hw₁⟩ : ∃ w, w = (8 - fx) * (8 - fy) := ⟨_, rfl⟩
  obtain ⟨w₂, hw₂⟩ : ∃ w, w = fx * (8 - fy) := ⟨_, rfl⟩
  obtain ⟨w₃, hw₃⟩ : ∃ w, w = (8 - fx) * fy := ⟨_, rfl⟩
  obtain ⟨w₄, hw₄⟩ : ∃ w, w = fx * fy := ⟨_, rfl⟩
  have h₁ : 0 ≤ w₁ := hw₁ ▸ Int.mul_nonneg (by omega) (by omega)
  have h₂ : 0 ≤ w₂ := hw₂ ▸ Int.mul_nonneg (by omega) (by omega)
  have h₃ : 0 ≤ w₃ := hw₃ ▸ Int.mul_nonneg (by omega) (by omega)
  have h₄ : 0 ≤ w₄ := hw₄ ▸ Int.mul_nonneg (by omega) (by omega)
  have hsum : w₁ + w₂ + w₃ + w₄ = 64 := by rw [hw₁, hw₂, hw₃, hw₄]; ring
  have hb' (i : ℕ) := weighted_bounds (ha i) (hb i) (hc i) (hd i) h₁ h₂ h₃ h₄ hsum
  have hacc₁ : (of 8 a).vmull (of 8 fun _ => w₁) = of 8 fun i => a i * w₁ :=
    vmull_of fun i _ => by have := hb' i; omega
  have hacc₂ : (of 8 fun i => a i * w₁).vmlal (of 8 b) (of 8 fun _ => w₂) =
      of 8 fun i => a i * w₁ + b i * w₂ := vmlal_of fun i _ => by have := hb' i; omega
  have hacc₃ : (of 8 fun i => a i * w₁ + b i * w₂).vmlal (of 8 c) (of 8 fun _ => w₃) =
      of 8 fun i => a i * w₁ + b i * w₂ + c i * w₃ := vmlal_of fun i _ => by have := hb' i; omega
  have hacc₄ : (of 8 fun i => a i * w₁ + b i * w₂ + c i * w₃).vmlal (of 8 d) (of 8 fun _ => w₄) =
      of 8 fun i => a i * w₁ + b i * w₂ + c i * w₃ + d i * w₄ :=
    vmlal_of fun i _ => by have := hb' i; omega
  have hnarrow : (of 8 fun i => a i * w₁ + b i * w₂ + c i * w₃ + d i * w₄).vrshrn 6 =
      of 8 fun i => rounded 6 (a i * w₁ + b i * w₂ + c i * w₃ + d i * w₄) :=
    vrshrn_of fun i _ => by have := hb' i; unfold rounded; omega
  unfold chromaAcc
  rw [← hw₁, ← hw₂, ← hw₃, ← hw₄, Int.emod_eq_of_lt h₁ (by omega), Int.emod_eq_of_lt h₂ (by omega),
    Int.emod_eq_of_lt h₃ (by omega), Int.emod_eq_of_lt h₄ (by omega), vdup_eq, vdup_eq, vdup_eq,
    vdup_eq, hacc₁]
  simp only [exact_of, Option.bind_eq_bind, Option.bind_some, hacc₂, hacc₃, hacc₄, hnarrow]
  congr 1
  apply of_congr
  intro i _
  unfold chromaMean rounded
  rw [← hw₁, ← hw₂, ← hw₃, ← hw₄, Int.mul_comm w₁, Int.mul_comm w₂, Int.mul_comm w₃,
    Int.mul_comm w₄]
  rfl

/-- A chroma sample is a byte. -/
theorem chromaAt_bounds {c : ℤ → ℤ → ℤ} (hc : ∀ x y, 0 ≤ c x y ∧ c x y ≤ 255) (x y : ℤ)
    {fx fy : ℤ} (hfx : 0 ≤ fx ∧ fx < 8) (hfy : 0 ≤ fy ∧ fy < 8) :
    0 ≤ chromaAt c x y fx fy ∧ chromaAt c x y fx fy ≤ 255 := by
  have h₁ : 0 ≤ (8 - fx) * (8 - fy) := Int.mul_nonneg (by omega) (by omega)
  have h₂ : 0 ≤ fx * (8 - fy) := Int.mul_nonneg (by omega) (by omega)
  have h₃ : 0 ≤ (8 - fx) * fy := Int.mul_nonneg (by omega) (by omega)
  have h₄ : 0 ≤ fx * fy := Int.mul_nonneg (by omega) (by omega)
  have hb := weighted_bounds (hc x y) (hc (x + 1) y) (hc x (y + 1)) (hc (x + 1) (y + 1)) h₁ h₂ h₃
    h₄ (by ring)
  unfold chromaAt chromaMean
  rw [Int.mul_comm _ (c x y), Int.mul_comm _ (c (x + 1) y), Int.mul_comm _ (c x (y + 1)),
    Int.mul_comm _ (c (x + 1) (y + 1))]
  omega

/-- Two bytes of two rows, of both planes. -/
def quad (u₀ u₁ v₀ v₁ : ℕ → ℤ) (i : ℕ) : ℤ :=
  if i < 4 then (if i % 4 / 2 = 0 then u₀ else u₁) (i % 2)
  else (if i % 4 / 2 = 0 then v₀ else v₁) (i % 2)

theorem pack_of (u₀ u₁ v₀ v₁ : ℕ → ℤ) :
    pack (zip16 (of 8 u₀) (of 8 u₁)) (zip16 (of 8 v₀) (of 8 v₁)) = of 8 (quad u₀ u₁ v₀ v₁) := by
  funext i
  fin_cases i <;> rfl

theorem quad_bytes {u₀ u₁ v₀ v₁ : ℕ → ℤ} (hu₀ : Bytes u₀) (hu₁ : Bytes u₁) (hv₀ : Bytes v₀)
    (hv₁ : Bytes v₁) : Bytes (quad u₀ u₁ v₀ v₁) := by
  intro i
  unfold quad
  split
  · split
    · exact hu₀ _
    · exact hu₁ _
  · split
    · exact hv₀ _
    · exact hv₁ _

/-- A lane of two rows of both planes is a sample of one of them. -/
theorem quad_rows (u v : ℕ → ℕ → ℤ) (r k : ℕ) :
    quad (u r) (u (r + 1)) (v r) (v (r + 1)) k =
      (if k < 4 then u else v) (r + k % 4 / 2) (k % 2) := by
  obtain hrow | hrow : k % 4 / 2 = 0 ∨ k % 4 / 2 = 1 := by omega
  · simp only [quad, hrow, if_true, Nat.add_zero]
    split <;> rfl
  · simp only [quad, hrow, if_neg one_ne_zero]
    split <;> rfl

/-- The lanes one further, around. -/
def next (g : ℕ → ℤ) (i : ℕ) : ℤ := if i + 1 < 8 then g (i + 1) else g (i + 1 - 8)

theorem next_bytes {g : ℕ → ℤ} (hg : Bytes g) : Bytes (next g) := by
  intro i
  unfold next
  split
  · exact hg _
  · exact hg _

/-- The rows that the vector code loads of a plane. -/
theorem chroma_rows (hoff : pg.HasPlane off) (hx : 0 ≤ x ∧ x + 8 ≤ (pg.W / 2 : ℕ))
    (hy : 0 ≤ y ∧ y + 2 ≤ (pg.H / 2 : ℕ) - 1) :
    ∃ rows : List (List UInt8),
      (List.range 3).mapM (fun r => (⟨pg.mem, off⟩ : Ptr).loads
        ((y * (pg.W / 2 : ℕ) + x).toNat + r * (pg.W / 2)) 8) = some rows ∧
      ∀ r < 3, ∀ c < 8, loaded rows r c = pg.chroma off (x + c) (y + r) := by
  obtain ⟨a, rfl⟩ := Int.eq_ofNat_of_zero_le hx.1
  obtain ⟨b, rfl⟩ := Int.eq_ofNat_of_zero_le hy.1
  have hbase : ((b : ℤ) * (pg.W / 2 : ℕ) + a).toNat = b * (pg.W / 2) + a := by
    rw [← Int.natCast_mul, ← Int.natCast_add, Int.toNat_natCast]
  refine ⟨(List.range 3).map fun r => (List.range 8).map fun c =>
    pg.bytes (off + (b * (pg.W / 2) + a + r * (pg.W / 2) + c)), ?_, ?_⟩
  · rw [hbase]
    apply mapM_eq_some
    intro r hr
    apply Ptr.loads_eq
    intro c hc
    rw [List.mem_range] at hr
    have hrow : (b + r + 1) * (pg.W / 2) ≤ pg.H / 2 * (pg.W / 2) :=
      Nat.mul_le_mul_right _ (by omega)
    rw [Nat.add_mul, Nat.add_mul, Nat.mul_comm (pg.H / 2)] at hrow
    unfold Page.HasPlane at hoff
    exact load_page off (by omega)
  · intro r hr c hc
    have hindex : ((b : ℤ) + r) * (pg.W / 2 : ℕ) + ((a : ℤ) + c) =
        ((b * (pg.W / 2) + a + r * (pg.W / 2) + c : ℕ) : ℤ) := by
      push_cast
      ring
    rw [loaded, getD_rows _ _ hr, getD_rows _ _ hc, Page.chroma,
      clampTo_of_mem (by omega) (by omega),
      clampTo_of_mem (by omega) (by omega), hindex, Int.toNat_natCast]
    rfl

/-- **`mc_chroma2_neon`** is the samples of both planes. -/
theorem mcChroma2Neon_eq {offU offV : ℕ} (hU : pg.HasPlane offU) (hV : pg.HasPlane offV)
    (xc yc mvx mvy : ℤ) :
    mcChroma2Neon pg.toSize ⟨pg.mem, offU⟩ ⟨pg.mem, offV⟩ xc yc mvx mvy =
      some (of 8 fun k => chromaAt (pg.chroma (if k < 4 then offU else offV))
        (xc + (k % 2 : ℕ) + mvx / 8) (yc + (k % 4 / 2 : ℕ) + mvy / 8) (mvx % 8) (mvy % 8)) := by
  have hfx : 0 ≤ mvx % 8 ∧ mvx % 8 < 8 := by omega
  have hfy : 0 ≤ mvy % 8 ∧ mvy % 8 < 8 := by omega
  unfold mcChroma2Neon
  dsimp only
  split
  · have hpred : (List.range 8).mapM (fun k => chromaPred pg.toSize
        (if k < 4 then ⟨pg.mem, offU⟩ else ⟨pg.mem, offV⟩) (xc + (k % 2 : ℕ))
          (yc + (k % 4 / 2 : ℕ)) mvx mvy) = some ((List.range 8).map fun k =>
            chromaAt (pg.chroma (if k < 4 then offU else offV)) (xc + (k % 2 : ℕ) + mvx / 8)
              (yc + (k % 4 / 2 : ℕ) + mvy / 8) (mvx % 8) (mvy % 8)) := by
      apply mapM_eq_some
      intro k _
      split
      · exact chromaPred_eq hU _ _ _ _
      · exact chromaPred_eq hV _ _ _ _
    rw [hpred, Option.bind_eq_bind, Option.bind_some, vld1_eq]
    congr 1
    apply of_congr
    intro k hk
    rw [List.map_map, getD_rows _ _ hk]
    exact toNat_ofNat (chromaAt_bounds (fun _ _ => at'_bounds pg _) _ _ hfx hfy)
  · rename_i hinside
    obtain ⟨u, hu, hurows⟩ := chroma_rows hU (x := xc + mvx / 8) (y := yc + mvy / 8) (by omega)
      (by omega)
    obtain ⟨v, hv, hvrows⟩ := chroma_rows hV (x := xc + mvx / 8) (y := yc + mvy / 8) (by omega)
      (by omega)
    have hub (r : ℕ) := loaded_bytes u r
    have hvb (r : ℕ) := loaded_bytes v r
    have hrow (rows : List (List UInt8)) (r : ℕ) :
        Lanes.vld1 8 (rows.getD r []) = of 8 (loaded rows r) := rfl
    have hext (g : ℕ → ℤ) : (of 8 g).vext (of 8 g) 1 = of 8 (next g) := vext_self g 1
    rw [hu, Option.bind_eq_bind, Option.bind_some, hv, Option.bind_some]
    simp only [hrow, hext, pack_of]
    rw [chromaAcc_of (quad_bytes (hub 0) (hub 1) (hvb 0) (hvb 1))
      (quad_bytes (next_bytes (hub 0)) (next_bytes (hub 1)) (next_bytes (hvb 0))
        (next_bytes (hvb 1)))
      (quad_bytes (hub 1) (hub 2) (hvb 1) (hvb 2))
      (quad_bytes (next_bytes (hub 1)) (next_bytes (hub 2)) (next_bytes (hvb 1))
        (next_bytes (hvb 2))) hfx hfy]
    congr 1
    apply of_congr
    intro k hk
    have hrows (r c : ℕ) (hr : r < 3) (hc : c < 8) :
        (if k < 4 then loaded u else loaded v) r c =
          pg.chroma (if k < 4 then offU else offV) (xc + mvx / 8 + c) (yc + mvy / 8 + r) := by
      split
      · exact hurows r hr c hc
      · exact hvrows r hr c hc
    have hnext (r : ℕ) :
        (if k < 4 then fun r => next (loaded u r) else fun r => next (loaded v r)) r (k % 2) =
          (if k < 4 then loaded u else loaded v) r (k % 2 + 1) := by
      split
      · exact if_pos (by omega)
      · exact if_pos (by omega)
    have ha := quad_rows (loaded u) (loaded v) 0 k
    have hb := quad_rows (fun r => next (loaded u r)) (fun r => next (loaded v r)) 0 k
    have hc := quad_rows (loaded u) (loaded v) 1 k
    have hd := quad_rows (fun r => next (loaded u r)) (fun r => next (loaded v r)) 1 k
    rw [hrows _ _ (by omega) (by omega)] at ha hc
    rw [hnext, hrows _ _ (by omega) (by omega)] at hb hd
    rw [ha, hb, hc, hd]
    unfold chromaAt
    congr 2 <;> push_cast <;> ring

end Chroma

/-! ### The weighting -/

/-- **`wp6_neon`** is `wp6`, lane by lane. -/
theorem wp6Neon_eq {f : ℕ → ℤ} (hf : Bytes f) {w o : ℤ} (hw : 0 ≤ w ∧ w ≤ 128)
    (ho : -128 ≤ o ∧ o ≤ 127) : wp6Neon (of 8 f) w o = some (of 8 fun i => wp6 (f i) w o) := by
  have hprod (i : ℕ) : 0 ≤ f i * w ∧ f i * w ≤ 255 * 128 := by
    have hbyte := hf i
    exact ⟨Int.mul_nonneg hbyte.1 hw.1, Int.mul_le_mul hbyte.2 hw.2 hw.1 (by decide)⟩
  have hoff : o.bmod (2 ^ 16) = o := by
    rw [Int.bmod_eq_of_le]
    · push_cast
      omega
    · push_cast
      omega
  have hmull : (of 8 f).vmull (of 8 fun _ => w) = of 8 fun i => f i * w :=
    vmull_of fun i _ => by have := hprod i; omega
  have hsigned : (of 8 fun i => f i * w).asSigned16 = of 8 fun i => f i * w :=
    asSigned16_of fun i _ => by have := hprod i; omega
  have hshift : (of 8 fun i => f i * w).vrshr 6 = of 8 fun i => rounded 6 (f i * w) :=
    vrshr_of fun i _ => by have := hprod i; unfold rounded; omega
  have hadd : (of 8 fun i => rounded 6 (f i * w)).vadd 16 (of 8 fun _ => o) =
      of 8 fun i => rounded 6 (f i * w) + o :=
    vadd_of (by decide) fun i _ => by have := hprod i; unfold rounded; omega
  unfold wp6Neon
  rw [Int.emod_eq_of_lt hw.1 (by omega), hoff, vdup_eq, vdup_eq, hmull]
  simp only [exact_of, Option.bind_eq_bind, Option.bind_some, hsigned, hshift, hadd, vqmovn_of]
  congr 1
  apply of_congr
  intro i _
  unfold saturated wp6 clip1 rounded
  split
  · omega
  · split <;> omega

/-! ### All paths -/

/-- **All paths to one sample.**  On every page: a block in C has at each place the sample of
`luma_qpel`; the vector code has the same 16 bytes, and the chroma bytes of both planes; and its
weighting is `wp6`.  A result of the model read nothing outside the page, and no lane of 16 bits
wrapped on the way to it. -/
theorem fast_paths_agree (pg : Page) (x y mvx mvy : ℤ) (f : ℕ → ℤ) (wt o : ℤ) :
    (∀ w h : ℕ, ∃ out, mcLumaBlock pg.toSize pg.Y x y w h mvx mvy = some out ∧
      ∀ j < h, ∀ i < w, ∃ v, 0 ≤ v ∧ v ≤ 255 ∧ out[j * w + i]? = some v ∧
        lumaQpel pg.toSize pg.Y (x + mvx / 4 + i) (y + mvy / 4 + j) (mvx % 4) (mvy % 4) =
          some v) ∧
    (∃ block rows, mcLumaBlock pg.toSize pg.Y x y 4 4 mvx mvy = some block ∧
      mcLuma4Neon pg.toSize pg.Y x y mvx mvy = some rows ∧ rows.length = 4 ∧
        ∀ j (hj : j < rows.length) (i : Fin 8), i < 4 →
          ∃ v, block[j * 4 + i]? = some v ∧ rows.get ⟨j, hj⟩ i = ⟨v, false⟩) ∧
    (∃ out, mcChroma2Neon pg.toSize pg.U pg.V x y mvx mvy = some out ∧
      ∀ k : Fin 8, ∃ v, 0 ≤ v ∧ v ≤ 255 ∧ out k = ⟨v, false⟩ ∧
        chromaPred pg.toSize (if (k : ℕ) < 4 then pg.U else pg.V) (x + ((k : ℕ) % 2 : ℕ))
          (y + ((k : ℕ) % 4 / 2 : ℕ)) mvx mvy = some v) ∧
    (Bytes f → 0 ≤ wt ∧ wt ≤ 128 → -128 ≤ o ∧ o ≤ 127 →
      wp6Neon (of 8 f) wt o = some (of 8 fun i => wp6 (f i) wt o)) := by
  have hbytes (a b : ℤ) : 0 ≤ pg.luma a b ∧ pg.luma a b ≤ 255 := at'_bounds pg _
  refine ⟨?_, ?_, ?_, fun hf hw ho => wp6Neon_eq hf hw ho⟩
  · intro w h
    refine ⟨_, mcLumaBlock_eq pg x y w h mvx mvy, ?_⟩
    intro j hj i hi
    exact ⟨_, (lumaAt_bounds hbytes _ _ _ _).1, (lumaAt_bounds hbytes _ _ _ _).2,
      getElem?_block _ hi hj, lumaQpel_eq pg _ _ _ _⟩
  · obtain ⟨v, hv, hsame⟩ := mcLuma4Neon_eq pg x y mvx mvy
    refine ⟨_, _, mcLumaBlock_eq pg x y 4 4 mvx mvy, hv, by simp, ?_⟩
    intro j hj i hi
    have hj' : j < 4 := by simpa using hj
    have hi' : (i : ℕ) < 4 := hi
    refine ⟨_, getElem?_block _ hi' hj', ?_⟩
    rw [List.get_eq_getElem, List.getElem_map, List.getElem_range]
    show (⟨v j i, false⟩ : Lane) = _
    rw [hsame j hj' i hi']
  · refine ⟨_, mcChroma2Neon_eq (plane_U pg) (plane_V pg) x y mvx mvy, ?_⟩
    intro k
    have hfx : 0 ≤ mvx % 8 ∧ mvx % 8 < 8 := by omega
    have hfy : 0 ≤ mvy % 8 ∧ mvy % 8 < 8 := by omega
    have hbounds (off : ℕ) (a b : ℤ) :=
      chromaAt_bounds (c := pg.chroma off) (fun _ _ => at'_bounds pg _) a b hfx hfy
    refine ⟨_, (hbounds _ _ _).1, (hbounds _ _ _).2, rfl, ?_⟩
    split
    · exact chromaPred_eq (plane_U pg) _ _ _ _
    · exact chromaPred_eq (plane_V pg) _ _ _ _

/-- Eight samples at weight 96 and offset 5, the last above 255, and a block at the corner of a
page. -/
theorem fast_paths_agree_corner :
    wp6Neon (of 8 fun i => 30 * (i % 8 : ℕ)) 96 5 =
        some (of 8 fun i => wp6 (30 * (i % 8 : ℕ)) 96 5) ∧ wp6 210 96 5 = 255 ∧
      ∃ out, mcLumaBlock ⟨16, 16⟩ (Page.Y ⟨⟨16, 16⟩, UInt8.ofNat, by decide, by decide, rfl, rfl⟩)
        (-3) 14 16 16 5 7 = some out := by
  have hagree := fast_paths_agree ⟨⟨16, 16⟩, UInt8.ofNat, by decide, by decide, rfl, rfl⟩ (-3)
    14 5 7 (fun i => 30 * (i % 8 : ℕ)) 96 5
  obtain ⟨hblock, -, -, hweight⟩ := hagree
  obtain ⟨out, hout, -⟩ := hblock 16 16
  refine ⟨hweight ?_ (by decide) (by decide), by decide, out, hout⟩
  intro i
  dsimp only
  omega

end BadgeOS.CodaCube
