import BadgeOS.CodaCube.CpuModelRender
import Mathlib

/-!
# A smoothing pass of the CPU model

`model_b` against a decoder: in a macroblock with an edge both average the same two samples, and in
any other both copy the sample.

* `paintPass`, `paintPass_eq` — one macroblock in one plane;
* `fetch_still` — what a vector of zero fetches;
* `modelB_eq` — the picture that the decoder makes of the macroblocks.
-/

namespace BadgeOS.CodaCube.CpuModel

open Raster Cells Buffers AvcSamples AvcSlice
open Pages (Planes)
open Bpic (Pass passMb passMbs)

variable (S : Pass) (src : Planes)

/-- The width of a plane. -/
def stride (S : MbSize) (c : Component) : ℕ := S.WMB * (4 * unit c)

/-- A sample of a macroblock. -/
def passSample (P : Page) : Component → ℕ → ℕ → ℕ → Option UInt8
  | .luma => passLuma S P
  | .cb => passChroma S P P.U
  | .cr => passChroma S P P.V

/-- One macroblock in one plane. -/
def paintPass (c : Component) (plane : ℕ → UInt8) (m : ℕ) : Option (ℕ → UInt8) :=
  let n := 4 * unit c
  let x := m % S.WMB * n
  let y := m / S.WMB * n
  rect (stride S.toMbSize c * (S.HMB * n)) (stride S.toMbSize c) x y n n
    (fun i j => passSample S (page S.toMbSize src) c m (x + i) (y + j)) plane

theorem modelMb_eq (b : Planes) (m : ℕ) : modelMb S (page S.toMbSize src) b m = (do
    let Y ← paintPass S src .luma b.Y m
    let U ← paintPass S src .cb b.U m
    let V ← paintPass S src .cr b.V m
    some ⟨Y, U, V⟩) := by
  have hhalf (v : ℕ) : v * 16 / 2 = v * 8 := by omega
  rw [modelMb]
  simp only [chromaSize, half_W, half_H, hhalf]
  rfl

/-! ### A sample -/

/-- What a smoothing pass shows at `(x, y)`. -/
def passByte (c : Component) (m x y : ℕ) : UInt8 :=
  if S.edge m then
    UInt8.ofInt (avg2 (c.fetch (picture S.toMbSize src) S.m0 x y)
      (c.fetch (picture S.toMbSize src) S.m1 x y))
  else bytes src c (y * stride S.toMbSize c + x)

theorem size_eq (c : Component) : size S.toMbSize c =
    stride S.toMbSize c * (S.HMB * (4 * unit c)) := by
  cases c with
  | luma => rfl
  | cb => rw [size, half_W, half_H]; rfl
  | cr => rw [size, half_W, half_H]; rfl

section Sample

variable {S} {c : Component} {x y m : ℕ}

theorem sample_bytes (hx : x < stride S.toMbSize c) (hy : y < S.HMB * (4 * unit c)) :
    sample ⟨(page S.toMbSize src).mem, offset S.toMbSize c⟩ (y * stride S.toMbSize c + x : ℕ) =
      some ((bytes src c (y * stride S.toMbSize c + x)).toNat : ℤ) := by
  have hlt : y * stride S.toMbSize c + x < size S.toMbSize c := by
    rw [size_eq, Nat.mul_comm (stride S.toMbSize c)]
    exact index_lt_size hx hy le_rfl
  obtain ⟨hbyte, hbound⟩ := page_bytes S.toMbSize src hlt
  rw [sample_page _ hbound, Page.at', hbyte]

theorem ofInt_byte (b : UInt8) : UInt8.ofInt (b.toNat : ℤ) = b := by
  have hlt := b.toNat_lt
  rw [← UInt8.toNat_inj]
  exact_mod_cast toNat_ofInt (v := (b.toNat : ℤ)) ⟨by omega, by omega⟩

theorem passChroma_eq (hc : c ≠ .luma) (hx : x < stride S.toMbSize c)
    (hy : y < S.HMB * (4 * unit c)) :
    passChroma S (page S.toMbSize src) ⟨(page S.toMbSize src).mem, offset S.toMbSize c⟩ m x y =
      some (passByte S src c m x y) := by
  have hcopy := sample_bytes (S := S) src hx hy
  have hstride : stride S.toMbSize c = S.W / 2 := by
    rw [half_W]
    cases c with
    | luma => exact absurd rfl hc
    | cb => rfl
    | cr => rfl
  rw [passByte, passChroma, ← hstride, hcopy]
  cases S.edge m with
  | true =>
      simp only [chromaPred_page S.toMbSize src hc, Option.bind_eq_bind, Option.bind_some, if_true]
  | false => simp only [Option.map_some, ofInt_byte, if_neg Bool.false_ne_true]

theorem passSample_eq (hx : x < stride S.toMbSize c) (hy : y < S.HMB * (4 * unit c)) :
    passSample S (page S.toMbSize src) c m x y = some (passByte S src c m x y) := by
  cases c with
  | luma =>
      have hcopy : sample (page S.toMbSize src).Y (y * S.W + x : ℕ) = _ :=
        sample_bytes (S := S) (c := .luma) src hx hy
      rw [passSample, passByte, passLuma, hcopy, Option.bind_eq_bind, Option.bind_some]
      cases S.edge m with
      | true => simp only [lumaQpel_page, Option.bind_some, if_true]
      | false => simp only [ofInt_byte, if_neg Bool.false_ne_true]
  | cb => exact passChroma_eq src (c := .cb) (by decide) hx hy
  | cr => exact passChroma_eq src (c := .cr) (by decide) hx hy

end Sample

/-! ### A plane -/

/-- The samples of a macroblock. -/
theorem inside_mb {m : ℕ} (c : Component) (a : ℕ) :
    Inside (stride S.toMbSize c) (m % S.WMB * (4 * unit c)) (m / S.WMB * (4 * unit c))
      (4 * unit c) (4 * unit c) a ↔ mbAt S.toMbSize c a = m := by
  have hu := unit_pos c
  have hstride : 0 < S.WMB * (4 * unit c) := Nat.mul_pos S.WMB_pos (by omega)
  have hcolumn : column S.toMbSize c a < 4 * S.WMB := by
    rw [column, Nat.div_lt_iff_lt_mul hu]
    exact lt_of_lt_of_eq (Nat.mod_lt a hstride) (by ring)
  have hblock := inside_iff (W := S.WMB) (m := m) (j := row S.toMbSize c a) hcolumn
    (show 0 + 4 ≤ 4 by decide) (show 0 + 4 ≤ 4 by decide)
  rw [← Nat.mul_assoc, ← Nat.mul_assoc, inside_blocks hu, and_assoc]
  refine hblock.trans ?_
  rw [mbAt]
  omega

/-- **One macroblock in one plane.** -/
theorem paintPass_eq {m : ℕ} (hm : m < S.mbs) (c : Component) (plane : ℕ → UInt8) :
    paintPass S src c plane m = some fun a => if mbAt S.toMbSize c a = m then
      passByte S src c m (a % stride S.toMbSize c) (a / stride S.toMbSize c) else plane a := by
  obtain ⟨hcol, hrow⟩ := place_lt hm
  have hright : m % S.WMB * (4 * unit c) + 4 * unit c ≤ stride S.toMbSize c := by
    rw [← Nat.succ_mul]
    exact Nat.mul_le_mul_right _ hcol
  have hbottom : m / S.WMB * (4 * unit c) + 4 * unit c ≤ S.HMB * (4 * unit c) := by
    rw [← Nat.succ_mul]
    exact Nat.mul_le_mul_right _ hrow
  have hsize : (m / S.WMB * (4 * unit c) + 4 * unit c) * stride S.toMbSize c ≤
      stride S.toMbSize c * (S.HMB * (4 * unit c)) := by
    rw [Nat.mul_comm (stride S.toMbSize c)]
    exact Nat.mul_le_mul_right _ hbottom
  rw [paintPass]
  refine (rect_at (g := passByte S src c m) hright hsize (fun i hi j hj => ?_) plane).trans ?_
  · exact passSample_eq src (lt_of_lt_of_le (Nat.add_lt_add_left hi _) hright)
      (lt_of_lt_of_le (Nat.add_lt_add_left hj _) hbottom)
  · exact congrArg some (funext fun a => if_congr (inside_mb S c a) rfl rfl)

/-! ### A sample of the decoder -/

theorem chromaSample_still (C : ℤ → ℤ → ℤ) (x y : ℤ) : chromaSample C x y 0 0 = C x y := by
  rw [chromaSample, Nat.cast_zero]
  omega

/-- **A vector of zero** fetches the sample itself. -/
theorem fetch_still {S : MbSize} {c : Component} {x y : ℕ} (hx : x < stride S c)
    (hy : y < S.HMB * (4 * unit c)) :
    c.fetch (picture S src) (0, 0) x y = (bytes src c (y * stride S c + x)).toNat := by
  have hextended : (c.plane (picture S src)).extended x y =
      (bytes src c (y * stride S c + x)).toNat := by
    obtain ⟨i, -, hi, hsample⟩ := extended_plane (show 0 < stride S c by omega)
      (show 0 < S.HMB * (4 * unit c) by omega) (bytes src c) x y
    rw [clampTo_of_mem (by omega) (by omega), clampTo_of_mem (by omega) (by omega)] at hi
    have hindex : i = y * stride S c + x := by exact_mod_cast hi
    rw [← hindex, ← hsample]
    cases c with
    | luma => rfl
    | cb => rw [Component.plane, picture, half_W, half_H]; rfl
    | cr => rw [Component.plane, picture, half_W, half_H]; rfl
  rw [← hextended]
  cases c with
  | luma =>
      show (picture S src).luma.extended (x + 0) (y + 0) = _
      rw [add_zero, add_zero]
      rfl
  | cb =>
      show chromaSample (picture S src).cb.extended (x + 0) (y + 0) 0 0 = _
      rw [chromaSample_still, add_zero, add_zero]
      rfl
  | cr =>
      show chromaSample (picture S src).cr.extended (x + 0) (y + 0) 0 0 = _
      rw [chromaSample_still, add_zero, add_zero]
      rfl

/-- A picture that was read from the slice of a smoothing pass. -/
structure Smoothed (S : Pass) (p : AvcStream.CodedPicture) : Prop where
  width : p.sets.sps.picWidthInMbs = S.WMB
  height : p.sets.sps.picHeightInMbs = S.HMB
  weights : p.header.weights = none
  filter : p.header.filterOffsets = none
  mbs : p.mbs = passMbs S S.mbs

section Decoder

variable {S} {p : AvcStream.CodedPicture} {L : Lists} {c : Component} {a : ℕ}

/-- **A sample**: both average the same two, or copy. -/
theorem passByte_eq (hp : Smoothed S p) (h0 : L.list0 = [some (picture S.toMbSize src)])
    (h1 : L.list1 = [some (picture S.toMbSize src)])
    (ha : a < stride S.toMbSize c * (S.HMB * (4 * unit c))) :
    let x := a % stride S.toMbSize c
    let y := a / stride S.toMbSize c
    decodeSample p L c x y = some ((passByte S src c (mbAt S.toMbSize c a) x y).toNat : ℤ) := by
  intro x y
  have hstride : 0 < stride S.toMbSize c := Nat.pos_of_ne_zero fun hzero => by
    rw [hzero, Nat.zero_mul] at ha
    omega
  have hx : x < stride S.toMbSize c := Nat.mod_lt a hstride
  have hy : y < S.HMB * (4 * unit c) := Nat.div_lt_of_lt_mul ha
  have hmb : p.mbs[y / (16 / c.scale) * p.sets.sps.picWidthInMbs + x / (16 / c.scale)]? =
      some (passMb S (mbAt S.toMbSize c a)) := by
    rw [hp.mbs, hp.width, width_eq c, (unit_div c y).1, (unit_div c x).1, passMbs,
      List.getElem?_map, List.getElem?_range]
    · rfl
    · exact mbAt_lt ha
  have hentry (mv : ℤ × ℤ) : entry [some (picture S.toMbSize src)] ⟨0, mv⟩ =
      some (picture S.toMbSize src) := rfl
  rw [decodeSample]
  simp only [hmb, Option.bind_eq_bind, Option.bind_some]
  rw [passMb, passByte]
  cases S.edge (mbAt S.toMbSize c a) with
  | true =>
      have hbounds (mv : ℤ × ℤ) := fetch_bounds S.toMbSize src c mv x y
      show predicted c p.header.weights L ⟨0, S.m0⟩ ⟨0, S.m1⟩ x y = _
      have haverage := toNat_ofInt (avg2_bounds (hbounds S.m0) (hbounds S.m1))
      rw [predicted, if_neg (lt_irrefl (0 : ℤ)), if_neg (lt_irrefl (0 : ℤ)), fromBoth, hp.weights,
        h0, h1, if_neg (by decide), hentry, hentry, if_pos rfl, haverage]
      rfl
  | false =>
      show predicted c p.header.weights L ⟨0, (0, 0)⟩ unused x y = _
      rw [predicted, if_neg (by decide), if_pos (by decide), fromOne, hp.weights, h0, hentry,
        if_neg (by decide)]
      exact congrArg some (fetch_still src hx hy)

/-- What the pass leaves in a plane. -/
def smoothed (S : Pass) (src : Planes) (c : Component) (plane : ℕ → UInt8) (a : ℕ) : UInt8 :=
  if mbAt S.toMbSize c a < S.mbs then
    passByte S src c (mbAt S.toMbSize c a) (a % stride S.toMbSize c) (a / stride S.toMbSize c)
  else plane a

theorem find_range {n k : ℕ} :
    (List.range n).reverse.find? (fun m => decide (k = m)) = if k < n then some k else none := by
  induction n with
  | zero => rfl
  | succ n ih =>
      rw [List.range_succ, List.reverse_append, List.reverse_singleton, List.singleton_append,
        List.find?_cons, ih]
      rcases Nat.lt_trichotomy k n with hlt | rfl | hgt
      · rw [decide_eq_false hlt.ne, if_pos hlt, if_pos (Nat.lt_succ_of_lt hlt)]
      · rw [decide_eq_true rfl, if_pos (Nat.lt_succ_self k)]
      · rw [decide_eq_false hgt.ne', if_neg (by omega), if_neg (by omega)]

theorem smooth_run (c : Component) (plane : ℕ → UInt8) :
    (List.range S.mbs).foldlM (paintPass S src c) plane = some (smoothed S src c plane) := by
  have hpaint : ∀ m ∈ List.range S.mbs, ∀ plane, paintPass S src c plane m = some fun a =>
      if decide (mbAt S.toMbSize c a = m) then
        passByte S src c m (a % stride S.toMbSize c) (a / stride S.toMbSize c)
      else plane a := by
    intro m hm plane
    rw [paintPass_eq S src (List.mem_range.mp hm)]
    simp only [decide_eq_true_eq]
  rw [layers_eq (f := fun m a => passByte S src c m (a % stride S.toMbSize c)
    (a / stride S.toMbSize c)) hpaint plane]
  refine congrArg some (funext fun a => ?_)
  rw [find_range, smoothed]
  split <;> rfl

theorem decodePlane_pass (hp : Smoothed S p) (h0 : L.list0 = [some (picture S.toMbSize src)])
    (h1 : L.list1 = [some (picture S.toMbSize src)]) (c : Component) (old : ℕ → UInt8) :
    decodePlane p L c = some (plane (S.WMB * (4 * unit c)) (S.HMB * (4 * unit c))
      (smoothed S src c old)) := by
  have hsamples (i : ℕ) (hi : i < S.WMB * (4 * unit c) * (S.HMB * (4 * unit c))) :
      decodeSample p L c (i % (S.WMB * (4 * unit c))) (i / (S.WMB * (4 * unit c))) =
        some (((smoothed S src c old i).toNat : ℕ) : ℤ) := by
    rw [smoothed, if_pos (mbAt_lt hi)]
    exact passByte_eq src hp h0 h1 hi
  rw [decodePlane, hp.width, hp.height, width_eq c]
  simp only [mapM_range hsamples]
  rfl

/-- **A smoothing pass of the CPU model** is what the decoder makes of the slice. -/
theorem modelB_eq (hp : Smoothed S p) (h0 : L.list0 = [some (picture S.toMbSize src)])
    (h1 : L.list1 = [some (picture S.toMbSize src)]) (b : Planes) :
    ∃ b', modelB S (page S.toMbSize src) b = some b' ∧
      decodePicture p L = some (picture S.toMbSize b') := by
  let after (c : Component) : ℕ → UInt8 := smoothed S src c (bytes b c)
  refine ⟨⟨after .luma, after .cb, after .cr⟩, ?_, ?_⟩
  · refine planes_run (modelMb_eq S src) fun c => ?_
    have hrun := smooth_run (S := S) src c (bytes b c)
    cases c <;> exact hrun
  · have hplane (c : Component) := decodePlane_pass src hp h0 h1 c (bytes b c)
    rw [decodePicture, hp.filter, if_neg (by decide), hplane, hplane, hplane, picture, half_W,
      half_H]
    rfl

end Decoder

end BadgeOS.CodaCube.CpuModel
