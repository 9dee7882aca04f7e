import BadgeOS.CodaCube.ChromaNeon
import BadgeOS.CodaCube.Pages
import BadgeOS.Lib.AvcSamples
import Mathlib

/-!
# Pictures in memory

A picture in one buffer, its planes one behind the other, and the same picture as a decoder holds
it.  The sample functions of `coda-cube.c` on the one give what a decoder predicts from the other.

* `page`, `picture` — the buffer, and the decoded picture;
* `page_bytes` — a plane in the buffer;
* `lumaQpel_page`, `chromaPred_page` — the sample functions;
* `fetch_bounds`, `weigh_eq` — a sample is a byte, and the weighting.
-/

namespace BadgeOS.CodaCube.Buffers

open AvcSamples
open Pages (Planes)

variable (S : MbSize) (P : Planes)

theorem half_W : S.W / 2 = S.WMB * 8 := by
  rw [MbSize.W]
  omega

theorem half_H : S.H / 2 = S.HMB * 8 := by
  rw [MbSize.H]
  omega

theorem half_area : S.W / 2 * (S.H / 2) * 4 = S.W * S.H := by
  rw [half_W, half_H, MbSize.W, MbSize.H]
  ring

/-- The buffer. -/
def page : Page where
  W := S.W
  H := S.H
  bytes := fun i =>
    if i < S.W * S.H then P.Y i
    else if i < S.W * S.H * 5 / 4 then P.U (i - S.W * S.H)
    else P.V (i - S.W * S.H * 5 / 4)
  W_pos := Nat.mul_pos S.WMB_pos (by decide)
  H_pos := Nat.mul_pos S.HMB_pos (by decide)
  W_even := by rw [MbSize.W]; omega
  H_even := by rw [MbSize.H]; omega

/-- A plane of bytes as samples. -/
def plane (width height : ℕ) (bytes : ℕ → UInt8) : Plane :=
  ⟨width, height, (List.range (width * height)).map fun i => ((bytes i).toNat : ℤ)⟩

/-- The decoded picture. -/
def picture : Picture where
  luma := plane S.W S.H P.Y
  cb := plane (S.W / 2) (S.H / 2) P.U
  cr := plane (S.W / 2) (S.H / 2) P.V

/-! ### The planes -/

theorem clip3_eq (n : ℕ) (x : ℤ) : clip3 0 ((n : ℤ) - 1) x = clampTo n x := by
  rw [clip3, clampTo]
  split
  · rfl
  · exact if_congr (by omega) rfl rfl

/-- A plane beyond its borders. -/
theorem extended_plane {width height : ℕ} (hw : 0 < width) (hh : 0 < height) (bytes : ℕ → UInt8)
    (x y : ℤ) : ∃ i < width * height, (i : ℤ) = clampTo height y * width + clampTo width x ∧
      (plane width height bytes).extended x y = (bytes i).toNat := by
  obtain ⟨i, hi, hlt⟩ := index_lt (clampTo_bounds hw x) (clampTo_bounds hh y)
  refine ⟨i, hlt, hi, ?_⟩
  rw [Plane.extended]
  simp only [plane, clip3_eq]
  rw [← hi, Int.toNat_natCast]
  exact getD_rows (fun i => ((bytes i).toNat : ℤ)) 0 hlt

/-- Where a plane starts in the buffer, and how long it is. -/
def offset : Component → ℕ
  | .luma => 0
  | .cb => S.W * S.H
  | .cr => S.W * S.H * 5 / 4

def size : Component → ℕ
  | .luma => S.W * S.H
  | .cb | .cr => S.W / 2 * (S.H / 2)

/-- The bytes of a component. -/
def bytes : Component → ℕ → UInt8
  | .luma => P.Y
  | .cb => P.U
  | .cr => P.V

/-- **A plane** in the buffer. -/
theorem page_bytes {c : Component} {i : ℕ} (hi : i < size S c) :
    (page S P).bytes (offset S c + i) = bytes P c i ∧
      offset S c + i < (page S P).W * (page S P).H * 3 / 2 := by
  have harea := half_area S
  show (if offset S c + i < S.W * S.H then P.Y (offset S c + i)
    else if offset S c + i < S.W * S.H * 5 / 4 then P.U (offset S c + i - S.W * S.H)
    else P.V (offset S c + i - S.W * S.H * 5 / 4)) = _ ∧ offset S c + i < S.W * S.H * 3 / 2
  cases c with
  | luma =>
      rw [size] at hi
      rw [offset, Nat.zero_add, if_pos hi]
      exact ⟨rfl, by omega⟩
  | cb =>
      rw [size] at hi
      rw [offset, if_neg (by omega), if_pos (by omega), Nat.add_sub_cancel_left]
      exact ⟨rfl, by omega⟩
  | cr =>
      rw [size] at hi
      rw [offset, if_neg (by omega), if_neg (by omega), Nat.add_sub_cancel_left]
      exact ⟨rfl, by omega⟩

theorem extended_luma : (picture S P).luma.extended = (page S P).luma := by
  funext x y
  obtain ⟨i, hlt, hi, hsample⟩ := extended_plane (page S P).W_pos (page S P).H_pos P.Y x y
  have hbyte := (page_bytes S P (c := .luma) hlt).1
  rw [offset, Nat.zero_add] at hbyte
  rw [Page.luma, ← hi, Int.toNat_natCast, Page.at', hbyte]
  exact hsample

theorem extended_chroma {c : Component} (hc : c ≠ .luma) :
    (c.plane (picture S P)).extended = (page S P).chroma (offset S c) := by
  funext x y
  obtain ⟨i, hlt, hi, hsample⟩ := extended_plane (half_W_pos (page S P)) (half_H_pos (page S P))
    (bytes P c) x y
  have hsize : size S c = (page S P).W / 2 * ((page S P).H / 2) := by
    cases c with
    | luma => exact absurd rfl hc
    | cb => rfl
    | cr => rfl
  have hbyte := (page_bytes S P (c := c) (hsize ▸ hlt)).1
  rw [Page.chroma, ← hi, Int.toNat_natCast, Page.at', hbyte]
  refine Eq.trans ?_ hsample
  cases c with
  | luma => exact absurd rfl hc
  | cb => rfl
  | cr => rfl

/-! ### The sample functions -/

/-- **The filter** of `luma_qpel` is that of a decoder. -/
theorem lumaSample_eq (L : ℤ → ℤ → ℤ) (x y : ℤ) {fx fy : ℤ} (hfx : 0 ≤ fx ∧ fx < 4)
    (hfy : 0 ≤ fy ∧ fy < 4) : lumaSample L x y fx.toNat fy.toNat = lumaAt L x y fx fy := by
  obtain rfl | rfl | rfl | rfl : fx = 0 ∨ fx = 1 ∨ fx = 2 ∨ fx = 3 := by omega
  all_goals obtain rfl | rfl | rfl | rfl : fy = 0 ∨ fy = 1 ∨ fy = 2 ∨ fy = 3 := by omega
  all_goals first | rfl | exact avg2_comm _ _

theorem chromaSample_eq (C : ℤ → ℤ → ℤ) (x y : ℤ) {fx fy : ℤ} (hfx : 0 ≤ fx) (hfy : 0 ≤ fy) :
    chromaSample C x y fx.toNat fy.toNat = chromaAt C x y fx fy := by
  rw [chromaSample, chromaAt, chromaMean, Int.toNat_of_nonneg hfx, Int.toNat_of_nonneg hfy]

theorem mod_bounds {n : ℤ} (hn : 0 < n) (v : ℤ) : 0 ≤ v % n ∧ v % n < n :=
  ⟨Int.emod_nonneg v hn.ne', Int.emod_lt_of_pos v hn⟩

theorem fetch_luma (mv : ℤ × ℤ) (x y : ℕ) : Component.luma.fetch (picture S P) mv x y =
    lumaAt (page S P).luma (x + mv.1 / 4) (y + mv.2 / 4) (mv.1 % 4) (mv.2 % 4) := by
  rw [Component.fetch, extended_luma,
    lumaSample_eq _ _ _ (mod_bounds (by decide) _) (mod_bounds (by decide) _)]

theorem fetch_chroma {c : Component} (hc : c ≠ .luma) (mv : ℤ × ℤ) (x y : ℕ) :
    c.fetch (picture S P) mv x y = chromaAt ((page S P).chroma (offset S c)) (x + mv.1 / 8)
      (y + mv.2 / 8) (mv.1 % 8) (mv.2 % 8) := by
  have hsample := chromaSample_eq (c.plane (picture S P)).extended (x + mv.1 / 8) (y + mv.2 / 8)
    (mod_bounds (by decide : (0 : ℤ) < 8) mv.1).1 (mod_bounds (by decide : (0 : ℤ) < 8) mv.2).1
  rw [← extended_chroma S P hc, ← hsample]
  cases c with
  | luma => exact absurd rfl hc
  | cb => rfl
  | cr => rfl

/-- **`luma_qpel`** gives what a decoder predicts. -/
theorem lumaQpel_page (mv : ℤ × ℤ) (x y : ℕ) :
    lumaQpel (page S P).toSize (page S P).Y (x + mv.1 / 4) (y + mv.2 / 4) (mv.1 % 4) (mv.2 % 4) =
      some (Component.luma.fetch (picture S P) mv x y) := by
  rw [lumaQpel_eq, fetch_luma]

/-- **`chroma_pred`** gives what a decoder predicts. -/
theorem chromaPred_page {c : Component} (hc : c ≠ .luma) (mv : ℤ × ℤ) (x y : ℕ) :
    chromaPred (page S P).toSize ⟨(page S P).mem, offset S c⟩ x y mv.1 mv.2 =
      some (c.fetch (picture S P) mv x y) := by
  have hplane : (page S P).HasPlane (offset S c) := by
    cases c with
    | luma => exact absurd rfl hc
    | cb => exact plane_U (page S P)
    | cr => exact plane_V (page S P)
  rw [chromaPred_eq hplane, fetch_chroma S P hc]

theorem fetch_bounds (c : Component) (mv : ℤ × ℤ) (x y : ℕ) :
    0 ≤ c.fetch (picture S P) mv x y ∧ c.fetch (picture S P) mv x y ≤ 255 := by
  by_cases hc : c = .luma
  · rw [hc, fetch_luma]
    exact lumaAt_bounds (fun _ _ => at'_bounds (page S P) _) _ _ _ _
  · rw [fetch_chroma S P hc]
    exact chromaAt_bounds (fun _ _ => at'_bounds (page S P) _) _ _ (mod_bounds (by decide) _)
      (mod_bounds (by decide) _)

/-- **The weighting**, with the default for the black page. -/
theorem weigh_eq {v : ℤ} (hv : 0 ≤ v ∧ v ≤ 255) (w o : ℤ) :
    weigh 6 (2 ^ 6, 0) v = v ∧ weigh 6 (w, o) v = wp6 v w o := by
  refine ⟨?_, rfl⟩
  have hsame : (v * 2 ^ 6 + 2 ^ 5) / 2 ^ 6 + 0 = v := by omega
  show clip3 0 255 ((v * 2 ^ 6 + 2 ^ 5) / 2 ^ 6 + 0) = v
  rw [hsame, clip3, if_neg (by omega), if_neg (by omega)]

theorem toNat_ofInt {v : ℤ} (hv : 0 ≤ v ∧ v ≤ 255) : ((UInt8.ofInt v).toNat : ℤ) = v := by
  rw [UInt8.ofInt, Int.emod_eq_of_lt hv.1 (by omega)]
  exact toNat_ofNat hv

end BadgeOS.CodaCube.Buffers
