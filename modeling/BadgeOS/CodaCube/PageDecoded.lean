import BadgeOS.CodaCube.CpuModelPass
import Mathlib

/-!
# A page that was sent

`pcm_page` sends the samples macroblock by macroblock; what a decoder puts together of them is the
page.

* `samples_at` — where a sample of a macroblock comes from;
* `page_decoded` — the page.
-/

namespace BadgeOS.CodaCube.Pages

open AvcSamples AvcSlice Buffers CpuModel

theorem row_at (plane : ℕ → UInt8) (start : ℕ) {n i : ℕ} (hi : i < n) :
    (row plane start n)[i]? = some (plane (start + i)) := by
  rw [row, List.getElem?_map, List.getElem?_range hi]
  rfl

theorem length_rows (plane : ℕ → UInt8) (start : ℕ → ℕ) (w h : ℕ) :
    ((List.range h).flatMap fun y => row plane (start y) w).length = h * w := by
  simp [List.length_flatMap, length_row]

theorem rows_at (plane : ℕ → UInt8) (start : ℕ → ℕ) {w h i j : ℕ} (hi : i < w) (hj : j < h) :
    ((List.range h).flatMap fun y => row plane (start y) w)[j * w + i]? =
      some (plane (start j + i)) := by
  induction h with
  | zero => omega
  | succ h ih =>
      rw [List.range_succ, List.flatMap_append, List.flatMap_singleton]
      rcases Nat.lt_or_ge j h with hlt | hge
      · rw [List.getElem?_append_left, ih hlt]
        rw [length_rows]
        exact Raster.index_lt_size hi hlt le_rfl
      · obtain rfl : j = h := by omega
        rw [List.getElem?_append_right (by rw [length_rows]; omega), length_rows,
          Nat.add_sub_cancel_left, row_at plane _ hi]

variable (S : MbSize) (P : Planes)

/-- **A sample** of a macroblock. -/
theorem samples_at (c : Component) {m i j : ℕ} (hi : i < 4 * unit c) (hj : j < 4 * unit c) :
    (samples S P m)[c.first + j * (4 * unit c) + i]? = some (bytes P c
      ((m / S.WMB * (4 * unit c) + j) * stride S c + (m % S.WMB * (4 * unit c) + i))) := by
  have hindex := Raster.index_lt_size hi hj le_rfl
  have hrows (plane : ℕ → UInt8) := rows_at plane
    (fun y => (m / S.WMB * (4 * unit c) + y) * stride S c + m % S.WMB * (4 * unit c)) hi hj
  simp only [Nat.add_assoc _ (m % S.WMB * (4 * unit c))] at hrows
  rw [samples]
  simp only [half_W]
  cases c with
  | luma =>
      have hplace : Component.luma.first + j * (4 * unit .luma) + i = j * 16 + i := by
        show 0 + j * 16 + i = _
        rw [Nat.zero_add]
      have hlt : j * 16 + i < 256 := hindex
      rw [hplace, List.append_assoc, List.getElem?_append_left]
      · exact hrows P.Y
      · rw [length_rows]
        exact hlt
  | cb =>
      have hplace : Component.cb.first + j * (4 * unit .cb) + i = 256 + (j * 8 + i) := by
        rw [Nat.add_assoc]
        rfl
      have hlt : j * 8 + i < 64 := hindex
      rw [hplace, List.getElem?_append_left, List.getElem?_append_right]
      · rw [length_rows, Nat.add_sub_cancel_left]
        exact hrows P.U
      · rw [length_rows]
        omega
      · rw [List.length_append, length_rows, length_rows]
        omega
  | cr =>
      have hplace : Component.cr.first + j * (4 * unit .cr) + i = 320 + (j * 8 + i) := by
        rw [Nat.add_assoc]
        rfl
      rw [hplace, List.getElem?_append_right]
      · rw [List.length_append, length_rows, length_rows, Nat.add_sub_cancel_left]
        exact hrows P.V
      · rw [List.length_append, length_rows, length_rows]
        omega

/-- A picture that was read from the slice of a page. -/
structure Sent (p : AvcStream.CodedPicture) : Prop where
  width : p.sets.sps.picWidthInMbs = S.WMB
  height : p.sets.sps.picHeightInMbs = S.HMB
  filter : p.header.filterOffsets = none
  mbs : p.mbs = pageMbs S P

variable {S P} {p : AvcStream.CodedPicture} {L : Lists}

theorem decodeSample_page (h : Sent S P p) {c : Component} {a : ℕ}
    (ha : a < stride S c * (S.HMB * (4 * unit c))) :
    decodeSample p L c (a % stride S c) (a / stride S c) = some ((bytes P c a).toNat : ℤ) := by
  have hu := unit_pos c
  have hm := mbAt_lt ha
  have hmb : p.mbs[a / stride S c / (16 / c.scale) * p.sets.sps.picWidthInMbs +
      a % stride S c / (16 / c.scale)]? = some (pageMb S P (mbAt S c a)) := by
    rw [h.mbs, h.width, width_eq c, (unit_div c _).1, (unit_div c _).1, pageMbs, List.getElem?_map]
    rw [List.getElem?_range]
    · rfl
    · exact hm
  have hplace : mbAt S c a / S.WMB = a / stride S c / (4 * unit c) ∧
      mbAt S c a % S.WMB = a % stride S c / (4 * unit c) := by
    have hcolumn : column S c a / 4 < S.WMB := by
      rw [column, ← (unit_div c _).1, Nat.div_lt_iff_lt_mul (by omega)]
      exact Nat.mod_lt a (Nat.mul_pos S.WMB_pos (by omega))
    rw [(unit_div c _).1, (unit_div c _).1, mbAt]
    exact ((Raster.index_eq_iff hcolumn).mp rfl).symm
  have hmod := samples_at S P c (m := mbAt S c a) (Nat.mod_lt (a % stride S c) (by omega))
    (Nat.mod_lt (a / stride S c) (by omega))
  refine decodeSample_sent hmb ?_
  rw [width_eq c, hmod, hplace.1, hplace.2, Nat.div_add_mod', Nat.div_add_mod', Nat.div_add_mod']

/-- **The page** that was sent. -/
theorem page_decoded (h : Sent S P p) : decodePicture p L = some (picture S P) := by
  have hplane (c : Component) : decodePlane p L c =
      some (plane (S.WMB * (4 * unit c)) (S.HMB * (4 * unit c)) (bytes P c)) := by
    rw [decodePlane, h.width, h.height, width_eq c]
    have hsamples : (List.range (S.WMB * (4 * unit c) * (S.HMB * (4 * unit c)))).mapM _ = _ :=
      mapM_range fun i hi => decodeSample_page (L := L) h hi
    simp only [stride] at hsamples
    simp only [hsamples]
    rfl
  rw [decodePicture, h.filter, if_neg (by decide), hplane, hplane, hplane, picture, half_W, half_H]
  rfl

end BadgeOS.CodaCube.Pages
