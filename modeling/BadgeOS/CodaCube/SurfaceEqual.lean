import BadgeOS.CodaCube.SurfaceRows
import Mathlib

/-!
# What the conversion leaves in the window

The picture and the surface hold just the bytes they have, so that a result means that nothing
else was used.

* `Call` — a call: a picture, a surface and how they go together;
* `Placed` — what the surface is to hold afterwards;
* `surface_placed_iff` — when both ways of converting leave that.
-/

namespace BadgeOS.CodaCube.Surface

open Memory

/-- The addresses of rows of `len` bytes. -/
def region (rows stride len a : ℕ) : Bool :=
  decide (∃ row < rows, row * stride ≤ a ∧ a < row * stride + len)

theorem region_of {rows stride len row i : ℕ} (hrow : row < rows) (hi : i < len) :
    region rows stride len (row * stride + i) = true :=
  decide_eq_true ⟨row, hrow, by omega, by omega⟩

/-- A call with a picture `w` pixels wide, which is a multiple of 16, and `h` pixels high, which
is even.  A row of it is no longer than its stride, and all rows are in the address space. -/
structure Call where
  w : ℕ
  h : ℕ
  ys : ℕ
  cs : ℕ
  pitch : ℕ
  dw : ℕ
  dh : ℕ
  fmt : Fmt
  scale : ℕ
  scale_eq : scale = 1 ∨ scale = 2
  width : w % 16 = 0
  height : h % 2 = 0
  w_lt : w < 2 ^ 31
  h_lt : h < 2 ^ 31
  dw_lt : dw < 2 ^ 31
  dh_lt : dh < 2 ^ 31
  y_row : w ≤ ys
  uv_row : w ≤ cs
  y_plane : (h - 1) * ys < 2 ^ 64
  uv_plane : (h / 2 - 1) * cs < 2 ^ 64
  surface : (dh - 1) * pitch < 2 ^ 64

namespace Call

variable (c : Call) (Y UV : ℕ → UInt8) (d : ℕ → Option UInt8)

/-- The scaled row, in bytes. -/
def rowBytes : ℕ := c.w * c.scale * c.fmt.bpp

def ox : ℤ := Int.tdiv (c.dw - c.w * c.scale) 2

def oy : ℤ := Int.tdiv (c.dh - c.h * c.scale) 2

/-- The planes, with the bytes `Y` and `UV`. -/
def yPlane : Ptr := ⟨⟨region c.h c.ys c.w, fun a => some (Y a)⟩, 0⟩

def uvPlane : Ptr := ⟨⟨region (c.h / 2) c.cs c.w, fun a => some (UV a)⟩, 0⟩

/-- The surface, which holds anything. -/
def dst : Mem := ⟨region c.dh c.pitch (c.dw * c.fmt.bpp), d⟩

/-- The conversion, with the C rows or with the NEON rows. -/
def run (portable : Bool) : Option Mem :=
  nv12ToSurface portable (c.yPlane Y) c.ys (c.uvPlane UV) c.cs c.w c.h (c.dst d) c.pitch c.dw c.dh
    c.fmt c.scale

/-- The converted pixel of the picture. -/
def source (x y : ℕ) : List UInt8 :=
  px c.fmt (Y (y * c.ys + x)) (UV (y / 2 * c.cs + x / 2 * 2)) (UV (y / 2 * c.cs + x / 2 * 2 + 1))

/-- A place of the surface that shows the picture's pixel `x`, `y`. -/
structure Shows (x y X dy : ℕ) : Prop where
  x_lt : x < c.w
  y_lt : y < c.h
  column : ∃ i < c.scale, (X : ℤ) = c.ox + x * c.scale + i
  row : ∃ j < c.scale, (dy : ℤ) = c.oy + y * c.scale + j
  inside : X < c.dw ∧ dy < c.dh

/-- **What the surface is to hold**: the converted pixels, and elsewhere what it held; all of
that where the picture is too wide. -/
structure Placed (m : Mem) : Prop where
  surface : m.valid = (c.dst d).valid
  wider : c.dw < c.w * c.scale → m.byte = d
  pixels : c.w * c.scale ≤ c.dw → ∀ x y X dy, c.Shows x y X dy → ∀ q < c.fmt.bpp,
    m.byte (dy * c.pitch + X * c.fmt.bpp + q) = (c.source Y UV x y)[q]?
  others : ∀ a, (∀ x y X dy, c.Shows x y X dy → ∀ q < c.fmt.bpp,
    a ≠ dy * c.pitch + X * c.fmt.bpp + q) → m.byte a = d a

end Call

variable {c : Call} {Y UV : ℕ → UInt8} {d : ℕ → Option UInt8} {portable : Bool}

/-! ### The picture and the surface -/

theorem mul_mod_space {row stride rows : ℕ} (hrow : row < rows)
    (h : (rows - 1) * stride < 2 ^ 64) : row * stride % 2 ^ 64 = row * stride := by
  have hle : row * stride ≤ (rows - 1) * stride := Nat.mul_le_mul_right _ (by omega)
  exact Nat.mod_eq_of_lt (by omega)

theorem Call.scale_pos (c : Call) : 0 < c.scale := by
  have := c.scale_eq
  omega

theorem Call.ox_nonneg (hwide : c.w * c.scale ≤ c.dw) :
    0 ≤ c.ox ∧ c.ox.toNat + c.w * c.scale ≤ c.dw := by
  have hox : c.ox = (c.dw - c.w * c.scale : ℕ) / 2 := by
    rw [Call.ox, Int.tdiv_eq_ediv_of_nonneg (by omega)]
    omega
  omega

/-- The samples of the rows `y` and `y + 1`. -/
def Call.rows (c : Call) (Y UV : ℕ → UInt8) (y : ℕ) : Rows where
  luma row x := Y ((y + row) * c.ys + x)
  chroma i := UV (y / 2 * c.cs + i)

theorem Call.pixel_rows {y row : ℕ} (heven : y % 2 = 0) (hrow : row < 2) (x : ℕ) :
    (c.rows Y UV y).pixel c.fmt row x = c.source Y UV x (y + row) := by
  have hhalf : (y + row) / 2 = y / 2 := by omega
  rw [Rows.pixel, Call.source, hhalf, Nat.add_assoc _ _ 1]
  rfl

/-- The byte of the picture that belongs `k` rows and `t` bytes behind its corner. -/
def Call.byteAt (c : Call) (Y UV : ℕ → UInt8) (k t : ℕ) : UInt8 :=
  ((c.source Y UV (t / c.fmt.bpp / c.scale) (k / c.scale))[t % c.fmt.bpp]?).getD 0

/-- Where that is. -/
def Call.addr (c : Call) (k t : ℕ) : ℕ :=
  (c.oy + k).toNat * c.pitch + c.ox.toNat * c.fmt.bpp + t

/-- The bytes of the picture that are in the surface. -/
def Call.Seen (c : Call) (k t : ℕ) : Prop :=
  0 ≤ c.oy + k ∧ c.oy + k < c.dh ∧ t < c.rowBytes

/-- No two rows of the picture come to lie on the same bytes. -/
def Call.Apart (c : Call) : Prop := c.rowBytes ≤ c.pitch ∨ c.dh ≤ 1

theorem Call.addr_inj (hapart : c.Apart) {k t k' t' : ℕ} (h : c.Seen k t) (h' : c.Seen k' t')
    (heq : c.addr k t = c.addr k' t') : k = k' ∧ t = t' := by
  obtain ⟨hlow, hhigh, ht⟩ := h
  obtain ⟨hlow', hhigh', ht'⟩ := h'
  have hrow : (c.oy + k).toNat = (c.oy + k').toNat := by
    rcases hapart with hpitch | hone
    · rw [Call.addr, Call.addr] at heq
      have hmod : ∀ r s, s < c.rowBytes → (r * c.pitch + s) / c.pitch = r := fun r s hs =>
        div_block (by omega)
      rw [← hmod (c.oy + k).toNat t ht, ← hmod (c.oy + k').toNat t' ht']
      congr 1
      omega
    · omega
  rw [Call.addr, Call.addr, hrow] at heq
  omega

/-- The picture's bytes, by their addresses. -/
theorem Call.exists_bytes (hapart : c.Apart) (Y UV : ℕ → UInt8) :
    ∃ V : ℕ → UInt8, ∀ k t, c.Seen k t → V (c.addr k t) = c.byteAt Y UV k t := by
  let place : {p : ℕ × ℕ // c.Seen p.1 p.2} → ℕ := fun p => c.addr p.1.1 p.1.2
  let val : {p : ℕ × ℕ // c.Seen p.1 p.2} → UInt8 := fun p => c.byteAt Y UV p.1.1 p.1.2
  have hfactors : val.FactorsThrough place := by
    intro p q hpq
    obtain ⟨hk, ht⟩ := Call.addr_inj hapart p.2 q.2 hpq
    show c.byteAt Y UV p.1.1 p.1.2 = c.byteAt Y UV q.1.1 q.1.2
    rw [hk, ht]
  refine ⟨Function.extend place val fun _ => 0, fun k t hseen => ?_⟩
  exact hfactors.extend_apply (fun _ => 0) ⟨(k, t), hseen⟩

/-- The rows of the surface for the picture rows `y` and `y + 1`. -/
def Call.rowAt (c : Call) (y k : ℕ) : Option ℕ :=
  rowsAt c.pitch c.dh c.ox c.oy c.fmt c.scale y k

theorem Call.rowAt_iff {y k a : ℕ} : c.rowAt y k = some a ↔ k < 2 * c.scale ∧
    0 ≤ c.oy + (y * c.scale + k : ℕ) ∧ c.oy + (y * c.scale + k : ℕ) < c.dh ∧
      a = c.addr (y * c.scale + k) 0 := by
  have hsum : c.oy + y * c.scale + k = c.oy + (y * c.scale + k : ℕ) := by
    push_cast
    omega
  rw [Call.rowAt, rowsAt]
  simp only [hsum]
  split
  · rename_i hrow
    obtain ⟨hk, hlow, hhigh⟩ := hrow
    have hspace := mul_mod_space (show (c.oy + (y * c.scale + k : ℕ)).toNat < c.dh by omega)
      c.surface
    rw [hspace, Option.some_inj]
    constructor
    · rintro rfl
      exact ⟨hk, hlow, hhigh, rfl⟩
    · rintro ⟨-, -, -, rfl⟩
      rfl
  · rename_i hrow
    constructor
    · intro h
      cases h
    · rintro ⟨hk, hlow, hhigh, -⟩
      exact absurd ⟨hk, hlow, hhigh⟩ hrow

theorem Call.luma_eq {y row x : ℕ} (hy : y + 2 ≤ c.h) (hrow : row < 2) (hx : x < c.w) :
    (if row = 0 then (⟨(c.yPlane Y).mem, (c.yPlane Y).addr + y * c.ys % 2 ^ 64⟩ : Ptr)
      else ⟨(c.yPlane Y).mem, (c.yPlane Y).addr + y * c.ys % 2 ^ 64 + c.ys⟩).load x =
        some ((c.rows Y UV y).luma row x) := by
  have haddr : (if row = 0 then
      (⟨(c.yPlane Y).mem, (c.yPlane Y).addr + y * c.ys % 2 ^ 64⟩ : Ptr)
      else ⟨(c.yPlane Y).mem, (c.yPlane Y).addr + y * c.ys % 2 ^ 64 + c.ys⟩) =
        ⟨(c.yPlane Y).mem, (y + row) * c.ys⟩ := by
    rw [mul_mod_space (show y < c.h by omega) c.y_plane]
    obtain rfl | rfl : row = 0 ∨ row = 1 := by omega
    · simp [Call.yPlane]
    · simp [Call.yPlane, Nat.add_mul]
  rw [haddr]
  exact if_pos (region_of (by omega) hx)

theorem Call.chroma_eq {y x : ℕ} (hy : y + 2 ≤ c.h) (hx : x < c.w) :
    (⟨(c.uvPlane UV).mem, (c.uvPlane UV).addr + y / 2 * c.cs % 2 ^ 64⟩ : Ptr).load x =
      some ((c.rows Y UV y).chroma x) := by
  have haddr : (c.uvPlane UV).addr + y / 2 * c.cs % 2 ^ 64 = y / 2 * c.cs := by
    rw [mul_mod_space (show y / 2 < c.h / 2 by omega) c.uv_plane]
    exact Nat.zero_add _
  rw [haddr]
  exact if_pos (region_of (by omega) hx)

/-- The addresses of the surface. -/
theorem Call.surface_of (hwide : c.w * c.scale ≤ c.dw) {k t : ℕ} (hseen : c.Seen k t) :
    (c.dst d).valid (c.addr k t) = true := by
  obtain ⟨hlow, hhigh, ht⟩ := hseen
  have hox := Call.ox_nonneg hwide
  have hend : (c.ox.toNat + c.w * c.scale) * c.fmt.bpp ≤ c.dw * c.fmt.bpp :=
    Nat.mul_le_mul_right _ (by omega)
  rw [Nat.add_mul] at hend
  rw [Call.rowBytes] at ht
  rw [Call.addr, Nat.add_assoc]
  exact region_of (by omega) (by omega)

/-- Two rows of the picture and what they are to leave. -/
theorem Call.target {V : ℕ → UInt8} (hwide : c.w * c.scale ≤ c.dw)
    (hV : ∀ k t, c.Seen k t → V (c.addr k t) = c.byteAt Y UV k t) {y : ℕ} (heven : y % 2 = 0)
    (hy : y + 2 ≤ c.h) :
    Target (c.rows Y UV y) ⟨(c.yPlane Y).mem, (c.yPlane Y).addr + y * c.ys % 2 ^ 64⟩
      ⟨(c.yPlane Y).mem, (c.yPlane Y).addr + y * c.ys % 2 ^ 64 + c.ys⟩
      ⟨(c.uvPlane UV).mem, (c.uvPlane UV).addr + y / 2 * c.cs % 2 ^ 64⟩ (c.rowAt y) c.w c.fmt
      c.scale V (c.dst d).valid where
  scale_eq := c.scale_eq
  width := c.width
  luma _ hrow _ hx := Call.luma_eq hy hrow hx
  chroma _ hx := Call.chroma_eq hy hx
  valid := by
    intro j hj a ha t ht
    obtain ⟨-, hlow, hhigh, rfl⟩ := Call.rowAt_iff.mp ha
    exact Call.surface_of hwide ⟨hlow, hhigh, ht⟩
  holds := by
    intro j hj a ha t ht
    obtain ⟨-, hlow, hhigh, rfl⟩ := Call.rowAt_iff.mp ha
    have hscale := c.scale_pos
    have hj2 : j / c.scale < 2 := by rwa [Nat.div_lt_iff_lt_mul hscale]
    have hk : (y * c.scale + j) / c.scale = y + j / c.scale := by
      rw [Nat.mul_comm, Nat.mul_add_div hscale]
    have hbyte : V (c.addr (y * c.scale + j) t) = c.byteAt Y UV (y * c.scale + j) t :=
      hV _ _ ⟨hlow, hhigh, ht⟩
    have hq : t % c.fmt.bpp < (c.source Y UV (t / c.fmt.bpp / c.scale)
        (y + j / c.scale)).length := by
      rw [Call.source, length_px]
      exact Nat.mod_lt _ (bpp_pos _)
    show _ = some (V (c.addr (y * c.scale + j) t))
    rw [Call.pixel_rows heven hj2, hbyte, Call.byteAt, hk, List.getElem?_eq_getElem hq]
    rfl

/-! ### What is painted -/

/-- When there are none of four rows, there is none. -/
theorem Call.rowAt_none {y : ℕ} (hnone : c.rowAt y 0 = none ∧ c.rowAt y 1 = none ∧
    c.rowAt y 2 = none ∧ c.rowAt y 3 = none) (k : ℕ) : c.rowAt y k = none := by
  obtain ⟨h0, h1, h2, h3⟩ := hnone
  by_cases hk : k < 4
  · obtain rfl | rfl | rfl | rfl : k = 0 ∨ k = 1 ∨ k = 2 ∨ k = 3 := by omega
    · exact h0
    · exact h1
    · exact h2
    · exact h3
  · have hscale := c.scale_eq
    exact if_neg (by omega)

theorem Call.paints_pair {V : ℕ → UInt8} (hwide : c.w * c.scale ≤ c.dw)
    (hV : ∀ k t, c.Seen k t → V (c.addr k t) = c.byteAt Y UV k t) {y : ℕ} (heven : y % 2 = 0)
    (hy : y + 2 ≤ c.h) :
    Paints V (c.dst d).valid (fun m => convertPair portable (c.yPlane Y) c.ys (c.uvPlane UV) c.cs
      c.w c.pitch c.dh c.ox c.oy c.fmt c.scale m y)
      (lines (c.rowAt y) (2 * c.scale) c.rowBytes) := by
  intro m hm
  have htarget := Call.target (d := d) hwide hV heven hy
  simp only [convertPair]
  split
  · rename_i hnone
    have hrow := Call.rowAt_none hnone
    have hempty : lines (c.rowAt y) (2 * c.scale) c.rowBytes = ∅ := by
      ext z
      simp [lines, hrow]
    rw [hempty]
    exact Paints.skip m hm
  · split
    · exact htarget.paints_c m hm
    · exact htarget.paints_neon m hm

/-- The pair of picture rows that a scaled row comes from. -/
theorem Call.exists_pair {k : ℕ} (hk : k < c.h * c.scale) :
    ∃ y ∈ List.range' 0 ((c.h + 1) / 2) 2, ∃ j < 2 * c.scale, y * c.scale + j = k := by
  have hheight := c.height
  have hscale := c.scale_pos
  have hsplit := Nat.div_add_mod k (2 * c.scale)
  have hi : k / (2 * c.scale) < (c.h + 1) / 2 := by
    rw [Nat.div_lt_iff_lt_mul (by omega), ← Nat.mul_assoc]
    have heven : (c.h + 1) / 2 * 2 = c.h := by omega
    rwa [heven]
  refine ⟨0 + 2 * (k / (2 * c.scale)), List.mem_range'.mpr ⟨_, hi, rfl⟩, k % (2 * c.scale),
    Nat.mod_lt _ (by omega), ?_⟩
  rw [Nat.zero_add]
  linarith

/-- The addresses that the whole picture paints. -/
def Call.painted (c : Call) : Set ℕ :=
  {a | ∃ k t, k < c.h * c.scale ∧ c.Seen k t ∧ a = c.addr k t}

theorem Call.mem_painted (a : ℕ) : (∃ y ∈ List.range' 0 ((c.h + 1) / 2) 2,
    a ∈ lines (c.rowAt y) (2 * c.scale) c.rowBytes) ↔ a ∈ c.painted := by
  have hheight := c.height
  constructor
  · rintro ⟨y, hy, j, hj, b, hb, hlow, hhigh⟩
    obtain ⟨i, hi, rfl⟩ := List.mem_range'.mp hy
    obtain ⟨-, hrow, hrow', rfl⟩ := Call.rowAt_iff.mp hb
    have hlast : (0 + 2 * i + 2) * c.scale ≤ c.h * c.scale := Nat.mul_le_mul_right _ (by omega)
    rw [Nat.add_mul] at hlast
    refine ⟨(0 + 2 * i) * c.scale + j, a - c.addr ((0 + 2 * i) * c.scale + j) 0, by omega,
      ⟨hrow, hrow', by omega⟩, ?_⟩
    have haddr (t : ℕ) : c.addr ((0 + 2 * i) * c.scale + j) t =
        c.addr ((0 + 2 * i) * c.scale + j) 0 + t := rfl
    rw [haddr]
    omega
  · rintro ⟨k, t, hk, ⟨hlow, hhigh, ht⟩, rfl⟩
    obtain ⟨y, hy, j, hj, rfl⟩ := Call.exists_pair hk
    exact ⟨y, hy, j, hj, c.addr (y * c.scale + j) 0,
      Call.rowAt_iff.mpr ⟨hj, hlow, hhigh, rfl⟩, Nat.le_add_right _ _, Nat.add_lt_add_left ht _⟩

/-- **Both ways paint the picture.** -/
theorem Call.run_eq {V : ℕ → UInt8} (hwide : c.w * c.scale ≤ c.dw)
    (hV : ∀ k t, c.Seen k t → V (c.addr k t) = c.byteAt Y UV k t)
    (hfits : c.w * c.scale < 2 ^ 31 ∧ c.h * c.scale < 2 ^ 31) :
    c.run Y UV d portable = some ((c.dst d).fill c.painted V) := by
  have hox := (Call.ox_nonneg hwide).1
  have hheight := c.height
  have hpair : ∀ y ∈ List.range' 0 ((c.h + 1) / 2) 2, Paints V (c.dst d).valid
      (fun m => convertPair portable (c.yPlane Y) c.ys (c.uvPlane UV) c.cs c.w c.pitch c.dh c.ox
        c.oy c.fmt c.scale m y) (lines (c.rowAt y) (2 * c.scale) c.rowBytes) := by
    intro y hy
    obtain ⟨i, hi, rfl⟩ := List.mem_range'.mp hy
    exact Call.paints_pair hwide hV (by omega) (by omega)
  have hall := (Paints.loop hpair).of_eq Call.mem_painted (c.dst d) rfl
  rw [Call.run, nv12ToSurface, if_pos hfits]
  exact (if_neg (not_lt.mpr hox)).trans hall

/-! ### The places of the surface -/

/-- A place, as rows and bytes of the picture. -/
theorem Call.Shows.seen (Y UV : ℕ → UInt8) (hwide : c.w * c.scale ≤ c.dw) {x y X dy q : ℕ} (h : c.Shows x y X dy)
    (hq : q < c.fmt.bpp) : ∃ k t, k < c.h * c.scale ∧ c.Seen k t ∧
      dy * c.pitch + X * c.fmt.bpp + q = c.addr k t ∧
        (c.source Y UV x y)[q]? = some (c.byteAt Y UV k t) := by
  obtain ⟨hx, hy, ⟨i, hi, hX⟩, ⟨j, hj, hdy⟩, -, hdh⟩ := h
  have hox := Call.ox_nonneg hwide
  have hxi : (x + 1) * c.scale ≤ c.w * c.scale := Nat.mul_le_mul_right _ hx
  have hyj : (y + 1) * c.scale ≤ c.h * c.scale := Nat.mul_le_mul_right _ hy
  rw [Nat.add_mul, Nat.one_mul] at hxi hyj
  have ht : (x * c.scale + i + 1) * c.fmt.bpp ≤ c.rowBytes := Nat.mul_le_mul_right _ (by omega)
  rw [Nat.add_mul, Nat.one_mul] at ht
  have hrow : c.oy + (y * c.scale + j : ℕ) = dy := by
    rw [hdy]
    push_cast
    omega
  refine ⟨y * c.scale + j, (x * c.scale + i) * c.fmt.bpp + q, by omega,
    ⟨by omega, by omega, by omega⟩, ?_, ?_⟩
  · have hcolumn : X = c.ox.toNat + (x * c.scale + i) := by
      have : (x : ℤ) * c.scale = (x * c.scale : ℕ) := by push_cast; rfl
      omega
    rw [Call.addr, hrow, Int.toNat_natCast, hcolumn, Nat.add_mul]
    omega
  · have hlen : q < (c.source Y UV x y).length := by
      rw [Call.source, length_px]
      exact hq
    have hmod : ((x * c.scale + i) * c.fmt.bpp + q) % c.fmt.bpp = q := by
      rw [Nat.mul_comm, Nat.mul_add_mod, Nat.mod_eq_of_lt hq]
    rw [Call.byteAt, div_block hq, div_block hi, div_block hj, hmod,
      List.getElem?_eq_getElem hlen]
    rfl

/-- A byte of the picture, as a place. -/
theorem Call.Seen.shows (Y UV : ℕ → UInt8) (hwide : c.w * c.scale ≤ c.dw) {k t : ℕ} (hk : k < c.h * c.scale)
    (h : c.Seen k t) : ∃ x y X dy q, c.Shows x y X dy ∧ q < c.fmt.bpp ∧
      c.addr k t = dy * c.pitch + X * c.fmt.bpp + q ∧
        (c.source Y UV x y)[q]? = some (c.byteAt Y UV k t) := by
  obtain ⟨hlow, hhigh, ht⟩ := h
  have hscale := c.scale_pos
  have hpos := bpp_pos c.fmt
  have hox := Call.ox_nonneg hwide
  have hcolumn : t / c.fmt.bpp < c.w * c.scale := by
    rwa [Nat.div_lt_iff_lt_mul hpos]
  have hpixel := Nat.div_add_mod (t / c.fmt.bpp) c.scale
  have hrow := Nat.div_add_mod k c.scale
  have hbyte := Nat.div_add_mod t c.fmt.bpp
  refine ⟨t / c.fmt.bpp / c.scale, k / c.scale, c.ox.toNat + t / c.fmt.bpp, (c.oy + k).toNat,
    t % c.fmt.bpp, ⟨?_, ?_, ?_, ?_, by omega, by omega⟩, Nat.mod_lt _ hpos, ?_, ?_⟩
  · rwa [Nat.div_lt_iff_lt_mul hscale]
  · rwa [Nat.div_lt_iff_lt_mul hscale]
  · refine ⟨t / c.fmt.bpp % c.scale, Nat.mod_lt _ hscale, ?_⟩
    zify at hpixel ⊢
    rw [Int.toNat_of_nonneg hox.1]
    linarith
  · refine ⟨k % c.scale, Nat.mod_lt _ hscale, ?_⟩
    zify at hrow ⊢
    rw [Int.toNat_of_nonneg hlow]
    linarith
  · rw [Call.addr, Nat.add_mul, Nat.mul_comm (t / c.fmt.bpp)]
    omega
  · have hlen : t % c.fmt.bpp < (c.source Y UV (t / c.fmt.bpp / c.scale) (k / c.scale)).length := by
      rw [Call.source, length_px]
      exact Nat.mod_lt _ hpos
    rw [Call.byteAt, List.getElem?_eq_getElem hlen]
    rfl

theorem Call.placed {V : ℕ → UInt8} (hwide : c.w * c.scale ≤ c.dw)
    (hV : ∀ k t, c.Seen k t → V (c.addr k t) = c.byteAt Y UV k t) :
    c.Placed Y UV d ((c.dst d).fill c.painted V) where
  surface := rfl
  wider h := absurd h (not_lt.mpr hwide)
  pixels := by
    intro _ x y X dy hshows q hq
    obtain ⟨k, t, hk, hseen, haddr, hbyte⟩ := hshows.seen Y UV hwide hq
    have hmem : c.addr k t ∈ c.painted := ⟨k, t, hk, hseen, rfl⟩
    rw [haddr, Mem.fill_of_mem hmem, hV k t hseen, hbyte]
  others := by
    intro a ha
    refine Mem.fill_of_not_mem ?_
    rintro ⟨k, t, hk, hseen, rfl⟩
    obtain ⟨x, y, X, dy, q, hshows, hq, haddr, -⟩ := hseen.shows Y UV hwide hk
    exact ha x y X dy hshows q hq haddr

/-! ### Nothing to convert -/

theorem Call.run_idle (hfits : c.w * c.scale < 2 ^ 31 ∧ c.h * c.scale < 2 ^ 31)
    (hidle : c.ox < 0 ∨ c.h = 0 ∨ c.dh = 0) : c.run Y UV d portable = some (c.dst d) := by
  rw [Call.run, nv12ToSurface, if_pos hfits]
  by_cases hox : c.ox < 0
  · exact if_pos hox
  · refine (if_neg hox).trans ?_
    rcases hidle.resolve_left hox with hh | hdh
    · rw [hh]
      rfl
    · have hnone (y k : ℕ) : c.rowAt y k = none := if_neg (by omega)
      have hpair : ∀ y ∈ List.range' 0 ((c.h + 1) / 2) 2, ∀ m : Mem,
          convertPair portable (c.yPlane Y) c.ys (c.uvPlane UV) c.cs c.w c.pitch c.dh c.ox c.oy
            c.fmt c.scale m y = some m := fun y _ m =>
        if_pos ⟨hnone y 0, hnone y 1, hnone y 2, hnone y 3⟩
      refine (loop_congr hpair).trans ?_
      induction List.range' 0 ((c.h + 1) / 2) 2 with
      | nil => rfl
      | cons y l ih => exact ih

theorem Call.placed_idle (hidle : c.dw < c.w * c.scale ∨ c.h = 0 ∨ c.dh = 0) :
    c.Placed Y UV d (c.dst d) where
  surface := rfl
  wider _ := rfl
  pixels := by
    intro hwide x y X dy hshows
    have hy := hshows.y_lt
    have hdy := hshows.inside
    omega
  others _ _ := rfl

/-! ### One pixel too wide -/

/-- Something was written. -/
def Written (m : Mem) : Prop := ∃ a, m.byte a ≠ none

variable {m t : Mem}

theorem written_stores {a : ℕ} {bs : List UInt8} (h : m.stores a bs = some t) :
    (Written m → Written t) ∧ (0 < bs.length → Written t) := by
  have ht : t = m.put a bs := by
    rw [Mem.stores] at h
    split at h
    · exact (Option.some.inj h).symm
    · cases h
  subst ht
  constructor
  · rintro ⟨x, hx⟩
    refine ⟨x, ?_⟩
    rw [Mem.byte_put]
    split
    · rename_i hin
      rw [List.getElem?_eq_getElem (show x - a < bs.length by omega)]
      simp
    · exact hx
  · intro hpos
    refine ⟨a, ?_⟩
    rw [Mem.byte_put, if_pos ⟨Nat.le_refl a, by omega⟩,
      List.getElem?_eq_getElem (show a - a < bs.length by omega)]
    simp

section Pair

variable {y0 y1 uv : Ptr} {e : ℕ → Option ℕ} {w : ℕ} {fmt : Fmt} {scale row x : ℕ}

/-- The stores of a pixel in one row of the surface. -/
theorem written_line {a : ℕ} {y u v : UInt8}
    (h : (List.range scale).foldlM (fun m sx =>
      m.stores (a + (x * scale + sx) * fmt.bpp) (px fmt y u v)) m = some t) :
    (Written m → Written t) ∧ (0 < scale → Written t) := by
  have hlen : 0 < (px fmt y u v).length := by
    rw [length_px]
    exact bpp_pos fmt
  have hkeep : ∀ sx ∈ List.range scale, ∀ s t : Mem,
      s.stores (a + (x * scale + sx) * fmt.bpp) (px fmt y u v) = some t →
        Written s → Written t := fun _ _ _ _ hstore => (written_stores hstore).1
  constructor
  · exact loop_keeps hkeep h
  · intro hscale
    exact loop_reaches (List.mem_range.mpr hscale)
      (fun _ _ hstore => (written_stores hstore).2 hlen) hkeep h

theorem written_pixel (h : cvtPixel y0 y1 uv e fmt scale row m x = some t) :
    (Written m → Written t) ∧
      ∀ k < scale, e (if scale = 1 then row else 2 * row + k) ≠ none → Written t := by
  rw [cvtPixel] at h
  obtain ⟨y, -, h⟩ := Option.bind_eq_some_iff.mp h
  obtain ⟨u, -, h⟩ := Option.bind_eq_some_iff.mp h
  obtain ⟨v, -, h⟩ := Option.bind_eq_some_iff.mp h
  refine ⟨loop_keeps ?keep h, fun k hk hrow => loop_reaches (List.mem_range.mpr hk) ?_ ?keep h⟩
  case keep =>
    intro k _ s t hstep hs
    split at hstep
    · cases hstep
      exact hs
    · exact (written_line hstep).1 hs
  intro s t hstep
  split at hstep
  · contradiction
  · exact (written_line hstep).2 (Nat.zero_lt_of_lt hk)

theorem written_rows (h : cvtRowsC y0 y1 uv e w fmt scale m = some t) :
    (Written m → Written t) ∧ (0 < w → ∀ row < 2, ∀ k < scale,
      e (if scale = 1 then row else 2 * row + k) ≠ none → Written t) := by
  have hkeep : ∀ row ∈ List.range 2, ∀ s t : Mem,
      (List.range w).foldlM (cvtPixel y0 y1 uv e fmt scale row) s = some t →
        Written s → Written t := fun _ _ _ _ hrow =>
    loop_keeps (fun _ _ _ _ hpixel => (written_pixel hpixel).1) hrow
  constructor
  · exact loop_keeps hkeep h
  · intro hw row hrow k hk hline
    exact loop_reaches (List.mem_range.mpr hrow) (fun _ _ hstep =>
      loop_reaches (List.mem_range.mpr hw)
        (fun _ _ hpixel => (written_pixel hpixel).2 k hk hline)
        (fun _ _ _ _ hpixel => (written_pixel hpixel).1) hstep) hkeep h

end Pair

/-- Half of it, rounded towards zero. -/
theorem tdiv_two (x : ℤ) : (0 ≤ x → x.tdiv 2 = x / 2) ∧ (x ≤ 0 → x.tdiv 2 = -(-x / 2)) := by
  constructor
  · exact fun hx => Int.tdiv_eq_ediv_of_nonneg hx
  · intro hx
    have hneg : x.tdiv 2 = -((-x).tdiv 2) := by
      rw [Int.neg_tdiv, neg_neg]
    rw [hneg, Int.tdiv_eq_ediv_of_nonneg (by omega)]

/-- A row of the picture that is in the surface. -/
theorem Call.exists_row (hh : c.h ≠ 0) (hdh : c.dh ≠ 0) :
    ∃ k, k < c.h * c.scale ∧ 0 ≤ c.oy + k ∧ c.oy + k < c.dh := by
  have hpos : 0 < c.h * c.scale := Nat.mul_pos (by omega) c.scale_pos
  have hoy := tdiv_two (c.dh - c.h * c.scale)
  have hdef : c.oy = Int.tdiv (c.dh - c.h * c.scale) 2 := rfl
  rw [← hdef] at hoy
  refine ⟨(-c.oy).toNat, ?_, ?_, ?_⟩
  · omega
  · omega
  · omega

/-- A picture that is one pixel too wide is written. -/
theorem Call.run_written (hnarrow : c.dw + 1 = c.w * c.scale) (hh : c.h ≠ 0) (hdh : c.dh ≠ 0)
    {m : Mem} (hrun : c.run Y UV d true = some m) : Written m := by
  have hscale := c.scale_pos
  have hheight := c.height
  have hw : 0 < c.w := by
    by_contra hzero
    obtain hzero : c.w = 0 := by omega
    rw [hzero] at hnarrow
    omega
  have hox : c.ox = 0 := by
    have hone : (c.dw : ℤ) - c.w * c.scale = -1 := by
      zify at hnarrow
      omega
    rw [Call.ox, hone]
    rfl
  obtain ⟨k, hk, hlow, hhigh⟩ := Call.exists_row hh hdh
  obtain ⟨y, hy, j, hj, rfl⟩ := Call.exists_pair hk
  have hrow : c.rowAt y j ≠ none := by
    rw [Call.rowAt_iff.mpr ⟨hj, hlow, hhigh, rfl⟩]
    simp
  have hline : c.rowAt y (if c.scale = 1 then j / c.scale else 2 * (j / c.scale) + j % c.scale) ≠
      none := by
    have hindex : (if c.scale = 1 then j / c.scale else 2 * (j / c.scale) + j % c.scale) = j := by
      rcases c.scale_eq with hone | htwo
      · rw [if_pos hone, hone, Nat.div_one]
      · rw [if_neg (by omega), htwo]
        omega
    rwa [hindex]
  have hkeep : ∀ y ∈ List.range' 0 ((c.h + 1) / 2) 2, ∀ s t : Mem,
      convertPair true (c.yPlane Y) c.ys (c.uvPlane UV) c.cs c.w c.pitch c.dh c.ox c.oy c.fmt
        c.scale s y = some t → Written s → Written t := by
    intro y _ s t hstep hs
    simp only [convertPair] at hstep
    split at hstep
    · cases hstep
      exact hs
    · exact (written_rows hstep).1 hs
  rw [Call.run, nv12ToSurface] at hrun
  split at hrun
  · have hloop : (if c.ox < 0 then some (c.dst d) else _) = some m := hrun
    rw [if_neg (by omega)] at hloop
    refine loop_reaches hy (fun s t hstep => ?_) hkeep hloop
    simp only [convertPair] at hstep
    split at hstep
    · rename_i hnone
      exact absurd (Call.rowAt_none hnone j) hrow
    · exact (written_rows hstep).2 hw (j / c.scale) (by rwa [Nat.div_lt_iff_lt_mul hscale])
        (j % c.scale) (Nat.mod_lt _ hscale) hline
  · cases hrun

/-! ### Rows of the surface that overlap -/

theorem Call.Placed.byte_eq {m : Mem} (h : c.Placed Y UV d m) (hwide : c.w * c.scale ≤ c.dw)
    {k t : ℕ} (hk : k < c.h * c.scale) (hseen : c.Seen k t) :
    m.byte (c.addr k t) = some (c.byteAt Y UV k t) := by
  obtain ⟨x, y, X, dy, q, hshows, hq, haddr, hbyte⟩ := hseen.shows Y UV hwide hk
  rw [haddr, h.pixels hwide x y X dy hshows q hq, hbyte]

/-- The upper half of the picture ends white, the lower half begins black. -/
def Call.edge (c : Call) (a : ℕ) : UInt8 := if a / c.ys = c.h / 2 - 1 then 255 else 0

theorem byte_grey (fmt : Fmt) {q : ℕ} (hq : q < fmt.bpp) :
    ((px fmt 255 128 128)[q]?).getD 0 = 255 ∧ ((px fmt 0 128 128)[0]?).getD 0 = 0 := by
  revert q
  cases fmt <;> decide

/-- Two rows in the middle of the surface cannot both be there when they overlap. -/
theorem Call.not_placed (hwide : c.w * c.scale ≤ c.dw) (hpitch : c.pitch < c.rowBytes)
    (hdh : 1 < c.dh) (hh : c.h ≠ 0) {m : Mem} : ¬ c.Placed c.edge (fun _ => 128) d m := by
  intro h
  have hscale := c.scale_pos
  have hheight := c.height
  have hpos := bpp_pos c.fmt
  obtain ⟨n, hn⟩ : ∃ n, c.h = 2 * (n + 1) := ⟨c.h / 2 - 1, by omega⟩
  have hrows : c.h * c.scale = 2 * ((n + 1) * c.scale) := by
    rw [hn, Nat.mul_assoc]
  have hmiddle : (n + 1) * c.scale - 1 + 1 = (n + 1) * c.scale :=
    Nat.sub_add_cancel (Nat.mul_pos (by omega) hscale)
  have hoy := tdiv_two (c.dh - c.h * c.scale)
  have hdef : c.oy = Int.tdiv (c.dh - c.h * c.scale) 2 := rfl
  rw [← hdef, ← Nat.cast_mul, hrows] at hoy
  have hupper : c.Seen ((n + 1) * c.scale - 1) c.pitch := ⟨by omega, by omega, hpitch⟩
  have hlower : c.Seen ((n + 1) * c.scale) 0 := ⟨by omega, by omega, by omega⟩
  have hsame : c.addr ((n + 1) * c.scale - 1) c.pitch = c.addr ((n + 1) * c.scale) 0 := by
    have hnext : (c.oy + ((n + 1) * c.scale : ℕ)).toNat =
        (c.oy + ((n + 1) * c.scale - 1 : ℕ)).toNat + 1 := by omega
    rw [Call.addr, Call.addr, hnext, Nat.add_mul _ 1 c.pitch]
    omega
  have hw : 0 < c.w := by
    by_contra hzero
    rw [Call.rowBytes, show c.w = 0 by omega, Nat.zero_mul, Nat.zero_mul] at hpitch
    omega
  have hluma (x y : ℕ) (hx : x < c.w) :
      c.edge (y * c.ys + x) = if y = n then 255 else 0 := by
    have hrow := c.y_row
    have hhalf : c.h / 2 - 1 = n := by omega
    rw [Call.edge, div_block (by omega), hhalf]
  have hcolumn : c.pitch / c.fmt.bpp / c.scale < c.w := by
    rw [Nat.div_lt_iff_lt_mul hscale, Nat.div_lt_iff_lt_mul hpos]
    exact hpitch
  have hwhite : c.byteAt c.edge (fun _ => 128) ((n + 1) * c.scale - 1) c.pitch = 255 := by
    have hrow : ((n + 1) * c.scale - 1) / c.scale = n := by
      rcases c.scale_eq with hs | hs
      · rw [hs]
        omega
      · rw [hs]
        omega
    rw [Call.byteAt, Call.source, hrow, hluma _ _ hcolumn, if_pos rfl]
    exact (byte_grey c.fmt (Nat.mod_lt _ hpos)).1
  have hblack : c.byteAt c.edge (fun _ => 128) ((n + 1) * c.scale) 0 = 0 := by
    rw [Call.byteAt, Call.source, Nat.mul_div_cancel _ hscale, Nat.zero_div, Nat.zero_div,
      hluma _ _ hw, if_neg (by omega), Nat.zero_mod]
    exact (byte_grey c.fmt hpos).2
  have hbyte := h.byte_eq hwide (by omega) hupper
  rw [hsame, h.byte_eq hwide (by omega) hlower, hwhite, hblack] at hbyte
  cases hbyte

/-- **The conversion is one function and stays in the window** exactly where no `int` overflows,
the scaled picture is not just one pixel too wide, and the rows that it fills do not overlap: then
the C rows and the NEON rows leave the placed picture, and nothing else was used. -/
theorem surface_placed_iff (c : Call) :
    (∀ (Y UV : ℕ → UInt8) (d : ℕ → Option UInt8), ∃ m, c.run Y UV d true = some m ∧
      c.run Y UV d false = some m ∧ c.Placed Y UV d m) ↔
    (c.w * c.scale < 2 ^ 31 ∧ c.h * c.scale < 2 ^ 31) ∧
      (c.dw + 1 = c.w * c.scale → c.h = 0 ∨ c.dh = 0) ∧
      (c.pitch < c.w * c.scale * c.fmt.bpp → c.dw < c.w * c.scale ∨ c.h = 0 ∨ c.dh ≤ 1) := by
  constructor
  · intro h
    refine ⟨?_, ?_, ?_⟩
    · obtain ⟨m, hrun, -, -⟩ := h (fun _ => 0) (fun _ => 0) fun _ => none
      by_contra hfits
      rw [Call.run, nv12ToSurface, if_neg hfits] at hrun
      cases hrun
    · intro hnarrow
      by_contra hpos
      rw [not_or] at hpos
      obtain ⟨m, hrun, -, hplaced⟩ := h (fun _ => 0) (fun _ => 0) fun _ => none
      obtain ⟨a, ha⟩ := Call.run_written hnarrow hpos.1 hpos.2 hrun
      rw [hplaced.wider (by omega)] at ha
      exact ha rfl
    · intro hpitch
      by_contra hpos
      rw [not_or, not_or] at hpos
      obtain ⟨m, -, -, hplaced⟩ := h c.edge (fun _ => 128) fun _ => none
      exact Call.not_placed (by omega) hpitch (by omega) hpos.2.1 hplaced
  · rintro ⟨hfits, hnarrow, hpitch⟩ Y UV d
    by_cases hidle : c.dw < c.w * c.scale ∨ c.h = 0 ∨ c.dh = 0
    · have hox : c.ox < 0 ∨ c.h = 0 ∨ c.dh = 0 := by
        have hcast : ((c.w * c.scale : ℕ) : ℤ) = c.w * c.scale := Nat.cast_mul _ _
        have hdef : c.ox = Int.tdiv (c.dw - c.w * c.scale) 2 := rfl
        have htdiv := tdiv_two (c.dw - c.w * c.scale)
        rw [← hdef] at htdiv
        omega
      exact ⟨c.dst d, Call.run_idle hfits hox, Call.run_idle hfits hox, Call.placed_idle hidle⟩
    · rw [not_or, not_or] at hidle
      have hwide : c.w * c.scale ≤ c.dw := by omega
      have hapart : c.Apart := by
        by_cases hlen : c.rowBytes ≤ c.pitch
        · exact .inl hlen
        · exact .inr (by have := hpitch (not_le.mp hlen); omega)
      obtain ⟨V, hV⟩ := Call.exists_bytes hapart Y UV
      exact ⟨_, Call.run_eq hwide hV hfits, Call.run_eq hwide hV hfits, Call.placed hwide hV⟩

/-- A picture 16 pixels wide, on a surface 15 pixels wide. -/
def narrow : Call where
  w := 16
  h := 2
  ys := 16
  cs := 16
  pitch := 45
  dw := 15
  dh := 2
  fmt := .bgr24
  scale := 1
  scale_eq := .inl rfl
  width := by decide
  height := by decide
  w_lt := by decide
  h_lt := by decide
  dw_lt := by decide
  dh_lt := by decide
  y_row := by decide
  uv_row := by decide
  y_plane := by decide
  uv_plane := by decide
  surface := by decide

/-- It is wider than the surface, and it is written. -/
theorem narrow_written : narrow.dw < narrow.w * narrow.scale ∧
    ¬ ∃ m, narrow.run (fun _ => 16) (fun _ => 128) (fun _ => none) true = some m ∧
      narrow.Placed (fun _ => 16) (fun _ => 128) (fun _ => none) m := by
  refine ⟨by decide, ?_⟩
  rintro ⟨m, hrun, hplaced⟩
  obtain ⟨a, ha⟩ := Call.run_written rfl (by decide) (by decide) hrun
  rw [hplaced.wider (by decide)] at ha
  exact ha rfl

end BadgeOS.CodaCube.Surface
