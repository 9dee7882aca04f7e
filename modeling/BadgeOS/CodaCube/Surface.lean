import BadgeOS.Lib.Memory
import BadgeOS.Lib.Neon
import Mathlib

/-!
# The window conversion

The conversion of a decoded NV12 picture into the window surface in `coda-cube.c`, by NEON blocks
of 16 pixels and pixel by pixel.  A function has no result when it would use memory outside the
picture or the surface, store what overflowed, or let an `int` overflow.

* `cvtRows`, `cvtRowsC` — two picture rows, with NEON and in C;
* `nv12ToSurface` — the picture, centred, scaled and clipped.
-/

namespace BadgeOS.CodaCube.Surface

open Memory Neon

/-- `fmt`. -/
inductive Fmt
  | bgr24
  | xrgb
  deriving DecidableEq, Repr

def Fmt.bpp : Fmt → ℕ
  | .bgr24 => 3
  | .xrgb => 4

/-- `st_px`. -/
def stPx (dst : Mem) (d : ℕ) (b g r : Lanes 16) (fmt : Fmt) : Option Mem := do
  let bytes ← match fmt with
    | .bgr24 => Lanes.vst3 b g r
    | .xrgb => Lanes.vst4 b g r (Lanes.vdup 16 255)
  dst.stores d bytes

/-- A channel of 16 pixels: the luma, and the chroma term of each two pixels. -/
def channel16 (yy : Lanes 16) (c : Lanes 8) : Lanes 16 :=
  let yl := (Lanes.vgetLow 8 yy).vmovl
  let yh := (Lanes.vgetHigh 8 yy).vmovl
  (((yl.vadd 16 (c.vzip1 1 c)).vqmovn 8).vcombine
    ((yh.vadd 16 (Lanes.vzip2 (n := 4) c c)).vqmovn 8) : Lanes (8 + 8))

/-- The stores of one picture row of a block. -/
def storeRow (dst : Mem) (d : ℕ → Option ℕ) (x row : ℕ) (b g r : Lanes 16) (fmt : Fmt)
    (scale : ℕ) : Option Mem :=
  if scale = 1 then
    match d row with
    | none => some dst
    | some a => stPx dst (a + x * fmt.bpp) b g r fmt
  else
    (List.range 2).foldlM (fun dst k =>
      match d (2 * row + k) with
      | none => some dst
      | some a => do
        let dst ← stPx dst (a + 2 * x * fmt.bpp) (b.vzip1 1 b) (g.vzip1 1 g) (r.vzip1 1 r) fmt
        stPx dst (a + (2 * x + 16) * fmt.bpp) (Lanes.vzip2 (n := 8) b b)
          (Lanes.vzip2 (n := 8) g g) (Lanes.vzip2 (n := 8) r r) fmt) dst

/-- One block of `cvt_rows`. -/
def cvtBlock (y0 y1 uv : Ptr) (d : ℕ → Option ℕ) (fmt : Fmt) (scale : ℕ) (dst : Mem) (x : ℕ) :
    Option Mem := do
  let c ← uv.loads x 16
  let u := (Lanes.vld2 8 c 0).vsubl (Lanes.vdup 8 128)
  let v := (Lanes.vld2 8 c 1).vsubl (Lanes.vdup 8 128)
  let rv := (v.vmulN 16 179).vrshr 7
  let gv := ((u.vmulN 16 (-44)).vmlaN 16 v (-91)).vrshr 7
  let bv := (u.vmulN 16 227).vrshr 7
  (List.range 2).foldlM (fun dst row => do
    let yBytes ← (if row = 0 then y0 else y1).loads x 16
    let yy := Lanes.vld1 16 yBytes
    storeRow dst d x row (channel16 yy bv) (channel16 yy gv) (channel16 yy rv) fmt scale) dst

/-- `cvt_rows`; `d` is NULL where it has no address. -/
def cvtRows (y0 y1 uv : Ptr) (d : ℕ → Option ℕ) (w : ℕ) (fmt : Fmt) (scale : ℕ) (dst : Mem) :
    Option Mem :=
  (List.range' 0 ((w + 15) / 16) 16).foldlM (cvtBlock y0 y1 uv d fmt scale) dst

/-- `rgb[q]`, clamped. -/
def clamp (x : ℤ) : UInt8 := UInt8.ofNat (if x < 0 then 0 else if x > 255 then 255 else x).toNat

/-- `px`, as many bytes of it as a pixel has. -/
def px (fmt : Fmt) (y u v : UInt8) : List UInt8 :=
  let y : ℤ := y.toNat
  let u : ℤ := u.toNat - 128
  let v : ℤ := v.toNat - 128
  [clamp (y + (227 * u + 64) / 2 ^ 7), clamp (y + (-44 * u - 91 * v + 64) / 2 ^ 7),
    clamp (y + (179 * v + 64) / 2 ^ 7), 255].take fmt.bpp

/-- One pixel of `cvt_rows_c`. -/
def cvtPixel (y0 y1 uv : Ptr) (d : ℕ → Option ℕ) (fmt : Fmt) (scale row : ℕ) (dst : Mem) (x : ℕ) :
    Option Mem := do
  let y ← (if row = 0 then y0 else y1).load x
  let u ← uv.load (x / 2 * 2)
  let v ← uv.load (x / 2 * 2 + 1)
  (List.range scale).foldlM (fun dst k =>
    match d (if scale = 1 then row else 2 * row + k) with
    | none => some dst
    | some a => (List.range scale).foldlM (fun dst sx =>
        dst.stores (a + (x * scale + sx) * fmt.bpp) (px fmt y u v)) dst) dst

/-- `cvt_rows_c`. -/
def cvtRowsC (y0 y1 uv : Ptr) (d : ℕ → Option ℕ) (w : ℕ) (fmt : Fmt) (scale : ℕ) (dst : Mem) :
    Option Mem :=
  (List.range 2).foldlM (fun dst row =>
    (List.range w).foldlM (cvtPixel y0 y1 uv d fmt scale row) dst) dst

/-- Where the rows of the surface for the picture rows `y` and `y + 1` begin, from the column
`ox` on. -/
def rowsAt (pitch dh : ℕ) (ox oy : ℤ) (fmt : Fmt) (scale y k : ℕ) : Option ℕ :=
  let dy := oy + y * scale + k
  if k < 2 * scale ∧ 0 ≤ dy ∧ dy < dh then
    some (dy.toNat * pitch % 2 ^ 64 + ox.toNat * fmt.bpp)
  else none

/-- The rows `y` and `y + 1` of `nv12_to_surface`. -/
def convertPair (portable : Bool) (Y : Ptr) (ys : ℕ) (UV : Ptr) (cs w : ℕ) (pitch dh : ℕ)
    (ox oy : ℤ) (fmt : Fmt) (scale : ℕ) (dst : Mem) (y : ℕ) : Option Mem :=
  let d := rowsAt pitch dh ox oy fmt scale y
  if d 0 = none ∧ d 1 = none ∧ d 2 = none ∧ d 3 = none then some dst
  else
    let y0 : Ptr := ⟨Y.mem, Y.addr + y * ys % 2 ^ 64⟩
    let y1 : Ptr := ⟨Y.mem, y0.addr + ys⟩
    let uv : Ptr := ⟨UV.mem, UV.addr + y / 2 * cs % 2 ^ 64⟩
    if portable then cvtRowsC y0 y1 uv d w fmt scale dst else cvtRows y0 y1 uv d w fmt scale dst

/-- `nv12_to_surface`. -/
def nv12ToSurface (portable : Bool) (Y : Ptr) (ys : ℕ) (UV : Ptr) (cs w h : ℕ) (dst : Mem)
    (pitch dw dh : ℕ) (fmt : Fmt) (scale : ℕ) : Option Mem :=
  -- the products are of `int`
  if w * scale < 2 ^ 31 ∧ h * scale < 2 ^ 31 then
    let ox : ℤ := Int.tdiv (dw - w * scale) 2
    let oy : ℤ := Int.tdiv (dh - h * scale) 2
    if ox < 0 then some dst
    else (List.range' 0 ((h + 1) / 2) 2).foldlM
      (convertPair portable Y ys UV cs w pitch dh ox oy fmt scale) dst
  else none

end BadgeOS.CodaCube.Surface
