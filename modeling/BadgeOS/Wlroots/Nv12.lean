import BadgeOS.Lib.Memory
import BadgeOS.Lib.Neon
import Mathlib

/-!
# The NV12 converters

`nv12.c` of the wlroots patch: NV12 to XRGB8888, by pixel pairs in C, by blocks of 16 pixels with
NEON, and row pair by row pair through a line buffer.  A function has no result when it would
use memory that it may not use, store what overflowed, or let an `int` overflow.

* `convertRowC`, `convertRowNeon` — one row;
* `pixmanNv12ToXrgb8888C`, `pixmanNv12ToXrgb8888`, `pixmanNv12ToXrgb8888Staged`.
-/

namespace BadgeOS.Wlroots.Nv12

open Memory Neon

def fixY : ℤ := 76309
def fixVR : ℤ := 104597
def fixUG : ℤ := 25675
def fixVG : ℤ := 53279
def fixUB : ℤ := 132201

/-- An `int32_t` constant. -/
def const (x : ℤ) : Lane := ⟨x, false⟩

/-- `to_channel`. -/
def toChannel (v : Lane) : Lane :=
  if v.val ≤ 0 then ⟨0, v.wrapped⟩
  else
    let v := v.add 32 (const (2 ^ 15))
    let shifted := v.val / 2 ^ 16
    ⟨if shifted > 255 then 255 else shifted, v.wrapped⟩

/-- A `uint32_t`, in memory. -/
def wordBytes (w : ℕ) : List UInt8 :=
  [UInt8.ofNat w, UInt8.ofNat (w >>> 8), UInt8.ofNat (w >>> 16), UInt8.ofNat (w >>> 24)]

/-- `to_xrgb8888`. -/
def toXrgb8888 (y : UInt8) (r g b : Lane) : Option ℕ :=
  let luma := (const fixY).mul 32 ((ofByte y).sub 32 (const 16))
  let r' := toChannel (luma.add 32 r)
  let g' := toChannel (luma.add 32 g)
  let b' := toChannel (luma.add 32 b)
  if r'.wrapped || g'.wrapped || b'.wrapped then none
  else some (0xff000000 ||| r'.val.toNat <<< 16 ||| g'.val.toNat <<< 8 ||| b'.val.toNat)

/-- One pixel of `convert_row_c`. -/
def storePixel (yRow : Ptr) (dst : Mem) (dstRow col : ℕ) (r g b : Lane) : Option Mem := do
  let y ← yRow.load col
  let word ← toXrgb8888 y r g b
  dst.stores (dstRow + 4 * col) (wordBytes word)

/-- `convert_row_c`. -/
def convertRowC (yRow uvRow : Ptr) (dst : Mem) (dstRow col width : ℕ) : Option Mem :=
  if col < width then do
    let uByte ← uvRow.load col
    let vByte ← uvRow.load (col + 1)
    let u := (ofByte uByte).sub 32 (const 128)
    let v := (ofByte vByte).sub 32 (const 128)
    let r := (const fixVR).mul 32 v
    let g := ((const (-fixUG)).mul 32 u).sub 32 ((const fixVG).mul 32 v)
    let b := (const fixUB).mul 32 u
    let dst ← storePixel yRow dst dstRow col r g b
    let dst ← if col + 1 < width then storePixel yRow dst dstRow (col + 1) r g b else some dst
    -- `col += 2` of an `int`
    if col + 2 < 2 ^ 31 then convertRowC yRow uvRow dst dstRow (col + 2) width else none
  else some dst
termination_by width - col

/-- `channel4_neon`. -/
def channel4Neon (luma chroma : Lanes 4) : Lanes 4 := ((luma.vadd 32 chroma).vqrshrun 16 16)

/-- `channel16_neon`. -/
def channel16Neon (luma : Fin 4 → Lanes 4) (cLo cHi : Lanes 4) : Lanes 16 :=
  let lo : Lanes 8 := (channel4Neon (luma 0) (cLo.vzip1 1 cLo)).vcombine
    (channel4Neon (luma 1) (Lanes.vzip2 (n := 2) cLo cLo))
  let hi : Lanes 8 := (channel4Neon (luma 2) (cHi.vzip1 1 cHi)).vcombine
    (channel4Neon (luma 3) (Lanes.vzip2 (n := 2) cHi cHi))
  (lo.vqmovn 8).vcombine (hi.vqmovn 8)

/-- The block of 16 pixels in the loop of `convert_row_neon`. -/
def blockNeon (yBytes uvBytes : List UInt8) : Option (List UInt8) :=
  let y8 := Lanes.vld1 16 yBytes
  let yLo := (Lanes.vgetLow 8 y8).vsubl (Lanes.vdup 8 16)
  let yHi := (Lanes.vgetHigh 8 y8).vsubl (Lanes.vdup 8 16)
  let u := (Lanes.vld2 8 uvBytes 0).vsubl (Lanes.vdup 8 128)
  let v := (Lanes.vld2 8 uvBytes 1).vsubl (Lanes.vdup 8 128)
  let luma : Fin 4 → Lanes 4 := ![
    (Lanes.vgetLow 4 yLo).vmovl.vmulN 32 fixY, (Lanes.vgetHigh 4 yLo).vmovl.vmulN 32 fixY,
    (Lanes.vgetLow 4 yHi).vmovl.vmulN 32 fixY, (Lanes.vgetHigh 4 yHi).vmovl.vmulN 32 fixY]
  let uLo := (Lanes.vgetLow 4 u).vmovl
  let uHi := (Lanes.vgetHigh 4 u).vmovl
  let vLo := (Lanes.vgetLow 4 v).vmovl
  let vHi := (Lanes.vgetHigh 4 v).vmovl
  Lanes.vst4 (channel16Neon luma (uLo.vmulN 32 fixUB) (uHi.vmulN 32 fixUB))
    (channel16Neon luma ((uLo.vmulN 32 (-fixUG)).vmlsN 32 vLo fixVG)
      ((uHi.vmulN 32 (-fixUG)).vmlsN 32 vHi fixVG))
    (channel16Neon luma (vLo.vmulN 32 fixVR) (vHi.vmulN 32 fixVR))
    (Lanes.vdup 16 0xff)

/-- `convert_row_neon`. -/
def convertRowNeon (yRow uvRow : Ptr) (dst : Mem) (dstRow col width : ℕ) : Option (Mem × ℕ) :=
  -- `col + 16` of an `int`
  if col + 16 < 2 ^ 31 then
    if col + 16 ≤ width then do
      let yBytes ← yRow.loads col 16
      let uvBytes ← uvRow.loads col 16
      let bytes ← blockNeon yBytes uvBytes
      let dst ← dst.stores (dstRow + 4 * col) bytes
      convertRowNeon yRow uvRow dst dstRow (col + 16) width
    else some (dst, col)
  else none
termination_by width - col

/-- `(size_t)row * stride`. -/
def rowOffset (row stride : ℕ) : ℕ := row * stride % 2 ^ 64

def rowPtr (p : Ptr) (row stride : ℕ) : Ptr := { p with addr := p.addr + rowOffset row stride }

/-- `pixman_nv12_to_xrgb8888_c`. -/
def pixmanNv12ToXrgb8888C (y : Ptr) (yStride : ℕ) (uv : Ptr) (uvStride : ℕ) (dst : Mem)
    (dstAddr dstStride width height : ℕ) : Option Mem :=
  (List.range height).foldlM (fun dst row =>
    convertRowC (rowPtr y row yStride) (rowPtr uv (row / 2) uvStride) dst
      (dstAddr + rowOffset row dstStride) 0 width) dst

/-- `pixman_nv12_to_xrgb8888`, where there is NEON. -/
def pixmanNv12ToXrgb8888 (y : Ptr) (yStride : ℕ) (uv : Ptr) (uvStride : ℕ) (dst : Mem)
    (dstAddr dstStride width height : ℕ) : Option Mem :=
  (List.range height).foldlM (fun dst row => do
    let yRow := rowPtr y row yStride
    let uvRow := rowPtr uv (row / 2) uvStride
    let dstRow := dstAddr + rowOffset row dstStride
    let (dst, col) ← convertRowNeon yRow uvRow dst dstRow 0 width
    convertRowC yRow uvRow dst dstRow col width) dst

/-- `copy_uncached`, of `n` bytes from `s` in `src` to `d`. -/
def copyUncached (dst : Mem) (d : ℕ) (src : Ptr) (s n : ℕ) : Option Mem :=
  if 32 ≤ n then do
    let a ← src.loads s 16
    let b ← src.loads (s + 16) 16
    let dst ← dst.stores d a
    let dst ← dst.stores (d + 16) b
    copyUncached dst (d + 32) src (s + 32) (n - 32)
  else do
    let bytes ← src.loads s n
    dst.stores d bytes
termination_by n

/-- What `malloc` returned: `n` bytes that nobody wrote. -/
def malloc (n : ℕ) : Mem := ⟨fun a => decide (a < n), fun _ => none⟩

/-- The loop of `pixman_nv12_to_xrgb8888_staged`, from `row` on; the line buffer keeps what the
rows before left in it. -/
def stagedRows (y : Ptr) (yStride : ℕ) (uv : Ptr) (uvStride : ℕ) (line dst : Mem)
    (dstAddr dstStride width height row : ℕ) : Option Mem :=
  let yLen := width
  let uvLen := (width + 1) / 2 * 2
  if row < height then do
    let rows := if height - row < 2 then 1 else 2
    let line ← (List.range rows).foldlM (fun line i =>
      copyUncached line (i * yLen) (rowPtr y (row + i) yStride) 0 yLen) line
    let line ← copyUncached line (2 * yLen) (rowPtr uv (row / 2) uvStride) 0 uvLen
    let dst ← pixmanNv12ToXrgb8888 ⟨line, 0⟩ yLen ⟨line, 2 * yLen⟩ 0 dst
      (dstAddr + rowOffset row dstStride) dstStride width rows
    -- `row += 2` of an `int`
    if row + 2 < 2 ^ 31 then
      stagedRows y yStride uv uvStride line dst dstAddr dstStride width height (row + 2)
    else none
  else some dst
termination_by height - row

/-- `pixman_nv12_to_xrgb8888_staged`; `allocated` says whether `malloc` succeeds. -/
def pixmanNv12ToXrgb8888Staged (allocated : Bool) (y : Ptr) (yStride : ℕ) (uv : Ptr)
    (uvStride : ℕ) (dst : Mem) (dstAddr dstStride width height : ℕ) : Option (Bool × Mem) :=
  if allocated then do
    let line := malloc (2 * width + (width + 1) / 2 * 2)
    let dst ← stagedRows y yStride uv uvStride line dst dstAddr dstStride width height 0
    some (true, dst)
  else some (false, dst)

end BadgeOS.Wlroots.Nv12
