import BadgeOS.CodaCube.Buffers
import BadgeOS.CodaCube.SliceData
import BadgeOS.CodaCube.SmoothingPass
import BadgeOS.Lib.Raster
import Mathlib

/-!
# The CPU model

`--cpu-model` of `coda-cube.c`: what a decoder outputs for the render, from the partitions, the
pages and the samples of the hook, and for the pictures of the smoothing passes.  A function has no
result when it would read or write outside an array.

* `modelP`, `modelB` — a render, and a smoothing pass;
* `planes_run` — a loop that goes on in each plane by itself.
-/

namespace BadgeOS.CodaCube.CpuModel

open Raster Cells Buffers AvcSamples
open Pages (Planes)
open Slice (Part Setting)

/-! ### The source -/

section Writing

/-- The size of a plane of chroma. -/
def chromaSize (S : MbSize) : ℕ := S.W / 2 * (S.H / 2)

variable (S : Setting) (pages : ℕ → Planes) (store : ℕ → UInt8)

/-- `s[first + n * j + i]` of a macroblock that was sent as samples. -/
def sent (first n : ℕ) (p : Part) (i j : ℕ) : Option UInt8 :=
  get (S.mbs * 384) store
    ((p.y.tdiv 16 * S.WMB + p.x.tdiv 16) * 384 + (first + n * j + i : ℕ))

/-- A luma sample of a partition. -/
def luma (P : Page) (p : Part) (i j : ℕ) : Option UInt8 := do
  let v ← lumaQpel P.toSize P.Y (p.x + i + p.mvx / 4) (p.y + j + p.mvy / 4) (p.mvx % 4)
    (p.mvy % 4)
  some (UInt8.ofInt (if p.ref = 0 then v else wp6 v (S.WY p.ref.toNat) (S.OY p.ref.toNat)))

/-- A chroma sample of a partition. -/
def chroma (P : Page) (start : Memory.Ptr) (p : Part) (i j : ℕ) : Option UInt8 := do
  let v ← chromaPred P.toSize start (p.x.tdiv 2 + i) (p.y.tdiv 2 + j) p.mvx p.mvy
  some (UInt8.ofInt (if p.ref = 0 then v else wp6 v (S.WC p.ref.toNat) (S.OC p.ref.toNat)))

/-- One partition of `model_p`. -/
def modelPart (b : Planes) (p : Part) : Option Planes :=
  if p.ref < 0 then do
    let Y ← rect (S.W * S.H) S.W p.x p.y 16 16 (sent S store 0 16 p) b.Y
    let U ← rect (chromaSize S.toMbSize) (S.W / 2) (p.x.tdiv 2) (p.y.tdiv 2) 8 8
      (sent S store 256 8 p) b.U
    let V ← rect (chromaSize S.toMbSize) (S.W / 2) (p.x.tdiv 2) (p.y.tdiv 2) 8 8
      (sent S store 320 8 p) b.V
    some ⟨Y, U, V⟩
  else do
    let pg ← get References.MAXREF S.refs.REFPAGE p.ref
    let P ← get 16 (fun k => page S.toMbSize (pages k)) pg
    let Y ← rect (S.W * S.H) S.W p.x p.y p.w.toNat p.h.toNat (luma S P p) b.Y
    let U ← rect (chromaSize S.toMbSize) (S.W / 2) (p.x.tdiv 2) (p.y.tdiv 2) (p.w.tdiv 2).toNat
      (p.h.tdiv 2).toNat (chroma S P P.U p) b.U
    let V ← rect (chromaSize S.toMbSize) (S.W / 2) (p.x.tdiv 2) (p.y.tdiv 2) (p.w.tdiv 2).toNat
      (p.h.tdiv 2).toNat (chroma S P P.V p) b.V
    some ⟨Y, U, V⟩

/-- `model_p` -/
def modelP (parts : List Part) (b : Planes) : Option Planes :=
  parts.foldlM (modelPart S pages store) b

end Writing

section Writing

variable (S : Bpic.Pass) (src : Page)

/-- A luma sample of `model_b`, in macroblock `m`. -/
def passLuma (m x y : ℕ) : Option UInt8 := do
  let v ← sample src.Y (y * S.W + x : ℕ)
  if S.edge m then do
    let a ← lumaQpel src.toSize src.Y (x + S.m0.1 / 4) (y + S.m0.2 / 4) (S.m0.1 % 4) (S.m0.2 % 4)
    let c ← lumaQpel src.toSize src.Y (x + S.m1.1 / 4) (y + S.m1.2 / 4) (S.m1.1 % 4) (S.m1.2 % 4)
    some (UInt8.ofInt (avg2 a c))
  else some (UInt8.ofInt v)

/-- A chroma sample of `model_b`. -/
def passChroma (start : Memory.Ptr) (m x y : ℕ) : Option UInt8 :=
  if S.edge m then do
    let a ← chromaPred src.toSize start x y S.m0.1 S.m0.2
    let c ← chromaPred src.toSize start x y S.m1.1 S.m1.2
    some (UInt8.ofInt (avg2 a c))
  else (sample start (y * (S.W / 2) + x : ℕ)).map UInt8.ofInt

/-- One macroblock of `model_b`. -/
def modelMb (b : Planes) (m : ℕ) : Option Planes := do
  let X0 := m % S.WMB * 16
  let Y0 := m / S.WMB * 16
  let Y ← rect (S.W * S.H) S.W X0 Y0 16 16 (fun i j => passLuma S src m (X0 + i) (Y0 + j)) b.Y
  let U ← rect (chromaSize S.toMbSize) (S.W / 2) (X0 / 2 : ℕ) (Y0 / 2 : ℕ) 8 8
    (fun i j => passChroma S src src.U m (X0 / 2 + i) (Y0 / 2 + j)) b.U
  let V ← rect (chromaSize S.toMbSize) (S.W / 2) (X0 / 2 : ℕ) (Y0 / 2 : ℕ) 8 8
    (fun i j => passChroma S src src.V m (X0 / 2 + i) (Y0 / 2 + j)) b.V
  some ⟨Y, U, V⟩

/-- `model_b` -/
def modelB (b : Planes) : Option Planes := (List.range S.mbs).foldlM (modelMb S src) b

end Writing

/-! ### One plane after another -/

/-- A loop that goes on in each plane by itself. -/
theorem planes_run {β : Type*} {step : Planes → β → Option Planes}
    {paint : Component → (ℕ → UInt8) → β → Option (ℕ → UInt8)}
    (h : ∀ b p, step b p = do
      let Y ← paint .luma b.Y p
      let U ← paint .cb b.U p
      let V ← paint .cr b.V p
      some ⟨Y, U, V⟩) {l : List β} {b b' : Planes}
    (hall : ∀ c, l.foldlM (paint c) (bytes b c) = some (bytes b' c)) :
    l.foldlM step b = some b' := by
  induction l generalizing b with
  | nil =>
      have hsame (c : Component) : bytes b c = bytes b' c := Option.some.inj (hall c)
      have hY : b.Y = b'.Y := hsame .luma
      have hU : b.U = b'.U := hsame .cb
      have hV : b.V = b'.V := hsame .cr
      cases b
      cases b'
      simp only at hY hU hV
      rw [hY, hU, hV]
      rfl
  | cons p l ih =>
      have hfirst (c : Component) : ∃ plane, paint c (bytes b c) p = some plane ∧
          l.foldlM (paint c) plane = some (bytes b' c) := by
        have hc := hall c
        rw [List.foldlM_cons] at hc
        exact Option.bind_eq_some_iff.mp hc
      obtain ⟨Y, hY, hY'⟩ := hfirst .luma
      obtain ⟨U, hU, hU'⟩ := hfirst .cb
      obtain ⟨V, hV, hV'⟩ := hfirst .cr
      have hstep : step b p = some ⟨Y, U, V⟩ := by
        rw [h]
        show (paint .luma (bytes b .luma) p).bind _ = _
        rw [hY]
        show (paint .cb (bytes b .cb) p).bind _ = _
        rw [hU]
        show (paint .cr (bytes b .cr) p).bind _ = _
        rw [hV]
        rfl
      rw [List.foldlM_cons, hstep]
      refine ih fun c => ?_
      cases c with
      | luma => exact hY'
      | cb => exact hU'
      | cr => exact hV'

end BadgeOS.CodaCube.CpuModel
