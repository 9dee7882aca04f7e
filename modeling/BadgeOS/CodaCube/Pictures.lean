import BadgeOS.CodaCube.ReferenceChoice
import BadgeOS.Lib.Avc
import Mathlib

/-!
# The pictures of the cube

The access units that `coda-cube.c` writes, as the headers a decoder reads in them: the black IDR,
the atlas pages, and the pictures of each frame — a render, and with `--smooth` one or two
B-pictures behind it.  The samples and the motion vectors are left out.

* `Options`, `accept` — what `main` accepts of `--pages`, `--smooth` and `--dpb-extra`;
* `spsPps`, `pcmPage`, `encodeFrame`, `encodeBpic`, `genFrame` — the headers, as they are written;
* `stream` — everything up to any frame, with the scenes and their reference lists.
-/

namespace BadgeOS.CodaCube.Pictures

open Avc
open References (Frame Blocks Refs)

/-! ### The options -/

/-- `--smooth` -/
inductive Smooth
  | off
  | diag
  | hv
  deriving DecidableEq, Repr

/-- `g_smooth` -/
def Smooth.value : Smooth → ℕ
  | .off => 0
  | .diag => 1
  | .hv => 2

theorem Smooth.value_le (smooth : Smooth) : smooth.value ≤ 2 := by
  cases smooth <;> decide

structure Options where
  K : ℕ
  smooth : Smooth
  /-- `g_dpb_extra` -/
  extra : ℕ
  K_pos : 1 ≤ K
  K_le : K + smooth.value ≤ 14
  refs_le : 1 + K + smooth.value + extra ≤ 16

/-- `g_dpb_extra`, from `--dpb-extra` if it is given. -/
def dpbExtra (K : ℤ) (smooth : Smooth) (given : Option ℕ) (zeroCopy : Bool) : ℕ :=
  match given with
  | some n => n
  | none =>
      if zeroCopy then
        let room := 16 - (1 + K + smooth.value)
        if room < 0 then 0 else if room < 2 then room.toNat else 2
      else 0

/-- The checks of `main`. -/
def accept (K : ℤ) (smooth : Smooth) (given : Option ℕ) (zeroCopy : Bool) : Option Options :=
  let extra := dpbExtra K smooth given zeroCopy
  if hK : K < 1 ∨ K + smooth.value > 14 then none
  else if hrefs : 1 + K + smooth.value + extra > 16 then none
  else some ⟨K.toNat, smooth, extra, by omega, by omega, by omega⟩

/-- The options are those that `main` accepts. -/
theorem accept_eq_some_iff {K : ℤ} {smooth : Smooth} {given : Option ℕ} {zeroCopy : Bool}
    {o : Options} : accept K smooth given zeroCopy = some o ↔
      o.K = K ∧ o.smooth = smooth ∧ o.extra = dpbExtra K smooth given zeroCopy := by
  obtain ⟨K', smooth', extra, hpos, hle, hrefs⟩ := o
  rw [accept]
  constructor
  · intro h
    split at h
    · cases h
    · split at h
      · cases h
      · obtain ⟨rfl, rfl, rfl⟩ := Options.mk.inj (Option.some.inj h)
        exact ⟨by simp only; omega, rfl, rfl⟩
  · rintro ⟨hK, hsmooth, hextra⟩
    simp only at hK hsmooth hextra
    subst hK hsmooth hextra
    have hroom : ¬ ((K' : ℤ) < 1 ∨ (K' : ℤ) + smooth'.value > 14) := by omega
    have hrefs' : ¬ 1 + (K' : ℤ) + smooth'.value + dpbExtra K' smooth' given zeroCopy > 16 := by
      omega
    rw [dif_neg hroom, dif_neg hrefs']
    simp

/-! ### The headers -/

/-- `bw_u(b, 16, n)` -/
def u16 (n : ℕ) : ℕ := n % 2 ^ 16

/-- `sps_pps` -/
def spsPps (o : Options) : Params where
  maxFrameNum := 2 ^ 16
  maxPicOrderCntLsb := 2 ^ 16
  maxNumRefFrames := 1 + o.K + o.smooth.value + o.extra

/-- `pcm_page` -/
def pcmPage (o : Options) (k : ℕ) : Header where
  sliceType := .I
  idr := k = 0
  refIdc := 3
  frameNum := u16 k
  pocLsb := u16 (2 * k)
  longTermReference := k = 0
  operations :=
    if k = 0 then none
    else some ((if k = 1 then [.maxLongTermFrameIdx (o.K + 1)] else []) ++ [.currentLongTerm k])

/-- The slice header of `encode_frame`, with the list it has selected. -/
def encodeFrame (frameNum poc : ℕ) (isRef : Bool) (r : Refs) : Header where
  sliceType := .P
  refIdc := if isRef then 2 else 0
  frameNum := u16 frameNum
  pocLsb := u16 poc
  active0 := r.NREF
  mods0 := (List.range r.NREF).map fun i => .longTerm (r.REFPAGE i).toNat

/-- The slice header of `encode_bpic`. -/
def encodeBpic (frameNum poc : ℕ) (isRef : Bool) : Header where
  sliceType := .B
  refIdc := if isRef then 2 else 0
  frameNum := u16 frameNum
  pocLsb := u16 poc
  active0 := 1
  active1 := 1
  mods0 := [.subtract 1]
  mods1 := [.subtract 1]

/-- Which picture an access unit is. -/
inductive Picture
  /-- 0 is black. -/
  | page (k : ℕ)
  /-- The render of frame `n`, with its list. -/
  | render (n : ℕ) (r : Refs)
  /-- The `b`-th B-picture behind it. -/
  | pass (n b : ℕ)

/-- `gen_frame` -/
def genFrame (o : Options) (n : ℕ) (r : Refs) : List (Picture × Header) :=
  let ref := o.smooth ≠ .off
  let fn := if ref then (o.K + 1 + o.smooth.value * n) % 2 ^ 16 else 1 + o.K
  let poc := if ref then (2 * (o.K + 1) + 6 * n) % 2 ^ 16 else 2 * (n % 16000 + 1 + o.K) % 2 ^ 16
  (.render n r, encodeFrame fn poc ref r) :: match o.smooth with
    | .off => []
    | .diag => [(.pass n 1, encodeBpic (fn + 1) (poc + 2) false)]
    | .hv =>
        [(.pass n 1, encodeBpic (fn + 1) (poc + 2) true),
          (.pass n 2, encodeBpic (fn + 2) (poc + 4) false)]

/-- What a frame shows, under the options. -/
abbrev Scene (o : Options) := {F : Frame // F.K = o.K}

/-- The first `N` frames, and the arrays that the last one leaves. -/
def frames (o : Options) (scene : ℕ → Scene o) (old : Blocks) :
    ℕ → Option (List (Picture × Header) × Blocks)
  | 0 => some ([], old)
  | N + 1 => do
      let (ps, old) ← frames o scene old N
      let (s, r) ← (scene N).1.selectReferences old
      some (ps ++ genFrame o N r, s)

/-- The black IDR and the pages. -/
def setup (o : Options) : List (Picture × Header) :=
  (List.range (o.K + 1)).map fun k => (.page k, pcmPage o k)

/-- What is sent up to the `N`-th frame. -/
def stream (o : Options) (scene : ℕ → Scene o) (old : Blocks) (N : ℕ) :
    Option (List (Picture × Header)) :=
  (frames o scene old N).map fun r => setup o ++ r.1

end BadgeOS.CodaCube.Pictures
