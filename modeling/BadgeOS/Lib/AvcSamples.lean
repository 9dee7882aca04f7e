import BadgeOS.Lib.AvcStream
import Mathlib

/-!
# The samples of H.264

What a decoder makes of a picture without a residual and without the loop filter: the samples that
are sent, and those that are predicted from the reference pictures, with the six-tap filter for
luma, the bilinear one for chroma, and explicit weights in P slices.

* `Plane`, `Picture` — decoded samples;
* `lumaSample`, `chromaSample`, `weigh` — a sample of a reference picture, and its weighting;
* `decodePicture` — a picture, from its reference lists;
* `decodeOne`, `decode` — a picture of a stream, and all of them from its bytes;
* `Plays` — the pictures of a run.
-/

namespace AvcSamples

open AvcHeaders AvcMotion AvcSlice AvcStream

/-- The samples of a component, row after row. -/
structure Plane where
  width : ℕ
  height : ℕ
  samples : List ℤ
  deriving DecidableEq, Repr

structure Picture where
  luma : Plane
  cb : Plane
  cr : Plane
  deriving DecidableEq, Repr

def clip3 (lo hi v : ℤ) : ℤ := if v < lo then lo else if v > hi then hi else v

def clip1 (v : ℤ) : ℤ := clip3 0 255 v

/-- A plane goes on beyond its borders. -/
def Plane.extended (P : Plane) (x y : ℤ) : ℤ :=
  P.samples.getD (clip3 0 (P.height - 1) y * P.width + clip3 0 (P.width - 1) x).toNat 0

/-! ### Prediction -/

def tap (a b c d e f : ℤ) : ℤ := a - 5 * b + 20 * c + 20 * d - 5 * e + f

/-- The intermediate values between two samples of a row, and of a column. -/
def rowTap (L : ℤ → ℤ → ℤ) (x y : ℤ) : ℤ :=
  tap (L (x - 2) y) (L (x - 1) y) (L x y) (L (x + 1) y) (L (x + 2) y) (L (x + 3) y)

def columnTap (L : ℤ → ℤ → ℤ) (x y : ℤ) : ℤ :=
  tap (L x (y - 2)) (L x (y - 1)) (L x y) (L x (y + 1)) (L x (y + 2)) (L x (y + 3))

def average (a b : ℤ) : ℤ := (a + b + 1) / 2

/-- The luma sample at `fx` and `fy` quarters behind `(x, y)`; `b`, `h` and `j` are the samples at
half positions. -/
def lumaSample (L : ℤ → ℤ → ℤ) (x y : ℤ) (fx fy : ℕ) : ℤ :=
  let b x y := clip1 ((rowTap L x y + 16) / 2 ^ 5)
  let h x y := clip1 ((columnTap L x y + 16) / 2 ^ 5)
  let j := clip1 ((columnTap (rowTap L) x y + 512) / 2 ^ 10)
  match fx, fy with
  | 0, 0 => L x y
  | 0, 1 => average (L x y) (h x y)
  | 0, 2 => h x y
  | 0, _ => average (h x y) (L x (y + 1))
  | 1, 0 => average (L x y) (b x y)
  | 1, 1 => average (b x y) (h x y)
  | 1, 2 => average (h x y) j
  | 1, _ => average (h x y) (b x (y + 1))
  | 2, 0 => b x y
  | 2, 1 => average (b x y) j
  | 2, 2 => j
  | 2, _ => average j (b x (y + 1))
  | _, 0 => average (b x y) (L (x + 1) y)
  | _, 1 => average (b x y) (h (x + 1) y)
  | _, 2 => average j (h (x + 1) y)
  | _, _ => average (h (x + 1) y) (b x (y + 1))

/-- The chroma sample at `fx` and `fy` eighths behind `(x, y)`. -/
def chromaSample (C : ℤ → ℤ → ℤ) (x y : ℤ) (fx fy : ℕ) : ℤ :=
  ((8 - fx) * (8 - fy) * C x y + fx * (8 - fy) * C (x + 1) y + (8 - fx) * fy * C x (y + 1) +
    fx * fy * C (x + 1) (y + 1) + 32) / 2 ^ 6

/-- Explicit weighting of a sample from one list. -/
def weigh (log2Denom : ℕ) (w : ℤ × ℤ) (v : ℤ) : ℤ :=
  if 1 ≤ log2Denom then clip1 ((v * w.1 + 2 ^ (log2Denom - 1)) / 2 ^ log2Denom + w.2)
  else clip1 (v * w.1 + w.2)

inductive Component
  | luma
  | cb
  | cr
  deriving DecidableEq, Repr

namespace Component

/-- How many samples of luma lie along one of the component. -/
def scale : Component → ℕ
  | luma => 1
  | cb | cr => 2

/-- Where its samples start among those of a macroblock that is sent as samples. -/
def first : Component → ℕ
  | luma => 0
  | cb => 256
  | cr => 320

def plane (P : Picture) : Component → Plane
  | luma => P.luma
  | cb => P.cb
  | cr => P.cr

def weight (w : Weight) : Component → ℤ × ℤ
  | luma => w.luma
  | cb => w.cb
  | cr => w.cr

def log2Denom (w : Weights) : Component → ℕ
  | luma => w.lumaLog2Denom
  | cb | cr => w.chromaLog2Denom

/-- The sample of a reference picture that belongs to the one at `(x, y)`. -/
def fetch (P : Picture) (mv : ℤ × ℤ) (x y : ℕ) : Component → ℤ
  | luma => lumaSample P.luma.extended (x + mv.1 / 4) (y + mv.2 / 4) (mv.1 % 4).toNat
      (mv.2 % 4).toNat
  | c => chromaSample (c.plane P).extended (x + mv.1 / 8) (y + mv.2 / 8) (mv.1 % 8).toNat
      (mv.2 % 8).toNat

end Component

/-- The reference lists. -/
structure Lists where
  list0 : List (Option Picture)
  list1 : List (Option Picture)

/-- The entry of a list that a motion uses. -/
def entry (refs : List (Option Picture)) (m : Motion) : Option Picture := refs[m.ref.toNat]?.join

/-- From one list. -/
def fromOne (c : Component) (weights : Option Weights) (refs : List (Option Picture)) (m : Motion)
    (x y : ℕ) : Option ℤ := do
  let P ← entry refs m
  let v := c.fetch P m.mv x y
  match weights with
  | none => some v
  | some ws => do
      let w ← ws.entries[m.ref.toNat]?
      some (weigh (c.log2Denom ws) (c.weight w) v)

/-- From both lists, without weights. -/
def fromBoth (c : Component) (weights : Option Weights) (L : Lists) (m0 m1 : Motion) (x y : ℕ) :
    Option ℤ :=
  if weights.isSome then none
  else do
    let P0 ← entry L.list0 m0
    let P1 ← entry L.list1 m1
    some (average (c.fetch P0 m0.mv x y) (c.fetch P1 m1.mv x y))

/-- A predicted sample. -/
def predicted (c : Component) (weights : Option Weights) (L : Lists) (m0 m1 : Motion) (x y : ℕ) :
    Option ℤ :=
  if m0.ref < 0 then
    if m1.ref < 0 then none else fromOne c weights L.list1 m1 x y
  else if m1.ref < 0 then fromOne c weights L.list0 m0 x y
  else fromBoth c weights L m0 m1 x y

/-! ### Pictures -/

/-- The sample at `(x, y)` of a component. -/
def decodeSample (p : CodedPicture) (L : Lists) (c : Component) (x y : ℕ) : Option ℤ := do
  let n := 16 / c.scale
  let mb ← p.mbs[y / n * p.sets.sps.picWidthInMbs + x / n]?
  match mb with
  | .pcm samples => samples[c.first + y % n * n + x % n]?.map fun v => (v : ℤ)
  | mb => do
      let b := 4 / c.scale
      let m0 ← mb.field (x % n / b) (y % n / b)
      let m1 ← mb.field1 (x % n / b) (y % n / b)
      predicted c p.header.weights L m0 m1 x y

def decodePlane (p : CodedPicture) (L : Lists) (c : Component) : Option Plane := do
  let width := p.sets.sps.picWidthInMbs * (16 / c.scale)
  let height := p.sets.sps.picHeightInMbs * (16 / c.scale)
  let samples ← (List.range (width * height)).mapM fun i =>
    decodeSample p L c (i % width) (i / width)
  some ⟨width, height, samples⟩

/-- A picture that is not filtered. -/
def decodePicture (p : CodedPicture) (L : Lists) : Option Picture :=
  if p.header.filterOffsets.isSome then none
  else do
    let luma ← decodePlane p L .luma
    let cb ← decodePlane p L .cb
    let cr ← decodePlane p L .cr
    some ⟨luma, cb, cr⟩

/-- The decoder, and the pictures that it has decoded. -/
structure State where
  dpb : Avc.Dpb
  pictures : List Picture

def State.start : State := ⟨.start, []⟩

/-- The pictures of a reference list. -/
def pictured (pictures : List Picture) (l : List (Option Avc.Ref)) : List (Option Picture) :=
  l.map fun r => r.bind fun r => pictures[r.pic]?

/-- The next picture of a stream. -/
def decodeOne (s : State) (p : CodedPicture) : Option State := do
  let d ← (Avc.step p.sets.sps.params p.header.picture s.dpb).toOption
  let picture ← decodePicture p ⟨pictured s.pictures d.list0, pictured s.pictures d.list1⟩
  some ⟨d.after, s.pictures ++ [picture]⟩

/-- The pictures of a byte stream. -/
def decode (bs : List UInt8) : Option (List Picture) := do
  let us ← (AnnexB.nalUnits bs).mapM readNal
  let ps ← readUnits ⟨none, none⟩ us
  let s ← ps.foldlM decodeOne .start
  some s.pictures

/-- The samples of a picture as bytes, one plane behind the other. -/
def Picture.i420 (P : Picture) : List UInt8 :=
  (P.luma.samples ++ P.cb.samples ++ P.cr.samples).map UInt8.ofInt

/-! ### Decoding -/

theorem mapM_range {α : Type*} {f : ℕ → Option α} {g : ℕ → α} {n : ℕ}
    (h : ∀ i < n, f i = some (g i)) : (List.range n).mapM f = some ((List.range n).map g) := by
  have hall : ∀ l : List ℕ, (∀ i ∈ l, f i = some (g i)) → l.mapM f = some (l.map g) := by
    intro l hl
    induction l with
    | nil => rfl
    | cons i l ih =>
        rw [List.mapM_cons, hl i List.mem_cons_self,
          ih fun j hj => hl j (List.mem_cons_of_mem i hj)]
        rfl
  exact hall _ fun i hi => h i (List.mem_range.mp hi)

/-! ### A run -/

/-- What `pictures` of a stream are, from the lists that the references give. -/
inductive Plays : List Picture → List CodedPicture → List Avc.Decoded → List Picture → Prop
  | nil (before : List Picture) : Plays before [] [] []
  | cons {before pictures : List Picture} {p : CodedPicture} {ps : List CodedPicture}
      {d : Avc.Decoded} {ds : List Avc.Decoded} {picture : Picture} :
      decodePicture p ⟨pictured before d.list0, pictured before d.list1⟩ = some picture →
        Plays (before ++ [picture]) ps ds pictures →
          Plays before (p :: ps) (d :: ds) (picture :: pictures)

theorem decodeOne_eq {P : Avc.Params} {s : State} {p : CodedPicture} {d : Avc.Decoded}
    {picture : Picture} (hP : p.sets.sps.params = P)
    (hstep : Avc.step P p.header.picture s.dpb = .ok d)
    (hpicture : decodePicture p ⟨pictured s.pictures d.list0, pictured s.pictures d.list1⟩ =
      some picture) : decodeOne s p = some ⟨d.after, s.pictures ++ [picture]⟩ := by
  rw [decodeOne, hP, hstep]
  show (decodePicture _ _).bind _ = _
  rw [hpicture]
  rfl

/-- **A run of the references**, with the pictures. -/
theorem Plays.run {P : Avc.Params} {before pictures : List Picture} {ps : List CodedPicture}
    {ds : List Avc.Decoded} (h : Plays before ps ds pictures) (hP : ∀ p ∈ ps, p.sets.sps.params = P)
    {s t : Avc.Dpb} (hrun : Avc.Runs P s (ps.map fun p => p.header.picture) ds t) :
    ps.foldlM decodeOne ⟨s, before⟩ = some ⟨t, before ++ pictures⟩ := by
  induction h generalizing s with
  | nil before =>
      cases hrun
      rw [List.append_nil]
      rfl
  | @cons before pictures p ps d ds picture hpicture _ ih =>
      rw [List.map_cons] at hrun
      cases hrun with
      | cons hstep hrest =>
          have hone : decodeOne ⟨s, before⟩ p = some ⟨d.after, before ++ [picture]⟩ :=
            decodeOne_eq (s := ⟨s, before⟩) (hP p List.mem_cons_self) hstep hpicture
          have hlater := ih (fun q hq => hP q (List.mem_cons_of_mem p hq)) hrest
          rw [List.append_assoc, List.singleton_append] at hlater
          rw [List.foldlM_cons, hone]
          exact hlater

end AvcSamples
