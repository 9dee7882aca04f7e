import BadgeOS.Lib.Memory
import BadgeOS.Lib.Neon
import Mathlib

/-!
# Motion compensation

The sample paths of `coda-cube.c`: a predicted sample by sample, a block from one window, and a
block with NEON, and the weighting of a prediction.  A function has no result when it would read
outside the page, or when a 16-bit lane would not hold a value.  Coordinates are integers, and a
shift to the right is a division.

* `lumaQpel`, `chromaPred`, `wp6` — a sample;
* `mcLumaBlock` — a block in C;
* `mcLuma4Neon`, `mcChroma2Neon`, `wp6Neon` — the same with NEON.
-/

namespace BadgeOS.CodaCube

open Memory Neon

/-- `W` and `H`. -/
structure Size where
  W : ℕ
  H : ℕ
  deriving DecidableEq, Repr

/-- `P[i]`. -/
def sample (P : Ptr) (i : ℤ) : Option ℤ :=
  if i < 0 then none else (P.load i.toNat).map fun b => (b.toNat : ℤ)

def clip1 (v : ℤ) : ℤ := if v < 0 then 0 else if v > 255 then 255 else v

/-- `x`, in a row of `n`. -/
def clampTo (n : ℕ) (x : ℤ) : ℤ := if x < 0 then 0 else if x ≥ n then n - 1 else x

def pyx (S : Size) (P : Ptr) (x y : ℤ) : Option ℤ :=
  sample P (clampTo S.H y * S.W + clampTo S.W x)

/-- `TAP6`. -/
def tap6 (a b c d e f : ℤ) : ℤ := a - 5 * b + 20 * c + 20 * d - 5 * e + f

def avg2 (a b : ℤ) : ℤ := (a + b + 1) / 2

/-- `b1_at`. -/
def b1At (S : Size) (P : Ptr) (x y : ℤ) : Option ℤ := do
  let a ← pyx S P (x - 2) y
  let b ← pyx S P (x - 1) y
  let c ← pyx S P x y
  let d ← pyx S P (x + 1) y
  let e ← pyx S P (x + 2) y
  let f ← pyx S P (x + 3) y
  some (tap6 a b c d e f)

/-- `h1_at`. -/
def h1At (S : Size) (P : Ptr) (x y : ℤ) : Option ℤ := do
  let a ← pyx S P x (y - 2)
  let b ← pyx S P x (y - 1)
  let c ← pyx S P x y
  let d ← pyx S P x (y + 1)
  let e ← pyx S P x (y + 2)
  let f ← pyx S P x (y + 3)
  some (tap6 a b c d e f)

/-- `j1` of `luma_qpel`. -/
def j1At (S : Size) (P : Ptr) (x y : ℤ) : Option ℤ := do
  let a ← b1At S P x (y - 2)
  let b ← b1At S P x (y - 1)
  let c ← b1At S P x y
  let d ← b1At S P x (y + 1)
  let e ← b1At S P x (y + 2)
  let f ← b1At S P x (y + 3)
  some (tap6 a b c d e f)

/-- A 6-tap value of one direction, rounded and clamped. -/
def clip5 (v : ℤ) : ℤ := clip1 ((v + 16) / 2 ^ 5)

/-- A 6-tap value of both directions, rounded and clamped. -/
def clip10 (v : ℤ) : ℤ := clip1 ((v + 512) / 2 ^ 10)

/-- The part of `luma_qpel` behind `fx == 0`, with `b` and `h`. -/
def lumaQpelInner (S : Size) (P : Ptr) (x y fx fy b h : ℤ) : Option ℤ := do
  let s1 ← b1At S P x (y + 1)
  let m1 ← h1At S P (x + 1) y
  let s := clip5 s1
  let m := clip5 m1
  if fx = 2 ∨ fy = 2 then do
    let j1 ← j1At S P x y
    let j := clip10 j1
    some (if fx = 2 then (if fy = 1 then avg2 b j else if fy = 2 then j else avg2 j s)
      else if fx = 1 then avg2 h j else avg2 j m)
  else
    some (if fy = 1 then (if fx = 1 then avg2 b h else avg2 b m)
      else if fx = 1 then avg2 h s else avg2 m s)

/-- `luma_qpel`. -/
def lumaQpel (S : Size) (P : Ptr) (x y fx fy : ℤ) : Option ℤ :=
  if fx = 0 ∧ fy = 0 then pyx S P x y
  else do
    let g0 ← pyx S P x y
    let b1 ← b1At S P x y
    let h1 ← h1At S P x y
    let b := clip5 b1
    let h := clip5 h1
    if fy = 0 then
      if fx = 1 then some (avg2 g0 b) else if fx = 2 then some b
      else (pyx S P (x + 1) y).map fun g1 => avg2 g1 b
    else if fx = 0 then
      if fy = 1 then some (avg2 g0 h) else if fy = 2 then some h
      else (pyx S P x (y + 1)).map fun g1 => avg2 g1 h
    else lumaQpelInner S P x y fx fy b h

def pcyx (S : Size) (P : Ptr) (x y : ℤ) : Option ℤ :=
  sample P (clampTo (S.H / 2) y * (S.W / 2 : ℕ) + clampTo (S.W / 2) x)

/-- The weighted mean of four chroma samples. -/
def chromaMean (fx fy a b c d : ℤ) : ℤ :=
  ((8 - fx) * (8 - fy) * a + fx * (8 - fy) * b + (8 - fx) * fy * c + fx * fy * d + 32) / 2 ^ 6

/-- `chroma_pred`. -/
def chromaPred (S : Size) (P : Ptr) (xc yc mvx mvy : ℤ) : Option ℤ :=
  let xi := xc + mvx / 8
  let yi := yc + mvy / 8
  let CW : ℤ := (S.W / 2 : ℕ)
  if xi ≥ 0 ∧ yi ≥ 0 ∧ xi + 1 < CW ∧ yi + 1 < (S.H / 2 : ℕ) then do
    let a0 ← sample P (yi * CW + xi)
    let a1 ← sample P (yi * CW + xi + 1)
    let c0 ← sample P (yi * CW + xi + CW)
    let c1 ← sample P (yi * CW + xi + CW + 1)
    some (chromaMean (mvx % 8) (mvy % 8) a0 a1 c0 c1)
  else do
    let a0 ← pcyx S P xi yi
    let a1 ← pcyx S P (xi + 1) yi
    let c0 ← pcyx S P xi (yi + 1)
    let c1 ← pcyx S P (xi + 1) (yi + 1)
    some (chromaMean (mvx % 8) (mvy % 8) a0 a1 c0 c1)

def wp6 (v w o : ℤ) : ℤ := clip1 ((v * w + 32) / 2 ^ 6 + o)

/-! ### A block from one window -/

/-- `win` of `mc_luma_block`, of `WW` columns and `HH` rows. -/
def window (S : Size) (P : Ptr) (xi yi : ℤ) (WW HH : ℕ) : Option (List (List ℤ)) :=
  (List.range HH).mapM fun r : ℕ => (List.range WW).mapM fun c : ℕ =>
    if xi - 2 ≥ 0 ∧ yi - 2 ≥ 0 ∧ xi - 2 + WW ≤ S.W ∧ yi - 2 + HH ≤ S.H then
      sample P ((yi - 2 + r) * S.W + xi - 2 + c)
    else pyx S P (xi - 2 + c) (yi - 2 + r)

/-- What `mc_luma_block` computes at row `j` and column `i` from its window. -/
def blockSample (win : ℕ → ℕ → ℤ) (fx fy : ℤ) (j i : ℕ) : ℤ :=
  let tapH r c := tap6 (win r c) (win r (c + 1)) (win r (c + 2)) (win r (c + 3)) (win r (c + 4))
    (win r (c + 5))
  let tapV r c := tap6 (win r c) (win (r + 1) c) (win (r + 2) c) (win (r + 3) c) (win (r + 4) c)
    (win (r + 5) c)
  if fx = 0 ∧ fy = 0 then win (j + 2) (i + 2)
  else if fy = 0 then
    let o := if fx = 1 then 2 else 3
    let b := clip5 (tapH (j + 2) i)
    if fx = 2 then b else avg2 (win (j + 2) (i + o)) b
  else if fx = 0 then
    let o := if fy = 1 then 2 else 3
    let hh := clip5 (tapV j (i + 2))
    if fy = 2 then hh else avg2 (win (j + o) (i + 2)) hh
  else if fx = 2 ∨ fy = 2 then
    let jj := clip10 (tap6 (tapH j i) (tapH (j + 1) i) (tapH (j + 2) i) (tapH (j + 3) i)
      (tapH (j + 4) i) (tapH (j + 5) i))
    if fx = 2 then
      if fy = 2 then jj else avg2 jj (clip5 (tapH (j + if fy = 1 then 2 else 3) i))
    else avg2 jj (clip5 (tapV j (i + if fx = 1 then 2 else 3)))
  else
    let ry := if fy = 1 then 2 else 3
    let cx := if fx = 1 then 2 else 3
    avg2 (clip5 (tapH (j + ry) i)) (clip5 (tapV j (i + cx)))

/-- `mc_luma_block`: `out`, row by row. -/
def mcLumaBlock (S : Size) (P : Ptr) (x y : ℤ) (w h : ℕ) (mvx mvy : ℤ) : Option (List ℤ) := do
  let win ← window S P (x + mvx / 4) (y + mvy / 4) (w + 5) (h + 5)
  let at' r c := (win.getD r []).getD c 0
  some ((List.range h).flatMap fun j =>
    (List.range w).map fun i => blockSample at' (mvx % 4) (mvy % 4) j i)

/-! ### NEON -/

/-- `tap6h`. -/
def tap6h (row : Lanes 16) : Option (Lanes 8) := do
  let lo := (Lanes.vgetLow 8 row).vmovl
  let hi := (Lanes.vgetHigh 8 row).vmovl
  let s ← (lo.vadd 16 (lo.vext hi 5)).exact
  let t ← ((lo.vext hi 2).vadd 16 (lo.vext hi 3)).exact
  let s ← (s.vmlaN 16 t 20).exact
  let t ← ((lo.vext hi 1).vadd 16 (lo.vext hi 4)).exact
  (s.vmlsN 16 t 5).exact

/-- `tap6v`. -/
def tap6v (r0 r1 r2 r3 r4 r5 : Lanes 8) : Option (Lanes 8) := do
  let s ← (r0.vadd 16 r5).exact
  let t ← (r2.vadd 16 r3).exact
  let s ← (s.vmlaN 16 t 20).exact
  let t ← (r1.vadd 16 r4).exact
  (s.vmlsN 16 t 5).exact

/-- `vext_u8(vget_low_u8(row), vget_high_u8(row), k)`. -/
def columns (row : Lanes 16) (k : Fin 9) : Lanes 8 :=
  (Lanes.vgetLow 8 row).vext (Lanes.vgetHigh 8 row) k

/-- `tap6v` of six rows from `j` on, narrowed. -/
def tapRows (R : ℕ → Lanes 16) (j : ℕ) : Option (Lanes 8) := do
  let Rw r := (Lanes.vgetLow 8 (R r)).vmovl
  let t ← tap6v (Rw j) (Rw (j + 1)) (Rw (j + 2)) (Rw (j + 3)) (Rw (j + 4)) (Rw (j + 5))
  some (t.vqrshrun 8 5)

/-- `jj` of `mc_luma4_neon`, from the rows `B1` of `tap6h`. -/
def jRow (B1 : ℕ → Lanes 8) (j : ℕ) : Option (Lanes 8) := do
  let b r := Lanes.vgetLow 4 (B1 r)
  let acc := (b j).vadd 32 (b (j + 5))
  let t ← ((b (j + 2)).vadd 16 (b (j + 3))).exact
  let acc := acc.vmlalN t 20
  let t ← ((b (j + 1)).vadd 16 (b (j + 4))).exact
  let acc := acc.vmlslN t 5
  let j16 := acc.vqrshrun 16 10
  some ((j16.vcombine j16 : Lanes 8).vqmovn 8)

/-- Row `j` of the prediction of `mc_luma4_neon`, from the rows that it loaded. -/
def luma4Row (R : ℕ → Lanes 16) (fx fy : ℤ) (j : ℕ) : Option (Lanes 8) :=
  if fx = 0 ∧ fy = 0 then some (columns (R (j + 2)) 2)
  else if fy = 0 then do
    let t ← tap6h (R (j + 2))
    let b := t.vqrshrun 8 5
    some (if fx = 2 then b else b.vrhadd (columns (R (j + 2)) (if fx = 1 then 2 else 3)))
  else if fx = 0 then do
    let h ← tapRows R j
    let h := h.vext h 2
    some (if fy = 2 then h else h.vrhadd (columns (R (j + if fy = 1 then 2 else 3)) 2))
  else if fx = 2 ∨ fy = 2 then do
    let B1 ← (List.range 9).mapM fun r => tap6h (R r)
    let at' r := B1.getD r (Lanes.vdup 8 0)
    let jj ← jRow at' j
    if fx = 2 then
      some (if fy = 2 then jj else jj.vrhadd ((at' (j + if fy = 1 then 2 else 3)).vqrshrun 8 5))
    else do
      let h ← tapRows R j
      some (jj.vrhadd (if fx = 1 then h.vext h 2 else h.vext h 3))
  else do
    let t ← tap6h (R (j + if fy = 1 then 2 else 3))
    let b := t.vqrshrun 8 5
    let h ← tapRows R j
    some (b.vrhadd (if fx = 1 then h.vext h 2 else h.vext h 3))

/-- `mc_luma4_neon`: `out`. -/
def mcLuma4Neon (S : Size) (P : Ptr) (x y mvx mvy : ℤ) : Option (List (Lanes 8)) :=
  let xi := x + mvx / 4
  let yi := y + mvy / 4
  if xi - 2 < 0 ∨ yi - 2 < 0 ∨ xi + 6 > S.W - 1 ∨ yi + 6 > S.H - 1 then do
    let t ← mcLumaBlock S P x y 4 4 mvx mvy
    let b := (List.range 32).map fun k =>
      if k % 8 < 4 then UInt8.ofNat (t.getD (k / 8 * 4 + k % 8) 0).toNat else 0
    some ((List.range 4).map fun j => Lanes.vld1 8 (b.drop (8 * j)))
  else do
    let rows ← (List.range 9).mapM fun r => P.loads (((yi - 2) * S.W + (xi - 2)).toNat + r * S.W) 16
    let R r := Lanes.vld1 16 (rows.getD r [])
    (List.range 4).mapM fun j => luma4Row R (mvx % 4) (mvy % 4) j

/-- `ZIP16`. -/
def zip16 (a b : Lanes 8) : Lanes 8 := a.vzip1 2 b

/-- `PACK`. -/
def pack (a b : Lanes 8) : Lanes 8 := a.vzip1 4 b

/-- The accumulation of `mc_chroma2_neon`. -/
def chromaAcc (A B C D : Lanes 8) (fx fy : ℤ) : Option (Lanes 8) := do
  let acc ← (A.vmull (Lanes.vdup 8 ((8 - fx) * (8 - fy) % 2 ^ 8))).exact
  let acc ← (acc.vmlal B (Lanes.vdup 8 (fx * (8 - fy) % 2 ^ 8))).exact
  let acc ← (acc.vmlal C (Lanes.vdup 8 ((8 - fx) * fy % 2 ^ 8))).exact
  let acc ← (acc.vmlal D (Lanes.vdup 8 (fx * fy % 2 ^ 8))).exact
  some (acc.vrshrn 6)

/-- `mc_chroma2_neon`. -/
def mcChroma2Neon (S : Size) (PU PV : Ptr) (xc yc mvx mvy : ℤ) : Option (Lanes 8) :=
  let xi := xc + mvx / 8
  let yi := yc + mvy / 8
  let CW := S.W / 2
  if xi < 0 ∨ yi < 0 ∨ xi + 8 > CW ∨ yi + 2 > (S.H / 2 : ℕ) - 1 then do
    let b ← (List.range 8).mapM fun k =>
      chromaPred S (if k < 4 then PU else PV) (xc + (k % 2 : ℕ)) (yc + (k % 4 / 2 : ℕ)) mvx mvy
    some (Lanes.vld1 8 (b.map fun v => UInt8.ofNat v.toNat))
  else do
    let at' := (yi * CW + xi).toNat
    let u ← (List.range 3).mapM fun r => PU.loads (at' + r * CW) 8
    let v ← (List.range 3).mapM fun r => PV.loads (at' + r * CW) 8
    let u' r := Lanes.vld1 8 (u.getD r [])
    let v' r := Lanes.vld1 8 (v.getD r [])
    let next (a : Lanes 8) := a.vext a 1
    let A := pack (zip16 (u' 0) (u' 1)) (zip16 (v' 0) (v' 1))
    let B := pack (zip16 (next (u' 0)) (next (u' 1))) (zip16 (next (v' 0)) (next (v' 1)))
    let C := pack (zip16 (u' 1) (u' 2)) (zip16 (v' 1) (v' 2))
    let D := pack (zip16 (next (u' 1)) (next (u' 2))) (zip16 (next (v' 1)) (next (v' 2)))
    chromaAcc A B C D (mvx % 8) (mvy % 8)

/-- `wp6_neon`. -/
def wp6Neon (v : Lanes 8) (w o : ℤ) : Option (Lanes 8) := do
  let t ← (v.vmull (Lanes.vdup 8 (w % 2 ^ 8))).exact
  let t ← t.asSigned16.exact
  let t ← (t.vrshr 6).exact
  let t ← (t.vadd 16 (Lanes.vdup 8 (o.bmod (2 ^ 16)))).exact
  some (t.vqmovn 8)

end BadgeOS.CodaCube
