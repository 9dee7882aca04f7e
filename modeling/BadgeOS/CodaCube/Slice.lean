import BadgeOS.CodaCube.BitWriter
import BadgeOS.CodaCube.MotionGrid
import BadgeOS.CodaCube.References
import Mathlib

/-!
# The slice of a render

What `encode_frame` writes once the references are selected: the slice header, and macroblock by
macroblock the skip runs, the samples of the hook, and the references and the motion vectors of the
blocks, with the motion around them as it goes on.

* `Drawing` — what the selection, the hook and the drawing have found;
* `sliceHeader`, `macroblock`, `encodeFrame` — what is written.
-/

namespace BadgeOS.CodaCube.Slice

open BW
open References (Refs)

/-- A partition that is coded, with its place in the macroblock and its width in blocks of 4x4
samples. -/
structure Block where
  x : ℕ
  y : ℕ
  w : ℕ
  ref : ℕ
  mv : ℤ × ℤ
  deriving DecidableEq, Repr

/-- The options, the selection, and what was drawn. -/
structure Setting extends MbSize where
  part : References.Part
  refs : Refs
  /-- `F->nlist[m]` is not 0. -/
  binned : ℕ → Bool
  /-- `ent[bface[i]][bk[i]]`; `none` without a face. -/
  entry : ℕ → ℕ → Option ℕ
  /-- `mv_for` of a block. -/
  mvFor : ℕ → ℕ → ℤ × ℤ
  /-- `edge_mb_pcm` -/
  edgeMbPcm : ℕ → Option (List UInt8)
  /-- `lrintf(F->light[REFFACE[i]] * 64)` -/
  light : ℕ → ℤ
  BLACKX : ℤ
  BLACKY : ℤ
  aa : Bool
  qp : ℤ
  dbk : Bool
  abo : ℤ

namespace Setting

variable (S : Setting)

/-- The weights and the offsets of an entry behind the black page. -/
def WY (i : ℕ) : ℤ := S.light i
def OY (_ : Setting) (_ : ℕ) : ℤ := 0
def WC (i : ℕ) : ℤ := S.light i
def OC (i : ℕ) : ℤ := 128 - 2 * S.light i

/-- `fa[q]` with its entry. -/
def face (m q : ℕ) : Option ℕ := if S.binned m then S.entry m q else none

/-- `any` -/
def any (m : ℕ) : Bool := (List.range S.part.blocks).any fun q => (S.face m q).isSome

/-- The samples that the hook sends, where it is asked. -/
def pcm (m : ℕ) : Option (List UInt8) := if S.aa || S.any m then S.edgeMbPcm m else none

/-- `sub[p]`, `ref[p]` and the vectors of an 8x8 block. -/
def block8 (m p : ℕ) : ℕ × ℕ × List (ℤ × ℤ) :=
  if S.part = .p8 then
    match S.face m p with
    | none => (0, 0, [(0, 0)])
    | some r => (0, r, [S.mvFor m p])
  else
    let entries := (List.range 4).filterMap fun s2 => S.face m (p * 4 + s2)
    if entries = [] then (0, 0, [(0, 0)])
    else
      let br := References.Frame.mostCommon S.refs (entries.map fun (e : ℕ) => (e : ℤ))
      (3, br.toNat, (List.range 4).map fun s2 =>
        let bx := m % S.WMB * 16 + p % 2 * 8 + s2 % 2 * 4
        let by' := m / S.WMB * 16 + p / 2 * 8 + s2 / 2 * 4
        if (S.face m (p * 4 + s2)).isSome then S.mvFor m (p * 4 + s2)
        else (4 * (S.BLACKX - bx), 4 * (S.BLACKY - by')))

/-- The partitions of an 8x8 block. -/
def blocks8 (m p : ℕ) : List Block :=
  let (sub, ref, mvs) := S.block8 m p
  let x := p % 2 * 2
  let y := p / 2 * 2
  if sub = 0 then [⟨x, y, 2, ref, mvs.getD 0 (0, 0)⟩]
  else (List.range 4).map fun s2 => ⟨x + s2 % 2, y + s2 / 2, 1, ref, mvs.getD s2 (0, 0)⟩

/-- The partitions of a macroblock with a face, in the order they are coded. -/
def blocks (m : ℕ) : List Block :=
  if S.part = .p16 then [⟨0, 0, 4, (S.face m 0).getD 0, S.mvFor m 0⟩]
  else (List.range 4).flatMap fun p => S.blocks8 m p

end Setting

/-- A drawing with every used reference in the list, the samples of a macroblock, and vectors of 16
bits. -/
structure Drawing extends Setting where
  NREF_pos : 0 < refs.NREF
  NREF_le : refs.NREF ≤ References.MAXREF
  page_nonneg : ∀ i < refs.NREF, 0 ≤ refs.REFPAGE i
  entry_lt : ∀ {m q r}, entry m q = some r → 1 ≤ r ∧ r < refs.NREF
  samples : ∀ {m pcm}, edgeMbPcm m = some pcm → pcm.length = 384
  vectors : ∀ m < toMbSize.mbs, ∀ b ∈ toSetting.blocks m, Is16 b.mv.1 ∧ Is16 b.mv.2

/-! ### What is written -/

/-- `Part` -/
structure Part where
  x : ℤ
  y : ℤ
  w : ℤ
  h : ℤ
  ref : ℤ
  mvx : ℤ
  mvy : ℤ
  deriving DecidableEq, Repr

structure Enc where
  bw : BW
  skip : ℕ
  grid : Grid
  parts : List Part
  npcm : ℕ
  /-- `g_pcmstore`, 384 bytes a macroblock. -/
  store : ℕ → UInt8

section Writing

variable (S : Setting)

/-- `bw_te` -/
def bwTe (r : ℕ) (b : BW) : BW :=
  if S.refs.NREF = 2 then bwU 1 (if r = 0 then 1 else 0) b
  else if S.refs.NREF > 2 then bwUe r b
  else b

/-- The weights and the offsets of entry `i`, and the flag for each. -/
def bwWeight (i : ℕ) (b : BW) : BW :=
  let b := bwSe (S.OY i) (bwSe (S.WY i) (bwU 1 1 b))
  let b := bwSe (S.OC i) (bwSe (S.WC i) (bwU 1 1 b))
  bwSe (S.OC i) (bwSe (S.WC i) b)

def sliceHeader (frameNum poc : ℕ) (isRef : Bool) (b : BW) : BW :=
  let b := bwUe 0 (bwUe 5 (bwUe 0 b))
  let b := bwU 16 (poc % 2 ^ 16) (bwU 16 (frameNum % 2 ^ 16) b)
  let b := bwU 1 1 (bwUe (S.refs.NREF - 1) (bwU 1 1 b))
  let b := (List.range S.refs.NREF).foldl
    (fun b i => bwUe (S.refs.REFPAGE i).toNat (bwUe 2 b)) b
  let b := bwUe 6 (bwUe 6 (bwUe 3 b))
  let b := bwU 1 0 (bwU 1 0 b)
  let b := (List.range' 1 (S.refs.NREF - 1)).foldl (fun b i => bwWeight S i b) b
  let b := if isRef then bwU 1 0 b else b
  let b := bwSe (S.qp - 26) b
  if S.dbk then bwSe S.abo (bwSe S.abo (bwUe 0 b)) else bwUe 1 b

/-- The vector of a partition. -/
def block (m : ℕ) (e : Enc) (k : Block) : Enc :=
  let bx := S.x4 m + k.x
  let by' := S.y4 m + k.y
  let p := mvp S.toMbSize e.grid bx by' k.w k.ref
  { e with
    bw := bwSe (k.mv.2 - p.2) (bwSe (k.mv.1 - p.1) e.bw)
    grid := setblk e.grid bx by' k.w k.ref k.mv
    parts := e.parts ++ [⟨int16 (bx * 4), int16 (by' * 4), k.w * 4, k.w * 4, int16 k.ref,
      int16 k.mv.1, int16 k.mv.2⟩] }

/-- One macroblock. -/
def macroblock (e : Enc) (m : ℕ) : Enc :=
  let x4 := S.x4 m
  let y4 := S.y4 m
  let whole (r : ℤ) : Part := ⟨int16 (x4 * 4), int16 (y4 * 4), 16, 16, r, 0, 0⟩
  match S.pcm m with
  | some pcm =>
      { bw := copy pcm (align (bwUe 30 (bwUe e.skip e.bw)))
        skip := 0
        grid := setblk e.grid x4 y4 4 (-1) (0, 0)
        parts := e.parts ++ [whole (-1)]
        npcm := e.npcm + 1
        store := fun a =>
          if m * 384 ≤ a ∧ a < m * 384 + 384 then pcm.getD (a - m * 384) 0 else e.store a }
  | none =>
      if S.any m = false then
        let e' := { e with grid := setblk e.grid x4 y4 4 0 (0, 0), parts := e.parts ++ [whole 0] }
        if pskipMv S.toMbSize e.grid x4 y4 = (0, 0) then { e' with skip := e.skip + 1 }
        else
          let p := mvp S.toMbSize e.grid x4 y4 4 0
          let bw := bwTe S 0 (bwUe 0 (bwUe e.skip e.bw))
          { e' with skip := 0, bw := bwUe 0 (bwSe (-p.2) (bwSe (-p.1) bw)) }
      else
        let e := { e with bw := bwUe e.skip e.bw, skip := 0 }
        if S.part = .p16 then
          let e := { e with bw := bwTe S ((S.face m 0).getD 0) (bwUe 0 e.bw) }
          let e := (S.blocks m).foldl (block S m) e
          { e with bw := bwUe 0 e.bw }
        else
          let bw := bwUe 3 e.bw
          let bw := (List.range 4).foldl (fun b p => bwUe (S.block8 m p).1 b) bw
          let bw := (List.range 4).foldl (fun b p => bwTe S (S.block8 m p).2.1 b) bw
          let e := (S.blocks m).foldl (block S m) { e with bw := bw }
          { e with bw := bwUe 0 e.bw }

/-- What lasts from one picture to the next: `sref`, `smv` and `sdone`, and `g_pcmstore`. -/
structure Kept where
  grid : Grid
  store : ℕ → UInt8

/-- Before the first macroblock. -/
def begin (old : Kept) (frameNum poc : ℕ) (isRef : Bool) : Enc :=
  ⟨sliceHeader S frameNum poc isRef .empty, 0, fun i j => { old.grid i j with done := false }, [],
    0, old.store⟩

/-- `encode_frame`, behind the selection: the RBSP, the parts, and what lasts. -/
def encodeFrame (old : Kept) (frameNum poc : ℕ) (isRef : Bool) :
    List UInt8 × List Part × Kept :=
  let e := (List.range S.mbs).foldl (macroblock S) (begin S old frameNum poc isRef)
  let bw := if e.skip ≠ 0 then bwUe e.skip e.bw else e.bw
  ((bwTrailing bw).buf, e.parts, ⟨e.grid, e.store⟩)

end Writing

end BadgeOS.CodaCube.Slice
