import BadgeOS.CodaCube.CpuModel
import BadgeOS.CodaCube.NalWrap
import BadgeOS.CodaCube.Pictures
import BadgeOS.CodaCube.SliceHeader
import Mathlib

/-!
# The two files

`--stream-out` writes the parameter sets, the pages, and frame after frame the access units of
`gen_frame`; with `--cpu-model` every picture goes to a second file as the CPU decodes it.  What the
floating point finds of a frame is a parameter, and so are the pages.

* `Shot`, `Film` — what a frame is, and what `main` runs on;
* `genFrame` — the access units of a frame;
* `streamOut` — the two files.
-/

namespace BadgeOS.CodaCube

open References (Frame Blocks Refs)
open Pictures (Options Scene)
open Pages (Planes)
open Slice (Setting Kept)

/-! ### What is given -/

/-- What `scene`, `find_edges`, `mv_for` and the hook find of a frame. -/
structure Shot (o : Options) (size : MbSize) where
  scene : Scene o
  mbs_eq : scene.1.mbs = size.mbs
  /-- `lrintf(F->light[f] * 64)` -/
  light : ℕ → ℤ
  /-- The vector of a block, with its page and the list. -/
  mvFor : Blocks → Refs → ℕ → ℕ → ℤ × ℤ
  edgeMbPcm : Blocks → Refs → ℕ → Option (List UInt8)
  /-- `g_edge[m]` -/
  edge : ℕ → Bool
  /-- A face that shows has a page on the list; else the selection reads beside its arrays. -/
  listed : ∀ {m q f k}, scene.1.Shows m q f k → ∃ k' < scene.1.K, scene.1.Listed (f, k')
  mvFor_is16 : ∀ s r m q, Is16 (mvFor s r m q).1 ∧ Is16 (mvFor s r m q).2
  length_pcm : ∀ {s r m pcm}, edgeMbPcm s r m = some pcm → pcm.length = 384

/-- The options without `--deblock`, the size, the pages and the frames.  A vector from one end of
the picture to the other keeps in 16 bits. -/
structure Film extends MbSize where
  o : Options
  aa : Bool
  qp : ℤ
  abo : ℤ
  BLACKX : ℕ
  BLACKY : ℕ
  /-- `get_page` -/
  getPage : ℕ → Planes
  shot : ℕ → Shot o toMbSize
  W_le : toMbSize.W ≤ 2 ^ 13
  H_le : toMbSize.H ≤ 2 ^ 13
  BLACKX_lt : BLACKX < toMbSize.W
  BLACKY_lt : BLACKY < toMbSize.H

/-- One page, and one macroblock that shows it. -/
def Frame.single : Frame where
  part := .p16
  K := 1
  mbs := 1
  nlist _ := 1
  blockHit _ _ := some (0, 0)
  K_pos := Nat.one_pos
  K_le := by decide
  mbs_le := by decide
  hit_lt h := by
    obtain ⟨rfl, rfl⟩ := Prod.mk.inj (Option.some.inj h)
    decide

instance : Inhabited Film where
  default :=
    { WMB := 1, HMB := 1, WMB_pos := Nat.one_pos, HMB_pos := Nat.one_pos,
      o := ⟨1, .hv, 0, by decide, by decide, by decide⟩
      aa := true, qp := 30, abo := 0, BLACKX := 0, BLACKY := 0
      getPage := fun _ => ⟨fun i => UInt8.ofNat i, fun _ => 90, fun _ => 240⟩
      shot := fun n =>
        { scene := ⟨Frame.single, rfl⟩
          mbs_eq := rfl
          light := fun _ => 64
          mvFor := fun _ _ _ _ => (n % 7, -3)
          edgeMbPcm := fun _ _ _ => none
          edge := fun _ => true
          listed := fun h => by
            obtain ⟨rfl, rfl⟩ := Prod.mk.inj (Option.some.inj h.2.2.2)
            exact ⟨0, by decide, by decide⟩
          mvFor_is16 := fun _ _ _ _ => by
            have hmod := Nat.mod_lt n (by decide : 0 < 7)
            unfold Is16
            dsimp only
            omega
          length_pcm := fun h => by cases h }
      W_le := by decide, H_le := by decide, BLACKX_lt := by decide, BLACKY_lt := by decide }

/-- What lasts from one frame to the next: the arrays of the selection, `sref`, `smv` and `sdone`
with `g_pcmstore`, `bref1` and `bmv1`, and the pictures of the CPU model. -/
structure Left where
  blocks : Blocks
  kept : Kept
  grid1 : Grid
  m0 : Planes
  m1 : Planes
  m2 : Planes

/-- `Gen`, with the settings of the frame and what it leaves. -/
structure Gen where
  au : List (List UInt8)
  setting : Setting
  parts : List Slice.Part
  blocks : Blocks
  kept : Kept
  grid1 : Grid

namespace Film

variable (film : Film)

/-- `black` -/
def black : Planes := ⟨fun _ => 0, fun _ => 128, fun _ => 128⟩

/-- `PGY`, `PGU` and `PGV` -/
def planes : ℕ → Planes
  | 0 => black
  | k + 1 => film.getPage k

/-- `ent[fa[q]][bk[i]]` of a block with a face. -/
def entry (n : ℕ) (s : Blocks) (r : Refs) (m q : ℕ) : Option ℕ :=
  let F := (film.shot n).scene.1
  if m < F.mbs ∧ q < F.part.blocks ∧ Frame.hasFace s m q = some true then
    (Frame.entry s r m q).map Int.toNat
  else none

/-- What `encode_frame` draws with, once the references of frame `n` are selected. -/
def setting (n : ℕ) (s : Blocks) (r : Refs) : Setting where
  toMbSize := film.toMbSize
  part := (film.shot n).scene.1.part
  refs := r
  binned m := decide ((film.shot n).scene.1.nlist m ≠ 0)
  entry := film.entry n s r
  mvFor := (film.shot n).mvFor s r
  edgeMbPcm := (film.shot n).edgeMbPcm s r
  light i := (film.shot n).light (r.REFFACE i).toNat
  BLACKX := film.BLACKX
  BLACKY := film.BLACKY
  aa := film.aa
  qp := film.qp
  dbk := false
  abo := film.abo

/-! ### The access units -/

/-- The pass of `--smooth diag`, and the two of `--smooth hv`. -/
def diag (n : ℕ) : Bpic.Pass where
  toMbSize := film.toMbSize
  edge := (film.shot n).edge
  m0 := (2, 2)
  m1 := (-2, -2)
  m0_is16 := by decide
  m1_is16 := by decide

def hPass (n : ℕ) : Bpic.Pass :=
  { film.diag n with m0 := (2, 0), m1 := (-2, 0), m0_is16 := by decide, m1_is16 := by decide }

def vPass (n : ℕ) : Bpic.Pass :=
  { film.diag n with m0 := (0, 2), m1 := (0, -2), m0_is16 := by decide, m1_is16 := by decide }

/-- `ref` -/
def isRef (o : Options) : Bool := o.smooth ≠ .off

/-- `fn` -/
def frameNum (o : Options) (n : ℕ) : ℕ :=
  if isRef o then (o.K + 1 + o.smooth.value * n) % 2 ^ 16 else 1 + o.K

/-- `poc` -/
def poc (o : Options) (n : ℕ) : ℕ :=
  if isRef o then (2 * (o.K + 1) + 6 * n) % 2 ^ 16
  else 2 * (n % 16000 + 1 + o.K) % 2 ^ 16

/-- The slice of the render. -/
def render (n : ℕ) (old : Left) (s : Blocks) (r : Refs) : List UInt8 × List Slice.Part × Kept :=
  Slice.encodeFrame (film.setting n s r) old.kept (frameNum film.o n) (poc film.o n)
    (isRef film.o)

/-- `gen_frame`, once the references are selected. -/
def gen (n : ℕ) (old : Left) (s : Blocks) (r : Refs) : Gen :=
  let S := film.setting n s r
  let fn := frameNum film.o n
  let poc := poc film.o n
  let out := film.render n old s r
  let kept := out.2.2
  let au := nalWrap (if isRef film.o then 2 else 0) 1 out.1
  match film.o.smooth with
  | .off => ⟨[au], S, out.2.1, s, kept, old.grid1⟩
  | .diag =>
      let b := Bpic.encodeBpic (film.diag n) kept.grid old.grid1 (fn + 1) (poc + 2) false
      ⟨[au, nalWrap 0 1 b.1], S, out.2.1, s, ⟨b.2.1, kept.store⟩, b.2.2⟩
  | .hv =>
      let b := Bpic.encodeBpic (film.hPass n) kept.grid old.grid1 (fn + 1) (poc + 2) true
      let c := Bpic.encodeBpic (film.vPass n) b.2.1 b.2.2 (fn + 2) (poc + 4) false
      ⟨[au, nalWrap 2 1 b.1, nalWrap 0 1 c.1], S, out.2.1, s, ⟨c.2.1, kept.store⟩, c.2.2⟩

/-- `gen_frame` -/
def genFrame (n : ℕ) (old : Left) : Option Gen :=
  ((film.shot n).scene.1.selectReferences old.blocks).map fun r => film.gen n old r.1 r.2

/-! ### The files -/

/-- `fwrite` of a picture. -/
def i420 (S : MbSize) (P : Planes) : List UInt8 :=
  Pages.row P.Y 0 (S.W * S.H) ++ Pages.row P.U 0 (S.W / 2 * (S.H / 2)) ++
    Pages.row P.V 0 (S.W / 2 * (S.H / 2))

/-- The pictures of a frame for `--cpu-model`, and its buffers behind it. -/
def cpuModel (n : ℕ) (g : Gen) (old : Left) : Option (List Planes × Planes × Planes × Planes) := do
  let page := Buffers.page film.toMbSize
  let m0 ← CpuModel.modelP g.setting film.planes g.kept.store g.parts old.m0
  match film.o.smooth with
  | .off => some ([m0], m0, old.m1, old.m2)
  | .diag => do
      let m1 ← CpuModel.modelB (film.diag n) (page m0) old.m1
      some ([m0, m1], m0, m1, old.m2)
  | .hv => do
      let m1 ← CpuModel.modelB (film.hPass n) (page m0) old.m1
      let m2 ← CpuModel.modelB (film.vPass n) (page m1) old.m2
      some ([m0, m1, m2], m0, m1, m2)

structure Files where
  stream : List UInt8
  model : List UInt8

/-- One frame. -/
def frame (n : ℕ) (files : Files) (old : Left) : Option (Files × Left) := do
  let g ← film.genFrame n old
  let (pictures, m0, m1, m2) ← film.cpuModel n g old
  some (⟨files.stream ++ g.au.flatten, files.model ++ pictures.flatMap (i420 film.toMbSize)⟩,
    ⟨g.blocks, g.kept, g.grid1, m0, m1, m2⟩)

/-- `sps_pps` -/
def spsPps : List UInt8 :=
  nalWrap 3 7 (Bitstream.spsRbsp film.toMbSize film.o) ++ nalWrap 3 8 Bitstream.ppsRbsp

/-- `pcm_page` -/
def pcmPage (k : ℕ) : List UInt8 :=
  nalWrap 3 (if k = 0 then 5 else 1) (Pages.pcmPage film.toMbSize (film.planes k) film.o k)

/-- In front of the frames. -/
def setup : List UInt8 := film.spsPps ++ (List.range (film.o.K + 1)).flatMap film.pcmPage

/-- The two files after `frames` frames, and what the last one leaves. -/
def streamOut (old : Left) : ℕ → Option (Files × Left)
  | 0 => some (⟨film.setup, []⟩, old)
  | frames + 1 => do
      let (files, old) ← streamOut old frames
      film.frame frames files old

end Film

end BadgeOS.CodaCube
