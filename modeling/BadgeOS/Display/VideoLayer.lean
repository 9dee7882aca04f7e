import BadgeOS.Lib.Transition
import Mathlib

/-!
# The video layer

The three callbacks of `sophdrm.c` that program the display's pixel paths, and the registers that
they program.  What was last written whole is kept in four fields of the driver, so that a flip
that changes none of them writes addresses only.

* `Registers`, `sclrDispSetLayer`, `sclrDispSetMem`, `sclrDispSetCfg` — the registers, and the
  writes of the vendor's driver;
* `sophVideoLayer`, `sophVideoLoad`, `sophVideoStage`, `sophVideoPark` — the video layer;
* `sophPipeEnable`, `sophPipeDisable`, `sophPipeUpdate` — the callbacks;
* `step`, `commit` — a callback, and a commit, which runs them in the order of DRM's helpers.
-/

namespace BadgeOS.Display.Video

inductive DrmFormat
  | xrgb8888
  | argb8888
  | rgb888
  | nv12
  deriving DecidableEq, Repr

/-- `enum sclr_format`; `max` says that nothing is known. -/
inductive SclFormat
  | bgrPacked
  | nv12
  | other (n : ℕ)
  | max
  deriving DecidableEq, Repr

/-- `enum sclr_csc`. -/
inductive SclCsc
  | none
  | limit601Yuv2Rgb
  | full601Yuv2Rgb
  | limit709Yuv2Rgb
  | full709Yuv2Rgb
  | other (n : ℕ)
  deriving DecidableEq, Repr

/-- What the output CSC holds. -/
inductive OutCsc
  | identity
  | rgbLimited
  | other
  deriving DecidableEq, Repr

inductive DropMode
  | dither
  | other
  deriving DecidableEq, Repr

structure Mode where
  hdisplay : ℕ
  vdisplay : ℕ
  deriving DecidableEq, Repr

/-- `struct drm_framebuffer`, with the addresses of its planes. -/
structure Framebuffer where
  format : DrmFormat
  width : ℕ
  height : ℕ
  pitch0 : ℕ
  pitch1 : ℕ
  addr0 : ℕ
  addr1 : ℕ
  deriving DecidableEq, Repr

inductive ColorEncoding
  | bt601
  | bt709
  deriving DecidableEq, Repr

inductive ColorRange
  | limited
  | full
  deriving DecidableEq, Repr

/-- `struct drm_plane_state`. -/
structure PlaneState where
  fb : Option Framebuffer
  colorEncoding : ColorEncoding
  colorRange : ColorRange
  deriving DecidableEq, Repr

/-- The module parameters that can be written while the driver runs; `none` is "auto". -/
structure Choices where
  yuvEncoding : Option ColorEncoding
  yuvRange : Option ColorRange
  rgbLimited : Bool
  deriving DecidableEq, Repr

/-- `struct sclr_mem`. -/
structure Mem where
  addr0 : ℕ
  addr1 : ℕ
  addr2 : ℕ
  pitchY : ℕ
  pitchC : ℕ
  width : ℕ
  height : ℕ
  deriving DecidableEq, Repr

/-- `struct soph_layer`. -/
structure Layer where
  fmt : SclFormat
  csc : SclCsc
  mem : Mem
  deriving DecidableEq, Repr

/-- The fields of `struct sclr_disp_cfg` beside the input layer. -/
structure DispCfg where
  dispFromSc : Bool
  syncExt : Bool
  tgenEn : Bool
  outCsc : OutCsc
  burst : ℕ
  outBit : ℕ
  dropMode : DropMode
  deriving DecidableEq, Repr

/-- `struct sclr_gop_ow_cfg`. -/
structure GopWindow where
  imgW : ℕ
  imgH : ℕ
  memW : ℕ
  memH : ℕ
  pitch : ℕ
  endX : ℕ
  endY : ℕ
  addr : ℕ
  deriving DecidableEq, Repr

/-- The registers of the display. -/
structure Registers where
  layer : Layer
  cfg : DispCfg
  windowBgcolor : Bool
  gopScale : ℕ
  gopEnabled : Bool
  gop : GopWindow
  deriving DecidableEq, Repr

namespace Registers

/-- `sclr_disp_set_layer`. -/
def sclrDispSetLayer (l : Layer) (r : Registers) : Registers := { r with layer := l }

/-- `sclr_disp_set_mem`. -/
def sclrDispSetMem (mem : Mem) (r : Registers) : Registers :=
  { r with layer := { r.layer with mem := mem } }

/-- `sclr_disp_set_cfg`. -/
def sclrDispSetCfg (cfg : DispCfg) (l : Layer) (r : Registers) : Registers :=
  { r with cfg := cfg, layer := l }

/-- `sclr_disp_enable_window_bgcolor`. -/
def sclrDispEnableWindowBgcolor (on : Bool) (r : Registers) : Registers :=
  { r with windowBgcolor := on }

/-- `soph_gop_enable`. -/
def sophGopEnable (scale : ℕ) (on : Bool) (r : Registers) : Registers :=
  { r with gopScale := scale, gopEnabled := on }

/-- `soph_gop_set`. -/
def sophGopSet (scale : ℕ) (fb : Framebuffer) (r : Registers) : Registers :=
  { r with
    gop :=
      { imgW := fb.width, imgH := fb.height, memW := fb.pitch0, memH := fb.height
        pitch := fb.pitch0, endX := fb.width * 2 ^ scale - scale
        endY := fb.height * 2 ^ scale - scale, addr := fb.addr0 } }

/-- `sclr_disp_set_out_csc_matrix` with `soph_rgb_limited_csc`. -/
def sclrDispSetOutCscMatrix (r : Registers) : Registers :=
  { r with cfg := { r.cfg with outCsc := .rgbLimited } }

/-- `sclr_disp_tgen_enable`. -/
def sclrDispTgenEnable (r : Registers) : Registers :=
  { r with cfg := { r.cfg with tgenEn := true } }

end Registers

open Registers

/-- What the driver has from its probe on. -/
structure Device where
  nativeMode : Mode
  parkDma : ℕ
  nomodeset : Bool
  deriving DecidableEq, Repr

/-- A layer that was handed to the registers, with what they held before and after; `addressOnly`
is the path through `sclr_disp_set_mem`. -/
structure Handed where
  layer : Layer
  before : Registers
  after : Registers
  addressOnly : Bool
  deriving DecidableEq, Repr

/-- `struct soph_drm`, the registers, and what was handed to them so far. -/
structure State where
  regs : Registers
  videoLayer : Bool
  layerFmt : SclFormat
  layerCsc : SclCsc
  layerPitchY : ℕ
  layerPitchC : ℕ
  layerStaged : Bool
  /-- `soph_gop_scale`. -/
  scale : ℕ
  handed : List Handed
  deriving DecidableEq, Repr

/-- After `soph_drm_probe`: whatever the vendor's stack left in the registers. -/
def probe (regs : Registers) : State where
  regs := regs
  videoLayer := false
  layerFmt := .max
  layerCsc := .none
  layerPitchY := 0
  layerPitchC := 0
  layerStaged := false
  scale := 0
  handed := []

/-! ### The video layer -/

/-- `soph_yuv_csc`. -/
def sophYuvCsc (c : Choices) (s : PlaneState) : SclCsc :=
  match c.yuvEncoding.getD s.colorEncoding, c.yuvRange.getD s.colorRange with
  | .bt709, .full => .limit709Yuv2Rgb
  | .bt709, .limited => .full709Yuv2Rgb
  | .bt601, .full => .limit601Yuv2Rgb
  | .bt601, .limited => .full601Yuv2Rgb

section Device

variable (d : Device)

/-- `soph_mode_is_native`. -/
def sophModeIsNative (m : Mode) : Bool := m == d.nativeMode

/-- `soph_video_layer`, of a plane state with framebuffer `fb`; pitches and sizes have 16 bits. -/
def sophVideoLayer (c : Choices) (s : PlaneState) (fb : Framebuffer) : Layer :=
  let nv12 := fb.format == .nv12
  { fmt := if nv12 then .nv12 else .bgrPacked
    csc := if nv12 then sophYuvCsc c s else .none
    mem :=
      { addr0 := fb.addr0
        addr1 := if nv12 then fb.addr1 else 0
        addr2 := 0
        pitchY := fb.pitch0 % 2 ^ 16
        pitchC := if nv12 then fb.pitch1 % 2 ^ 16 else 0
        width := d.nativeMode.hdisplay % 2 ^ 16
        height := d.nativeMode.vdisplay % 2 ^ 16 } }

/-- `soph_video_load`. -/
def sophVideoLoad (l : Layer) (s : State) : State :=
  let regs := s.regs.sclrDispSetLayer l
  { s with
    regs := regs
    layerFmt := l.fmt
    layerCsc := l.csc
    layerPitchY := l.mem.pitchY
    layerPitchC := l.mem.pitchC
    layerStaged := true
    handed := ⟨l, s.regs, regs, false⟩ :: s.handed }

/-- The test of `soph_video_stage`: only the addresses change. -/
def addressOnly (l : Layer) (s : State) : Bool :=
  l.fmt == s.layerFmt && l.csc == s.layerCsc && l.mem.pitchY == s.layerPitchY &&
    l.mem.pitchC == s.layerPitchC

/-- `soph_video_stage`. -/
def sophVideoStage (l : Layer) (s : State) : State :=
  if addressOnly l s then
    let regs := s.regs.sclrDispSetMem l.mem
    { s with regs := regs, handed := ⟨l, s.regs, regs, true⟩ :: s.handed }
  else sophVideoLoad l s

/-- `mem` of `soph_video_park`: 80 pixels of 3 bytes, to a multiple of 32. -/
def parkMem : Mem := ⟨d.parkDma, d.parkDma, d.parkDma, 256, 256, 80, 80⟩

/-- `soph_video_park`. -/
def sophVideoPark (s : State) : State :=
  { s with regs := s.regs.sclrDispSetMem (parkMem d), layerFmt := .max }

/-! ### The callbacks -/

/-- The video layer's part of `soph_pipe_enable`. -/
def enableVideo (l : Layer) (s : State) : State :=
  let cfg : DispCfg :=
    { s.regs.cfg with
      dispFromSc := false, syncExt := false, tgenEn := true, outCsc := .identity, burst := 15
      outBit := 8, dropMode := .dither }
  sophVideoLoad l { s with
    regs := (((s.regs.sclrDispEnableWindowBgcolor false).sophGopEnable s.scale false)
      |>.sclrDispSetCfg cfg l) }

/-- The GOP's part. -/
def enableGop (fb : Framebuffer) (s : State) : State :=
  let s := sophVideoPark d { s with scale := 1, regs := s.regs.sclrDispEnableWindowBgcolor true }
  { s with regs := (s.regs.sophGopSet s.scale fb).sophGopEnable s.scale true }

/-- `soph_pipe_enable`. -/
def sophPipeEnable (c : Choices) (mode : Mode) (p : PlaneState) (s : State) : State :=
  let native := sophModeIsNative d mode
  let s := { s with videoLayer := native }
  match p.fb with
  | none => s
  | some fb =>
      if d.nomodeset then s
      else
        let s := if native then enableVideo (sophVideoLayer d c p fb) s else enableGop d fb s
        let s := if c.rgbLimited then { s with regs := s.regs.sclrDispSetOutCscMatrix } else s
        { s with regs := s.regs.sclrDispTgenEnable }

/-- `soph_pipe_disable`. -/
def sophPipeDisable (s : State) : State :=
  if d.nomodeset then s
  else
    sophVideoPark d { s with
      regs := (s.regs.sophGopEnable s.scale false).sclrDispEnableWindowBgcolor true }

/-- `soph_pipe_update`, up to its event; `mode` is the one being committed. -/
def sophPipeUpdate (c : Choices) (mode : Mode) (p : PlaneState) (s : State) : State :=
  match p.fb with
  | none => s
  | some fb =>
      if d.nomodeset then s
      else if sophModeIsNative d mode then sophVideoStage (sophVideoLayer d c p fb) s
      else { s with regs := s.regs.sophGopSet s.scale fb }

inductive Act
  | enable (c : Choices) (mode : Mode) (p : PlaneState)
  | disable
  | update (c : Choices) (mode : Mode) (p : PlaneState)
  deriving DecidableEq, Repr

/-- **One callback.** -/
def step (s : State) : Act → Option State
  | .enable c mode p => some (sophPipeEnable d c mode p s)
  | .disable => some (sophPipeDisable d s)
  | .update c mode p => some (sophPipeUpdate d c mode p s)

end Device

/-! ### Commits -/

/-- The CRTC and the plane as they were committed, and the driver. -/
structure Screen where
  active : Bool
  mode : Mode
  plane : PlaneState
  driver : State
  /-- The CRTC was on after some commit. -/
  lit : Bool
  deriving DecidableEq, Repr

/-- A commit: the new states, whether the plane is among what it changes, and whether it is a
modeset, which a change of the CRTC or its mode always is. -/
structure Commit where
  choices : Choices
  active : Bool
  mode : Mode
  plane : PlaneState
  planeChanged : Bool
  modeset : Bool
  deriving DecidableEq, Repr

/-- The flags of a commit are true to what changes. -/
def Commit.Fits (s : Screen) (k : Commit) : Prop :=
  (k.plane ≠ s.plane → k.planeChanged = true) ∧
    (k.active ≠ s.active ∨ k.mode ≠ s.mode → k.modeset = true)

instance (s : Screen) (k : Commit) : Decidable (k.Fits s) :=
  inferInstanceAs (Decidable (_ ∧ _))

section Commit

variable (d : Device) (s : Screen) (k : Commit)

/-- The CRTC disabled, in a modeset of one that was on. -/
def disables (driver : State) : State :=
  if k.modeset && s.active then sophPipeDisable d driver else driver

/-- The plane updated, if it has or had a CRTC: then it has or had a framebuffer. -/
def updates (driver : State) : State :=
  if k.planeChanged && (s.plane.fb.isSome || k.plane.fb.isSome) then
    sophPipeUpdate d k.choices k.mode k.plane driver
  else driver

/-- The CRTC enabled, in a modeset of one that is on. -/
def enables (driver : State) : State :=
  if k.modeset && k.active then sophPipeEnable d k.choices k.mode k.plane driver else driver

/-- **A commit**, in the helpers' order. -/
def commit : Option Screen :=
  if k.Fits s then
    let driver := enables d k (updates d s k (disables d s k s.driver))
    some ⟨k.active, k.mode, k.plane, driver, s.lit || k.active⟩
  else none

end Commit

end BadgeOS.Display.Video
