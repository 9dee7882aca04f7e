import BadgeOS.Display.VideoLayer
import Mathlib

/-!
# What a commit may show

`soph_pipe_check` pairs each mode with what its pixel path can scan, after DRM's own checks of the
plane.  `drm_fb_dma_get_gem_addr` is the kernel's: it is a parameter, and what it answers for a
source at the origin is documented.

* `sophPipeCheck` — the function;
* `LetThrough` — the plane states it is asked about;
* `InRange` — what is programmed for one is in range;
* `sophPipeCheck_inRange_iff` — an accepted one is, just when it is the video layer's or its
  framebuffer is no larger than half the panel.
-/

namespace BadgeOS.Display.PipeCheck

open Video

/-- `SOPH_GOP_MAX_SRC_W` -/
def sophGopMaxSrcW : ℕ := 1024

/-- `struct drm_framebuffer`, and the addresses of the GEM objects of its planes. -/
structure DrmFramebuffer where
  format : DrmFormat
  width : ℕ
  height : ℕ
  pitches : ℕ → ℕ
  offsets : ℕ → ℕ
  dmaAddr : ℕ → ℕ

/-- The source rectangle of a plane state, in 16.16. -/
structure Source where
  x : ℕ
  y : ℕ
  w : ℕ
  h : ℕ
  deriving DecidableEq, Repr

section

variable (gemAddr : DrmFramebuffer → Source → ℕ → ℕ) (d : Device)

/-- `soph_pipe_check`; `false` is `-EINVAL`. -/
def sophPipeCheck (mode : Mode) (fb : Option DrmFramebuffer) (src : Source) : Bool :=
  match fb with
  | none => true
  | some fb =>
      if sophModeIsNative d mode then
        decide (fb.format = .rgb888 ∧ fb.width = mode.hdisplay ∧ fb.height = mode.vdisplay ∧
          fb.pitches 0 % 32 = 0 ∧ fb.pitches 0 ≤ 65535 ∧ fb.offsets 0 = 0) ||
        decide (fb.format = .nv12 ∧ fb.width = mode.hdisplay ∧ fb.height = mode.vdisplay ∧
          fb.pitches 0 % 32 = 0 ∧ fb.pitches 1 % 32 = 0 ∧ fb.pitches 0 ≤ 65535 ∧
          fb.pitches 1 ≤ 65535 ∧ gemAddr fb src 0 % 32 = 0 ∧ gemAddr fb src 1 % 32 = 0)
      else
        decide ((fb.format = .xrgb8888 ∨ fb.format = .argb8888) ∧ fb.width ≤ sophGopMaxSrcW)

/-- The framebuffer with the addresses that the commit asks for. -/
def located (fb : DrmFramebuffer) (src : Source) : Framebuffer where
  format := fb.format
  width := fb.width
  height := fb.height
  pitch0 := fb.pitches 0
  pitch1 := fb.pitches 1
  addr0 := gemAddr fb src 0
  addr1 := gemAddr fb src 1

/-- The video layer scans the panel's size, with strides and addresses of 32 bytes, as they are. -/
structure VideoInRange (fb : DrmFramebuffer) (src : Source) (l : Layer) : Prop where
  size : fb.width = d.nativeMode.hdisplay ∧ fb.height = d.nativeMode.vdisplay
  memSize : l.mem.width = d.nativeMode.hdisplay ∧ l.mem.height = d.nativeMode.vdisplay
  pitchY : l.mem.pitchY = fb.pitches 0 ∧ l.mem.pitchY < 2 ^ 16 ∧ 32 ∣ l.mem.pitchY
  addr0 : l.mem.addr0 = gemAddr fb src 0 ∧ 32 ∣ l.mem.addr0
  chroma : fb.format = .nv12 →
    (l.mem.pitchC = fb.pitches 1 ∧ l.mem.pitchC < 2 ^ 16 ∧ 32 ∣ l.mem.pitchC) ∧
      l.mem.addr1 = gemAddr fb src 1 ∧ 32 ∣ l.mem.addr1

/-- The GOP fetches no more than it can, and its window ends inside the panel: `end` is the last
pixel that it covers. -/
structure GopInRange (fb : DrmFramebuffer) (w : GopWindow) : Prop where
  source : fb.width ≤ sophGopMaxSrcW
  endX : w.endX < d.nativeMode.hdisplay
  endY : w.endY < d.nativeMode.vdisplay

/-- What is programmed for a plane state is in range: the layer of the video layer's path, or the
window of the GOP's, which doubles. -/
def InRange (c : Choices) (p : PlaneState) (mode : Mode) (fb : DrmFramebuffer) (src : Source)
    (regs : Registers) : Prop :=
  if sophModeIsNative d mode then
    VideoInRange gemAddr d fb src (sophVideoLayer d c p (located gemAddr fb src))
  else GopInRange d fb (regs.sophGopSet 1 (located gemAddr fb src)).gop

/-- **What DRM lets through**: the plane can neither be scaled nor positioned, and its source is
inside the framebuffer. -/
structure LetThrough (mode : Mode) (fb : DrmFramebuffer) (src : Source) : Prop where
  notEmpty : 0 < fb.width ∧ 0 < fb.height
  size : src.w = mode.hdisplay * 2 ^ 16 ∧ src.h = mode.vdisplay * 2 ^ 16
  inside : src.x + src.w ≤ fb.width * 2 ^ 16 ∧ src.y + src.h ≤ fb.height * 2 ^ 16

end

variable {gemAddr : DrmFramebuffer → Source → ℕ → ℕ} {d : Device} {mode : Mode}
  {fb : DrmFramebuffer} {src : Source}

/-- A framebuffer of the mode's size is scanned from its origin. -/
theorem LetThrough.origin (h : LetThrough mode fb src) (hwidth : fb.width = mode.hdisplay)
    (hheight : fb.height = mode.vdisplay) : src.x = 0 ∧ src.y = 0 := by
  obtain ⟨hw, hh⟩ := h.size
  obtain ⟨hx, hy⟩ := h.inside
  rw [hwidth, ← hw] at hx
  rw [hheight, ← hh] at hy
  omega

/-- The chroma plane of NV12. -/
theorem sophVideoLayer_chroma (c : Choices) (p : PlaneState) (hformat : fb.format = .nv12) :
    (sophVideoLayer d c p (located gemAddr fb src)).mem.pitchC = fb.pitches 1 % 2 ^ 16 ∧
      (sophVideoLayer d c p (located gemAddr fb src)).mem.addr1 = gemAddr fb src 1 := by
  have hnv12 : ((located gemAddr fb src).format == .nv12) = true := by
    rw [located, hformat]
    rfl
  rw [sophVideoLayer]
  dsimp only
  rw [if_pos hnv12, if_pos hnv12]
  exact ⟨rfl, rfl⟩

/-- **The video layer's path** is all in range. -/
theorem videoInRange_of_check (c : Choices) (p : PlaneState)
    (hpage : ∀ plane, 4096 ∣ fb.dmaAddr plane)
    (horigin : src.x = 0 → src.y = 0 →
      ∀ plane, gemAddr fb src plane = fb.dmaAddr plane + fb.offsets plane)
    (hmode : d.nativeMode.hdisplay < 2 ^ 16 ∧ d.nativeMode.vdisplay < 2 ^ 16)
    (hlet : LetThrough mode fb src) (hnative : sophModeIsNative d mode = true)
    (hcheck : sophPipeCheck gemAddr d mode (some fb) src = true) :
    VideoInRange gemAddr d fb src (sophVideoLayer d c p (located gemAddr fb src)) := by
  have hsame : mode = d.nativeMode := by
    rw [sophModeIsNative] at hnative
    exact beq_iff_eq.mp hnative
  have hw := Nat.mod_eq_of_lt hmode.1
  have hh := Nat.mod_eq_of_lt hmode.2
  rw [sophPipeCheck] at hcheck
  rw [if_pos hnative, Bool.or_eq_true, decide_eq_true_eq, decide_eq_true_eq] at hcheck
  rcases hcheck with ⟨hformat, hwidth, hheight, hstride, hpitch, hoffset⟩ |
    ⟨hformat, hwidth, hheight, hstride, hstride', hpitch, hpitch', haddr, haddr'⟩
  · obtain ⟨hx, hy⟩ := hlet.origin hwidth hheight
    have hpitchY : (sophVideoLayer d c p (located gemAddr fb src)).mem.pitchY = fb.pitches 0 :=
      Nat.mod_eq_of_lt (show fb.pitches 0 < 2 ^ 16 by omega)
    have haddr : 32 ∣ gemAddr fb src 0 := by
      rw [horigin hx hy 0, hoffset, Nat.add_zero]
      exact (show 32 ∣ 4096 by decide).trans (hpage 0)
    subst hsame
    exact
      { size := ⟨hwidth, hheight⟩, memSize := ⟨hw, hh⟩
        pitchY := ⟨hpitchY, by omega, by omega⟩
        addr0 := ⟨rfl, haddr⟩
        chroma := fun hnv12 => by rw [hformat] at hnv12; cases hnv12 }
  · have hpitchY : (sophVideoLayer d c p (located gemAddr fb src)).mem.pitchY = fb.pitches 0 :=
      Nat.mod_eq_of_lt (show fb.pitches 0 < 2 ^ 16 by omega)
    obtain ⟨hpitchC, haddr1⟩ := @sophVideoLayer_chroma gemAddr d fb src c p hformat
    rw [Nat.mod_eq_of_lt (show fb.pitches 1 < 2 ^ 16 by omega)] at hpitchC
    subst hsame
    exact
      { size := ⟨hwidth, hheight⟩, memSize := ⟨hw, hh⟩
        pitchY := ⟨hpitchY, by omega, by omega⟩
        addr0 := ⟨rfl, Nat.dvd_of_mod_eq_zero haddr⟩
        chroma := fun _ =>
          ⟨⟨hpitchC, by omega, by omega⟩, haddr1, by omega⟩ }

/-- **The GOP's path** is in range for framebuffers of half the panel. -/
theorem gopInRange_iff (regs : Registers) (hlet : LetThrough mode fb src)
    (hnative : sophModeIsNative d mode = false)
    (hcheck : sophPipeCheck gemAddr d mode (some fb) src = true) :
    GopInRange d fb (regs.sophGopSet 1 (located gemAddr fb src)).gop ↔
      2 * fb.width ≤ d.nativeMode.hdisplay ∧ 2 * fb.height ≤ d.nativeMode.vdisplay := by
  have hsource : fb.width ≤ sophGopMaxSrcW := by
    rw [sophPipeCheck, hnative] at hcheck
    exact (of_decide_eq_true hcheck).2
  obtain ⟨hwidth, hheight⟩ := hlet.notEmpty
  have hendX : (regs.sophGopSet 1 (located gemAddr fb src)).gop.endX = fb.width * 2 ^ 1 - 1 := rfl
  have hendY : (regs.sophGopSet 1 (located gemAddr fb src)).gop.endY = fb.height * 2 ^ 1 - 1 := rfl
  constructor
  · rintro ⟨-, hx, hy⟩
    rw [hendX] at hx
    rw [hendY] at hy
    omega
  · rintro ⟨hx, hy⟩
    refine ⟨hsource, ?_, ?_⟩
    · rw [hendX]
      omega
    · rw [hendY]
      omega

/-- **An accepted plane state** is in range just when it is the video layer's, or its framebuffer
is no larger than half the panel. -/
theorem sophPipeCheck_inRange_iff (c : Choices) (p : PlaneState) (regs : Registers)
    (hpage : ∀ plane, 4096 ∣ fb.dmaAddr plane)
    (horigin : src.x = 0 → src.y = 0 →
      ∀ plane, gemAddr fb src plane = fb.dmaAddr plane + fb.offsets plane)
    (hmode : d.nativeMode.hdisplay < 2 ^ 16 ∧ d.nativeMode.vdisplay < 2 ^ 16)
    (hlet : LetThrough mode fb src)
    (hcheck : sophPipeCheck gemAddr d mode (some fb) src = true) :
    InRange gemAddr d c p mode fb src regs ↔
      sophModeIsNative d mode = true ∨
        2 * fb.width ≤ d.nativeMode.hdisplay ∧ 2 * fb.height ≤ d.nativeMode.vdisplay := by
  rw [InRange]
  cases hnative : sophModeIsNative d mode with
  | true =>
      have hrange := videoInRange_of_check c p hpage horigin hmode hlet hnative hcheck
      exact iff_of_true hrange (Or.inl rfl)
  | false =>
      rw [if_neg Bool.false_ne_true, gopInRange_iff regs hlet hnative hcheck]
      exact (or_iff_right Bool.false_ne_true).symm

/-! ### A framebuffer too large -/

/-- The address of a plane, for a format of one byte-addressed block a pixel. -/
def plainAddr (fb : DrmFramebuffer) (src : Source) (plane : ℕ) : ℕ :=
  fb.dmaAddr plane + fb.offsets plane + src.y / 2 ^ 16 * fb.pitches plane + src.x / 2 ^ 16 * 4

def panel : Device where
  nativeMode := ⟨1280, 720⟩
  parkDma := 0
  nomodeset := false

/-- An XRGB8888 framebuffer between the GOP mode and the panel. -/
def xrgb (width height : ℕ) : DrmFramebuffer where
  format := .xrgb8888
  width := width
  height := height
  pitches := fun _ => 4 * width
  offsets := fun _ => 0
  dmaAddr := fun _ => 4096 * 1024

def gopSource : Source := ⟨0, 0, 640 * 2 ^ 16, 360 * 2 ^ 16⟩

def anyRegisters : Registers where
  layer := ⟨.max, .none, ⟨0, 0, 0, 0, 0, 0, 0⟩⟩
  cfg := ⟨false, false, true, .identity, 15, 8, .dither⟩
  windowBgcolor := true
  gopScale := 1
  gopEnabled := true
  gop := ⟨0, 0, 0, 0, 0, 0, 0, 0⟩

def anyPlane : PlaneState := ⟨none, .bt601, .limited⟩

theorem sophPipeCheck_inRange_iff_gop :
    InRange plainAddr panel ⟨none, none, false⟩ anyPlane ⟨640, 360⟩ (xrgb 640 360) gopSource
        anyRegisters ↔
      sophModeIsNative panel ⟨640, 360⟩ = true ∨ 2 * 640 ≤ 1280 ∧ 2 * 360 ≤ 720 :=
  sophPipeCheck_inRange_iff ⟨none, none, false⟩ anyPlane anyRegisters
    (fun _ => ⟨1024, rfl⟩) (fun _ _ _ => rfl) (by decide)
    ⟨by decide, by decide, by decide⟩ (by decide)

/-- Of a framebuffer of 1024x720 the GOP is to show all, twice the size. -/
theorem gop_window_ends_outside :
    LetThrough ⟨640, 360⟩ (xrgb 1024 720) gopSource ∧
      sophPipeCheck plainAddr panel ⟨640, 360⟩ (some (xrgb 1024 720)) gopSource = true ∧
        (anyRegisters.sophGopSet 1 (located plainAddr (xrgb 1024 720) gopSource)).gop.endX = 2047 ∧
          ¬InRange plainAddr panel ⟨none, none, false⟩ anyPlane ⟨640, 360⟩ (xrgb 1024 720)
            gopSource anyRegisters := by
  refine ⟨⟨by decide, by decide, by decide⟩, by decide, rfl, ?_⟩
  rw [InRange, if_neg (by decide)]
  intro hrange
  exact absurd hrange.endX (by decide)

end BadgeOS.Display.PipeCheck
