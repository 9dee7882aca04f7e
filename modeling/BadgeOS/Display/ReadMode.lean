import Mathlib

/-!
# The modes read back

`sophdrm.c`: the two modes of the connector are built from the timing registers, which hold absolute
positions of 16 bits.  The fields of a `struct drm_display_mode` have 16 bits as well; what is
assigned to one is computed as an `int` before.

* `sophFillMode`, `sophReadMode` — the functions;
* `Axis.Monotonic`, `Axis.Exact` — what a mode should be on one axis;
* `Fits` — the timings it is for;
* `modes_monotonic_iff` — both modes are right just for those.
-/

namespace BadgeOS.Display.ReadMode

/-- `struct sclr_disp_timing`, without the polarities. -/
structure DispTiming where
  vtotal : UInt16
  htotal : UInt16
  vsyncStart : UInt16
  vsyncEnd : UInt16
  hsyncStart : UInt16
  hsyncEnd : UInt16
  vfdeStart : UInt16
  vfdeEnd : UInt16
  hfdeStart : UInt16
  hfdeEnd : UInt16
  deriving DecidableEq

/-- One axis of a `struct drm_display_mode`. -/
structure Axis where
  display : ℕ
  syncStart : ℕ
  syncEnd : ℕ
  total : ℕ
  deriving DecidableEq, Repr

structure DrmDisplayMode where
  h : Axis
  v : Axis
  clock : ℕ
  deriving DecidableEq, Repr

/-- What a `u16` field holds of a value. -/
def u16 (v : ℤ) : ℕ := (v % 2 ^ 16).toNat

/-- The values that are assigned to the fields of one axis, the last one where there are two. -/
structure Assigned where
  display : ℤ
  syncStart : ℤ
  syncEnd : ℤ
  total : ℤ
  deriving DecidableEq, Repr

section

variable (display : ℕ) (total syncStart syncEnd fdeStart : UInt16)

/-- The positions, rebased on the start of active video. -/
def rebased : Axis :=
  let active := u16 display
  { display := active
    syncStart := u16 (active + ((syncStart.toNat : ℤ) - fdeStart.toNat))
    syncEnd := u16 (active + ((syncEnd.toNat : ℤ) - fdeStart.toNat))
    total := u16 (total.toNat + 1) }

/-- The rebase produced something odd. -/
def Axis.Odd (a : Axis) : Prop :=
  a.syncStart < a.display ∨ a.syncEnd ≤ a.syncStart ∨ a.total ≤ a.syncEnd

instance (a : Axis) : Decidable a.Odd := inferInstanceAs (Decidable (_ ∨ _))

/-- One axis of `soph_fill_mode`. -/
def fillAxis : Axis :=
  let a := rebased display total syncStart syncEnd fdeStart
  if a.Odd then { a with syncStart := u16 (a.display + 1), syncEnd := u16 (a.display + 2) } else a

/-- What it assigned. -/
def assigned : Assigned :=
  let a := rebased display total syncStart syncEnd fdeStart
  if a.Odd then
    { display := display, syncStart := a.display + 1, syncEnd := a.display + 2
      total := total.toNat + 1 }
  else
    { display := display, syncStart := a.display + ((syncStart.toNat : ℤ) - fdeStart.toNat)
      syncEnd := a.display + ((syncEnd.toNat : ℤ) - fdeStart.toNat), total := total.toNat + 1 }

end

/-- `soph_fill_mode` -/
def sophFillMode (t : DispTiming) (hdisplay vdisplay refresh : ℕ) : DrmDisplayMode :=
  let h := fillAxis hdisplay t.htotal t.hsyncStart t.hsyncEnd t.hfdeStart
  let v := fillAxis vdisplay t.vtotal t.vsyncStart t.vsyncEnd t.vfdeStart
  { h, v, clock := h.total * v.total * refresh / 1000 % 2 ^ 32 }

/-- `native_mode` and `gop_mode`. -/
structure Modes where
  nativeMode : DrmDisplayMode
  gopMode : DrmDisplayMode
  deriving DecidableEq, Repr

/-- Active pixels of a line, or lines of a frame. -/
def active (fdeStart fdeEnd : UInt16) : ℕ := fdeEnd.toNat - fdeStart.toNat + 1

/-- `soph_read_mode`, of what the registers hold; `none` is `-ENODEV`. -/
def sophReadMode (t : DispTiming) : Option Modes :=
  if t.htotal = 0 ∨ t.vtotal = 0 ∨ t.hfdeEnd ≤ t.hfdeStart ∨ t.vfdeEnd ≤ t.vfdeStart then none
  else
    let w := active t.hfdeStart t.hfdeEnd
    let h := active t.vfdeStart t.vfdeEnd
    let refresh := 60
    some { nativeMode := sophFillMode t w h refresh
           gopMode := sophFillMode t (w / 2) (h / 2) refresh }

/-! ### Right modes -/

def Axis.Monotonic (a : Axis) : Prop :=
  a.display ≤ a.syncStart ∧ a.syncStart < a.syncEnd ∧ a.syncEnd < a.total

instance (a : Axis) : Decidable a.Monotonic := inferInstanceAs (Decidable (_ ∧ _))

/-- No field is a truncated value. -/
def Axis.Exact (a : Axis) (v : Assigned) : Prop :=
  (a.display : ℤ) = v.display ∧ (a.syncStart : ℤ) = v.syncStart ∧ (a.syncEnd : ℤ) = v.syncEnd ∧
    (a.total : ℤ) = v.total

/-- A mode of `hdisplay` by `vdisplay` active pixels is monotonic, and nothing in it is truncated. -/
structure Right (t : DispTiming) (hdisplay vdisplay : ℕ) (m : DrmDisplayMode) : Prop where
  hMonotonic : m.h.Monotonic
  vMonotonic : m.v.Monotonic
  hExact : m.h.Exact (assigned hdisplay t.htotal t.hsyncStart t.hsyncEnd t.hfdeStart)
  vExact : m.v.Exact (assigned vdisplay t.vtotal t.vsyncStart t.vsyncEnd t.vfdeStart)
  clock : m.clock = m.h.total * m.v.total * 60 / 1000 ∧ m.clock < 2 ^ 31

/-- The rebased positions wrap, and look well afterwards. -/
def Wraps (display total syncStart syncEnd fdeStart : ℕ) : Prop :=
  display + syncEnd < fdeStart ∧ display + syncEnd + 2 ^ 16 < fdeStart + (total + 1) ∧
    (fdeStart ≤ syncStart ∧ display + syncStart < fdeStart + 2 ^ 16 ∨
      display + syncStart < fdeStart ∧ syncStart < syncEnd)

/-- **The timings a mode is right for**: active size and total fit 16 bits, and the sync pulse lies
behind the active pixels and before the total; or else it does not look so by wrapping, and the
total has room for two more. -/
def Fits (display total syncStart syncEnd fdeStart : ℕ) : Prop :=
  display < 2 ^ 16 ∧ total + 1 < 2 ^ 16 ∧
    (fdeStart ≤ syncStart ∧ syncStart < syncEnd ∧
        display + (syncEnd - fdeStart) < total + 1 ∨
      display + 2 < total + 1 ∧ ¬Wraps display total syncStart syncEnd fdeStart)

/-- Both axes, with all the active pixels and with half of them. -/
structure TimingFits (t : DispTiming) : Prop where
  h : Fits (active t.hfdeStart t.hfdeEnd) t.htotal.toNat t.hsyncStart.toNat t.hsyncEnd.toNat
    t.hfdeStart.toNat
  v : Fits (active t.vfdeStart t.vfdeEnd) t.vtotal.toNat t.vsyncStart.toNat t.vsyncEnd.toNat
    t.vfdeStart.toNat
  hHalf : Fits (active t.hfdeStart t.hfdeEnd / 2) t.htotal.toNat t.hsyncStart.toNat
    t.hsyncEnd.toNat t.hfdeStart.toNat
  vHalf : Fits (active t.vfdeStart t.vfdeEnd / 2) t.vtotal.toNat t.vsyncStart.toNat
    t.vsyncEnd.toNat t.vfdeStart.toNat

theorem u16_lt (v : ℤ) : u16 v < 2 ^ 16 := by
  rw [u16]
  omega

/-- **One axis.** -/
theorem fillAxis_iff (display : ℕ) (total syncStart syncEnd fdeStart : UInt16) :
    (fillAxis display total syncStart syncEnd fdeStart).Monotonic ∧
        (fillAxis display total syncStart syncEnd fdeStart).Exact
          (assigned display total syncStart syncEnd fdeStart) ↔
      Fits display total.toNat syncStart.toNat syncEnd.toNat fdeStart.toNat := by
  have htotal := total.toNat_lt
  have hstart := syncStart.toNat_lt
  have hend := syncEnd.toNat_lt
  have hfde := fdeStart.toNat_lt
  rw [fillAxis, assigned]
  by_cases hodd : (rebased display total syncStart syncEnd fdeStart).Odd
  · rw [if_pos hodd, if_pos hodd]
    simp only [Axis.Odd, rebased, u16, Axis.Monotonic, Axis.Exact, Fits, Wraps] at hodd ⊢
    omega
  · rw [if_neg hodd, if_neg hodd]
    simp only [Axis.Odd, rebased, u16, Axis.Monotonic, Axis.Exact, Fits, Wraps] at hodd ⊢
    omega

theorem fillAxis_total_lt (display : ℕ) (total syncStart syncEnd fdeStart : UInt16) :
    (fillAxis display total syncStart syncEnd fdeStart).total < 2 ^ 16 := by
  have htotal : (fillAxis display total syncStart syncEnd fdeStart).total =
      u16 (total.toNat + 1) := by
    rw [fillAxis]
    split
    · rfl
    · rfl
  rw [htotal]
  exact u16_lt _

/-- The clock is never truncated: two totals of 16 bits, at 60 Hz. -/
theorem sophFillMode_clock (t : DispTiming) (hdisplay vdisplay : ℕ) :
    (sophFillMode t hdisplay vdisplay 60).clock =
        (sophFillMode t hdisplay vdisplay 60).h.total *
          (sophFillMode t hdisplay vdisplay 60).v.total * 60 / 1000 ∧
      (sophFillMode t hdisplay vdisplay 60).clock < 2 ^ 31 := by
  have hh := fillAxis_total_lt hdisplay t.htotal t.hsyncStart t.hsyncEnd t.hfdeStart
  have hv := fillAxis_total_lt vdisplay t.vtotal t.vsyncStart t.vsyncEnd t.vfdeStart
  have hmul := Nat.mul_le_mul hh.le hv.le
  have hsmall : (sophFillMode t hdisplay vdisplay 60).h.total *
      (sophFillMode t hdisplay vdisplay 60).v.total * 60 / 1000 < 2 ^ 31 := by
    rw [sophFillMode]
    dsimp only
    omega
  have hclock : (sophFillMode t hdisplay vdisplay 60).clock =
      (sophFillMode t hdisplay vdisplay 60).h.total *
        (sophFillMode t hdisplay vdisplay 60).v.total * 60 / 1000 :=
    Nat.mod_eq_of_lt (hsmall.trans (by decide))
  exact ⟨hclock, hclock ▸ hsmall⟩

/-- **One mode** is right just for the timings that fit its size. -/
theorem sophFillMode_right_iff (t : DispTiming) (hdisplay vdisplay : ℕ) :
    Right t hdisplay vdisplay (sophFillMode t hdisplay vdisplay 60) ↔
      Fits hdisplay t.htotal.toNat t.hsyncStart.toNat t.hsyncEnd.toNat t.hfdeStart.toNat ∧
        Fits vdisplay t.vtotal.toNat t.vsyncStart.toNat t.vsyncEnd.toNat t.vfdeStart.toNat := by
  rw [← fillAxis_iff, ← fillAxis_iff]
  constructor
  · intro hright
    exact ⟨⟨hright.hMonotonic, hright.hExact⟩, hright.vMonotonic, hright.vExact⟩
  · rintro ⟨⟨hm, he⟩, vm, ve⟩
    exact { hMonotonic := hm, vMonotonic := vm, hExact := he, vExact := ve
            clock := sophFillMode_clock t hdisplay vdisplay }

/-- **Both modes** are monotonic and exact just for the timings that fit. -/
theorem modes_monotonic_iff {t : DispTiming} {m : Modes} (h : sophReadMode t = some m) :
    Right t (active t.hfdeStart t.hfdeEnd) (active t.vfdeStart t.vfdeEnd) m.nativeMode ∧
        Right t (active t.hfdeStart t.hfdeEnd / 2) (active t.vfdeStart t.vfdeEnd / 2) m.gopMode ↔
      TimingFits t := by
  rw [sophReadMode] at h
  split at h
  · cases h
  · cases h
    rw [sophFillMode_right_iff, sophFillMode_right_iff]
    constructor
    · rintro ⟨⟨hh, hv⟩, hhHalf, hvHalf⟩
      exact ⟨hh, hv, hhHalf, hvHalf⟩
    · intro hfits
      exact ⟨⟨hfits.h, hfits.v⟩, hfits.hHalf, hfits.vHalf⟩

/-- 1280x720 on a line of 1650 by 750. -/
def panelTiming : DispTiming where
  vtotal := 749
  htotal := 1649
  vsyncStart := 5
  vsyncEnd := 10
  hsyncStart := 110
  hsyncEnd := 150
  vfdeStart := 25
  vfdeEnd := 744
  hfdeStart := 260
  hfdeEnd := 1539

/-- Its modes. -/
def panelModes : Modes where
  nativeMode := ⟨⟨1280, 1281, 1282, 1650⟩, ⟨720, 721, 722, 750⟩, 74250⟩
  gopMode := ⟨⟨640, 641, 642, 1650⟩, ⟨360, 361, 362, 750⟩, 74250⟩

theorem modes_monotonic_iff_panel :
    Right panelTiming 1280 720 panelModes.nativeMode ∧ Right panelTiming 640 360 panelModes.gopMode ↔
      TimingFits panelTiming :=
  modes_monotonic_iff (t := panelTiming) (m := panelModes) (by decide +kernel)

/-- A line that is all active pixels. -/
def fullTiming : DispTiming := { panelTiming with htotal := 1279, hfdeStart := 0, hfdeEnd := 1279 }

/-- Its sync pulse is put behind its total. -/
theorem modes_not_monotonic :
    ∃ m, sophReadMode fullTiming = some m ∧ m.nativeMode.h = ⟨1280, 1281, 1282, 1280⟩ ∧
      ¬m.nativeMode.h.Monotonic := by
  refine ⟨⟨⟨⟨1280, 1281, 1282, 1280⟩, ⟨720, 721, 722, 750⟩, 57600⟩,
    ⟨⟨640, 750, 790, 1280⟩, ⟨360, 361, 362, 750⟩, 57600⟩⟩, ?_, rfl, ?_⟩
  · decide +kernel
  · decide

end BadgeOS.Display.ReadMode
