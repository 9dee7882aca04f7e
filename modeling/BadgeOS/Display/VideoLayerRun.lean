import BadgeOS.Display.VideoLayer
import Mathlib

/-!
# What the video layer scans

The four cached fields are what the registers hold, or say that nothing is known; so a layer that
is handed over by its addresses alone is the whole layer.  What a callback leaves in the layer's
addresses depends on its own arguments only, and a commit leaves the framebuffer's or the park
buffer's there, but for an update of the plane while the CRTC is off.

* `Cached`, `Cached.step`, `video_layer_handed` — the cache, and what was handed over;
* `sophPipeUpdate_mem`, `sophPipeEnable_mem`, `sophPipeDisable_mem` — the memory after a callback;
* `Scans`, `Scans.commit`, `hidden_layer_parked` — what is scanned after a commit.
-/

namespace BadgeOS.Display.Video

open Registers Transition

variable {d : Device} {s t : State} {l : Layer} {c : Choices} {mode : Mode} {p : PlaneState}

/-! ### The cache -/

/-- What was handed over is in the registers, and by its addresses alone only when the rest was
there before. -/
def Handed.Whole (h : Handed) : Prop :=
  h.after.layer = h.layer ∧ (h.addressOnly = true →
    h.before.layer.fmt = h.layer.fmt ∧ h.before.layer.csc = h.layer.csc ∧
      h.before.layer.mem.pitchY = h.layer.mem.pitchY ∧
        h.before.layer.mem.pitchC = h.layer.mem.pitchC)

/-- **The cache** is what the registers hold, unless nothing is known. -/
structure Cached (s : State) : Prop where
  known : s.layerFmt ≠ .max → s.regs.layer.fmt = s.layerFmt ∧ s.regs.layer.csc = s.layerCsc ∧
    s.regs.layer.mem.pitchY = s.layerPitchY ∧ s.regs.layer.mem.pitchC = s.layerPitchC
  whole : ∀ h ∈ s.handed, h.Whole

theorem cached_probe (regs : Registers) : Cached (probe regs) where
  known hknown := absurd rfl hknown
  whole _ hmem := by cases hmem

theorem sophVideoLayer_fmt (d : Device) (c : Choices) (p : PlaneState) (fb : Framebuffer) :
    (sophVideoLayer d c p fb).fmt ≠ .max := by
  simp only [sophVideoLayer]
  split <;> exact SclFormat.noConfusion

/-- A write beside the layer. -/
theorem Cached.of_layer (h : Cached s) (hlayer : t.regs.layer = s.regs.layer)
    (hfmt : t.layerFmt = s.layerFmt) (hcsc : t.layerCsc = s.layerCsc)
    (hy : t.layerPitchY = s.layerPitchY) (hc : t.layerPitchC = s.layerPitchC)
    (hhanded : t.handed = s.handed) : Cached t where
  known := by
    rw [hlayer, hfmt, hcsc, hy, hc]
    exact h.known
  whole := by
    rw [hhanded]
    exact h.whole

theorem Cached.load (h : ∀ e ∈ s.handed, e.Whole) (l : Layer) : Cached (sophVideoLoad l s) where
  known _ := ⟨rfl, rfl, rfl, rfl⟩
  whole e he := by
    obtain rfl | he := List.mem_cons.1 he
    · exact ⟨rfl, fun honly => by cases honly⟩
    · exact h e he

/-- **A flip**, by the addresses alone or whole. -/
theorem Cached.stage (h : Cached s) (hl : l.fmt ≠ .max) : Cached (sophVideoStage l s) := by
  simp only [sophVideoStage]
  split
  · rename_i honly
    simp only [addressOnly, Bool.and_eq_true, beq_iff_eq] at honly
    obtain ⟨⟨⟨hfmt, hcsc⟩, hy⟩, hc⟩ := honly
    obtain ⟨hfmt', hcsc', hy', hc'⟩ := h.known (hfmt ▸ hl)
    have hafter : (s.regs.sclrDispSetMem l.mem).layer = l := by
      show Layer.mk s.regs.layer.fmt s.regs.layer.csc l.mem = l
      rw [hfmt', hcsc', ← hfmt, ← hcsc]
    exact {
      known := fun _ => ⟨hfmt', hcsc', hy, hc⟩
      whole := fun e he => by
        obtain rfl | he := List.mem_cons.1 he
        · exact ⟨hafter, fun _ => ⟨hfmt'.trans hfmt.symm, hcsc'.trans hcsc.symm,
            hy'.trans hy.symm, hc'.trans hc.symm⟩⟩
        · exact h.whole e he }
  · exact Cached.load h.whole l

theorem Cached.park (h : Cached s) : Cached (sophVideoPark d s) where
  known hknown := absurd rfl hknown
  whole := h.whole

/-- **The step lemma.** -/
theorem Cached.step {a : Act} (h : Cached s) (hstep : step d s a = some t) : Cached t := by
  cases a with
  | disable =>
      obtain rfl := Option.some.inj hstep
      simp only [sophPipeDisable]
      split
      · exact h
      · apply Cached.park
        exact h.of_layer rfl rfl rfl rfl rfl rfl
  | update c mode p =>
      obtain rfl := Option.some.inj hstep
      simp only [sophPipeUpdate]
      cases p.fb with
      | none => exact h
      | some fb =>
          dsimp only
          split
          · exact h
          split
          · exact h.stage (sophVideoLayer_fmt d c p fb)
          · exact h.of_layer rfl rfl rfl rfl rfl rfl
  | enable c mode p =>
      obtain rfl := Option.some.inj hstep
      simp only [sophPipeEnable]
      cases p.fb with
      | none => exact h.of_layer rfl rfl rfl rfl rfl rfl
      | some fb =>
          dsimp only
          split
          · exact h.of_layer rfl rfl rfl rfl rfl rfl
          have hpath : Cached (if sophModeIsNative d mode = true then
              enableVideo (sophVideoLayer d c p fb) { s with videoLayer := sophModeIsNative d mode }
              else enableGop d fb { s with videoLayer := sophModeIsNative d mode }) := by
            split
            · apply Cached.load
              exact h.whole
            · have hback : Cached { s with
                  videoLayer := sophModeIsNative d mode
                  scale := 1
                  regs := s.regs.sclrDispEnableWindowBgcolor true } :=
                h.of_layer rfl rfl rfl rfl rfl rfl
              exact (hback.park (d := d)).of_layer rfl rfl rfl rfl rfl rfl
          generalize (if sophModeIsNative d mode = true then _ else _ : State) = u at hpath
          split
          · exact hpath.of_layer rfl rfl rfl rfl rfl rfl
          · exact hpath.of_layer rfl rfl rfl rfl rfl rfl

/-- A layer handed over by a callback: it is the one of the callback's own plane state, it is whole,
and it is what the registers hold when the callback is done. -/
def Act.Hands (d : Device) (a : Act) (h : Handed) (after : State) : Prop :=
  h.Whole ∧ after.regs.layer = h.layer ∧ ∃ c mode p fb,
    (a = .update c mode p ∨ a = .enable c mode p) ∧ p.fb = some fb ∧
      h.layer = sophVideoLayer d c p fb

theorem sophVideoStage_handed (l : Layer) (s : State) :
    ∃ h, (sophVideoStage l s).handed = h :: s.handed ∧ h.layer = l ∧
      (sophVideoStage l s).regs = h.after := by
  simp only [sophVideoStage]
  split
  · exact ⟨_, rfl, rfl, rfl⟩
  · exact ⟨_, rfl, rfl, rfl⟩

/-- What an update hands over. -/
theorem sophPipeUpdate_handed (d : Device) (c : Choices) (mode : Mode) (p : PlaneState)
    (s : State) : (sophPipeUpdate d c mode p s).handed = s.handed ∨
      ∃ h fb, (sophPipeUpdate d c mode p s).handed = h :: s.handed ∧ p.fb = some fb ∧
        h.layer = sophVideoLayer d c p fb ∧
          (sophPipeUpdate d c mode p s).regs.layer = h.after.layer := by
  simp only [sophPipeUpdate]
  cases p.fb with
  | none => exact Or.inl rfl
  | some fb =>
      dsimp only
      split
      · exact Or.inl rfl
      split
      · obtain ⟨h, hhanded, hlayer, hregs⟩ := sophVideoStage_handed (sophVideoLayer d c p fb) s
        exact Or.inr ⟨h, fb, hhanded, rfl, hlayer, by rw [hregs]⟩
      · exact Or.inl rfl

theorem enableVideo_handed (l : Layer) (s : State) :
    ∃ h, (enableVideo l s).handed = h :: s.handed ∧ h.layer = l ∧
      (enableVideo l s).regs = h.after :=
  ⟨_, rfl, rfl, rfl⟩

/-- What an enable hands over. -/
theorem sophPipeEnable_handed (d : Device) (c : Choices) (mode : Mode) (p : PlaneState)
    (s : State) : (sophPipeEnable d c mode p s).handed = s.handed ∨
      ∃ h fb, (sophPipeEnable d c mode p s).handed = h :: s.handed ∧ p.fb = some fb ∧
        h.layer = sophVideoLayer d c p fb ∧
          (sophPipeEnable d c mode p s).regs.layer = h.after.layer := by
  simp only [sophPipeEnable]
  cases p.fb with
  | none => exact Or.inl rfl
  | some fb =>
      dsimp only
      split
      · exact Or.inl rfl
      cases sophModeIsNative d mode with
      | true =>
          obtain ⟨h, hhanded, hlayer, hregs⟩ :=
            enableVideo_handed (sophVideoLayer d c p fb) { s with videoLayer := true }
          refine Or.inr ⟨h, fb, ?_, rfl, hlayer, ?_⟩
          · rw [if_pos rfl, ← hhanded]
            cases c.rgbLimited with
            | true => rfl
            | false => rfl
          · rw [if_pos rfl, ← hregs]
            cases c.rgbLimited with
            | true => rfl
            | false => rfl
      | false =>
          refine Or.inl ?_
          rw [if_neg Bool.false_ne_true]
          cases c.rgbLimited with
          | true => rfl
          | false => rfl

/-- A display of 1280 by 720, its registers after a reset, and framebuffers of its size. -/
def panel : Device := ⟨⟨1280, 720⟩, 4096, false⟩

def reset : Registers where
  layer := ⟨.other 0, .none, ⟨0, 0, 0, 0, 0, 0, 0⟩⟩
  cfg := ⟨true, true, false, .other, 0, 0, .other⟩
  windowBgcolor := false
  gopScale := 0
  gopEnabled := false
  gop := ⟨0, 0, 0, 0, 0, 0, 0, 0⟩

def plain : Choices := ⟨none, none, false⟩

def rgbAt (addr : ℕ) : PlaneState :=
  ⟨some ⟨.rgb888, 1280, 720, 3840, 0, addr, 0⟩, .bt709, .limited⟩

/-- The memory that the layer reads. -/
def State.mem (s : State) : Mem := s.regs.layer.mem

theorem sophVideoStage_mem (l : Layer) (s : State) : (sophVideoStage l s).mem = l.mem := by
  simp only [sophVideoStage]
  split
  · rfl
  · rfl

theorem sophPipeDisable_mem (hset : d.nomodeset = false) (s : State) :
    (sophPipeDisable d s).mem = parkMem d := by
  simp only [sophPipeDisable, hset]
  rfl

/-- An update stages a framebuffer in the native mode, and leaves the layer else. -/
theorem sophPipeUpdate_mem (hset : d.nomodeset = false) (c : Choices) (mode : Mode)
    (p : PlaneState) (s : State) : (sophPipeUpdate d c mode p s).mem =
      match p.fb with
      | none => s.mem
      | some fb => if sophModeIsNative d mode then (sophVideoLayer d c p fb).mem else s.mem := by
  simp only [sophPipeUpdate, hset]
  cases p.fb with
  | none => rfl
  | some fb =>
      dsimp only
      rw [if_neg Bool.false_ne_true]
      split
      · exact sophVideoStage_mem _ _
      · rfl

/-- An enable loads the layer in the native mode, and parks it else, if there is a framebuffer. -/
theorem sophPipeEnable_mem (hset : d.nomodeset = false) (c : Choices) (mode : Mode)
    (p : PlaneState) (s : State) : (sophPipeEnable d c mode p s).mem =
      match p.fb with
      | none => s.mem
      | some fb =>
          if sophModeIsNative d mode then (sophVideoLayer d c p fb).mem else parkMem d := by
  simp only [sophPipeEnable, hset]
  cases p.fb with
  | none => rfl
  | some fb =>
      dsimp only
      rw [if_neg Bool.false_ne_true]
      cases hnative : sophModeIsNative d mode with
      | true =>
          rw [if_pos rfl, if_pos rfl]
          cases c.rgbLimited with
          | true => rfl
          | false => rfl
      | false =>
          rw [if_neg Bool.false_ne_true, if_neg Bool.false_ne_true]
          cases c.rgbLimited with
          | true => rfl
          | false => rfl

/-- The addresses of a memory, by plane. -/
def Mem.addrs (m : Mem) : ℕ × ℕ × ℕ := (m.addr0, m.addr1, m.addr2)

/-- The addresses that the layer has of a framebuffer. -/
def Framebuffer.addrs (fb : Framebuffer) : ℕ × ℕ × ℕ :=
  (fb.addr0, if fb.format == .nv12 then fb.addr1 else 0, 0)

/-- **What is scanned after a commit**: the park buffer behind a CRTC that is off or in the GOP's
mode, and otherwise the framebuffer that is now on the plane. -/
def Scans (d : Device) (s : Screen) : Prop :=
  (s.active = false ∨ sophModeIsNative d s.mode = false →
    s.driver.mem.addrs = (d.parkDma, d.parkDma, d.parkDma)) ∧
  (s.active = true → sophModeIsNative d s.mode = true →
    ∃ fb, s.plane.fb = some fb ∧ s.driver.mem.addrs = fb.addrs)

/-- A commit updates no plane with a framebuffer under a native mode whose CRTC it leaves off, and
turns no CRTC on without a framebuffer. -/
def Orderly (d : Device) (k : Commit) : Prop :=
  (k.active = false → sophModeIsNative d k.mode = true → k.planeChanged = true →
    k.plane.fb = none) ∧
  (k.active = true → k.plane.fb ≠ none)

instance (d : Device) (k : Commit) : Decidable (Orderly d k) :=
  inferInstanceAs (Decidable (_ ∧ _))

/-- What holds after every commit once the CRTC was on. -/
structure Shown (d : Device) (s : Screen) : Prop where
  lit : s.active = true → s.lit = true
  scans : s.lit = true → Scans d s

section Commit

variable {u v : Screen} {k : Commit}

theorem disables_mem (hset : d.nomodeset = false) (u : Screen) (k : Commit) (s : State) :
    (disables d u k s).mem = if k.modeset && u.active then parkMem d else s.mem := by
  simp only [disables]
  split
  · exact sophPipeDisable_mem hset s
  · rfl

/-- The update of a plane that keeps the layer: it is not changed, or not in the native mode, or
has no framebuffer. -/
theorem updates_mem_eq (hset : d.nomodeset = false) (u : Screen) (s : State)
    (hkeep : k.planeChanged = false ∨ sophModeIsNative d k.mode = false ∨ k.plane.fb = none) :
    (updates d u k s).mem = s.mem := by
  simp only [updates]
  split
  · rename_i hchanged
    rw [sophPipeUpdate_mem hset]
    obtain hkeep | hkeep | hkeep := hkeep
    · rw [hkeep] at hchanged
      cases hchanged
    · cases k.plane.fb with
      | none => rfl
      | some fb => exact if_neg (by rw [hkeep]; exact Bool.false_ne_true)
    · rw [hkeep]
  · rfl

/-- The update of a plane in the native mode. -/
theorem updates_mem_fb (hset : d.nomodeset = false) (u : Screen) (s : State) {fb : Framebuffer}
    (hchanged : k.planeChanged = true) (hnative : sophModeIsNative d k.mode = true)
    (hfb : k.plane.fb = some fb) :
    (updates d u k s).mem = (sophVideoLayer d k.choices k.plane fb).mem := by
  simp only [updates, hchanged, hfb, Option.isSome_some, Bool.or_true, Bool.and_true, if_true]
  rw [sophPipeUpdate_mem hset, hfb]
  exact if_pos hnative

/-- A CRTC that is on has its framebuffer scanned, or the layer parked. -/
theorem enables_mem (hset : d.nomodeset = false) (s : State) {fb : Framebuffer}
    (hon : k.active = true) (hfb : k.plane.fb = some fb) :
    (enables d k s).mem = if k.modeset then
      if sophModeIsNative d k.mode then (sophVideoLayer d k.choices k.plane fb).mem else parkMem d
      else s.mem := by
  simp only [enables, hon, Bool.and_true]
  split
  · rw [sophPipeEnable_mem hset, hfb]
  · rfl

/-- **One commit.** -/
theorem Shown.commit (hset : d.nomodeset = false) (h : Shown d u) (hk : Orderly d k)
    (hcommit : commit d u k = some v) : Shown d v := by
  simp only [Video.commit] at hcommit
  split at hcommit
  swap
  · cases hcommit
  rename_i hfits
  obtain ⟨hplane, hmodeset⟩ := hfits
  obtain rfl := Option.some.inj hcommit
  refine ⟨fun hactive => ?_, fun hlit => ?_⟩
  · show (u.lit || k.active) = true
    rw [show k.active = true from hactive, Bool.or_true]
  cases hactive : k.active with
  | false =>
      -- the CRTC is off: what was parked stays so
      have hparked : (disables d u k u.driver).mem.addrs = (d.parkDma, d.parkDma, d.parkDma) := by
        rw [disables_mem hset]
        split
        · rfl
        · rename_i hnot
          have hoff : u.active = false := by
            by_contra hon
            rw [Bool.not_eq_false] at hon
            refine hnot ?_
            rw [hmodeset (Or.inl (by rw [hactive, hon]; exact Bool.false_ne_true)), hon]
            rfl
          have hlit' : (u.lit || k.active) = true := hlit
          rw [hactive, Bool.or_false] at hlit'
          exact (h.scans hlit').1 (Or.inl hoff)
      have hkeep : k.planeChanged = false ∨ sophModeIsNative d k.mode = false ∨
          k.plane.fb = none := by
        cases hchanged : k.planeChanged with
        | false => exact Or.inl rfl
        | true =>
            cases hnative : sophModeIsNative d k.mode with
            | false => exact Or.inr (Or.inl rfl)
            | true => exact Or.inr (Or.inr (hk.1 hactive hnative hchanged))
      have henables (s : State) : enables d k s = s := by
        simp only [enables, hactive, Bool.and_false]
        exact if_neg Bool.false_ne_true
      refine ⟨fun _ => ?_, fun hon => by cases hon⟩
      dsimp only
      rw [henables, updates_mem_eq hset _ _ hkeep]
      exact hparked
  | true =>
      obtain ⟨fb, hfb⟩ := Option.ne_none_iff_exists'.1 (hk.2 hactive)
      -- without a modeset the CRTC was on, in this mode
      have hbefore (hnot : k.modeset = false) :
          u.active = true ∧ u.mode = k.mode ∧ disables d u k u.driver = u.driver := by
        have hsame := mt hmodeset (by rw [hnot]; exact Bool.false_ne_true)
        rw [not_or, not_not, not_not, hactive] at hsame
        refine ⟨hsame.1.symm, hsame.2.symm, ?_⟩
        simp only [disables, hnot, Bool.false_and]
        exact if_neg Bool.false_ne_true
      refine ⟨fun hhidden => ?_, fun _ hnative => ⟨fb, hfb, ?_⟩⟩
      · have hgop : sophModeIsNative d k.mode = false := by
          obtain hoff | hgop := hhidden
          · cases hoff
          · exact hgop
        dsimp only
        rw [enables_mem hset _ hactive hfb]
        cases hms : k.modeset with
        | true =>
            rw [if_pos rfl, hgop]
            rfl
        | false =>
            obtain ⟨hon, hmode, hdriver⟩ := hbefore hms
            rw [if_neg Bool.false_ne_true, updates_mem_eq hset _ _ (Or.inr (Or.inl hgop)), hdriver]
            exact (h.scans (h.lit hon)).1 (Or.inr (by rw [hmode]; exact hgop))
      · have hnative' : sophModeIsNative d k.mode = true := hnative
        dsimp only
        rw [enables_mem hset _ hactive hfb]
        cases hms : k.modeset with
        | true =>
            rw [if_pos rfl, hnative']
            rfl
        | false =>
            obtain ⟨hon, hmode, hdriver⟩ := hbefore hms
            rw [if_neg Bool.false_ne_true]
            cases hchanged : k.planeChanged with
            | true =>
                rw [updates_mem_fb hset _ _ hchanged hnative' hfb]
                rfl
            | false =>
                have hsame : k.plane = u.plane := by
                  by_contra hne
                  rw [hplane hne] at hchanged
                  cases hchanged
                rw [updates_mem_eq hset _ _ (Or.inl hchanged), hdriver]
                obtain ⟨fb', hfb', haddrs⟩ :=
                  (h.scans (h.lit hon)).2 hon (by rw [hmode]; exact hnative')
                rw [← hsame, hfb] at hfb'
                rw [Option.some.inj hfb']
                exact haddrs

end Commit

/-- The screen before the first commit. -/
def dark (regs : Registers) (mode : Mode) (plane : PlaneState) : Screen :=
  ⟨false, mode, plane, probe regs, false⟩

/-- **A hidden layer is parked.**  In every run of commits that update no plane with a framebuffer
under a native mode whose CRTC is off, and turn no CRTC on without a framebuffer: after every
commit, once the CRTC was on, the layer reads the park buffer while the CRTC is off or in the
GOP's mode, and otherwise the framebuffer that is on the plane. -/
theorem hidden_layer_parked (hset : d.nomodeset = false) (regs : Registers) (mode : Mode)
    (plane : PlaneState) {ks : List Commit} {v : Screen}
    (hrun : RunWith (commit d) (fun _ k => Orderly d k) (dark regs mode plane) ks v)
    (hlit : v.lit = true) : Scans d v := by
  have hstart : Shown d (dark regs mode plane) :=
    ⟨fun hactive => (by cases hactive), fun hlit => (by cases hlit)⟩
  have hshown : Shown d v :=
    hrun.invariant (fun _ _ _ h hk hcommit => h.commit hset hk hcommit) hstart
  exact hshown.scans hlit

def shows (addr : ℕ) : Commit := ⟨plain, true, ⟨1280, 720⟩, rgbAt addr, true, true⟩

def hides : Commit := ⟨plain, false, ⟨1280, 720⟩, rgbAt 8192, false, true⟩

/-- On, and off again with the framebuffer still on the plane. -/
theorem hidden_layer_parked_off :
    ∃ v, RunWith (commit panel) (fun _ k => Orderly panel k)
      (dark reset ⟨1280, 720⟩ ⟨none, .bt709, .limited⟩) [shows 8192, hides] v ∧
        v.active = false ∧ v.plane.fb.isSome = true ∧ Scans panel v := by
  have hrun : RunWith (commit panel) (fun _ k => Orderly panel k)
      (dark reset ⟨1280, 720⟩ ⟨none, .bt709, .limited⟩) [shows 8192, hides] _ :=
    .cons (by decide) rfl (.cons (by decide) rfl .nil)
  exact ⟨_, hrun, rfl, rfl, hidden_layer_parked rfl reset _ _ hrun rfl⟩

/-- A flip behind a CRTC that is off has the display read what it flips to. -/
theorem hidden_layer_flipped :
    ¬ ∀ (regs : Registers) (mode : Mode) (plane : PlaneState) (ks : List Commit) (v : Screen),
      Run (commit panel) (dark regs mode plane) ks v → v.lit = true → Scans panel v := by
  intro hall
  have hscans := hall reset ⟨1280, 720⟩ ⟨none, .bt709, .limited⟩
    [shows 8192, hides, ⟨plain, false, ⟨1280, 720⟩, rgbAt 65536, true, false⟩] _
    (.cons trivial rfl (.cons trivial rfl (.cons trivial rfl .nil))) rfl
  exact absurd (hscans.1 (Or.inl rfl)) (by decide)

end BadgeOS.Display.Video
