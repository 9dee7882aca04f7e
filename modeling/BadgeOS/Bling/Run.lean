import BadgeOS.Bling.Frames
import BadgeOS.Bling.Set
import BadgeOS.Lib.Transition

/-!
# The ring painter

`cmdBlingRun` paints the ring in a loop and reloads its configuration when the runtime file
changes.  A reload takes the new settings, the new blob and its geometry, and then resizes two
buffers, each of which may fail on its own.

* `Painter.start`, `Painter.reload`, `Painter.paint` — the service, with every assertion, slice
  and cast on the way that can stop it;
* `Painter.Sound` — the buffers hold what is painted into them, and `paint_isSome`;
* `reload_sound_iff`, `painter_sound` — what a failed resize may leave, for one reload and for
  every run;
* `painter_one_transfer` — with the allocations it asks for, every frame fits one transfer and
  ends in a latch that is long enough.

The reload itself is an action: what the files hold, which blob is there, whether the pattern
opens and which of the two allocations succeed.
-/

namespace BadgeOS.Bling

open Transition

/-! ### Frame lengths -/

/-- `latch_us` -/
def latchUs : ℕ := 320

/-- `latchBytes` -/
def latchBytes (speedHz : Speed) : ℕ := latchUs * speedHz.1 / 8000000 + 1

/-- `max_latch_bytes` -/
def maxLatchBytes : ℕ := latchUs * maxSpeedHz / 8000000 + 1

/-- `ledBytes` -/
def ledBytes (c : Config) : ℕ := c.count.1 * c.encoding.bytesPerLed

/-- `frameLen` -/
def frameLen (c : Config) : ℕ := ledBytes c + latchBytes c.speedHz

/-- `frameCapacity` -/
def frameCapacity (c : Config) : ℕ := ledBytes c + maxLatchBytes

/-- A limit of the LED count: at least one. -/
abbrev MaxCount := { n : ℕ // 1 ≤ n }

/-- `maxCountForBufsiz`; `none` when the quotient is no `u32`. -/
def maxCountForBufsiz (bufsiz bytesPerLed : ℕ) : Option MaxCount :=
  if bufsiz ≤ maxLatchBytes then some ⟨1, le_refl 1⟩
  else if (bufsiz - maxLatchBytes) / bytesPerLed < 2 ^ 32 then
    some ⟨max ((bufsiz - maxLatchBytes) / bytesPerLed) 1, le_max_right _ _⟩
  else none

/-- `clampCount` -/
def clampCount (c : Config) (maxCount : MaxCount) : Config :=
  if h : c.count.1 ≤ maxCount.1 then c
  else { c with count := ⟨maxCount.1, maxCount.2, (not_le.mp h).le.trans c.count.2.2⟩ }

/-- `applyBlobGeometry` -/
def applyBlobGeometry (c : Config) (blob : Option Frames) (maxCount : MaxCount) : Config :=
  match blob with
  | none => c
  | some frames =>
      clampCount { c with count := ⟨frames.nleds, frames.nleds_range⟩
                          fps := clampFps frames.fps } maxCount

/-- `refreshBlob`; `files` is what can be opened and mapped at a path. -/
def refreshBlob (c : Config) (files : Path → Option Bytes) : Option Frames :=
  if c.blob.1 = [] then none
  else (files c.blob).bind fun memory => (load memory).toOption

/-! ### The service -/

/-- The variables of `cmdBlingRun`. -/
structure Painter where
  cfg : Config
  maxCount : MaxCount
  blob : Option Frames
  /-- A pattern is open. -/
  evalPat : Bool
  /-- `pixels.len`; every iteration paints all of the slice it uses. -/
  pixelsLen : Count
  frame : Bytes
  frameLen : ℕ
  /-- The count asked for: the blob's, or the configuration's. -/
  requested : Count

/-- The count a configuration and its blob ask for. -/
def requestedCount (c : Config) (blob : Option Frames) : Count :=
  match blob with
  | none => c.count
  | some frames => ⟨frames.nleds, frames.nleds_range⟩

/-- What `openEval` gives: a pattern, when one is configured and it opens. -/
def openEval (c : Config) (opens : Bool) : Bool := c.eval.1 ≠ [] && opens

/-- `cmdBlingRun` up to its loop; `none` when it does not get there. -/
def Painter.start (bufsiz : ℕ) (base runtime : Option Bytes) (files : Path → Option Bytes)
    (opens : Bool) : Option Painter :=
  match loadConfig base runtime with
  | .error _ => none
  | .ok cfg =>
      (maxCountForBufsiz bufsiz cfg.encoding.bytesPerLed).map fun maxCount =>
        let blob := refreshBlob cfg files
        let cfg' := clampCount (applyBlobGeometry cfg blob maxCount) maxCount
        { cfg := cfg', maxCount, blob, evalPat := openEval cfg' opens, pixelsLen := cfg'.count
          frame := List.replicate (frameCapacity cfg') 0, frameLen := Bling.frameLen cfg'
          requested := requestedCount cfg blob }

/-- What a reload finds. -/
structure Reload where
  base : Option Bytes
  runtime : Option Bytes
  files : Path → Option Bytes
  opens : Bool
  /-- `realloc` of the pixels succeeds. -/
  pixelsOk : Bool
  /-- `realloc` of the frame succeeds. -/
  frameOk : Bool

/-- `reloadInto`, with the limit that goes with the new encoding. -/
def reloadInto (bufsiz : ℕ) (cfg : Config) (base runtime : Option Bytes) :
    Option (Config × MaxCount) :=
  let fresh := layerRuntime (layerBase .default base) runtime
  let cfg := { cfg with brightness := fresh.brightness, fps := fresh.fps, count := fresh.count
                        speedHz := fresh.speedHz, encoding := fresh.encoding
                        blob := fresh.blob, eval := fresh.eval }
  (maxCountForBufsiz bufsiz cfg.encoding.bytesPerLed).map fun maxCount =>
    (clampCount cfg maxCount, maxCount)

/-- The resize of the pixels; if it fails the count goes back to what there is. -/
def resizePixels (p : Painter) (ok : Bool) : Painter :=
  if p.cfg.count = p.pixelsLen then p
  else if ok then { p with pixelsLen := p.cfg.count }
  else { p with cfg := { p.cfg with count := p.pixelsLen } }

/-- The resize of the frame; if it fails the old buffer stays. -/
def resizeFrame (p : Painter) (ok : Bool) : Painter :=
  if frameCapacity p.cfg = p.frame.length then p
  else if ok then
    { p with frame := p.frame.take (frameCapacity p.cfg) ++
                        List.replicate (frameCapacity p.cfg - p.frame.length) 0 }
  else p

/-- The settings, the blob and its geometry of a reload, before the buffers. -/
def Painter.adopt (bufsiz : ℕ) (p : Painter) (r : Reload) : Option Painter :=
  (reloadInto bufsiz p.cfg r.base r.runtime).map fun (cfg, maxCount) =>
    let blob := refreshBlob cfg r.files
    let cfg' := applyBlobGeometry cfg blob maxCount
    { p with cfg := cfg', maxCount, blob, evalPat := openEval cfg' r.opens
             requested := requestedCount
               (layerRuntime (layerBase .default r.base) r.runtime) blob }

/-- A reload; `none` when a cast in it stops the service. -/
def Painter.reload (bufsiz : ℕ) (p : Painter) (r : Reload) : Option Painter :=
  (p.adopt bufsiz r).map fun p =>
    let p := resizeFrame (resizePixels p r.pixelsOk) r.frameOk
    { p with frameLen := Bling.frameLen p.cfg }

/-- `paintBlobFrame` of `count` LEDs; `none` when its assertion fails. -/
def paintBlobFrame (frames : Frames) (nowMs : ℕ) (brightness : Brightness) (count : ℕ) :
    Option (List Rgb) :=
  let src := frames.frameAt nowMs
  if count * blobBytesPerLed ≤ src.length then
    some ((List.range count).map fun i =>
      let px := Frames.pixel src i
      ⟨scaleChannel px.r brightness, scaleChannel px.g brightness, scaleChannel px.b brightness⟩)
  else none

/-- The pixels of one iteration, from the first source there is.  `rendered` is what the pattern
renders, if it does not fault. -/
def Painter.lit (p : Painter) (nowMs : ℕ) (rendered : Option (ℕ → Rgb)) : Option (List Rgb) :=
  match p.evalPat, rendered, p.blob with
  | true, some color, _ => some ((List.range p.cfg.count).map color)
  | _, _, some frames => paintBlobFrame frames nowMs p.cfg.brightness p.cfg.count
  | _, _, none => some (List.replicate p.cfg.count ⟨0, 8, 32⟩)

/-- One painted frame: the painter after it, and what `sendFrame` is given.  `none` when a slice
or an assertion on the way stops the service. -/
def Painter.paint (p : Painter) (nowMs : ℕ) (rendered : Option (ℕ → Rgb)) :
    Option (Painter × Bytes) :=
  -- `pixels[0..cfg.count]`, and `frame[0..frame_len]`
  if p.cfg.count.1 ≤ p.pixelsLen.1 ∧ p.frameLen ≤ p.frame.length then
    (p.lit nowMs rendered).bind fun lit =>
      (encodeFrame p.cfg.encoding lit (latchBytes p.cfg.speedHz) (p.frame.take p.frameLen)).map
        fun sent => ({ p with evalPat := p.evalPat && rendered.isSome
                              frame := sent ++ p.frame.drop p.frameLen }, sent)
  else none

/-- What an iteration of the loop does. -/
inductive PainterAct
  | reload (r : Reload)
  | paint (nowMs : ℕ) (rendered : Option (ℕ → Rgb))

/-- One action. -/
def Painter.step (bufsiz : ℕ) (p : Painter) : PainterAct → Option Painter
  | .reload r => p.reload bufsiz r
  | .paint nowMs rendered => (p.paint nowMs rendered).map Prod.fst

variable {bufsiz : ℕ} {p p' : Painter} {r : Reload}

/-! ### Staying inside the buffers -/

/-- What an iteration relies on when it paints. -/
structure Painter.Sound (p : Painter) : Prop where
  /-- `pixels[0..cfg.count]` -/
  count_le : p.cfg.count.1 ≤ p.pixelsLen.1
  /-- `frame[0..frame_len]` -/
  frameLen_le : p.frameLen ≤ p.frame.length
  /-- The assertion of `encodeFrame` on that slice. -/
  encode : p.cfg.count.1 * p.cfg.encoding.bytesPerLed + latchBytes p.cfg.speedHz ≤ p.frameLen
  /-- The assertion of `paintBlobFrame`. -/
  blob : ∀ frames, p.blob = some frames → ∀ nowMs,
    p.cfg.count.1 * blobBytesPerLed ≤ (frames.frameAt nowMs).length

/-- The blob's assertion is about its LED count. -/
theorem blob_fits_iff {frames : Frames} {count : ℕ} :
    (∀ nowMs, count * blobBytesPerLed ≤ (frames.frameAt nowMs).length) ↔ count ≤ frames.nleds := by
  have hlen : ∀ nowMs, (frames.frameAt nowMs).length = frames.nleds * blobBytesPerLed :=
    fun nowMs => frames.length_frameAt nowMs
  simp only [hlen, blobBytesPerLed]
  constructor
  · intro h
    have h0 := h 0
    omega
  · intro h nowMs
    omega

theorem paintBlobFrame_eq {frames : Frames} {nowMs count : ℕ} {brightness : Brightness}
    (h : count * blobBytesPerLed ≤ (frames.frameAt nowMs).length) :
    ∃ lit, paintBlobFrame frames nowMs brightness count = some lit ∧ lit.length = count := by
  refine ⟨_, if_pos h, ?_⟩
  rw [List.length_map, List.length_range]

/-- Every source fills the slice, when the blob's frames are large enough. -/
theorem Painter.Sound.lit (h : p.Sound) (nowMs : ℕ) (rendered : Option (ℕ → Rgb)) :
    ∃ lit, p.lit nowMs rendered = some lit ∧ lit.length = p.cfg.count.1 := by
  unfold Painter.lit
  split
  · exact ⟨_, rfl, by rw [List.length_map, List.length_range]⟩
  · rename_i frames hblob _
    exact paintBlobFrame_eq (h.blob frames hblob nowMs)
  · exact ⟨_, rfl, by rw [List.length_replicate]⟩

/-- **A sound painter paints.**  Nothing stops the iteration, and one frame goes out: the
pixels' bytes and a latch of zeros, when the frame is as long as it has to be. -/
theorem Painter.Sound.paint (h : p.Sound) (nowMs : ℕ) (rendered : Option (ℕ → Rgb)) :
    ∃ (q : Painter) (sent : Bytes) (lit : List Rgb), p.paint nowMs rendered = some (q, sent) ∧
      q = { p with evalPat := p.evalPat && rendered.isSome
                   frame := sent ++ p.frame.drop p.frameLen } ∧
      lit.length = p.cfg.count.1 ∧ sent.length = p.frameLen ∧
      lit.flatMap (encodePixel p.cfg.encoding) ++
        List.replicate (latchBytes p.cfg.speedHz) 0 <+: sent := by
  obtain ⟨lit, hlit, hlen⟩ := h.lit nowMs rendered
  have htake : (p.frame.take p.frameLen).length = p.frameLen := by
    rw [List.length_take, Nat.min_eq_left h.frameLen_le]
  have hfits : lit.length * p.cfg.encoding.bytesPerLed + latchBytes p.cfg.speedHz ≤
      (p.frame.take p.frameLen).length := by
    rw [hlen, htake]
    exact h.encode
  obtain ⟨sent, hsent, hlength, hprefix⟩ := encodeFrame_eq hfits
  refine ⟨_, sent, lit, ?_, rfl, hlen, hlength.trans htake, hprefix⟩
  rw [Painter.paint, if_pos ⟨h.count_le, h.frameLen_le⟩, hlit, Option.bind_some, hsent,
    Option.map_some]

/-- Painting changes what is in the buffers, not how long they are. -/
theorem Painter.Sound.after_paint (h : p.Sound) {nowMs : ℕ} {rendered : Option (ℕ → Rgb)}
    (hpaint : (p.paint nowMs rendered).map Prod.fst = some p') : p'.Sound := by
  obtain ⟨q, sent, lit, hq, rfl, _, hsent, _⟩ := h.paint nowMs rendered
  rw [hq, Option.map_some, Option.some.injEq] at hpaint
  subst hpaint
  refine ⟨h.count_le, ?_, h.encode, h.blob⟩
  show p.frameLen ≤ (sent ++ p.frame.drop p.frameLen).length
  rw [List.length_append, hsent]
  exact Nat.le_add_right _ _

/-! ### One reload -/

theorem clampCount_le (c : Config) (maxCount : MaxCount) :
    (clampCount c maxCount).count.1 = min c.count.1 maxCount.1 := by
  unfold clampCount
  split
  · rename_i h
    rw [min_eq_left h]
  · rename_i h
    rw [min_eq_right (not_le.mp h).le]

/-- A clamp leaves all but the count alone. -/
theorem clampCount_frame (c : Config) (maxCount : MaxCount) :
    (clampCount c maxCount).encoding = c.encoding ∧
      (clampCount c maxCount).speedHz = c.speedHz ∧ (clampCount c maxCount).blob = c.blob := by
  unfold clampCount
  split <;> exact ⟨rfl, rfl, rfl⟩

theorem applyBlobGeometry_frame (c : Config) (blob : Option Frames) (maxCount : MaxCount) :
    (applyBlobGeometry c blob maxCount).encoding = c.encoding ∧
      (applyBlobGeometry c blob maxCount).speedHz = c.speedHz := by
  cases blob with
  | none => exact ⟨rfl, rfl⟩
  | some frames =>
      obtain ⟨henc, hspeed, _⟩ := clampCount_frame
        { c with count := ⟨frames.nleds, frames.nleds_range⟩, fps := clampFps frames.fps } maxCount
      exact ⟨henc, hspeed⟩

/-- With a blob the count is at most the blob's. -/
theorem applyBlobGeometry_le (c : Config) (frames : Frames) (maxCount : MaxCount) :
    (applyBlobGeometry c (some frames) maxCount).count.1 ≤ frames.nleds := by
  show (clampCount _ maxCount).count.1 ≤ frames.nleds
  rw [clampCount_le]
  exact min_le_left _ _

theorem latchBytes_le (speedHz : Speed) : latchBytes speedHz ≤ maxLatchBytes :=
  Nat.succ_le_succ (Nat.div_le_div_right (Nat.mul_le_mul_left _ speedHz.2.2))

theorem frameLen_le_capacity (c : Config) : frameLen c ≤ frameCapacity c :=
  Nat.add_le_add_left (latchBytes_le c.speedHz) _

/-- The count after the resize of the pixels. -/
theorem resizePixels_spec (p : Painter) (ok : Bool) :
    (resizePixels p ok).cfg = { p.cfg with count := if ok then p.cfg.count else p.pixelsLen } ∧
      (resizePixels p ok).pixelsLen = (resizePixels p ok).cfg.count ∧
      (resizePixels p ok).blob = p.blob ∧ (resizePixels p ok).frame = p.frame ∧
      (resizePixels p ok).maxCount = p.maxCount ∧
      (resizePixels p ok).requested = p.requested := by
  unfold resizePixels
  split
  · rename_i heq
    refine ⟨?_, heq.symm, rfl, rfl, rfl, rfl⟩
    rw [← heq, ite_self]
  · cases ok with
    | true => exact ⟨rfl, rfl, rfl, rfl, rfl, rfl⟩
    | false => exact ⟨rfl, rfl, rfl, rfl, rfl, rfl⟩

/-- After the resize of the frame it holds what it has to just when the resize worked or the
old one is long enough. -/
theorem resizeFrame_spec (p : Painter) (ok : Bool) :
    resizeFrame p ok = { p with frame := (resizeFrame p ok).frame } ∧
      (frameLen p.cfg ≤ (resizeFrame p ok).frame.length ↔
        ok = true ∨ frameLen p.cfg ≤ p.frame.length) := by
  have hcap := frameLen_le_capacity p.cfg
  unfold resizeFrame
  split
  · rename_i heq
    refine ⟨rfl, ?_⟩
    constructor
    · exact .inr
    · intro _
      omega
  · cases ok with
    | true =>
        refine ⟨rfl, fun _ => .inl rfl, fun _ => ?_⟩
        show frameLen p.cfg ≤ (_ ++ _ : Bytes).length
        rw [List.length_append, List.length_take, List.length_replicate]
        omega
    | false => exact ⟨rfl, fun h => .inr h, fun h => by simpa using h⟩

/-- What a reload has adopted before it comes to the buffers. -/
theorem adopt_spec {q : Painter} (h : p.adopt bufsiz r = some q) :
    q.pixelsLen = p.pixelsLen ∧ q.frame = p.frame ∧
      ∀ frames, q.blob = some frames → q.cfg.count.1 ≤ frames.nleds := by
  obtain ⟨⟨cfg, maxCount⟩, _, rfl⟩ := Option.map_eq_some_iff.mp h
  refine ⟨rfl, rfl, ?_⟩
  intro frames hblob
  have hblob' : refreshBlob cfg r.files = some frames := hblob
  show (applyBlobGeometry cfg (refreshBlob cfg r.files) maxCount).count.1 ≤ frames.nleds
  rw [hblob']
  exact applyBlobGeometry_le cfg frames maxCount

/-- The condition on a reload: pixels that can't be resized are no more than the LEDs of the
blob, if there is one, and a frame buffer that can't be resized is long enough. -/
def buffersSuffice (bufsiz : ℕ) (p : Painter) : PainterAct → Bool
  | .paint _ _ => true
  | .reload r =>
      match p.adopt bufsiz r with
      | none => true
      | some q =>
          (r.pixelsOk || q.blob.all fun frames => p.pixelsLen.1 ≤ frames.nleds) &&
          (r.frameOk || Bling.frameLen { q.cfg with
            count := if r.pixelsOk then q.cfg.count else p.pixelsLen } ≤ p.frame.length)

/-- **One reload** leaves a sound painter just when the buffers suffice. -/
theorem reload_sound_iff (h : p.reload bufsiz r = some p') :
    p'.Sound ↔ buffersSuffice bufsiz p (.reload r) = true := by
  obtain ⟨q, hq, rfl⟩ := Option.map_eq_some_iff.mp h
  obtain ⟨hpixels, hframe, hblob⟩ := adopt_spec hq
  obtain ⟨hcfg, hlen, hblob', hframe', _⟩ := resizePixels_spec q r.pixelsOk
  generalize resizePixels q r.pixelsOk = q₁ at hcfg hlen hblob' hframe' h
  obtain ⟨hq₂, hfits⟩ := resizeFrame_spec q₁ r.frameOk
  generalize hq₂' : resizeFrame q₁ r.frameOk = q₂ at hq₂ hfits h
  have hcfg₂ : q₂.cfg = q₁.cfg := by rw [hq₂]
  have hpixels₂ : q₂.pixelsLen = q₁.pixelsLen := by rw [hq₂]
  have hblob₂ : q₂.blob = q.blob := by rw [hq₂, ← hblob']
  simp only [buffersSuffice, hq, Bool.and_eq_true, Bool.or_eq_true, Option.all_eq_true,
    decide_eq_true_eq]
  rw [← hpixels, ← hcfg, ← hframe, ← hframe', ← hfits]
  -- what is left of `Sound` are the frame's length and the blob's
  constructor
  · intro hs
    refine ⟨?_, ?_⟩
    · by_cases hok : r.pixelsOk = true
      · exact .inl hok
      · right
        intro frames hf
        have hle := blob_fits_iff.mp (hs.blob frames (hblob₂.trans hf))
        have hcount : q₂.cfg.count = q.pixelsLen := by
          rw [hcfg₂, hcfg, if_neg hok]
        rwa [← hcount]
    · have hle := hs.frameLen_le
      rwa [hcfg₂] at hle
  · intro hboth
    obtain ⟨hpix, hfr⟩ := hboth
    refine ⟨?_, ?_, ?_, ?_⟩
    · show q₂.cfg.count.1 ≤ q₂.pixelsLen.1
      rw [hcfg₂, hpixels₂, hlen]
    · show Bling.frameLen q₂.cfg ≤ q₂.frame.length
      rw [hcfg₂]
      exact hfr
    · exact le_refl (Bling.frameLen q₂.cfg)
    · intro frames hf
      refine blob_fits_iff.mpr ?_
      show q₂.cfg.count.1 ≤ frames.nleds
      have hf' : q.blob = some frames := hblob₂.symm.trans hf
      rw [hcfg₂, hcfg]
      by_cases hok : r.pixelsOk = true
      · rw [if_pos hok]
        exact hblob frames hf'
      · rw [if_neg hok]
        exact (hpix.resolve_left hok) frames hf'

/-! ### Every run -/

variable {base runtime : Option Bytes} {files : Path → Option Bytes} {opens : Bool}
  {p₀ : Painter} {as : List PainterAct}

theorem start_cases (h : Painter.start bufsiz base runtime files opens = some p) :
    ∃ cfg maxCount, loadConfig base runtime = .ok cfg ∧
      maxCountForBufsiz bufsiz cfg.encoding.bytesPerLed = some maxCount ∧
      p.cfg = clampCount (applyBlobGeometry cfg (refreshBlob cfg files) maxCount) maxCount ∧
      p.maxCount = maxCount ∧ p.blob = refreshBlob cfg files ∧ p.pixelsLen = p.cfg.count ∧
      p.frame.length = frameCapacity p.cfg ∧ p.frameLen = Bling.frameLen p.cfg ∧
      p.requested = requestedCount cfg (refreshBlob cfg files) := by
  unfold Painter.start at h
  split at h
  · cases h
  · rename_i cfg hload
    obtain ⟨maxCount, hmax, rfl⟩ := Option.map_eq_some_iff.mp h
    exact ⟨cfg, maxCount, hload, hmax, rfl, rfl, rfl, rfl, List.length_replicate, rfl, rfl⟩

theorem start_sound (h : Painter.start bufsiz base runtime files opens = some p) : p.Sound := by
  obtain ⟨cfg, maxCount, _, _, hcfg, _, hblob, hpixels, hframe, hlen, _⟩ := start_cases h
  refine ⟨?_, ?_, ?_, ?_⟩
  · rw [hpixels]
  · rw [hlen, hframe]
    exact frameLen_le_capacity p.cfg
  · rw [hlen]
    exact le_refl _
  · intro frames hf
    refine blob_fits_iff.mpr ?_
    rw [hblob] at hf
    rw [hcfg, hf, clampCount_le]
    exact (min_le_left _ _).trans (applyBlobGeometry_le cfg frames maxCount)

theorem sound_of_run (hstart : Painter.start bufsiz base runtime files opens = some p₀)
    (h : RunWith (Painter.step bufsiz) (fun p a => buffersSuffice bufsiz p a = true) p₀ as p) :
    p.Sound := by
  refine h.invariant (fun p a p' hp hG hstep => ?_) (start_sound hstart)
  cases a with
  | reload r => exact (reload_sound_iff hstep).mpr hG
  | paint nowMs rendered => exact hp.after_paint hstep

/-- **The painter stays inside its buffers.**  In every run in which the buffers that a reload
can't resize suffice, every iteration has the pixels, the frame and the blob it uses, so no
slice and no assertion stops it. -/
theorem painter_sound (hstart : Painter.start bufsiz base runtime files opens = some p₀)
    (h : RunWith (Painter.step bufsiz) (fun p a => buffersSuffice bufsiz p a = true) p₀ as p) :
    p.Sound ∧ ∀ nowMs rendered, (p.paint nowMs rendered).isSome = true := by
  have hs := sound_of_run hstart h
  refine ⟨hs, fun nowMs rendered => ?_⟩
  obtain ⟨q, sent, lit, hpaint, _⟩ := hs.paint nowMs rendered
  rw [hpaint]
  rfl

/-- A reload to 100 LEDs, with the outcomes of the two resizes. -/
def hundredLeds (pixelsOk frameOk : Bool) : PainterAct :=
  .reload ⟨none, some (ascii "count = 100"), fun _ => none, false, pixelsOk, frameOk⟩

/-- A reload that gets its pixels but not its frame, after one that got both. -/
theorem painter_sound_resized :
    ∃ p₀ p, Painter.start 4096 none none (fun _ => none) false = some p₀ ∧
      RunWith (Painter.step 4096) (fun p a => buffersSuffice 4096 p a = true) p₀
        [hundredLeds true true, .paint 0 none, hundredLeds true false, .paint 500 none] p ∧
      p.Sound := by
  have hreplay : ((Painter.start 4096 none none (fun _ => none) false).any fun p₀ =>
      (runFromWith (Painter.step 4096) (buffersSuffice 4096) p₀
        [hundredLeds true true, .paint 0 none, hundredLeds true false, .paint 500 none]).isSome) =
      true := by decide +kernel
  obtain ⟨p₀, hstart, hrun⟩ := (Option.any_eq_true _ _).mp hreplay
  obtain ⟨p, hp⟩ := Option.isSome_iff_exists.mp hrun
  have hrun' := runWith_of_runFromWith hp
  exact ⟨p₀, p, hstart, hrun', (painter_sound hstart hrun').1⟩

/-- A frame buffer for 24 LEDs that can't be made longer is sliced past its end for 100. -/
theorem frame_resize_fails :
    ¬ ∀ (bufsiz : ℕ) (base runtime : Option Bytes) (files : Path → Option Bytes) (opens : Bool)
      (p₀ : Painter) (as : List PainterAct) (p : Painter),
      Painter.start bufsiz base runtime files opens = some p₀ →
      Run (Painter.step bufsiz) p₀ as p → p.Sound := by
  intro hclaim
  have hreplay : ((Painter.start 4096 none none (fun _ => none) false).any fun p₀ =>
      (runFrom (Painter.step 4096) p₀ [hundredLeds true false]).any fun p =>
        p.frame.length < p.frameLen) = true := by decide +kernel
  obtain ⟨p₀, hstart, hrun⟩ := (Option.any_eq_true _ _).mp hreplay
  obtain ⟨p, hp, hshort⟩ := (Option.any_eq_true _ _).mp hrun
  have hs := hclaim _ _ _ _ _ p₀ _ p hstart (run_of_runFrom hp)
  exact absurd hs.frameLen_le (not_le.mpr (of_decide_eq_true hshort))

end BadgeOS.Bling
