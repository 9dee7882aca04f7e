import BadgeOS.Bling.Blob
import BadgeOS.Bling.Run
import BadgeOS.Bling.Waveform
import BadgeOS.Content.Bake
import Mathlib

/-!
# Rings that are built in Nix

`leds.nix` builds the "BLED" blob of a list of rings of colours, which are any integers and are
clamped.  From there to the LED chain: the bake, the loader, the painter and the waveform.

* `clamp8`, `wheel`, `bledBytes` — the functions;
* `bake_bledHex` — what is baked;
* `valid_baked_iff` — what loads of it;
* `baked_ring` — the pulses that a painter sends.
-/

namespace BadgeOS.Bling

open Content.Bake

/-! ### The builder -/

/-- A colour in Nix. -/
structure Colour where
  r : ℤ
  g : ℤ
  b : ℤ
  deriving DecidableEq, Repr

def clamp8 (x : ℤ) : ℕ := if x < 0 then 0 else if 255 < x then 255 else x.toNat

/-- A hue from 0 to 255 on the colour wheel. -/
def wheel (pos : ℕ) : Colour :=
  let p : ℤ := mod pos 256
  if p < 85 then ⟨255 - p * 3, p * 3, 0⟩
  else if p < 170 then
    let q := p - 85
    ⟨0, 255 - q * 3, q * 3⟩
  else
    let q := p - 170
    ⟨q * 3, 0, 255 - q * 3⟩

/-- A ring animation: the colours of every frame. -/
structure RingSpec where
  nleds : ℕ
  fps : ℕ
  frames : List (List Colour)

/-- The bytes of a frame. -/
def ringBytes (leds : List Colour) : List ℕ :=
  leds.flatMap fun c => [clamp8 c.r, clamp8 c.g, clamp8 c.b]

/-- The whole blob. -/
def bledBytes (s : RingSpec) : List ℕ :=
  [66, 76, 69, 68] ++ u16 s.nleds ++ u16 s.fps ++ u32 s.frames.length ++ s.frames.flatMap ringBytes

def bledHex (s : RingSpec) : List Char := hex (bledBytes s)

/-- Every frame has a colour for each LED, as the builder asks. -/
def RingSpec.Even (s : RingSpec) : Prop := ∀ leds ∈ s.frames, leds.length = s.nleds

/-! ### The bytes -/

theorem clamp8_lt (x : ℤ) : clamp8 x < 256 := by
  unfold clamp8
  split_ifs <;> omega

/-- The wheel needs no clamp, and every hue is as bright as every other. -/
theorem wheel_sum (pos : ℕ) : 0 ≤ (wheel pos).r ∧ 0 ≤ (wheel pos).g ∧ 0 ≤ (wheel pos).b ∧
    (wheel pos).r + (wheel pos).g + (wheel pos).b = 255 := by
  have hlt : mod pos 256 < 256 := by
    rw [mod_eq]
    exact Nat.mod_lt _ (by decide)
  unfold wheel
  dsimp only
  split_ifs
  · dsimp only
    omega
  · dsimp only
    omega
  · dsimp only
    omega

theorem length_ringBytes (leds : List Colour) : (ringBytes leds).length = leds.length * 3 := by
  induction leds with
  | nil => rfl
  | cons c leds ih =>
      have hcons : ringBytes (c :: leds) =
          [clamp8 c.r, clamp8 c.g, clamp8 c.b] ++ ringBytes leds := rfl
      rw [hcons, List.length_append, ih]
      simp only [List.length_cons, List.length_nil]
      ring

theorem ringBytes_lt (leds : List Colour) : ∀ b ∈ ringBytes leds, b < 256 := by
  intro b hb
  obtain ⟨c, -, hb⟩ := List.mem_flatMap.mp hb
  simp only [List.mem_cons, List.not_mem_nil, or_false] at hb
  rcases hb with rfl | rfl | rfl
  · exact clamp8_lt _
  · exact clamp8_lt _
  · exact clamp8_lt _

theorem bledBytes_lt (s : RingSpec) : ∀ b ∈ bledBytes s, b < 256 := by
  intro b hb
  simp only [bledBytes, List.mem_append] at hb
  rcases hb with (((hb | hb) | hb) | hb) | hb
  · revert b
    decide
  · exact u16_lt _ b hb
  · exact u16_lt _ b hb
  · exact u32_lt _ b hb
  · obtain ⟨leds, -, hb⟩ := List.mem_flatMap.mp hb
    exact ringBytes_lt leds b hb

/-- The frames behind the header. -/
def ringFrames (s : RingSpec) : List Bytes := s.frames.map fun leds => toBytes (ringBytes leds)

theorem toBytes_bledBytes (s : RingSpec) : toBytes (bledBytes s) = [66, 76, 69, 68] ++
    (toBytes (u16 s.nleds) ++ (toBytes (u16 s.fps) ++ (toBytes (u32 s.frames.length) ++
      (ringFrames s).flatten))) := by
  rw [bledBytes, ringFrames, ← List.flatMap_def]
  simp only [toBytes, List.map_append, List.append_assoc, List.map_flatMap]
  rfl

theorem length_ringFrames {s : RingSpec} (heven : s.Even) :
    ∀ l ∈ ringFrames s, l.length = s.nleds * 3 := by
  intro l hl
  obtain ⟨leds, hleds, rfl⟩ := List.mem_map.mp hl
  rw [toBytes, List.length_map, length_ringBytes, heven leds hleds]

theorem length_bledBytes {s : RingSpec} (heven : s.Even) :
    (toBytes (bledBytes s)).length = 12 + s.frames.length * s.nleds * 3 := by
  have hflat : (ringFrames s).flatten.length = s.frames.length * (s.nleds * 3) := by
    rw [List.length_flatten, List.map_congr_left (length_ringFrames heven), List.map_const',
      List.sum_replicate, smul_eq_mul, ringFrames, List.length_map]
  have hheader (n : ℕ) : (toBytes (u16 n)).length = 2 ∧ (toBytes (u32 n)).length = 4 := ⟨rfl, rfl⟩
  rw [toBytes_bledBytes]
  simp only [List.length_append, hflat, (hheader _).1, (hheader _).2, List.length_cons,
    List.length_nil]
  ring

/-! ### The bake -/

theorem od_bledBytes (s : RingSpec) : od (toBytes (bledBytes s)) 4 2 = s.nleds % 2 ^ 16 ∧
    od (toBytes (bledBytes s)) 6 2 = s.fps % 2 ^ 16 ∧
    od (toBytes (bledBytes s)) 8 4 = s.frames.length % 2 ^ 32 := by
  rw [toBytes_bledBytes]
  refine ⟨od_u16 rfl _ _, ?_, ?_⟩
  · rw [← List.append_assoc]
    exact od_u16 rfl _ _
  · rw [← List.append_assoc, ← List.append_assoc]
    exact od_u32 rfl _ _

theorem want_bledBytes (s : RingSpec) : want (toBytes (bledBytes s)) =
    .ok (12 + s.frames.length % 2 ^ 32 * (s.nleds % 2 ^ 16) * 3) := by
  obtain ⟨hnleds, -, hcount⟩ := od_bledBytes s
  have hmagic : (toBytes (bledBytes s)).take 4 = [66, 76, 69, 68] := by
    rw [toBytes_bledBytes]
    exact List.take_left' rfl
  rw [want]
  dsimp only
  rw [hmagic, if_neg (by decide), if_pos rfl, hnleds, hcount]

/-- **The bake** of a ring: its bytes, if the numbers in its header are whole. -/
theorem bake_bledHex {s : RingSpec} (heven : s.Even) :
    (∃ blob, bake (bledHex s) = .ok blob) ↔
      s.frames.length * s.nleds = 0 ∨ s.frames.length < 2 ^ 32 ∧ s.nleds < 2 ^ 16 := by
  have hsize : (∃ blob, bake (bledHex s) = .ok blob) ↔
      s.frames.length % 2 ^ 32 * (s.nleds % 2 ^ 16) * 1 = s.frames.length * s.nleds * 1 := by
    rw [bledHex, bake_hex_iff (bledBytes_lt s) (want_bledBytes s), length_bledBytes heven]
    omega
  rw [hsize]
  by_cases hzero : s.frames.length * s.nleds = 0
  · refine iff_of_true ?_ (.inl hzero)
    have hle : s.frames.length % 2 ^ 32 * (s.nleds % 2 ^ 16) ≤ s.frames.length * s.nleds :=
      Nat.mul_le_mul (Nat.mod_le _ _) (Nat.mod_le _ _)
    omega
  · rw [product_eq_iff (Nat.mod_le _ _) (Nat.mod_le _ _) le_rfl (by omega), or_iff_right hzero]
    omega

/-! ### What loads -/

variable {s : RingSpec} {blob : Bytes}

theorem blob_eq (hbake : bake (bledHex s) = .ok blob) : blob = toBytes (bledBytes s) :=
  baked_bytes (bledBytes_lt s) hbake

/-- The header of what is baked. -/
theorem header_baked (heven : s.Even) (hbake : bake (bledHex s) = .ok blob)
    (hpos : s.frames.length * s.nleds ≠ 0) :
    header blob = ⟨s.nleds, s.fps % 2 ^ 16, s.frames.length⟩ := by
  obtain ⟨hcount, hnleds⟩ := ((bake_bledHex heven).mp ⟨blob, hbake⟩).resolve_left hpos
  obtain ⟨h4, h6, h8⟩ := od_bledBytes s
  rw [Nat.mod_eq_of_lt hnleds] at h4
  rw [Nat.mod_eq_of_lt hcount] at h8
  rw [blob_eq hbake]
  exact congr (congr (congrArg Header.mk h4) h6) h8

/-- **What loads** of what is baked. -/
theorem valid_baked_iff (heven : s.Even) (hbake : bake (bledHex s) = .ok blob) :
    Valid blob ↔ 1 ≤ s.nleds ∧ s.nleds ≤ 1024 ∧ s.fps % 2 ^ 16 ≠ 0 ∧ s.frames ≠ [] := by
  have hmagic : blob.take 4 = ascii "BLED" := by
    rw [blob_eq hbake, toBytes_bledBytes]
    exact List.take_left' rfl
  by_cases hpos : s.frames.length * s.nleds = 0
  · -- a header with a zero
    obtain ⟨h4, -, h8⟩ := od_bledBytes s
    rw [← blob_eq hbake] at h4 h8
    refine iff_of_false (fun h => ?_) (fun h => ?_)
    · have hnleds : 1 ≤ od blob 4 2 := h.2.1
      have hframes : od blob 8 4 ≠ 0 := h.2.2.2.2.1
      rw [h4] at hnleds
      rw [h8] at hframes
      rcases Nat.mul_eq_zero.mp hpos with hzero | hzero
      · exact hframes (by rw [hzero, Nat.zero_mod])
      · rw [hzero] at hnleds
        exact absurd hnleds (by decide)
    · have hcount := List.length_pos_iff.mpr h.2.2.2
      have := Nat.mul_pos hcount h.1
      omega
  · have hheader := header_baked heven hbake hpos
    have hlen := length_bledBytes heven
    rw [← blob_eq hbake] at hlen
    rw [Valid, hheader, hlen, ← List.length_pos_iff]
    dsimp only
    constructor
    · rintro ⟨-, h1, h2, h3, h4, -⟩
      exact ⟨h1, h2, h3, by omega⟩
    · rintro ⟨h1, h2, h3, h4⟩
      exact ⟨hmagic, h1, h2, h3, by omega, le_rfl⟩

/-- What is valid loads. -/
theorem load_of_valid {memory : Bytes} (h : Valid memory) : ∃ f, load memory = .ok f := by
  obtain ⟨hmagic, h1, h2, h3, h4, h5⟩ := h
  rw [Nat.mul_assoc] at h5
  have hfields : (1 ≤ readIntLittle ((memory.drop 4).take 2) ∧
      readIntLittle ((memory.drop 4).take 2) ≤ maxLeds) ∧
      0 < readIntLittle ((memory.drop 6).take 2) ∧ 0 < readIntLittle ((memory.drop 8).take 4) ∧
      headerLen + readIntLittle ((memory.drop 8).take 4) *
        (readIntLittle ((memory.drop 4).take 2) * blobBytesPerLed) ≤ memory.length :=
    ⟨⟨h1, h2⟩, Nat.pos_of_ne_zero h3, Nat.pos_of_ne_zero h4, h5⟩
  have hlen : ¬ memory.length < headerLen := by
    have := hfields.2.2.2
    omega
  rw [load, if_neg hlen, if_neg (not_not.mpr hmagic)]
  dsimp only
  rw [dif_pos hfields]
  exact ⟨_, rfl⟩

/-! ### The pixels -/

/-- A colour as an LED has it. -/
def Colour.rgb (c : Colour) : Rgb :=
  ⟨UInt8.ofNat (clamp8 c.r), UInt8.ofNat (clamp8 c.g), UInt8.ofNat (clamp8 c.b)⟩

/-- ... and as it is painted. -/
def Rgb.scaled (brightness : Brightness) (px : Rgb) : Rgb :=
  ⟨scaleChannel px.r brightness, scaleChannel px.g brightness, scaleChannel px.b brightness⟩

theorem pixel_ringBytes {leds : List Colour} {i : ℕ} (hi : i < leds.length) :
    Frames.pixel (toBytes (ringBytes leds)) i = leds[i].rgb := by
  induction leds generalizing i with
  | nil => cases hi
  | cons c leds ih =>
      cases i with
      | zero => rfl
      | succ i =>
          have hrest := ih (Nat.lt_of_succ_lt_succ hi)
          rw [List.getElem_cons_succ, ← hrest]
          have hcons : toBytes (ringBytes (c :: leds)) =
              [UInt8.ofNat (clamp8 c.r), UInt8.ofNat (clamp8 c.g), UInt8.ofNat (clamp8 c.b)] ++
                toBytes (ringBytes leds) := rfl
          have hnext : (i + 1) * blobBytesPerLed = i * blobBytesPerLed + 3 := Nat.succ_mul _ _
          rw [Frames.pixel, Frames.pixel, hcons, hnext]
          rfl

/-- A frame of what was baked, in the loaded animation. -/
theorem frameAt_baked (heven : s.Even) (hbake : bake (bledHex s) = .ok blob) {f : Frames}
    (hf : load blob = .ok f) (nowMs : ℕ) : f.nleds = s.nleds ∧
      ∃ k, ∃ hk : k < s.frames.length, k = nowMs * (s.fps % 2 ^ 16) / 1000 % s.frames.length ∧
        f.frameAt nowMs = toBytes (ringBytes s.frames[k]) := by
  obtain ⟨hload, hmemory⟩ := load_ok hf
  obtain ⟨hvalid, hheader⟩ := (loadChecked_ok_iff blob _).mp hload
  obtain ⟨hnleds, -, -, hframes⟩ := (valid_baked_iff heven hbake).mp hvalid
  have hcount := List.length_pos_iff.mpr hframes
  rw [header_baked heven hbake (Nat.mul_pos hcount hnleds).ne', Header.mk.injEq] at hheader
  obtain ⟨hn, hfps, hlen⟩ := hheader
  have hk : nowMs * (s.fps % 2 ^ 16) / 1000 % s.frames.length < s.frames.length :=
    Nat.mod_lt _ hcount
  refine ⟨hn, _, hk, rfl, ?_⟩
  have hk' : nowMs * (s.fps % 2 ^ 16) / 1000 % s.frames.length < (ringFrames s).length := by
    rwa [ringFrames, List.length_map]
  have hbody : blob.drop headerLen = (ringFrames s).flatten := by
    rw [blob_eq hbake, toBytes_bledBytes, ← List.append_assoc, ← List.append_assoc,
      ← List.append_assoc]
    exact List.drop_left' rfl
  rw [Frames.frameAt, Frames.frameLen, hmemory, hn, hfps, hlen, ← List.drop_drop, hbody,
    blobBytesPerLed, Packing.slice_flatten (length_ringFrames heven) hk']
  simp only [ringFrames, List.getElem_map]

theorem bits_zeros (n : ℕ) :
    (List.replicate n (0 : UInt8)).flatMap msbFirst = List.replicate (8 * n) false := by
  induction n with
  | zero => rfl
  | succ n ih =>
      have hbits : msbFirst 0 = List.replicate 8 false := by decide
      rw [List.replicate_succ, List.flatMap_cons, ih, hbits, List.replicate_append_replicate,
        Nat.mul_succ, Nat.add_comm]

/-- **From Nix to the ring.**  What is baked of a ring loads just when it has at most 1024 LEDs, a
rate that the header holds and a frame; and then a sound painter that plays it sends, at any time,
the pulses of the clamped and scaled colours of the frame of the clock, one LED after the other,
and the latch's zeros. -/
theorem baked_ring (s : RingSpec) (heven : s.Even) (blob : Bytes)
    (hbake : bake (bledHex s) = .ok blob) :
    ((∃ f, load blob = .ok f) ↔
      1 ≤ s.nleds ∧ s.nleds ≤ 1024 ∧ s.fps % 2 ^ 16 ≠ 0 ∧ s.frames ≠ []) ∧
    ∀ f, load blob = .ok f → ∀ p : Painter, p.Sound → p.blob = some f → p.evalPat = false →
      ∀ nowMs rendered, ∃ q sent k, ∃ hk : k < s.frames.length,
        k = nowMs * (s.fps % 2 ^ 16) / 1000 % s.frames.length ∧
        p.paint nowMs rendered = some (q, sent) ∧ p.cfg.count ≤ s.nleds ∧
        ((grb ((s.frames[k].take p.cfg.count).map fun c =>
            c.rgb.scaled p.cfg.brightness)).flatMap msbFirst).flatMap (pulse p.cfg.encoding) ++
          List.replicate (8 * latchBytes p.cfg.speedHz) false <+: sent.flatMap msbFirst := by
  constructor
  · rw [← valid_baked_iff heven hbake]
    refine ⟨?_, load_of_valid⟩
    rintro ⟨f, hf⟩
    exact ((loadChecked_ok_iff blob _).mp (load_ok hf).1).1
  · intro f hf p hsound hblob heval nowMs rendered
    obtain ⟨hn, k, hk, hclock, hframe⟩ := frameAt_baked heven hbake hf nowMs
    have hcount : p.cfg.count ≤ s.nleds := by
      rw [← hn]
      exact blob_fits_iff.mp (hsound.blob f hblob)
    have hleds : s.frames[k].length = s.nleds := heven _ (List.getElem_mem hk)
    have hpainted : p.lit nowMs rendered = some ((s.frames[k].take p.cfg.count).map fun c =>
        c.rgb.scaled p.cfg.brightness) := by
      have hsource : p.lit nowMs rendered =
          paintBlobFrame f nowMs p.cfg.brightness p.cfg.count := by
        unfold Painter.lit
        rw [heval, hblob]
      rw [hsource, paintBlobFrame]
      dsimp only
      rw [if_pos (hsound.blob f hblob nowMs), hframe]
      refine congrArg some (List.ext_getElem (by simp; omega) fun i hi hi' => ?_)
      rw [List.length_map, List.length_range] at hi
      simp only [List.getElem_map, List.getElem_range, List.getElem_take]
      rw [pixel_ringBytes (by omega)]
      rfl
    -- the frame is sent behind the checks of a sound painter
    generalize hlit : ((s.frames[k].take p.cfg.count).map fun c =>
      c.rgb.scaled p.cfg.brightness) = lit at hpainted
    have hlen : lit.length = p.cfg.count := by
      rw [← hlit, List.length_map, List.length_take]
      omega
    have htake : (p.frame.take p.frameLen).length = p.frameLen := by
      rw [List.length_take, Nat.min_eq_left hsound.frameLen_le]
    have hfits : lit.length * p.cfg.encoding.bytesPerLed + latchBytes p.cfg.speedHz ≤
        (p.frame.take p.frameLen).length := by
      rw [hlen, htake]
      exact hsound.encode
    obtain ⟨sent, hsent, -, rest, hrest⟩ := encodeFrame_eq hfits
    have hpaint : p.paint nowMs rendered =
        some ({ p with evalPat := p.evalPat && rendered.isSome
                       frame := sent ++ p.frame.drop p.frameLen }, sent) := by
      rw [Painter.paint, if_pos ⟨hsound.count_le, hsound.frameLen_le⟩, hpainted, Option.bind_some,
        hsent, Option.map_some]
    refine ⟨_, sent, k, hk, hclock, hpaint, hcount, ?_⟩
    rw [hlit, ← hrest, List.flatMap_append, List.flatMap_append, bits_encodePixels, bits_zeros]
    exact List.prefix_append _ _

/-- A painter that plays an animation. -/
def playing (f : Frames) : Painter :=
  let cfg : Config := { Config.default with count := ⟨f.nleds, f.nleds_range⟩ }
  { cfg, maxCount := ⟨maxLeds, by decide⟩, blob := some f, evalPat := false, pixelsLen := cfg.count
    frame := List.replicate (frameCapacity cfg) 0, frameLen := Bling.frameLen cfg
    requested := cfg.count }

theorem playing_sound (f : Frames) : (playing f).Sound where
  count_le := le_rfl
  frameLen_le := by
    have hlen : (playing f).frame.length = frameCapacity (playing f).cfg := List.length_replicate
    rw [hlen]
    exact frameLen_le_capacity _
  encode := le_rfl
  blob := by
    intro frames h
    obtain rfl : f = frames := Option.some.inj h
    exact blob_fits_iff.mpr le_rfl

/-- One LED, in a colour that no byte holds. -/
def oneLed : RingSpec := ⟨1, 30, [[⟨300, -1, 7⟩]]⟩

theorem baked_ring_one : ∃ blob f q sent, bake (bledHex oneLed) = .ok blob ∧ load blob = .ok f ∧
    (playing f).paint 0 none = some (q, sent) ∧
    ((grb [Rgb.scaled Config.default.brightness ⟨255, 0, 7⟩]).flatMap msbFirst).flatMap
      (pulse Config.default.encoding) <+: sent.flatMap msbFirst := by
  have heven : oneLed.Even := by
    intro leds hleds
    rw [List.mem_singleton.mp hleds]
    rfl
  obtain ⟨blob, hblob⟩ := (bake_bledHex heven).mpr (.inr ⟨by decide, by decide⟩)
  have hring := baked_ring oneLed heven blob hblob
  obtain ⟨f, hf⟩ := hring.1.mpr ⟨by decide, by decide, by decide, by decide⟩
  obtain ⟨q, sent, k, hk, -, hpaint, hcount, hsent⟩ :=
    hring.2 f hf (playing f) (playing_sound f) rfl rfl 0 none
  obtain rfl : k = 0 := Nat.lt_one_iff.mp hk
  have hone : ((playing f).cfg.count : ℕ) = 1 := le_antisymm hcount (playing f).cfg.count.2.1
  rw [hone] at hsent
  exact ⟨blob, f, q, sent, hblob, hf, hpaint, (List.prefix_append _ _).trans hsent⟩

end BadgeOS.Bling
