import BadgeOS.Bling.Config

/-!
# WS2812 frames and baked animations

The two formats of the LED painter: the SPI bytes of one frame, and the "BLED" file that a
baked animation comes from.

* `encodeFrame` — pixels as SPI bytes and a latch of zeros, with the assertion on the buffer;
* `Frames`, `load` — a validated animation; its invariant is what `load` checks;
* `length_frameAt` — every frame of it is whole, at any time.
-/

namespace BadgeOS.Bling

/-- A colour of one LED. -/
structure Rgb where
  r : UInt8
  g : UInt8
  b : UInt8
  deriving DecidableEq, Repr

/-- The bits of a byte, most significant first. -/
def msbFirst (value : UInt8) : List Bool :=
  [7, 6, 5, 4, 3, 2, 1, 0].map fun i => (value >>> i) &&& 1 ≠ 0

namespace Encoding

/-- SPI bytes of one LED. -/
def bytesPerLed : Encoding → ℕ
  | .three => 9
  | .four => 12
  | .eight => 24

/-- SPI bytes of one colour channel. -/
def bytesPerChannel (enc : Encoding) : ℕ := enc.bytesPerLed / 3

end Encoding

/-- `encodeChannel` -/
def encodeChannel (enc : Encoding) (value : UInt8) : Bytes :=
  match enc with
  | .three =>
      let acc := (msbFirst value).foldl (fun acc bit => acc * 8 + if bit then 0b110 else 0b100) 0
      [(acc / 2 ^ 16).toUInt8, (acc / 2 ^ 8).toUInt8, acc.toUInt8]
  | .four =>
      [0, 1, 2, 3].map fun i =>
        let hi : UInt8 := if (value >>> (7 - 2 * i)) &&& 1 ≠ 0 then 0x60 else 0
        let lo : UInt8 := if (value >>> (6 - 2 * i)) &&& 1 ≠ 0 then 0x06 else 0
        0x88 ||| hi ||| lo
  | .eight => (msbFirst value).map fun bit => if bit then 0xfc else 0x80

/-- One LED: green, red, blue. -/
def encodePixel (enc : Encoding) (px : Rgb) : Bytes :=
  encodeChannel enc px.g ++ encodeChannel enc px.r ++ encodeChannel enc px.b

/-- `encodeFrame` into the buffer `out`; `none` when its assertion fails. -/
def encodeFrame (enc : Encoding) (pixels : List Rgb) (latchBytes : ℕ) (out : Bytes) :
    Option Bytes :=
  let used := pixels.length * enc.bytesPerLed + latchBytes
  if used ≤ out.length then
    some (pixels.flatMap (encodePixel enc) ++ List.replicate latchBytes 0 ++ out.drop used)
  else none

example : encodeChannel .three 0xff = [0xdb, 0x6d, 0xb6] := by decide
example : encodeChannel .four 0x3c = [0x88, 0xee, 0xee, 0x88] := by decide
example : encodeChannel .eight 0x3c = [0x80, 0x80, 0xfc, 0xfc, 0xfc, 0xfc, 0x80, 0x80] := by decide

/-- `scaleChannel` -/
def scaleChannel (v : UInt8) (num : ℕ) : UInt8 := (v.toNat * num / 255).toUInt8

theorem length_encodeChannel (enc : Encoding) (value : UInt8) :
    (encodeChannel enc value).length = enc.bytesPerChannel := by
  cases enc <;> simp [encodeChannel, msbFirst, Encoding.bytesPerChannel, Encoding.bytesPerLed]

theorem length_encodePixels (enc : Encoding) (pixels : List Rgb) :
    (pixels.flatMap (encodePixel enc)).length = pixels.length * enc.bytesPerLed := by
  have hpixel : ∀ px, (encodePixel enc px).length = enc.bytesPerLed := by
    intro px
    simp only [encodePixel, List.length_append, length_encodeChannel]
    cases enc <;> rfl
  induction pixels with
  | nil => simp
  | cons px pixels ih =>
      rw [List.flatMap_cons, List.length_append, hpixel, ih, List.length_cons, Nat.succ_mul,
        Nat.add_comm]

/-- **A frame that fits its buffer**: the LEDs' bytes, the latch, and the rest of the buffer as
it was. -/
theorem encodeFrame_eq {enc : Encoding} {pixels : List Rgb} {latch : ℕ} {out : Bytes}
    (h : pixels.length * enc.bytesPerLed + latch ≤ out.length) :
    ∃ sent, encodeFrame enc pixels latch out = some sent ∧ sent.length = out.length ∧
      pixels.flatMap (encodePixel enc) ++ List.replicate latch 0 <+: sent := by
  refine ⟨_, if_pos h, ?_, List.prefix_append _ _⟩
  rw [List.length_append, List.length_append, length_encodePixels, List.length_replicate,
    List.length_drop]
  omega

/-! ### Baked animations -/

/-- `bled.bytes_per_led` -/
def blobBytesPerLed : ℕ := 3

/-- `bled.header_len` -/
def headerLen : ℕ := 12

/-- A mapped animation: what `load` has checked of it holds. -/
structure Frames where
  memory : Bytes
  nleds : ℕ
  fps : ℕ
  frames : ℕ
  nleds_range : 1 ≤ nleds ∧ nleds ≤ maxLeds
  fps_pos : 0 < fps
  frames_pos : 0 < frames
  whole : headerLen + frames * (nleds * blobBytesPerLed) ≤ memory.length

inductive LoadError
  | openFailed
  | tooSmall
  | mapFailed
  | badMagic
  | inconsistent
  deriving DecidableEq, Repr

/-- `std.mem.readInt` of some bytes, little-endian. -/
def readIntLittle (bytes : Bytes) : ℕ := bytes.foldr (fun b acc => b.toNat + 256 * acc) 0

/-- `bled.load` of a file that can be opened and mapped. -/
def load (memory : Bytes) : Except LoadError Frames :=
  if memory.length < headerLen then .error .tooSmall
  else if memory.take 4 ≠ ascii "BLED" then .error .badMagic
  else
    let nleds := readIntLittle ((memory.drop 4).take 2)
    let fps := readIntLittle ((memory.drop 6).take 2)
    let frames := readIntLittle ((memory.drop 8).take 4)
    if h : (1 ≤ nleds ∧ nleds ≤ maxLeds) ∧ 0 < fps ∧ 0 < frames ∧
        headerLen + frames * (nleds * blobBytesPerLed) ≤ memory.length then
      .ok ⟨memory, nleds, fps, frames, h.1, h.2.1, h.2.2.1, h.2.2.2⟩
    else .error .inconsistent

namespace Frames

/-- `frameLen` -/
def frameLen (f : Frames) : ℕ := f.nleds * blobBytesPerLed

/-- `frameAt` -/
def frameAt (f : Frames) (nowMs : ℕ) : Bytes :=
  let idx := (nowMs * f.fps / 1000) % f.frames
  (f.memory.drop (headerLen + idx * f.frameLen)).take f.frameLen

/-- `pixel` -/
def pixel (frame : Bytes) (i : ℕ) : Rgb :=
  let o := i * blobBytesPerLed
  ⟨frame.getD o 0, frame.getD (o + 1) 0, frame.getD (o + 2) 0⟩

/-- **A frame is whole**, whenever it is played. -/
theorem length_frameAt (f : Frames) (nowMs : ℕ) : (f.frameAt nowMs).length = f.frameLen := by
  have hidx : (nowMs * f.fps / 1000) % f.frames < f.frames := Nat.mod_lt _ f.frames_pos
  have hmul := Nat.mul_le_mul_right f.frameLen (Nat.succ_le_of_lt hidx)
  have hwhole : headerLen + f.frames * f.frameLen ≤ f.memory.length := f.whole
  rw [Nat.succ_mul] at hmul
  rw [frameAt, List.length_take, List.length_drop]
  omega

end Frames

end BadgeOS.Bling
