import BadgeOS.Lib.Text
import BadgeOS.Bling.Frames
import Mathlib

/-!
# The waveform of a frame

Every LED bit is a pulse: a run of high SPI bits, then low ones until the bits of an LED bit are
full.  A 0 has a short run and a 1 a long one.  A frame is written channel by channel into slices
of a buffer, at offsets that one size function gives, of lengths that the other gives.

* `pulse`, `bits_encodeChannel` — a channel's SPI bits are the pulses of its bits;
* `encodeFrameInto` — `encodeFrame` slice by slice, and `encodeFrameInto_eq`, what it writes;
* `frame_decodes` — a frame, cut into pulses and read back;
* `logClock`, `logClock_right_iff` — when the timing report describes these pulses.
-/

namespace BadgeOS.Bling

/-! ### Pulses -/

/-- How many SPI bits of an LED bit are high. -/
def highBits (enc : Encoding) (bit : Bool) : ℕ :=
  if bit then
    match enc with
    | .three => 2
    | .four => 3
    | .eight => 6
  else 1

/-- The SPI bits of an LED bit. -/
def pulse (enc : Encoding) (bit : Bool) : List Bool :=
  List.replicate (highBits enc bit) true ++ List.replicate (enc.bits - highBits enc bit) false

/-- The run of high bits that a group starts with. -/
def run (group : List Bool) : ℕ := (group.takeWhile id).length

/-- A run of high bits, and then low ones, at least one of each. -/
def Pulse (group : List Bool) : Prop :=
  0 < run group ∧ run group < group.length ∧
    group = List.replicate (run group) true ++ List.replicate (group.length - run group) false

theorem highBits_range (enc : Encoding) (bit : Bool) :
    0 < highBits enc bit ∧ highBits enc bit < enc.bits := by
  cases enc <;> cases bit <;> decide

theorem length_pulse (enc : Encoding) (bit : Bool) : (pulse enc bit).length = enc.bits := by
  have hrange := highBits_range enc bit
  rw [pulse, List.length_append, List.length_replicate, List.length_replicate]
  omega

theorem run_pulse (enc : Encoding) (bit : Bool) : run (pulse enc bit) = highBits enc bit := by
  cases enc <;> cases bit <;> decide

theorem pulse_pulse (enc : Encoding) (bit : Bool) : Pulse (pulse enc bit) := by
  have hrange := highBits_range enc bit
  rw [Pulse, run_pulse, length_pulse]
  exact ⟨hrange.1, hrange.2, rfl⟩

/-- The two runs differ. -/
theorem run_pulse_eq_iff (enc : Encoding) (bit : Bool) :
    run (pulse enc bit) = highBits enc true ↔ bit = true := by
  cases enc <;> cases bit <;> decide

/-- The low `w` bits of a number, most significant first. -/
def msbBits : (w : ℕ) → ℕ → List Bool
  | 0, _ => []
  | w + 1, n => n.testBit w :: msbBits w n

theorem msbBits_congr {w n m : ℕ} (h : ∀ i < w, n.testBit i = m.testBit i) :
    msbBits w n = msbBits w m := by
  induction w with
  | zero => rfl
  | succ w ih =>
      rw [msbBits, msbBits, h w (Nat.lt_succ_self w), ih fun i hi => h i (Nat.lt_succ_of_lt hi)]

theorem msbBits_mod (w n : ℕ) : msbBits w (n % 2 ^ w) = msbBits w n :=
  msbBits_congr fun i hi => by rw [Nat.testBit_mod_two_pow, decide_eq_true hi, Bool.true_and]

theorem msbBits_append (w k n : ℕ) {t : ℕ} (ht : t < 2 ^ k) :
    msbBits (w + k) (2 ^ k * n + t) = msbBits w n ++ msbBits k t := by
  induction w with
  | zero =>
      rw [Nat.zero_add, msbBits, List.nil_append]
      exact msbBits_congr fun i hi => by rw [Nat.testBit_two_pow_mul_add n ht, if_pos hi]
  | succ w ih =>
      rw [Nat.add_right_comm, msbBits, ih, msbBits, Nat.testBit_two_pow_mul_add n ht,
        if_neg (by omega), Nat.add_sub_cancel, List.cons_append]

theorem bit_eq_testBit (value : UInt8) {i : UInt8} (hi : i < 8) :
    decide ((value >>> i) &&& 1 ≠ 0) = value.toNat.testBit i.toNat := by
  have hmod : i.toNat % 8 = i.toNat := Nat.mod_eq_of_lt hi
  rw [Bool.eq_iff_iff, decide_eq_true_iff, Ne, ← UInt8.toNat_inj, UInt8.toNat_and,
    UInt8.toNat_shiftRight, hmod, Nat.testBit, bne_iff_ne, Nat.land_comm]
  rfl

theorem msbFirst_eq (value : UInt8) : msbFirst value = msbBits 8 value.toNat := by
  have h7 := bit_eq_testBit value (i := 7) (by decide)
  have h6 := bit_eq_testBit value (i := 6) (by decide)
  have h5 := bit_eq_testBit value (i := 5) (by decide)
  have h4 := bit_eq_testBit value (i := 4) (by decide)
  have h3 := bit_eq_testBit value (i := 3) (by decide)
  have h2 := bit_eq_testBit value (i := 2) (by decide)
  have h1 := bit_eq_testBit value (i := 1) (by decide)
  have h0 := bit_eq_testBit value (i := 0) (by decide)
  simp only [msbFirst, List.map_cons, List.map_nil, h7, h6, h5, h4, h3, h2, h1, h0]
  rfl

theorem msbFirst_toUInt8 (n : ℕ) : msbFirst n.toUInt8 = msbBits 8 n := by
  rw [msbFirst_eq, ← msbBits_mod 8 n]
  rfl

/-- Three bytes of a number are its 24 bits. -/
theorem bits_bytes (n : ℕ) :
    [(n / 2 ^ 16).toUInt8, (n / 2 ^ 8).toUInt8, n.toUInt8].flatMap msbFirst = msbBits 24 n := by
  have hlow : n = 2 ^ 8 * (n / 2 ^ 8) + n % 2 ^ 8 := (Nat.div_add_mod n _).symm
  have hmid : n / 2 ^ 8 = 2 ^ 8 * (n / 2 ^ 16) + n / 2 ^ 8 % 2 ^ 8 := by omega
  have hsplit : msbBits 24 n = msbBits 16 (n / 2 ^ 8) ++ msbBits 8 (n % 2 ^ 8) := by
    conv_lhs => rw [hlow]
    exact msbBits_append 16 8 _ (Nat.mod_lt _ (by norm_num))
  have hhigh : msbBits 16 (n / 2 ^ 8) =
      msbBits 8 (n / 2 ^ 16) ++ msbBits 8 (n / 2 ^ 8 % 2 ^ 8) := by
    conv_lhs => rw [hmid]
    exact msbBits_append 8 8 _ (Nat.mod_lt _ (by norm_num))
  simp only [List.flatMap_cons, List.flatMap_nil, List.append_nil, msbFirst_toUInt8]
  rw [hsplit, hhigh, msbBits_mod, msbBits_mod, List.append_assoc]

/-- The accumulator holds three bits of every LED bit. -/
theorem bits_three (bits : List Bool) :
    msbBits (bits.length * 3) (bits.foldl (fun acc bit => acc * 8 + if bit then 0b110 else 0b100) 0)
      = bits.flatMap (pulse .three) := by
  induction bits using List.reverseRecOn with
  | nil => rfl
  | append_singleton bits bit ih =>
      have hbit : (if bit then 0b110 else 0b100) < 2 ^ 3 := by cases bit <;> decide
      rw [List.foldl_append, List.length_append, Nat.add_mul, List.flatMap_append, ← ih,
        List.foldl_cons, List.foldl_nil, Nat.mul_comm _ 8]
      rw [show (8 : ℕ) = 2 ^ 3 from rfl]
      refine (msbBits_append _ 3 _ hbit).trans ?_
      congr 1
      cases bit <;> decide

/-- One SPI byte is one LED bit. -/
theorem bits_eight (bit : Bool) : msbFirst (if bit then 0xfc else 0x80) = pulse .eight bit := by
  cases bit <;> decide

/-- One SPI byte is two LED bits. -/
theorem bits_four (hi lo : Bool) :
    msbFirst (0x88 ||| (if hi then 0x60 else 0) ||| (if lo then 0x06 else 0)) =
      pulse .four hi ++ pulse .four lo := by
  cases hi <;> cases lo <;> decide

/-- **A channel** is the pulses of its bits. -/
theorem bits_encodeChannel (enc : Encoding) (value : UInt8) :
    (encodeChannel enc value).flatMap msbFirst = (msbFirst value).flatMap (pulse enc) := by
  cases enc with
  | three =>
      rw [encodeChannel]
      exact (bits_bytes _).trans (bits_three (msbFirst value))
  | four =>
      have hpair (i : UInt8) := bits_four (decide ((value >>> (7 - 2 * i)) &&& 1 ≠ 0))
        (decide ((value >>> (6 - 2 * i)) &&& 1 ≠ 0))
      simp only [decide_eq_true_eq] at hpair
      rw [encodeChannel, msbFirst]
      simp only [List.map_cons, List.map_nil, List.flatMap_cons, List.flatMap_nil, List.append_nil,
        hpair, List.append_assoc]
      rfl
  | eight =>
      rw [encodeChannel, List.flatMap_map]
      exact List.flatMap_congr fun bit _ => bits_eight bit

/-- The colour bytes of the pixels, in the order they go out. -/
def grb (pixels : List Rgb) : Bytes := pixels.flatMap fun px => [px.g, px.r, px.b]

theorem bits_encodePixels (enc : Encoding) (pixels : List Rgb) :
    (pixels.flatMap (encodePixel enc)).flatMap msbFirst =
      ((grb pixels).flatMap msbFirst).flatMap (pulse enc) := by
  induction pixels with
  | nil => rfl
  | cons px pixels ih =>
      have hgrb : grb (px :: pixels) = [px.g, px.r, px.b] ++ grb pixels := rfl
      rw [List.flatMap_cons, List.flatMap_append, ih, hgrb, List.flatMap_append,
        List.flatMap_append, encodePixel, List.flatMap_append, List.flatMap_append]
      simp only [bits_encodeChannel, List.flatMap_cons, List.flatMap_nil, List.append_nil,
        List.flatMap_append, List.append_assoc]

/-! ### Slices of a buffer -/

/-- A slice of the buffer at `off` is filled. -/
def store (out : Bytes) (off : ℕ) (bytes : Bytes) : Option Bytes :=
  if off + bytes.length ≤ out.length then
    some (out.take off ++ bytes ++ out.drop (off + bytes.length))
  else none

/-- `encodeChannel` into the slice of `bytesPerChannel` bytes at `off`, whose length it
asserts. -/
def channelInto (enc : Encoding) (value : UInt8) (off : ℕ) (out : Bytes) : Option Bytes :=
  if enc.bytesPerChannel = (encodeChannel enc value).length then
    store out off (encodeChannel enc value)
  else none

/-- The loop of `encodeFrame`, from pixel `i` on. -/
def pixelsInto (enc : Encoding) : List Rgb → (i : ℕ) → Bytes → Option Bytes
  | [], _, out => some out
  | px :: pixels, i, out => do
      let p := i * enc.bytesPerLed
      let out ← channelInto enc px.g (p + 0 * enc.bytesPerChannel) out
      let out ← channelInto enc px.r (p + 1 * enc.bytesPerChannel) out
      let out ← channelInto enc px.b (p + 2 * enc.bytesPerChannel) out
      pixelsInto enc pixels (i + 1) out

/-- `encodeFrame`, slice by slice. -/
def encodeFrameInto (enc : Encoding) (pixels : List Rgb) (latchBytes : ℕ) (out : Bytes) :
    Option Bytes :=
  if pixels.length * enc.bytesPerLed + latchBytes ≤ out.length then do
    let out ← pixelsInto enc pixels 0 out
    store out (pixels.length * enc.bytesPerLed) (List.replicate latchBytes 0)
  else none

theorem store_append (done rest bytes : Bytes) (h : bytes.length ≤ rest.length) :
    store (done ++ rest) done.length bytes = some (done ++ bytes ++ rest.drop bytes.length) := by
  rw [store, if_pos (by rw [List.length_append]; omega), List.take_left, List.drop_append,
    List.drop_of_length_le (by omega), List.nil_append, Nat.add_sub_cancel_left]

theorem channelInto_append (enc : Encoding) (value : UInt8) {off : ℕ} {done rest : Bytes}
    (hoff : off = done.length) (h : enc.bytesPerChannel ≤ rest.length) :
    channelInto enc value off (done ++ rest) =
      some (done ++ encodeChannel enc value ++ rest.drop enc.bytesPerChannel) := by
  have hlen := length_encodeChannel enc value
  rw [channelInto, if_pos hlen.symm, hoff, store_append done rest _ (by rw [hlen]; exact h), hlen]

theorem bytesPerLed_eq (enc : Encoding) : enc.bytesPerLed = 3 * enc.bytesPerChannel := by
  cases enc <;> rfl

/-- The pixels from `i` on fill the buffer from `i` LEDs on. -/
theorem pixelsInto_append (enc : Encoding) (pixels : List Rgb) {i : ℕ} {done rest : Bytes}
    (hdone : done.length = i * enc.bytesPerLed)
    (h : pixels.length * enc.bytesPerLed ≤ rest.length) :
    pixelsInto enc pixels i (done ++ rest) =
      some (done ++ pixels.flatMap (encodePixel enc) ++
        rest.drop (pixels.length * enc.bytesPerLed)) := by
  induction pixels generalizing i done rest with
  | nil =>
      rw [pixelsInto, List.flatMap_nil, List.append_nil, List.length_nil, Nat.zero_mul,
        List.drop_zero]
  | cons px pixels ih =>
      have hled := bytesPerLed_eq enc
      have hchannel (value : UInt8) := length_encodeChannel enc value
      rw [List.length_cons, Nat.succ_mul] at h
      have hrest : 3 * enc.bytesPerChannel ≤ rest.length := by omega
      rw [pixelsInto]
      simp only [Option.bind_eq_bind]
      rw [channelInto_append enc px.g (by omega) (by omega), Option.bind_some,
        channelInto_append enc px.r (by rw [List.length_append, hchannel]; omega)
          (by rw [List.length_drop]; omega), Option.bind_some,
        channelInto_append enc px.b
          (by rw [List.length_append, List.length_append, hchannel, hchannel]; omega)
          (by rw [List.length_drop, List.length_drop]; omega), Option.bind_some]
      rw [List.drop_drop, List.drop_drop, ih]
      · have hdrop : enc.bytesPerChannel + (enc.bytesPerChannel + enc.bytesPerChannel) +
            pixels.length * enc.bytesPerLed =
              pixels.length * enc.bytesPerLed + enc.bytesPerLed := by omega
        rw [List.drop_drop, hdrop, List.flatMap_cons, encodePixel, List.length_cons, Nat.succ_mul]
        simp only [List.append_assoc]
      · rw [List.length_append, List.length_append, List.length_append, hchannel, hchannel,
          hchannel, Nat.succ_mul]
        omega
      · rw [List.length_drop]
        omega

/-- **Slice by slice**, the frame is what `encodeFrame` says. -/
theorem encodeFrameInto_eq (enc : Encoding) (pixels : List Rgb) (latchBytes : ℕ) (out : Bytes) :
    encodeFrameInto enc pixels latchBytes out = encodeFrame enc pixels latchBytes out := by
  rw [encodeFrameInto, encodeFrame]
  split
  · rename_i hfits
    have hpixels : pixelsInto enc pixels 0 ([] ++ out) =
        some ([] ++ pixels.flatMap (encodePixel enc) ++
          out.drop (pixels.length * enc.bytesPerLed)) :=
      pixelsInto_append enc pixels (Nat.zero_mul _).symm (by omega)
    have hdone : pixels.length * enc.bytesPerLed =
        (pixels.flatMap (encodePixel enc)).length := (length_encodePixels enc pixels).symm
    rw [List.nil_append, List.nil_append] at hpixels
    rw [hpixels, Option.bind_eq_bind, Option.bind_some, hdone, store_append]
    · rw [List.drop_drop, List.length_replicate]
    · rw [List.length_replicate, List.length_drop]
      omega
  · rfl

/-- **A frame decodes to its pixels.**  The SPI bits of the LED part are groups of the encoding's
length, each a pulse of one of two lengths, and the long ones are the 1s of the pixels' bytes;
then come the latch's zeros, and nothing is left of what the buffer held. -/
theorem frame_decodes (enc : Encoding) (pixels : List Rgb) (latchBytes : ℕ) (out : Bytes)
    (hout : out.length = pixels.length * enc.bytesPerLed + latchBytes) :
    ∃ (leds : Bytes) (groups : List (List Bool)),
      encodeFrameInto enc pixels latchBytes out = some (leds ++ List.replicate latchBytes 0) ∧
      leds.length = pixels.length * enc.bytesPerLed ∧
      leds.flatMap msbFirst = groups.flatten ∧
      (∀ group ∈ groups, group.length = enc.bits ∧ Pulse group ∧
        (run group = highBits enc false ∨ run group = highBits enc true)) ∧
      groups.map (fun group => decide (run group = highBits enc true)) =
        (grb pixels).flatMap msbFirst ∧
      ∀ old : Bytes, old.length = out.length →
        encodeFrameInto enc pixels latchBytes old = encodeFrameInto enc pixels latchBytes out := by
  have hwhole (old : Bytes) (hold : old.length = out.length) :
      encodeFrameInto enc pixels latchBytes old =
        some (pixels.flatMap (encodePixel enc) ++ List.replicate latchBytes 0) := by
    rw [encodeFrameInto_eq, encodeFrame, if_pos (by omega), List.drop_of_length_le (by omega),
      List.append_nil]
  refine ⟨pixels.flatMap (encodePixel enc), ((grb pixels).flatMap msbFirst).map (pulse enc),
    hwhole out rfl, length_encodePixels enc pixels, ?_, ?_, ?_, ?_⟩
  · rw [bits_encodePixels, List.flatMap_def]
  · intro group hgroup
    obtain ⟨bit, -, rfl⟩ := List.mem_map.mp hgroup
    refine ⟨length_pulse enc bit, pulse_pulse enc bit, ?_⟩
    rw [run_pulse]
    cases bit with
    | false => exact Or.inl rfl
    | true => exact Or.inr rfl
  · rw [List.map_map]
    refine List.map_id'' (fun bit => ?_) _
    simp only [Function.comp_apply, run_pulse_eq_iff, Bool.decide_eq_true]
  · intro old hold
    rw [hwhole old hold, hwhole out rfl]

/-- One red pixel, and a byte of latch. -/
theorem frame_decodes_red :
    ∃ (leds : Bytes) (groups : List (List Bool)),
      encodeFrameInto .eight [⟨1, 0, 0⟩] 1 (List.replicate 25 0xff) = some (leds ++ [0]) ∧
      groups.map (fun group => decide (run group = highBits .eight true)) =
        ([0, 1, 0] : Bytes).flatMap msbFirst := by
  obtain ⟨leds, groups, hsent, -, -, -, hread, -⟩ :=
    frame_decodes .eight [⟨1, 0, 0⟩] 1 (List.replicate 25 0xff) (by decide)
  exact ⟨leds, groups, hsent, hread⟩

/-! ### The timing report -/

/-- What the report says. -/
structure Report where
  ssi : ℕ
  divider : ℕ
  actual : ℕ
  ns : ℕ
  bits : ℕ
  t0h : ℕ
  t1h : ℕ
  period : ℕ
  deriving DecidableEq, Repr

/-- A number that a type of `bits` bits holds. -/
def unsigned (bits n : ℕ) : Option ℕ := if n < 2 ^ bits then some n else none

/-- `logClock`, once the clock is read; `none` for an overflow. -/
def clockReport (ssi : ℕ) (speed : Speed) (enc : Encoding) : Option Report := do
  let sum ← unsigned 64 (ssi + speed)
  let next ← unsigned 64 ((sum - 1) / speed + 1)
  let divider := next &&& 0xfffe
  let actual := if divider ≠ 0 then ssi / divider else 0
  let ns ← (if actual ≠ 0 then unsigned 32 (1000000000 / actual) else some 0)
  let t1h ← unsigned 32 (ns * (enc.bits - 1))
  let period ← unsigned 32 (ns * enc.bits)
  return { ssi, divider, actual, ns, bits := enc.bits, t0h := ns, t1h, period }

/-- One of `" \t\r\n"`. -/
def attrBlank (c : UInt8) : Bool := blankOrCr c || c = 10

/-- `sysfs.read` of a `u64`; `none` for a file that cannot be read, or holds none. -/
def readU64 (content : Option Bytes) : Option ℕ :=
  content.bind fun raw => parseInt 64 (Text.trim attrBlank (raw.take 64))

/-- `logClock`: an overflow, no clock to report, or a report. -/
def logClock (content : Option Bytes) (speed : Speed) (enc : Encoding) : Option (Option Report) :=
  match readU64 content with
  | none => some none
  | some ssi => (clockReport ssi speed enc).map some

/-- The report describes the waveform: its times are the SPI bit's, times the bits that are high
in the pulse of a 0, of a 1, and times all of them. -/
def Report.Describes (r : Report) (enc : Encoding) : Prop :=
  r.t0h = r.ns * (pulse enc false).count true ∧ r.t1h = r.ns * (pulse enc true).count true ∧
    r.period = r.ns * (pulse enc true).length

/-- Nothing overflows, and a report that is made describes the waveform. -/
def Right (enc : Encoding) (logged : Option (Option Report)) : Prop :=
  ∃ report, logged = some report ∧ ∀ r, report = some r → r.Describes enc

/-- The clock and the speed give an SPI bit too short for a whole nanosecond, or none at all. -/
def NoBitTime (ssi speed : ℕ) : Prop :=
  ssi = 1 ∨ 1000000001 * (((ssi + speed - 1) / speed + 1) / 2 * 2 % 65536) ≤ ssi

theorem count_pulse (enc : Encoding) (bit : Bool) :
    (pulse enc bit).count true = highBits enc bit := by
  cases enc <;> cases bit <;> decide

/-- The mask rounds down to an even number of 16 bits. -/
theorem land_mask (n : ℕ) : n &&& 0xfffe = n / 2 * 2 % 65536 := by
  have hmask : n &&& 0xfffe = 2 * (n / 2 &&& 0x7fff) := by
    refine Nat.eq_of_testBit_eq fun i => ?_
    cases i with
    | zero => simp
    | succ i => simp [Nat.testBit_succ, Nat.and_div_two]
  have hmod : n / 2 &&& 0x7fff = n / 2 % 32768 := Nat.and_two_pow_sub_one_eq_mod (n / 2) 15
  rw [hmask, hmod]
  omega

/-- The clock cycles of an SPI bit, rounded up. -/
theorem cycles_le (ssi : ℕ) (speed : Speed) (h : 1 ≤ ssi) :
    (ssi + speed - 1) / speed ≤ (ssi - 1) / 100000 + 1 := by
  have hspeed : 100000 ≤ speed.val := speed.property.1
  have hsum : ssi + speed.val - 1 = (ssi - 1) + speed.val := by omega
  rw [hsum, Nat.add_div_right _ (by omega)]
  exact Nat.succ_le_succ (Nat.div_le_div_left hspeed (by norm_num))

/-- Only a clock of 1 Hz is slower than its divider. -/
theorem lt_divider_iff (ssi : ℕ) (speed : Speed) {d : ℕ} (hpos : d ≠ 0)
    (hd : d = ((ssi + speed - 1) / speed + 1) / 2 * 2 % 65536) : ssi < d ↔ ssi = 1 := by
  have hspeed : 100000 ≤ speed.val := speed.property.1
  constructor
  · intro hlt
    rcases Nat.eq_zero_or_pos ssi with rfl | hssi
    · have hzero : (0 + speed.val - 1) / speed.val = 0 := Nat.div_eq_of_lt (by omega)
      rw [hzero] at hd
      exact absurd hd hpos
    · have hcycles := cycles_le ssi speed hssi
      omega
  · rintro rfl
    rw [Nat.add_sub_cancel_left, Nat.div_self (by omega)] at hd
    omega

/-- There is no bit time where the clock is divided away, or not below 1 GHz. -/
theorem noBitTime_iff (ssi : ℕ) (speed : Speed) {d : ℕ}
    (hd : d = ((ssi + speed - 1) / speed + 1) / 2 * 2 % 65536) :
    NoBitTime ssi speed ↔ 1000000000 / (ssi / d) = 0 := by
  rw [NoBitTime, ← hd, Nat.div_eq_zero_iff]
  by_cases hpos : d = 0
  · simp [hpos]
  · rw [Nat.div_eq_zero_iff, or_iff_right hpos, lt_divider_iff ssi speed hpos hd,
      ← Nat.succ_le_iff, Nat.le_div_iff_mul_le (Nat.pos_of_ne_zero hpos)]

theorem unsigned_of_lt {bits n : ℕ} (h : n < 2 ^ bits) : unsigned bits n = some n := if_pos h

theorem eq_of_unsigned {bits n m : ℕ} (h : unsigned bits n = some m) : n = m := by
  rw [unsigned, Option.ite_none_right_eq_some] at h
  exact Option.some.inj h.2

/-- A division by zero is 0 here. -/
theorem ite_div (n d : ℕ) : (if d ≠ 0 then n / d else 0) = n / d := by
  split
  case isTrue => rfl
  case isFalse h => rw [not_not.mp h, Nat.div_zero]

theorem bitTime_eq (actual : ℕ) :
    (if actual ≠ 0 then unsigned 32 (1000000000 / actual) else some 0) =
      some (1000000000 / actual) := by
  have hle : 1000000000 / actual ≤ 1000000000 := Nat.div_le_self _ _
  split
  case isTrue => exact unsigned_of_lt (by omega)
  case isFalse h => rw [not_not.mp h, Nat.div_zero]

/-- The report of a clock that can be rounded up, by its bit time. -/
theorem clockReport_eq {ssi : ℕ} {speed : Speed} (enc : Encoding) (h : ssi + speed < 2 ^ 64) :
    ∃ divider actual ns, ns ≤ 1000000000 ∧ (NoBitTime ssi speed ↔ ns = 0) ∧
      clockReport ssi speed enc = do
        let t1h ← unsigned 32 (ns * (enc.bits - 1))
        let period ← unsigned 32 (ns * enc.bits)
        return ⟨ssi, divider, actual, ns, enc.bits, ns, t1h, period⟩ := by
  have hspeed : 100000 ≤ speed.val := speed.property.1
  have hle : (ssi + speed.val - 1) / speed.val ≤ (ssi + speed.val - 1) / 100000 :=
    Nat.div_le_div_left hspeed (by norm_num)
  have hnext : (ssi + speed.val - 1) / speed.val + 1 < 2 ^ 64 := by omega
  generalize hd : ((ssi + speed - 1) / speed + 1) / 2 * 2 % 65536 = d
  refine ⟨d, ssi / d, 1000000000 / (ssi / d), Nat.div_le_self _ _,
    noBitTime_iff ssi speed hd.symm, ?_⟩
  rw [clockReport, unsigned_of_lt h]
  simp only [Option.bind_eq_bind, Option.bind_some]
  rw [unsigned_of_lt hnext]
  simp only [Option.bind_some, land_mask, hd, ite_div, bitTime_eq]

/-- **One clock.**  The report is made and describes the waveform exactly where the clock can be
rounded up, and either a long pulse has all but one of its bits high or there is no bit time. -/
theorem clockReport_describes_iff (ssi : ℕ) (speed : Speed) (enc : Encoding) :
    (∃ r, clockReport ssi speed enc = some r ∧ r.Describes enc) ↔
      ssi + speed < 2 ^ 64 ∧ (enc ≠ .eight ∨ NoBitTime ssi speed) := by
  by_cases hsum : ssi + speed.val < 2 ^ 64
  · obtain ⟨divider, actual, ns, hns, hzero, hreport⟩ := clockReport_eq enc hsum
    rw [and_iff_right hsum, hreport, hzero]
    constructor
    · rintro ⟨r, hr, hdescribes⟩
      by_contra hnot
      obtain ⟨height, hpos⟩ := not_or.mp hnot
      obtain rfl := not_not.mp height
      simp only [Option.bind_eq_bind, Option.bind_eq_some_iff, Option.pure_def,
        Option.some.injEq] at hr
      obtain ⟨t1h, ht1h, period, -, rfl⟩ := hr
      -- the report has seven bits high, and the pulse six
      have hseven : ns * 7 = t1h := eq_of_unsigned ht1h
      have hsix : t1h = ns * 6 := by
        have hlong := hdescribes.2.1
        rw [count_pulse] at hlong
        exact hlong
      omega
    · intro hright
      have ht1h : ns * (enc.bits - 1) < 2 ^ 32 ∧ ns * enc.bits < 2 ^ 32 ∧
          ns * (enc.bits - 1) = ns * highBits enc true := by
        cases enc with
        | three => exact ⟨by show ns * 2 < _; omega, by show ns * 3 < _; omega, rfl⟩
        | four => exact ⟨by show ns * 3 < _; omega, by show ns * 4 < _; omega, rfl⟩
        | eight =>
            obtain rfl := hright.resolve_left fun h => h rfl
            exact ⟨by decide, by decide, rfl⟩
      rw [unsigned_of_lt ht1h.1, unsigned_of_lt ht1h.2.1]
      refine ⟨_, rfl, ?_, ?_, ?_⟩
      · rw [count_pulse]
        exact (Nat.mul_one ns).symm
      · rw [count_pulse]
        exact ht1h.2.2
      · rw [length_pulse]
  · have hnone : clockReport ssi speed enc = none := by
      rw [clockReport, unsigned, if_neg hsum]
      rfl
    rw [hnone]
    constructor
    · rintro ⟨r, hr, -⟩
      cases hr
    · exact fun h => absurd h.1 hsum

/-- **The timing report** overflows nowhere and describes the waveform exactly for these
clocks. -/
theorem logClock_right_iff (content : Option Bytes) (speed : Speed) (enc : Encoding) :
    Right enc (logClock content speed enc) ↔
      ∀ ssi, readU64 content = some ssi →
        ssi + speed < 2 ^ 64 ∧ (enc ≠ .eight ∨ NoBitTime ssi speed) := by
  rw [logClock, Right]
  cases hread : readU64 content with
  | none =>
      refine ⟨fun _ ssi hssi => absurd hssi (by simp), fun _ => ⟨none, rfl, ?_⟩⟩
      exact fun r hr => by cases hr
  | some ssi =>
      have hone := clockReport_describes_iff ssi speed enc
      constructor
      · rintro ⟨report, hreport, hdescribes⟩ ssi' hssi
        obtain rfl := Option.some.inj hssi
        obtain ⟨r, hr, rfl⟩ := Option.map_eq_some_iff.mp hreport
        exact hone.mp ⟨r, hr, hdescribes r rfl⟩
      · intro h
        obtain ⟨r, hr, hdescribes⟩ := hone.mpr (h ssi rfl)
        refine ⟨some r, congrArg (Option.map some) hr, fun r' hr' => ?_⟩
        obtain rfl := Option.some.inj hr'
        exact hdescribes

/-- 6.25 MHz of a clock of 100 MHz: a long pulse is 960 ns, and the report says 1120. -/
theorem logClock_default :
    ¬ ∀ (content : Option Bytes) (speed : Speed) (enc : Encoding),
      Right enc (logClock content speed enc) := by
  intro hall
  obtain ⟨report, hreport, hdescribes⟩ :=
    hall (some (ascii "100000000\n")) Config.default.speedHz .eight
  have hlog : logClock (some (ascii "100000000\n")) Config.default.speedHz .eight =
      some (some ⟨100000000, 16, 6250000, 160, 8, 160, 1120, 1280⟩) := by decide +kernel
  rw [hlog] at hreport
  obtain rfl := Option.some.inj hreport
  exact absurd (hdescribes _ rfl).2.1 (by decide)

end BadgeOS.Bling
