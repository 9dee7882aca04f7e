import BadgeOS.Wlroots.Nv12
import Mathlib

/-!
# One pixel

The colour of a pixel as numbers, and that both ways to compute it arrive there: the C code with
its early return and its shift, and the vector code with its saturating, rounding shift.  On the
way nothing leaves 32 bits, since a sample is a byte.

* `pixel` — the four bytes;
* `toXrgb8888_eq` — the C code, one pixel;
* `blockNeon_eq` — the vector code, 16 pixels.
-/

namespace BadgeOS.Wlroots.Nv12

open Memory Neon

/-! ### The colour -/

/-- A 16.16 value, rounded and clamped. -/
def channel (x : ℤ) : ℤ := saturated 8 (rounded 16 x)

/-- `Y - 16`, scaled. -/
def lumaTerm (y : UInt8) : ℤ := fixY * (y.toNat - 16)

def redTerm (v : UInt8) : ℤ := fixVR * (v.toNat - 128)

def greenTerm (u v : UInt8) : ℤ := -fixUG * (u.toNat - 128) - fixVG * (v.toNat - 128)

def blueTerm (u : UInt8) : ℤ := fixUB * (u.toNat - 128)

/-- A pixel of XRGB8888, in memory. -/
def pixel (y u v : UInt8) : List UInt8 :=
  [UInt8.ofNat (channel (lumaTerm y + blueTerm u)).toNat,
    UInt8.ofNat (channel (lumaTerm y + greenTerm u v)).toNat,
    UInt8.ofNat (channel (lumaTerm y + redTerm v)).toNat, 255]

/-! ### Bounds -/

theorem byte_bounds (b : UInt8) : (0 : ℤ) ≤ b.toNat ∧ (b.toNat : ℤ) ≤ 255 := by
  have hlt := b.toNat_lt
  omega

theorem luma_bounds (y : UInt8) : -(2 ^ 25) ≤ lumaTerm y ∧ lumaTerm y ≤ 2 ^ 25 := by
  have hy := byte_bounds y
  unfold lumaTerm fixY
  omega

theorem red_bounds (v : UInt8) : -(2 ^ 25) ≤ redTerm v ∧ redTerm v ≤ 2 ^ 25 := by
  have hv := byte_bounds v
  unfold redTerm fixVR
  omega

theorem green_bounds (u v : UInt8) : -(2 ^ 25) ≤ greenTerm u v ∧ greenTerm u v ≤ 2 ^ 25 := by
  have hu := byte_bounds u
  have hv := byte_bounds v
  unfold greenTerm fixUG fixVG
  omega

theorem blue_bounds (u : UInt8) : -(2 ^ 25) ≤ blueTerm u ∧ blueTerm u ≤ 2 ^ 25 := by
  have hu := byte_bounds u
  unfold blueTerm fixUB
  omega

theorem channel_bounds (x : ℤ) : 0 ≤ channel x ∧ channel x ≤ 255 := by
  unfold channel saturated
  omega

/-- An operation on `int32_t` whose result fits. -/
theorem fits32 {x : ℤ} (hlow : -2 ^ 31 ≤ x) (hhigh : x < 2 ^ 31) :
    signed 32 x false = ⟨x, false⟩ := signed_of_fits (by decide) hlow hhigh

theorem add32 {a b : ℤ} (hlow : -2 ^ 31 ≤ a + b) (hhigh : a + b < 2 ^ 31) :
    Lane.add 32 ⟨a, false⟩ ⟨b, false⟩ = ⟨a + b, false⟩ := fits32 hlow hhigh

theorem sub32 {a b : ℤ} (hlow : -2 ^ 31 ≤ a - b) (hhigh : a - b < 2 ^ 31) :
    Lane.sub 32 ⟨a, false⟩ ⟨b, false⟩ = ⟨a - b, false⟩ := fits32 hlow hhigh

theorem mul32 {a b : ℤ} (hlow : -2 ^ 31 ≤ a * b) (hhigh : a * b < 2 ^ 31) :
    Lane.mul 32 ⟨a, false⟩ ⟨b, false⟩ = ⟨a * b, false⟩ := fits32 hlow hhigh

/-! ### The C code -/

/-- `to_channel` is the rounding and the clamp. -/
theorem toChannel_eq {x : ℤ} (hlow : -2 ^ 26 ≤ x) (hhigh : x ≤ 2 ^ 26) :
    toChannel ⟨x, false⟩ = ⟨channel x, false⟩ := by
  unfold toChannel
  simp only
  split
  · congr 1
    unfold channel saturated rounded
    omega
  · rename_i hpos
    have hadd : Lane.add 32 ⟨x, false⟩ (const (2 ^ 15)) = ⟨x + 2 ^ 15, false⟩ :=
      add32 (by omega) (by omega)
    rw [hadd]
    congr 1
    unfold channel saturated rounded
    simp only
    split <;> omega

theorem ofNat_congr {a b : ℕ} (h : a % 2 ^ 8 = b % 2 ^ 8) : UInt8.ofNat a = UInt8.ofNat b := by
  apply UInt8.toNat.inj
  rw [UInt8.toNat_ofNat', UInt8.toNat_ofNat']
  exact h

/-- The bytes of a word put together from bytes. -/
theorem wordBytes_xrgb {r g b : ℕ} (hr : r < 2 ^ 8) (hg : g < 2 ^ 8) (hb : b < 2 ^ 8) :
    wordBytes (0xff000000 ||| r <<< 16 ||| g <<< 8 ||| b) =
      [UInt8.ofNat b, UInt8.ofNat g, UInt8.ofNat r, 255] := by
  have h1 : 0xff000000 ||| r <<< 16 = 2 ^ 24 * 0xff + r * 2 ^ 16 := by
    rw [Nat.shiftLeft_eq, Nat.two_pow_add_eq_or_of_lt (by omega)]
  have h2 : 2 ^ 24 * 0xff + r * 2 ^ 16 ||| g <<< 8 = 2 ^ 16 * (0xff00 + r) + g * 2 ^ 8 := by
    have hfactor : 2 ^ 24 * 0xff + r * 2 ^ 16 = 2 ^ 16 * (0xff00 + r) := by omega
    rw [hfactor, Nat.shiftLeft_eq, Nat.two_pow_add_eq_or_of_lt (by omega)]
  have h3 : 2 ^ 16 * (0xff00 + r) + g * 2 ^ 8 ||| b =
      2 ^ 8 * (0xff0000 + r * 2 ^ 8 + g) + b := by
    have hfactor : 2 ^ 16 * (0xff00 + r) + g * 2 ^ 8 =
        2 ^ 8 * (0xff0000 + r * 2 ^ 8 + g) := by omega
    rw [hfactor, Nat.two_pow_add_eq_or_of_lt (by omega)]
  rw [h1, h2, h3]
  unfold wordBytes
  simp only [Nat.shiftRight_eq_div_pow]
  congr 1
  · exact ofNat_congr (by omega)
  congr 1
  · exact ofNat_congr (by omega)
  congr 1
  · exact ofNat_congr (by omega)
  congr 1
  exact ofNat_congr (b := 255) (by omega)

/-- **One pixel of the C code.** -/
theorem toXrgb8888_eq (y u v : UInt8) :
    ∃ word, toXrgb8888 y ⟨redTerm v, false⟩ ⟨greenTerm u v, false⟩ ⟨blueTerm u, false⟩ =
      some word ∧ wordBytes word = pixel y u v := by
  have hy := byte_bounds y
  have hluma := luma_bounds y
  have hred := red_bounds v
  have hgreen := green_bounds u v
  have hblue := blue_bounds u
  have hy16 : Lane.sub 32 (ofByte y) (const 16) = ⟨y.toNat - 16, false⟩ :=
    sub32 (by omega) (by omega)
  have hterm : Lane.mul 32 (const fixY) ⟨y.toNat - 16, false⟩ = ⟨lumaTerm y, false⟩ := by
    apply mul32
    · exact le_trans (by omega) hluma.1
    · exact lt_of_le_of_lt hluma.2 (by omega)
  unfold toXrgb8888
  dsimp only
  rw [hy16, hterm, add32 (by omega) (by omega), add32 (by omega) (by omega),
    add32 (by omega) (by omega), toChannel_eq (by omega) (by omega),
    toChannel_eq (by omega) (by omega), toChannel_eq (by omega) (by omega)]
  refine ⟨_, rfl, ?_⟩
  have hbyte (x : ℤ) : (channel x).toNat < 2 ^ 8 := by
    have hx := channel_bounds x
    omega
  exact wordBytes_xrgb (hbyte _) (hbyte _) (hbyte _)

/-! ### The vector code -/

/-- The difference of bytes, read as a signed number, is exact. -/
theorem vsubl_byte (b : UInt8) {k : ℤ} (hlow : 0 ≤ k) (hhigh : k ≤ 128) :
    (⟨(((ofByte b).val - k) % 2 ^ 16).bmod (2 ^ 16), false⟩ : Lane) = ⟨b.toNat - k, false⟩ := by
  have hb := byte_bounds b
  congr 1
  show (((b.toNat : ℤ) - k) % (2 ^ 16 : ℕ)).bmod (2 ^ 16) = _
  rw [Int.emod_bmod, Int.bmod_eq_of_le]
  · push_cast
    omega
  · push_cast
    omega

/-- Two saturations are the narrower one. -/
theorem saturated_saturated (x : ℤ) : saturated 8 (saturated 16 x) = saturated 8 x := by
  unfold saturated
  omega
/-- One lane of a channel. -/
def channelNeon (luma c : Lane) : Lane :=
  ⟨saturated 8 (saturated 16 (rounded 16 (luma.add 32 c).val)), (luma.add 32 c).wrapped⟩

/-- A lane of a channel is computed from one lane of the luma and one of the chroma. -/
theorem channel16Neon_lane (luma : Fin 4 → Lanes 4) (cLo cHi : Lanes 4) (i : Fin 16) :
    channel16Neon luma cLo cHi i = channelNeon (luma ⟨i / 4, by omega⟩ ⟨i % 4, by omega⟩)
      (if i.val < 8 then cLo ⟨i / 2 % 4, by omega⟩ else cHi ⟨i / 2 % 4, by omega⟩) := by
  fin_cases i <;> rfl

/-- A lane of the luma vectors. -/
theorem luma_lane (yBytes : List UInt8) (i : Fin 16) :
    let y8 := Lanes.vld1 16 yBytes
    let yLo := (Lanes.vgetLow 8 y8).vsubl (Lanes.vdup 8 16)
    let yHi := (Lanes.vgetHigh 8 y8).vsubl (Lanes.vdup 8 16)
    (![(Lanes.vgetLow 4 yLo).vmovl.vmulN 32 fixY, (Lanes.vgetHigh 4 yLo).vmovl.vmulN 32 fixY,
      (Lanes.vgetLow 4 yHi).vmovl.vmulN 32 fixY, (Lanes.vgetHigh 4 yHi).vmovl.vmulN 32 fixY] :
        Fin 4 → Lanes 4) ⟨i / 4, by omega⟩ ⟨i % 4, by omega⟩ =
      Lane.mul 32 ⟨(((ofByte (yBytes.getD i 0)).val - 16) % 2 ^ 16).bmod (2 ^ 16), false⟩
        ⟨fixY, false⟩ := by
  fin_cases i <;> rfl

/-- A lane of the chroma differences: one for two pixels. -/
theorem chroma_lane (uvBytes : List UInt8) (j : ℕ) (i : Fin 16) :
    let w := (Lanes.vld2 8 uvBytes j).vsubl (Lanes.vdup 8 128)
    (if i.val < 8 then (Lanes.vgetLow 4 w).vmovl ⟨i / 2 % 4, by omega⟩
      else (Lanes.vgetHigh 4 w).vmovl ⟨i / 2 % 4, by omega⟩) =
      ⟨(((ofByte (uvBytes.getD (2 * (i / 2) + j) 0)).val - 128) % 2 ^ 16).bmod (2 ^ 16),
        false⟩ := by
  fin_cases i <;> rfl

/-- **A lane of the vector code**, once its luma and its chroma are known. -/
theorem channelNeon_eq {y c : ℤ} (hlow : -2 ^ 31 ≤ y + c) (hhigh : y + c < 2 ^ 31) :
    channelNeon ⟨y, false⟩ ⟨c, false⟩ = ⟨channel (y + c), false⟩ := by
  unfold channelNeon channel
  rw [add32 hlow hhigh, saturated_saturated]
section Channels

variable {luma : Fin 4 → Lanes 4} {i : Fin 16} {y : ℤ}

/-- Blue and red: one difference, scaled. -/
theorem channel16Neon_scaled (w : Lanes 8) {c k : ℤ}
    (hluma : luma ⟨i / 4, by omega⟩ ⟨i % 4, by omega⟩ = ⟨y, false⟩)
    (hw : (if i.val < 8 then (Lanes.vgetLow 4 w).vmovl ⟨i / 2 % 4, by omega⟩
      else (Lanes.vgetHigh 4 w).vmovl ⟨i / 2 % 4, by omega⟩) = ⟨c, false⟩)
    (hc : -2 ^ 25 ≤ k * c ∧ k * c ≤ 2 ^ 25) (hy : -2 ^ 25 ≤ y ∧ y ≤ 2 ^ 25) :
    channel16Neon luma ((Lanes.vgetLow 4 w).vmovl.vmulN 32 k)
      ((Lanes.vgetHigh 4 w).vmovl.vmulN 32 k) i = ⟨channel (y + k * c), false⟩ := by
  have hterm : (if i.val < 8
      then ((Lanes.vgetLow 4 w).vmovl.vmulN 32 k) ⟨i / 2 % 4, by omega⟩
      else ((Lanes.vgetHigh 4 w).vmovl.vmulN 32 k) ⟨i / 2 % 4, by omega⟩) = ⟨k * c, false⟩ := by
    have hmul : Lane.mul 32 ⟨c, false⟩ ⟨k, false⟩ = ⟨k * c, false⟩ := by
      rw [Int.mul_comm k c] at hc ⊢
      exact mul32 (by omega) (by omega)
    rw [← hmul, ← hw]
    split <;> rfl
  rw [channel16Neon_lane, hluma, hterm, channelNeon_eq (by omega) (by omega)]

/-- Green: both differences, scaled, the second taken off. -/
theorem channel16Neon_green (wu wv : Lanes 8) {u v ku kv : ℤ}
    (hluma : luma ⟨i / 4, by omega⟩ ⟨i % 4, by omega⟩ = ⟨y, false⟩)
    (hu : (if i.val < 8 then (Lanes.vgetLow 4 wu).vmovl ⟨i / 2 % 4, by omega⟩
      else (Lanes.vgetHigh 4 wu).vmovl ⟨i / 2 % 4, by omega⟩) = ⟨u, false⟩)
    (hv : (if i.val < 8 then (Lanes.vgetLow 4 wv).vmovl ⟨i / 2 % 4, by omega⟩
      else (Lanes.vgetHigh 4 wv).vmovl ⟨i / 2 % 4, by omega⟩) = ⟨v, false⟩)
    (hku : -2 ^ 25 ≤ ku * u ∧ ku * u ≤ 2 ^ 25)
    (hc : -2 ^ 25 ≤ ku * u - kv * v ∧ ku * u - kv * v ≤ 2 ^ 25)
    (hy : -2 ^ 25 ≤ y ∧ y ≤ 2 ^ 25) :
    channel16Neon luma
      (((Lanes.vgetLow 4 wu).vmovl.vmulN 32 ku).vmlsN 32 (Lanes.vgetLow 4 wv).vmovl kv)
      (((Lanes.vgetHigh 4 wu).vmovl.vmulN 32 ku).vmlsN 32 (Lanes.vgetHigh 4 wv).vmovl kv) i =
        ⟨channel (y + (ku * u - kv * v)), false⟩ := by
  have hterm : (if i.val < 8
      then (((Lanes.vgetLow 4 wu).vmovl.vmulN 32 ku).vmlsN 32 (Lanes.vgetLow 4 wv).vmovl kv)
        ⟨i / 2 % 4, by omega⟩
      else (((Lanes.vgetHigh 4 wu).vmovl.vmulN 32 ku).vmlsN 32 (Lanes.vgetHigh 4 wv).vmovl kv)
        ⟨i / 2 % 4, by omega⟩) = ⟨ku * u - kv * v, false⟩ := by
    have hmul : Lane.mul 32 ⟨u, false⟩ ⟨ku, false⟩ = ⟨ku * u, false⟩ := by
      rw [Int.mul_comm ku u] at hku ⊢
      exact mul32 (by omega) (by omega)
    have hsub : signed 32 ((⟨ku * u, false⟩ : Lane).val - (⟨v, false⟩ : Lane).val * kv)
        ((⟨ku * u, false⟩ : Lane).wrapped || (⟨v, false⟩ : Lane).wrapped) =
          ⟨ku * u - kv * v, false⟩ := by
      rw [Int.mul_comm kv v] at hc ⊢
      show signed 32 (ku * u - v * kv) false = _
      exact fits32 (by omega) (by omega)
    rw [← hsub, ← hmul, ← hu, ← hv]
    split <;> rfl
  rw [channel16Neon_lane, hluma, hterm, channelNeon_eq (by omega) (by omega)]

end Channels

/-- **A block of the vector code** is its 16 pixels. -/
theorem blockNeon_eq (yBytes uvBytes : List UInt8) :
    blockNeon yBytes uvBytes = some ((List.finRange 16).map fun i : Fin 16 =>
      pixel (yBytes.getD i 0) (uvBytes.getD (2 * (i / 2)) 0)
        (uvBytes.getD (2 * (i / 2) + 1) 0)).flatten := by
  unfold blockNeon Lanes.vst4
  dsimp only
  rw [mapM_eq_some (f := fun i : Fin 16 => pixel (yBytes.getD i 0)
    (uvBytes.getD (2 * (i / 2)) 0) (uvBytes.getD (2 * (i / 2) + 1) 0))]
  · rfl
  intro i _
  have hy := luma_bounds (yBytes.getD i 0)
  have hluma := luma_lane yBytes i
  have hu := chroma_lane uvBytes 0 i
  have hv := chroma_lane uvBytes 1 i
  dsimp only at hluma hu hv
  rw [vsubl_byte _ (by decide) (by decide)] at hluma hu hv
  have hterm : Lane.mul 32 ⟨(yBytes.getD i 0).toNat - 16, false⟩ ⟨fixY, false⟩ =
      ⟨lumaTerm (yBytes.getD i 0), false⟩ := by
    unfold lumaTerm at hy ⊢
    rw [Int.mul_comm] at hy ⊢
    exact mul32 (by omega) (by omega)
  rw [hterm] at hluma
  have hgreen := green_bounds (uvBytes.getD (2 * (i / 2)) 0) (uvBytes.getD (2 * (i / 2) + 1) 0)
  have hku : -2 ^ 25 ≤ -fixUG * ((uvBytes.getD (2 * (i / 2)) 0).toNat - 128) ∧
      -fixUG * ((uvBytes.getD (2 * (i / 2)) 0).toNat - 128) ≤ 2 ^ 25 := by
    have hbyte := byte_bounds (uvBytes.getD (2 * (i / 2)) 0)
    unfold fixUG
    omega
  rw [channel16Neon_scaled _ hluma hu (blue_bounds _) hy,
    channel16Neon_green _ _ hluma hu hv hku hgreen hy,
    channel16Neon_scaled _ hluma hv (red_bounds _) hy]
  rfl

end BadgeOS.Wlroots.Nv12
