import BadgeOS.Bling.Frames
import Mathlib

/-!
# A blob that loads

`bled.zig` computes the bound of every later access from three fields of the file, and the frame
to show from a product of the clock and the rate.  Here every product, sum and slice can fail.

* `loadChecked` — `load` with its checked arithmetic;
* `frameAtChecked`, `pixelChecked` — what the painter reads of it;
* `exists_reached` — a count that rises by one at most leaves nothing out;
* `blob_plays` — what loads, and that it can be played at any time.
-/

namespace BadgeOS.Bling

/-- `std.math.mul` of a `usize`. -/
def mulU64 (a b : ℕ) : Option ℕ := if a * b < 2 ^ 64 then some (a * b) else none

/-- `std.math.add` of a `usize`. -/
def addU64 (a b : ℕ) : Option ℕ := if a + b < 2 ^ 64 then some (a + b) else none

theorem mulU64_of_lt {a b : ℕ} (h : a * b < 2 ^ 64) : mulU64 a b = some (a * b) := if_pos h

theorem addU64_of_lt {a b : ℕ} (h : a + b < 2 ^ 64) : addU64 a b = some (a + b) := if_pos h

/-- The three fields of a header. -/
structure Header where
  nleds : ℕ
  fps : ℕ
  frames : ℕ
  deriving DecidableEq, Repr

def header (memory : Bytes) : Header where
  nleds := readIntLittle ((memory.drop 4).take 2)
  fps := readIntLittle ((memory.drop 6).take 2)
  frames := readIntLittle ((memory.drop 8).take 4)

/-- The bytes that a header asks for; `none` when a product or a sum overflows. -/
def Header.needed (h : Header) : Option ℕ := do
  let frameLen ← mulU64 h.nleds blobBytesPerLed
  let body ← mulU64 h.frames frameLen
  addU64 headerLen body

/-- `bled.load`, with its checked arithmetic. -/
def loadChecked (memory : Bytes) : Except LoadError Header :=
  if memory.length < headerLen then .error .tooSmall
  else if memory.take 4 ≠ ascii "BLED" then .error .badMagic
  else
    let h := header memory
    if h.nleds = 0 ∨ maxLeds < h.nleds ∨ h.fps = 0 ∨ h.frames = 0 then .error .inconsistent
    else
      match h.needed with
      | none => .error .inconsistent
      | some needed => if memory.length < needed then .error .inconsistent else .ok h

/-- A slice of a mapping. -/
def slice (memory : Bytes) (off len : ℕ) : Option Bytes :=
  if off + len ≤ memory.length then some ((memory.drop off).take len) else none

/-- `frameAt`, where a product, a sum or the slice can fail. -/
def frameAtChecked (memory : Bytes) (h : Header) (nowMs : ℕ) : Option Bytes := do
  let ticks ← mulU64 nowMs h.fps
  if h.frames = 0 then none
  else
    let idx := ticks / 1000 % h.frames
    let frameLen ← mulU64 h.nleds blobBytesPerLed
    let body ← mulU64 idx frameLen
    let off ← addU64 headerLen body
    slice memory off frameLen

/-- `pixel`, where an index can fail. -/
def pixelChecked (frame : Bytes) (i : ℕ) : Option Rgb := do
  let o ← mulU64 i blobBytesPerLed
  let r ← frame[o]?
  let g ← frame[o + 1]?
  let b ← frame[o + 2]?
  return ⟨r, g, b⟩

/-- What a blob that loads is. -/
def Valid (memory : Bytes) : Prop :=
  memory.take 4 = ascii "BLED" ∧ 1 ≤ (header memory).nleds ∧ (header memory).nleds ≤ 1024 ∧
    (header memory).fps ≠ 0 ∧ (header memory).frames ≠ 0 ∧
    12 + (header memory).frames * (header memory).nleds * 3 ≤ memory.length

/-- The frames played since the clock was 0. -/
def Header.position (h : Header) (nowMs : ℕ) : ℕ := nowMs * h.fps / 1000

/-! ### Loading -/

variable {memory : Bytes}

theorem readIntLittle_lt (bytes : Bytes) : readIntLittle bytes < 256 ^ bytes.length := by
  induction bytes with
  | nil => decide
  | cons b bytes ih =>
      have hb := b.toNat_lt
      have hcons : readIntLittle (b :: bytes) = b.toNat + 256 * readIntLittle bytes := rfl
      rw [hcons, List.length_cons, Nat.pow_succ]
      omega

/-- A field of so many bytes. -/
theorem readIntLittle_take_lt (bytes : Bytes) (n : ℕ) :
    readIntLittle (bytes.take n) < 256 ^ n :=
  (readIntLittle_lt _).trans_le (Nat.pow_le_pow_right (by norm_num) (List.length_take_le n bytes))

theorem header_lt (memory : Bytes) : (header memory).nleds < 2 ^ 16 ∧
    (header memory).fps < 2 ^ 16 ∧ (header memory).frames < 2 ^ 32 :=
  ⟨readIntLittle_take_lt _ 2, readIntLittle_take_lt _ 2, readIntLittle_take_lt _ 4⟩

/-- Nothing overflows, whatever the header holds. -/
theorem needed_eq (memory : Bytes) : (header memory).needed =
    some (12 + (header memory).frames * ((header memory).nleds * 3)) := by
  obtain ⟨hnleds, -, hframes⟩ := header_lt memory
  have hbody : (header memory).frames * ((header memory).nleds * 3) ≤ 2 ^ 32 * (2 ^ 16 * 3) :=
    Nat.mul_le_mul hframes.le (Nat.mul_le_mul_right 3 hnleds.le)
  rw [Header.needed, blobBytesPerLed, headerLen]
  simp only [Option.bind_eq_bind]
  rw [mulU64_of_lt (by omega), Option.bind_some, mulU64_of_lt (hbody.trans_lt (by norm_num)),
    Option.bind_some, addU64_of_lt ((Nat.add_le_add_left hbody 12).trans_lt (by norm_num))]

/-- **What loads.** -/
theorem loadChecked_ok_iff (memory : Bytes) (h : Header) :
    loadChecked memory = .ok h ↔ Valid memory ∧ h = header memory := by
  rw [loadChecked, Valid]
  simp only [needed_eq, headerLen, maxLeds, ← Nat.mul_assoc]
  by_cases hlen : memory.length < 12
  · rw [if_pos hlen]
    constructor
    · intro h
      cases h
    · rintro ⟨⟨-, -, -, -, -, hle⟩, -⟩
      omega
  · rw [if_neg hlen]
    by_cases hmagic : memory.take 4 = ascii "BLED"
    · rw [if_neg (not_not.mpr hmagic)]
      by_cases hfields : (header memory).nleds = 0 ∨ 1024 < (header memory).nleds ∨
          (header memory).fps = 0 ∨ (header memory).frames = 0
      · rw [if_pos hfields]
        constructor
        · intro h
          cases h
        · rintro ⟨⟨-, h1, h2, h3, h4, -⟩, -⟩
          omega
      · rw [if_neg hfields]
        by_cases hwhole :
            memory.length < 12 + (header memory).frames * (header memory).nleds * 3
        · rw [if_pos hwhole]
          constructor
          · intro h
            cases h
          · rintro ⟨⟨-, -, -, -, -, hle⟩, -⟩
            omega
        · rw [if_neg hwhole, Except.ok.injEq, and_iff_right ⟨hmagic, by omega, by omega, by omega,
            by omega, by omega⟩]
          exact eq_comm
    · rw [if_pos hmagic]
      constructor
      · intro h
        cases h
      · exact fun h => absurd h.1.1 hmagic

/-! ### Playing -/

/-- Frame `k` of the file. -/
def frameBytes (memory : Bytes) (h : Header) (k : ℕ) : Bytes :=
  (memory.drop (12 + k * (h.nleds * 3))).take (h.nleds * 3)

/-- Three bytes of the file are a colour. -/
def ColourAt (memory : Bytes) (off : ℕ) (px : Rgb) : Prop :=
  memory[off]? = some px.r ∧ memory[off + 1]? = some px.g ∧ memory[off + 2]? = some px.b

/-- A frame of a blob that loads is in the mapping. -/
theorem frame_le (h : Valid memory) {k : ℕ} (hk : k < (header memory).frames) :
    12 + k * ((header memory).nleds * 3) + (header memory).nleds * 3 ≤ memory.length := by
  have hmul := Nat.mul_le_mul_right ((header memory).nleds * 3) (Nat.succ_le_of_lt hk)
  have hwhole := h.2.2.2.2.2
  rw [Nat.succ_mul] at hmul
  rw [Nat.mul_assoc] at hwhole
  omega

/-- **A frame is there**, at any time. -/
theorem frameAtChecked_eq (h : Valid memory) {nowMs : ℕ} (hnow : nowMs < 2 ^ 48) :
    frameAtChecked memory (header memory) nowMs =
      some (frameBytes memory (header memory)
        ((header memory).position nowMs % (header memory).frames)) := by
  obtain ⟨hnleds, hfps, hframes⟩ := header_lt memory
  have hpos : (header memory).frames ≠ 0 := h.2.2.2.2.1
  have hidx : (header memory).position nowMs % (header memory).frames < (header memory).frames :=
    Nat.mod_lt _ (Nat.pos_of_ne_zero hpos)
  have hticks : nowMs * (header memory).fps < 2 ^ 64 :=
    (Nat.mul_lt_mul'' hnow hfps).trans_le (by norm_num)
  have hbody : (header memory).position nowMs % (header memory).frames *
      ((header memory).nleds * 3) ≤ 2 ^ 32 * (2 ^ 16 * 3) :=
    Nat.mul_le_mul (hidx.le.trans hframes.le) (Nat.mul_le_mul_right 3 hnleds.le)
  rw [frameAtChecked, blobBytesPerLed, headerLen]
  simp only [Option.bind_eq_bind]
  rw [mulU64_of_lt hticks, Option.bind_some, if_neg hpos, mulU64_of_lt (by omega),
    Option.bind_some]
  change ((mulU64 ((header memory).position nowMs % (header memory).frames) _).bind _) = _
  rw [mulU64_of_lt (hbody.trans_lt (by norm_num)), Option.bind_some,
    addU64_of_lt ((Nat.add_le_add_left hbody 12).trans_lt (by norm_num)), Option.bind_some, slice,
    if_pos (frame_le h hidx), frameBytes]

theorem frameBytes_getElem? {h : Header} {k j : ℕ} (hj : j < h.nleds * 3) :
    (frameBytes memory h k)[j]? = memory[12 + k * (h.nleds * 3) + j]? := by
  rw [frameBytes, List.getElem?_take_of_lt hj, List.getElem?_drop]

/-- **A pixel is there**, for every LED. -/
theorem pixelChecked_eq (h : Valid memory) {k i : ℕ} (hk : k < (header memory).frames)
    (hi : i < (header memory).nleds) :
    ∃ px, pixelChecked (frameBytes memory (header memory) k) i = some px ∧
      ColourAt memory (12 + (k * (header memory).nleds + i) * 3) px := by
  have hlt := frame_le h hk
  have hoff : 12 + (k * (header memory).nleds + i) * 3 =
      12 + k * ((header memory).nleds * 3) + i * 3 := by ring
  have hi64 : i * blobBytesPerLed < 2 ^ 64 := by
    have hnleds := (header_lt memory).1
    rw [blobBytesPerLed]
    omega
  rw [pixelChecked, mulU64_of_lt hi64, blobBytesPerLed, hoff]
  simp only [Option.bind_eq_bind, Option.bind_some]
  rw [frameBytes_getElem? (by omega), frameBytes_getElem? (by omega),
    frameBytes_getElem? (by omega), ← Nat.add_assoc, ← Nat.add_assoc,
    List.getElem?_eq_getElem (by omega), List.getElem?_eq_getElem (by omega),
    List.getElem?_eq_getElem (by omega)]
  exact ⟨_, rfl, List.getElem?_eq_getElem (by omega), List.getElem?_eq_getElem (by omega),
    List.getElem?_eq_getElem (by omega)⟩

/-- The painter's animation, where nothing can fail, is this one. -/
theorem load_ok {f : Frames} (h : load memory = .ok f) :
    loadChecked memory = .ok ⟨f.nleds, f.fps, f.frames⟩ ∧ f.memory = memory := by
  rw [load] at h
  split at h
  · cases h
  · split at h
    · cases h
    · rename_i hmagic
      dsimp only at h
      split at h
      · rename_i hfields
        obtain rfl := Except.ok.inj h
        obtain ⟨hnleds, hfps, hframes, hwhole⟩ := hfields
        refine ⟨(loadChecked_ok_iff memory _).mpr ⟨⟨not_not.mp hmagic, hnleds.1, hnleds.2,
          Nat.ne_of_gt hfps, Nat.ne_of_gt hframes, ?_⟩, rfl⟩, rfl⟩
        rw [Nat.mul_assoc]
        exact hwhole
      · cases h

theorem frameAt_eq {f : Frames} (h : load memory = .ok f) {nowMs : ℕ} (hnow : nowMs < 2 ^ 48) :
    frameAtChecked memory ⟨f.nleds, f.fps, f.frames⟩ nowMs = some (f.frameAt nowMs) := by
  obtain ⟨hload, rfl⟩ := load_ok h
  obtain ⟨hvalid, hheader⟩ := (loadChecked_ok_iff _ _).mp hload
  rw [hheader, frameAtChecked_eq hvalid hnow, ← hheader]
  rfl

theorem position_mono (h : Header) {s t : ℕ} (hst : s ≤ t) : h.position s ≤ h.position t :=
  Nat.div_le_div_right (Nat.mul_le_mul_right h.fps hst)

/-- A millisecond is no more than a frame. -/
theorem position_step (h : Header) (hfps : h.fps ≤ 1000) (t : ℕ) :
    h.position (t + 1) ≤ h.position t + 1 := by
  rw [Header.position, Header.position, Nat.succ_mul]
  omega

/-- A count from 0 that rises by one at most comes to every number on its way. -/
theorem exists_reached {count : ℕ → ℕ} (hzero : count 0 = 0)
    (hstep : ∀ t, count (t + 1) ≤ count t + 1) {last n : ℕ} (hn : n ≤ count last) :
    ∃ t ≤ last, count t = n := by
  induction last with
  | zero => exact ⟨0, le_rfl, by omega⟩
  | succ last ih =>
      have hone := hstep last
      by_cases hbefore : n ≤ count last
      · obtain ⟨t, ht, hcount⟩ := ih hbefore
        exact ⟨t, by omega, hcount⟩
      · exact ⟨last + 1, le_rfl, by omega⟩

/-- In the same cycle the frames go forward. -/
theorem mod_le_of_div_eq {a b n : ℕ} (hab : a ≤ b) (hdiv : a / n = b / n) : a % n ≤ b % n := by
  have ha := Nat.div_add_mod a n
  have hb := Nat.div_add_mod b n
  rw [hdiv] at ha
  omega

/-- **A blob that loads can be played.**  What loads is what is valid, and nothing overflows on
the way; at every time there is a frame, the one of the clock, with a colour for every LED; the
frames go in file order, cycle after cycle, and at 1000 a second or fewer none is left out. -/
theorem blob_plays (memory : Bytes) :
    (header memory).needed.isSome ∧
    ((∃ h, loadChecked memory = .ok h) ↔ Valid memory) ∧
    ∀ h, loadChecked memory = .ok h →
      h = header memory ∧
      (∀ nowMs < 2 ^ 48, ∃ frame, frameAtChecked memory h nowMs = some frame ∧
        frame = frameBytes memory h (nowMs * h.fps / 1000 % h.frames) ∧
        ∀ i < h.nleds, ∃ px, pixelChecked frame i = some px ∧
          ColourAt memory (12 + (nowMs * h.fps / 1000 % h.frames * h.nleds + i) * 3) px) ∧
      (∀ s t, s ≤ t → h.position s / h.frames ≤ h.position t / h.frames ∧
        (h.position s / h.frames = h.position t / h.frames →
          h.position s % h.frames ≤ h.position t % h.frames)) ∧
      (h.fps ≤ 1000 → ∀ last cycle k, k < h.frames → cycle * h.frames + k ≤ h.position last →
        ∃ t ≤ last, h.position t / h.frames = cycle ∧ h.position t % h.frames = k) := by
  refine ⟨by rw [needed_eq]; rfl, ?_, ?_⟩
  · simp only [loadChecked_ok_iff, exists_and_left, exists_eq, and_true]
  · intro h hload
    obtain ⟨hvalid, rfl⟩ := (loadChecked_ok_iff memory h).mp hload
    have hpos : 0 < (header memory).frames := Nat.pos_of_ne_zero hvalid.2.2.2.2.1
    refine ⟨rfl, ?_, ?_, ?_⟩
    · intro nowMs hnow
      refine ⟨_, frameAtChecked_eq hvalid hnow, rfl, fun i hi => ?_⟩
      exact pixelChecked_eq hvalid (Nat.mod_lt _ hpos) hi
    · intro s t hst
      have hmono := position_mono (header memory) hst
      exact ⟨Nat.div_le_div_right hmono, mod_le_of_div_eq hmono⟩
    · intro hfps last cycle k hk hreached
      have hzero : (header memory).position 0 = 0 := by
        rw [Header.position, Nat.zero_mul, Nat.zero_div]
      obtain ⟨t, ht, hcount⟩ := exists_reached hzero (position_step _ hfps) hreached
      refine ⟨t, ht, ?_, ?_⟩
      · rw [hcount, Nat.mul_comm, Nat.mul_add_div hpos, Nat.div_eq_of_lt hk, Nat.add_zero]
      · rw [hcount, Nat.mul_comm, Nat.mul_add_mod, Nat.mod_eq_of_lt hk]

end BadgeOS.Bling
