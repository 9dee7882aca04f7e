import BadgeOS.Content.Bitmap
import BadgeOS.Content.Shapes
import BadgeOS.Lib.Hex
import Mathlib

/-!
# Blobs that are built in Nix

`oled.nix` builds the "BADA" blob of a list of pictures as a list of bytes, and writes those in hex,
since a string cannot hold them.  `nix-badge-bling-demo` reads the hex back with `xxd -r -p` and
refuses a blob whose size is not the one that its header asks for.  Sizes, rates and bytes are
natural numbers.

* `badaBytes`, `hex`, `bake` — the functions;
* `decode_hex` — the bytes come through;
* `packFrame_eq` — a packed picture;
* `bake_badaHex` — the size check.
-/

namespace BadgeOS.Content.Bake

/-! ### The builder -/

/-- `[a, a+1, ..., a+n-1]` -/
def range (a n : ℕ) : List ℕ := (List.range n).map fun i => a + i

/-- `a` mod `b`: Nix has no such builtin. -/
def mod (a b : ℕ) : ℕ := a - a / b * b

def u16 (n : ℕ) : List ℕ := [mod n 256, mod (n / 256) 256]

def u32 (n : ℕ) : List ℕ :=
  [mod n 256, mod (n / 256) 256, mod (n / 65536) 256, mod (n / 16777216) 256]

/-- One frame in bytes of eight rows. -/
def packFrame (width height : ℕ) (px : ℕ → ℕ → Bool) : List ℕ :=
  let pages := height / 8
  (range 0 pages).flatMap fun page => (range 0 width).map fun col =>
    (range 0 8).foldl (fun b row => b + if px col (page * 8 + row) then p2 row else 0) 0

/-- An animation: pictures of one size. -/
structure Spec where
  width : ℕ
  height : ℕ
  fps : ℕ
  frames : List (ℕ → ℕ → Bool)

/-- The whole blob. -/
def badaBytes (s : Spec) : List ℕ :=
  [66, 65, 68, 65] ++ u16 s.width ++ u16 s.height ++ u16 s.fps ++ u16 0 ++ u32 s.frames.length ++
    s.frames.flatMap (packFrame s.width s.height)

/-- `builtins.substring` -/
def substring (start len : ℕ) (s : List Char) : List Char := (s.drop start).take len

/-- Bytes in lower-case hex. -/
def hex (bytes : List ℕ) : List Char :=
  bytes.flatMap fun b => substring (b / 16) 1 Hex.digits ++ substring (mod b 16) 1 Hex.digits

def badaHex (s : Spec) : List Char := hex (badaBytes s)

/-! ### The derivation -/

inductive BakeError
  | badHex
  | badMagic (magic : List UInt8)
  | size (total want : ℕ)
  deriving DecidableEq, Repr

/-- `od -An -tu2` and `od -An -tu4`: `n` bytes at `j`, the low one first. -/
def od (bytes : List UInt8) (j n : ℕ) : ℕ :=
  ((bytes.drop j).take n).foldr (fun b acc => b.toNat + 256 * acc) 0

/-- The size that the header asks for. -/
def want (bytes : List UInt8) : Except BakeError ℕ :=
  let magic := bytes.take 4
  let a := od bytes 4 2
  if magic = [66, 65, 68, 65] then
    let h := od bytes 6 2
    let count := od bytes 12 4
    .ok (16 + count * a * (h / 8))
  else if magic = [66, 76, 69, 68] then
    let count := od bytes 8 4
    .ok (12 + count * a * 3)
  else .error (.badMagic magic)

/-- What becomes of what `fix eval --raw` prints. -/
def bake (text : List Char) : Except BakeError (List UInt8) :=
  match Hex.decode text with
  | none => .error .badHex
  | some bytes =>
      match want bytes with
      | .error e => .error e
      | .ok size => if bytes.length = size then .ok bytes else .error (.size bytes.length size)

/-! ### The bytes -/

theorem mod_eq (a b : ℕ) : mod a b = a % b := by
  have := Nat.div_add_mod' a b
  unfold mod
  omega

theorem range_zero (n : ℕ) : range 0 n = List.range n := by
  rw [range]
  simp only [Nat.zero_add, List.map_id']

/-- Numbers as the bytes they are. -/
def toBytes (bytes : List ℕ) : List UInt8 := bytes.map UInt8.ofNat

/-- **The hex of bytes** is that of the library. -/
theorem hex_eq {bytes : List ℕ} (h : ∀ b ∈ bytes, b < 256) :
    hex bytes = Hex.encode (toBytes bytes) := by
  have hdigit : ∀ d < 16, substring d 1 Hex.digits = [Hex.digits.getD d '0'] := by decide
  induction bytes with
  | nil => rfl
  | cons b bytes ih =>
      have hb := h b List.mem_cons_self
      have hbyte : (UInt8.ofNat b).toNat = b := UInt8.toNat_ofNat_of_lt hb
      have hrest := ih fun c hc => h c (List.mem_cons_of_mem b hc)
      rw [hex] at hrest
      have hcons : Hex.encode (toBytes (b :: bytes)) =
          Hex.pair (UInt8.ofNat b) ++ Hex.encode (toBytes bytes) := rfl
      rw [hex, List.flatMap_cons, hrest, hcons, mod_eq, hdigit _ (by omega),
        hdigit _ (Nat.mod_lt _ (by decide)), Hex.pair, hbyte]
      rfl

/-- **The bytes come through.** -/
theorem decode_hex {bytes : List ℕ} (h : ∀ b ∈ bytes, b < 256) :
    Hex.decode (hex bytes) = some (toBytes bytes) := by
  rw [hex_eq h, Hex.decode_encode]

/-- What is baked is what the hex says. -/
theorem bake_eq {text : List Char} {blob : List UInt8} (h : bake text = .ok blob) :
    Hex.decode text = some blob := by
  unfold bake at h
  split at h
  · cases h
  · rename_i bytes hbytes
    split at h
    · cases h
    · split at h
      · cases h
        exact hbytes
      · cases h

/-- What is baked of bytes is the bytes, ... -/
theorem baked_bytes {bytes : List ℕ} {blob : List UInt8} (h : ∀ b ∈ bytes, b < 256)
    (hbake : bake (hex bytes) = .ok blob) : blob = toBytes bytes := by
  have hdecode := bake_eq hbake
  rw [decode_hex h, Option.some.injEq] at hdecode
  exact hdecode.symm

/-- ... if they are as many as their header asks for. -/
theorem bake_hex_iff {bytes : List ℕ} {size : ℕ} (h : ∀ b ∈ bytes, b < 256)
    (hwant : want (toBytes bytes) = .ok size) :
    (∃ blob, bake (hex bytes) = .ok blob) ↔ (toBytes bytes).length = size := by
  rw [bake, decode_hex h]
  dsimp only
  rw [hwant]
  dsimp only
  split
  · rename_i heq
    exact iff_of_true ⟨_, rfl⟩ heq
  · rename_i hne
    refine iff_of_false ?_ hne
    rintro ⟨blob, hblob⟩
    cases hblob

theorem u16_lt (n : ℕ) : ∀ b ∈ u16 n, b < 256 := by
  intro b hb
  simp only [u16, mod_eq, List.mem_cons, List.not_mem_nil, or_false] at hb
  omega

theorem u32_lt (n : ℕ) : ∀ b ∈ u32 n, b < 256 := by
  intro b hb
  simp only [u32, mod_eq, List.mem_cons, List.not_mem_nil, or_false] at hb
  omega

/-- A column's byte, as a number. -/
theorem packByte_eq (px : ℕ → Bool) :
    (range 0 8).foldl (fun b row => b + if px row then p2 row else 0) 0 = (column px).toNat := by
  have hbits := (@BitField.foldl_range_bits (fun b row => if px row then b + 2 ^ row else b)
    (fun row => px row = true) (fun _ _ h => if_pos h) (fun _ _ h => if_neg h) 8).1
  have hbyte : (column px).toNat = _ := UInt8.toNat_ofNat_of_lt hbits
  rw [hbyte, range_zero]
  refine List.foldl_ext _ _ _ fun b row _ => ?_
  rw [p2_eq]
  split <;> rfl

theorem packFrame_eq (width height : ℕ) (px : ℕ → ℕ → Bool) :
    packFrame width height px = (bitmap width (height / 8) px).map UInt8.toNat := by
  rw [packFrame, bitmap, List.map_flatMap, range_zero (height / 8)]
  refine List.flatMap_congr fun page _ => ?_
  rw [range_zero width, List.map_map]
  exact List.map_congr_left fun col _ => packByte_eq fun row => px col (page * 8 + row)

/-! ### The size check -/

theorem toNat_mod (m : ℕ) : (UInt8.ofNat (mod m 256)).toNat = m % 256 := by
  rw [mod_eq]
  exact UInt8.toNat_ofNat_of_lt (Nat.mod_lt _ (by decide))

theorem od_u16 {pre : List UInt8} {j : ℕ} (hj : pre.length = j) (n : ℕ) (rest : List UInt8) :
    od (pre ++ (toBytes (u16 n) ++ rest)) j 2 = n % 2 ^ 16 := by
  have hbytes : od (pre ++ (toBytes (u16 n) ++ rest)) j 2 =
      (UInt8.ofNat (mod n 256)).toNat +
        256 * ((UInt8.ofNat (mod (n / 256) 256)).toNat + 256 * 0) := by
    rw [od, List.drop_left' hj]
    rfl
  rw [hbytes, toNat_mod, toNat_mod]
  omega

theorem od_u32 {pre : List UInt8} {j : ℕ} (hj : pre.length = j) (n : ℕ) (rest : List UInt8) :
    od (pre ++ (toBytes (u32 n) ++ rest)) j 4 = n % 2 ^ 32 := by
  have hbytes : od (pre ++ (toBytes (u32 n) ++ rest)) j 4 =
      (UInt8.ofNat (mod n 256)).toNat + 256 * ((UInt8.ofNat (mod (n / 256) 256)).toNat + 256 *
        ((UInt8.ofNat (mod (n / 65536) 256)).toNat + 256 *
          ((UInt8.ofNat (mod (n / 16777216) 256)).toNat + 256 * 0))) := by
    rw [od, List.drop_left' hj]
    rfl
  rw [hbytes, toNat_mod, toNat_mod, toNat_mod, toNat_mod]
  omega

/-- The bytes of the blob. -/
theorem toBytes_badaBytes (s : Spec) : toBytes (badaBytes s) = [66, 65, 68, 65] ++
    (toBytes (u16 s.width) ++ (toBytes (u16 s.height) ++ (toBytes (u16 s.fps) ++
      (toBytes (u16 0) ++ (toBytes (u32 s.frames.length) ++
        s.frames.flatMap (bitmap s.width (s.height / 8))))))) := by
  have hframe (px : ℕ → ℕ → Bool) :
      toBytes (packFrame s.width s.height px) = bitmap s.width (s.height / 8) px := by
    rw [packFrame_eq, toBytes, List.map_map]
    exact List.map_id'' (fun b => UInt8.ofNat_toNat) _
  have hframes : toBytes (s.frames.flatMap (packFrame s.width s.height)) =
      s.frames.flatMap (bitmap s.width (s.height / 8)) := by
    rw [toBytes, List.map_flatMap]
    exact List.flatMap_congr fun px _ => hframe px
  rw [← hframes, badaBytes]
  simp only [toBytes, List.map_append, List.append_assoc]
  rfl

theorem badaBytes_lt (s : Spec) : ∀ b ∈ badaBytes s, b < 256 := by
  intro b hb
  simp only [badaBytes, List.mem_append, List.mem_flatMap, packFrame_eq] at hb
  rcases hb with (((((hb | hb) | hb) | hb) | hb) | hb) | ⟨px, -, hb⟩
  · revert b
    decide
  · exact u16_lt _ b hb
  · exact u16_lt _ b hb
  · exact u16_lt _ b hb
  · exact u16_lt _ b hb
  · exact u32_lt _ b hb
  · obtain ⟨c, -, rfl⟩ := List.mem_map.mp hb
    exact c.toNat_lt

theorem length_badaBytes (s : Spec) : (toBytes (badaBytes s)).length =
    16 + s.frames.length * s.width * (s.height / 8) := by
  have hheader (n : ℕ) : (toBytes (u16 n)).length = 2 ∧ (toBytes (u32 n)).length = 4 := ⟨rfl, rfl⟩
  rw [toBytes_badaBytes]
  simp only [List.length_append, length_bitmaps, (hheader _).1, (hheader _).2, List.length_cons,
    List.length_nil]
  ring

/-- What the header of a blob asks for: its numbers may have been cut. -/
theorem want_badaBytes (s : Spec) : want (toBytes (badaBytes s)) =
    .ok (16 + s.frames.length % 2 ^ 32 * (s.width % 2 ^ 16) * (s.height % 2 ^ 16 / 8)) := by
  have hwidth : od (toBytes (badaBytes s)) 4 2 = s.width % 2 ^ 16 := by
    rw [toBytes_badaBytes]
    exact od_u16 rfl _ _
  have hheight : od (toBytes (badaBytes s)) 6 2 = s.height % 2 ^ 16 := by
    rw [toBytes_badaBytes, ← List.append_assoc]
    exact od_u16 rfl _ _
  have hcount : od (toBytes (badaBytes s)) 12 4 = s.frames.length % 2 ^ 32 := by
    rw [toBytes_badaBytes, ← List.append_assoc, ← List.append_assoc, ← List.append_assoc,
      ← List.append_assoc]
    exact od_u32 rfl _ _
  have hmagic : (toBytes (badaBytes s)).take 4 = [66, 65, 68, 65] := by
    rw [toBytes_badaBytes]
    exact List.take_left' rfl
  rw [want]
  dsimp only
  rw [hmagic, if_pos rfl, hwidth, hheight, hcount]

/-- Factors that are no larger, with the same product. -/
theorem product_eq_iff {a b c a' b' c' : ℕ} (ha : a' ≤ a) (hb : b' ≤ b) (hc : c' ≤ c)
    (hpos : 0 < a * b * c) : a' * b' * c' = a * b * c ↔ a' = a ∧ b' = b ∧ c' = c := by
  constructor
  · intro h
    have hab : a' * b' ≤ a * b := Nat.mul_le_mul ha hb
    have habpos : 0 < a * b := Nat.pos_of_mul_pos_right hpos
    have hcpos : 0 < c := Nat.pos_of_mul_pos_left hpos
    have hc' : c' = c := by
      by_contra hne
      have hlt : a' * b' * c' < a * b * c := by
        calc a' * b' * c' ≤ a * b * c' := Nat.mul_le_mul_right _ hab
          _ < a * b * c := Nat.mul_lt_mul_of_pos_left (by omega) habpos
      omega
    subst hc'
    have hab' : a' * b' = a * b := Nat.eq_of_mul_eq_mul_right hcpos h
    have hbpos : 0 < b := Nat.pos_of_mul_pos_left habpos
    have hapos : 0 < a := Nat.pos_of_mul_pos_right habpos
    have hb' : b' = b := by
      by_contra hne
      have hlt : a' * b' < a * b := by
        calc a' * b' ≤ a * b' := Nat.mul_le_mul_right _ ha
          _ < a * b := Nat.mul_lt_mul_of_pos_left (by omega) hapos
      omega
    subst hb'
    exact ⟨Nat.eq_of_mul_eq_mul_right hbpos hab', rfl, rfl⟩
  · rintro ⟨rfl, rfl, rfl⟩
    rfl

/-- **The bake** of a picture sequence: its bytes, if the numbers in its header are whole. -/
theorem bake_badaHex (s : Spec) (hwidth : 0 < s.width) (hheight : 8 ≤ s.height) :
    (∃ blob, bake (badaHex s) = .ok blob) ↔ s.frames = [] ∨
      s.frames.length < 2 ^ 32 ∧ s.width < 2 ^ 16 ∧ s.height < 2 ^ 16 := by
  have hsize : (∃ blob, bake (badaHex s) = .ok blob) ↔
      s.frames.length % 2 ^ 32 * (s.width % 2 ^ 16) * (s.height % 2 ^ 16 / 8) =
        s.frames.length * s.width * (s.height / 8) := by
    rw [badaHex, bake_hex_iff (badaBytes_lt s) (want_badaBytes s), length_badaBytes]
    omega
  rw [hsize]
  by_cases hframes : s.frames = []
  · refine iff_of_true ?_ (.inl hframes)
    rw [hframes, List.length_nil, Nat.zero_mod]
    simp only [Nat.zero_mul]
  · have hcount := List.length_pos_iff.mpr hframes
    have hpages : 0 < s.height / 8 := by omega
    rw [product_eq_iff (Nat.mod_le _ _) (Nat.mod_le _ _)
      (Nat.div_le_div_right (Nat.mod_le _ _)) (Nat.mul_pos (Nat.mul_pos hcount hwidth) hpages),
      or_iff_right hframes]
    omega

end BadgeOS.Content.Bake
