import BadgeOS.Content.Surface
import BadgeOS.Lib.BitField
import BadgeOS.Lib.Painting
import Mathlib

/-!
# Bitmaps in pages of eight rows

The one picture format of the OLED: byte `page * width + col` has the eight pixels of a column on
its page, the top one in the low bit.  Whoever writes such a bitmap, it is told by its pixels.

* `bitmap` — the bitmap of a picture, and `lit_bitmap`, its pixels;
* `eq_bitmap` — a bitmap with a picture's pixels is that picture's;
* `setBit`, `lit_foldl_setBit` — one made by setting pixels, in any order.
-/

namespace BadgeOS.Content

variable {width pages : ℕ} {px : ℕ → ℕ → Bool} {fb : List UInt8}

/-! ### The bitmap of a picture -/

/-- The byte of eight pixels. -/
def column (px : ℕ → Bool) : UInt8 :=
  UInt8.ofNat ((List.range 8).foldl (fun b row => if px row then b + 2 ^ row else b) 0)

/-- The bitmap of the picture with pixels `px col row`. -/
def bitmap (width pages : ℕ) (px : ℕ → ℕ → Bool) : List UInt8 :=
  (List.range pages).flatMap fun page => (List.range width).map fun col =>
    column fun row => px col (page * 8 + row)

theorem testBit_column (px : ℕ → Bool) {row : ℕ} (hrow : row < 8) :
    (column px).toNat.testBit row = px row := by
  obtain ⟨hlt, hbits⟩ := @BitField.foldl_range_bits
    (fun b row => if px row then b + 2 ^ row else b) (fun row => px row = true)
    (fun _ _ h => if_pos h) (fun _ _ h => if_neg h) 8
  have hbyte : (column px).toNat = _ := UInt8.toNat_ofNat_of_lt hlt
  rw [hbyte, Bool.eq_iff_iff, hbits]
  exact and_iff_right hrow

theorem length_bitmap (width pages : ℕ) (px : ℕ → ℕ → Bool) :
    (bitmap width pages px).length = pages * width :=
  Memory.length_pieces (fun _ => by rw [List.length_map, List.length_range]) pages

theorem length_bitmaps (width pages : ℕ) (frames : List (ℕ → ℕ → Bool)) :
    (frames.flatMap (bitmap width pages)).length = frames.length * (pages * width) := by
  rw [List.length_flatMap]
  simp only [length_bitmap]
  rw [List.map_const', List.sum_replicate, smul_eq_mul]

/-- A column's place. -/
theorem place_lt {x y : ℕ} (hx : x < width) (hy : y < pages * 8) :
    y / 8 * width + x < pages * width := by
  have hrow : (y / 8 + 1) * width ≤ pages * width := Nat.mul_le_mul_right width (by omega)
  rw [Nat.succ_mul] at hrow
  omega

theorem bitmap_getElem? {page col : ℕ} (hpage : page < pages) (hcol : col < width) :
    (bitmap width pages px)[page * width + col]? =
      some (column fun row => px col (page * 8 + row)) := by
  have hlt : page * width + col < pages * width := by
    have hplace : page * 8 / 8 * width + col < pages * width := place_lt hcol (by omega)
    rwa [Nat.mul_div_cancel _ (by decide : 0 < 8)] at hplace
  have hpos : 0 < width := by omega
  rw [bitmap, Memory.getElem?_pieces (b := width) (fun _ => by simp) pages hlt, Nat.add_comm,
    Nat.add_mul_div_right _ _ hpos, Nat.div_eq_of_lt hcol, Nat.zero_add, Nat.add_mul_mod_self_right,
    Nat.mod_eq_of_lt hcol, List.getElem?_map, List.getElem?_range hcol]
  rfl

theorem lit_bitmap {x y : ℕ} (hx : x < width) (hy : y < pages * 8) :
    lit width (bitmap width pages px) x y = px x y := by
  rw [lit, List.getD_eq_getElem?_getD, bitmap_getElem? (by omega) hx, Option.getD_some,
    testBit_column _ (Nat.mod_lt _ (by decide)), Nat.div_add_mod']

/-- Two bytes with the same bits. -/
theorem byte_ext {a b : UInt8} (h : ∀ r < 8, a.toNat.testBit r = b.toNat.testBit r) : a = b := by
  refine UInt8.toNat_inj.mp (Nat.eq_of_testBit_eq fun r => ?_)
  by_cases hr : r < 8
  · exact h r hr
  · have hbig : 2 ^ 8 ≤ 2 ^ r := Nat.pow_le_pow_right (by decide) (by omega)
    rw [Nat.testBit_lt_two_pow (a.toNat_lt.trans_le hbig),
      Nat.testBit_lt_two_pow (b.toNat_lt.trans_le hbig)]

/-- **A bitmap is told by its pixels.** -/
theorem eq_bitmap (hlen : fb.length = pages * width)
    (hlit : ∀ x < width, ∀ y < pages * 8, lit width fb x y = px x y) :
    fb = bitmap width pages px := by
  refine List.ext_getElem (by rw [hlen, length_bitmap]) fun o ho ho' => ?_
  have hpos : 0 < width := by
    rcases Nat.eq_zero_or_pos width with rfl | hpos
    · omega
    · exact hpos
  have hcol : o % width < width := Nat.mod_lt _ hpos
  have hpage : o / width < pages := Nat.div_lt_of_lt_mul (by rw [Nat.mul_comm]; omega)
  have hsplit : o / width * width + o % width = o := Nat.div_add_mod' o width
  have hget : (bitmap width pages px)[o / width * width + o % width]? = some _ :=
    bitmap_getElem? hpage hcol
  rw [hsplit, List.getElem?_eq_getElem ho'] at hget
  rw [Option.some.inj hget]
  refine byte_ext fun r hr => ?_
  have hdiv : (o / width * 8 + r) / 8 = o / width := by omega
  have hmod : (o / width * 8 + r) % 8 = r := by omega
  have hpixel := hlit (o % width) hcol (o / width * 8 + r) (by omega)
  rw [lit, hdiv, hmod, hsplit, List.getD_eq_getElem?_getD, List.getElem?_eq_getElem ho,
    Option.getD_some] at hpixel
  rw [testBit_column _ hr, hpixel]

/-- Pixels beyond the bitmap do not matter. -/
theorem bitmap_congr {px' : ℕ → ℕ → Bool}
    (h : ∀ x < width, ∀ y < pages * 8, px x y = px' x y) :
    bitmap width pages px = bitmap width pages px' :=
  eq_bitmap (length_bitmap width pages px) fun x hx y hy => by rw [lit_bitmap hx hy, h x hx y hy]

/-! ### Setting pixels -/

/-- `fb[page * width + x] |= 1 << (y % 8)` -/
def setBit (width : ℕ) (fb : List UInt8) (x y : ℕ) : List UInt8 :=
  fb.modify (y / 8 * width + x) fun b => b ||| (1 : UInt8) <<< UInt8.ofNat (y % 8)

theorem length_setBit (width : ℕ) (fb : List UInt8) (x y : ℕ) :
    (setBit width fb x y).length = fb.length := List.length_modify ..

theorem testBit_or_bit (b : UInt8) {r r' : ℕ} (hr : r < 8) (hr' : r' < 8) :
    (b ||| (1 : UInt8) <<< UInt8.ofNat r).toNat.testBit r' = (b.toNat.testBit r' || r' == r) := by
  have hone : ∀ r < 8, ∀ r' < 8,
      ((1 : UInt8) <<< UInt8.ofNat r).toNat.testBit r' = (r' == r) := by decide
  rw [UInt8.toNat_or, Nat.testBit_or, hone r hr r' hr']

theorem lit_setBit {x y x' y' : ℕ} (hlen : fb.length = pages * width) (hx : x < width)
    (hx' : x' < width) (hy' : y' < pages * 8) :
    lit width (setBit width fb x y) x' y' = (lit width fb x' y' || x' == x && y' == y) := by
  have hlt : y' / 8 * width + x' < fb.length := hlen ▸ place_lt hx' hy'
  rw [lit, lit, setBit, List.getD_eq_getElem?_getD, List.getD_eq_getElem?_getD, List.getElem?_modify,
    List.getElem?_eq_getElem hlt, Option.map_eq_map, Option.map_some, Option.getD_some,
    Option.getD_some]
  by_cases hplace : y / 8 * width + x = y' / 8 * width + x'
  · obtain ⟨hpage, rfl⟩ := place_inj hx hx' hplace
    have hrow : (y' % 8 == y % 8) = (y' == y) := by
      rw [Bool.eq_iff_iff, beq_iff_eq, beq_iff_eq]
      omega
    rw [if_pos hplace, testBit_or_bit _ (Nat.mod_lt _ (by decide)) (Nat.mod_lt _ (by decide)), hrow,
      beq_self_eq_true, Bool.true_and]
  · have hother : (x' == x && y' == y) = false := by
      rw [Bool.and_eq_false_iff, beq_eq_false_iff_ne, beq_eq_false_iff_ne, ← not_and_or]
      rintro ⟨rfl, rfl⟩
      exact hplace rfl
    rw [if_neg hplace, hother, Bool.or_false]

/-- **A bitmap made pixel by pixel** has those that were set. -/
theorem lit_foldl_setBit (px : ℕ → ℕ → Bool) {pixels : List (ℕ × ℕ)}
    (hlen : fb.length = pages * width) (hin : ∀ p ∈ pixels, p.1 < width) :
    (pixels.foldl (fun fb p => if px p.1 p.2 then setBit width fb p.1 p.2 else fb) fb).length =
        pages * width ∧
      ∀ x < width, ∀ y < pages * 8,
        lit width (pixels.foldl (fun fb p => if px p.1 p.2 then setBit width fb p.1 p.2 else fb) fb)
          x y = (lit width fb x y || decide ((x, y) ∈ pixels) && px x y) := by
  induction pixels generalizing fb with
  | nil => exact ⟨hlen, fun x _ y _ => by simp⟩
  | cons p pixels ih =>
      have hrest := fun q hq => hin q (List.mem_cons_of_mem p hq)
      by_cases hset : px p.1 p.2 = true
      · have hnext : (setBit width fb p.1 p.2).length = pages * width := by
          rw [length_setBit, hlen]
        obtain ⟨hlen', hlit⟩ := ih hnext hrest
        rw [List.foldl_cons, if_pos hset]
        refine ⟨hlen', fun x hx y hy => ?_⟩
        rw [hlit x hx y hy, lit_setBit hlen (hin p List.mem_cons_self) hx hy]
        by_cases hp : (x, y) = p
        · subst hp
          simp [hset]
        · have hne : (x == p.1 && y == p.2) = false := by
            rw [Bool.and_eq_false_iff, beq_eq_false_iff_ne, beq_eq_false_iff_ne, ← not_and_or]
            exact fun h => hp (Prod.ext h.1 h.2)
          rw [hne, Bool.or_false]
          simp [hp]
      · obtain ⟨hlen', hlit⟩ := ih hlen hrest
        rw [List.foldl_cons, if_neg hset]
        refine ⟨hlen', fun x hx y hy => ?_⟩
        rw [hlit x hx y hy]
        by_cases hp : (x, y) = p
        · subst hp
          simp [hset]
        · simp [hp]

end BadgeOS.Content
