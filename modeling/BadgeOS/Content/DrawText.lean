import BadgeOS.Content.Shapes
import BadgeOS.Lib.BitField
import Mathlib

/-!
# Text on a surface

`screens/draw.nix`: a font's row-major glyphs are transposed into columns of vertical bytes once;
a text places those of its characters one after the other, each byte split over the two pages its
rows reach.  A string is its bytes, and the rows of a glyph are `ℕ`s.  `y` is a `ℕ`, as the screens
keep it.

* `mkFontData`, `drawTextWith` — the functions;
* `testBit_colByte` — a column's byte has the bits of eight rows;
* `cellEntries_draws` — a byte on two pages;
* `drawText_lit` — the panel shows exactly the glyphs, as far as the bitmap goes.
-/

namespace BadgeOS.Content.DrawText

open Oled

/-- A font as it is generated: one integer per row, whose bit `width - 1` is leftmost. -/
structure FontTable where
  width : ℕ
  height : ℕ
  glyphs : ℕ → Option (List ℕ)
  rows : ∀ code g, glyphs code = some g → g.length = height

def bitSet (v n : ℕ) : Bool := v / p2 n % 2 = 1

/-- Rows `s * 8` to `s * 8 + 7` of column `c`, as a vertical byte. -/
def colByte (fW fH : ℕ) (rows : List ℕ) (c s : ℕ) : ℕ :=
  (List.range 8).foldl (fun acc r =>
    let row := s * 8 + r
    if row < fH ∧ bitSet (rows.getD row 0) (fW - 1 - c) then acc + p2 r else acc) 0

/-- A glyph as columns of `ceil(H / 8)` bytes. -/
def glyphColumns (fW fH : ℕ) (rows : List ℕ) : List (List ℕ) :=
  let slices := (fH + 7) / 8
  (List.range fW).map fun c => (List.range slices).map fun s => colByte fW fH rows c s

/-- A font, transposed. -/
structure FontData where
  width : ℕ
  height : ℕ
  slices : ℕ
  advance : ℕ
  blankCols : List (List ℕ)
  cols : ℕ → Option (List (List ℕ))

def mkFontData (tbl : FontTable) : FontData :=
  let slices := (tbl.height + 7) / 8
  let blankCol := List.replicate slices 0
  { width := tbl.width
    height := tbl.height
    slices := slices
    advance := tbl.width + 1
    blankCols := List.replicate tbl.width blankCol
    cols := fun cp => (tbl.glyphs cp).map (glyphColumns tbl.width tbl.height) }

/-- `codepointOf`: its table has the printable characters.  Anything absent draws as a space. -/
def codepointOf (c : UInt8) : ℕ := if 32 ≤ c ∧ c ≤ 126 then c.toNat else 32

def colsForChar (fontData : FontData) (c : UInt8) : List (List ℕ) :=
  (fontData.cols (codepointOf c)).getD fontData.blankCols

section

variable (width height : ℕ)

/-- One glyph byte `v` placed `off` rows into `page`, in at most two entries. -/
def cellEntries (col page : ℤ) (v lowShift hiShift off : ℕ) : Surface :=
  let pages : ℤ := (height : ℤ).tdiv 8
  if v = 0 ∨ col < 0 ∨ col ≥ width then []
  else
    let lowByte := v * lowShift % 256
    let hiByte := if off = 0 then 0 else v / hiShift
    let lo := if lowByte ≠ 0 ∧ page ≥ 0 ∧ page < pages then
      [{ off := page * width + col, byte := lowByte }] else []
    let hi := if hiByte ≠ 0 ∧ page + 1 ≥ 0 ∧ page + 1 < pages then
      [{ off := (page + 1) * width + col, byte := hiByte }] else []
    lo ++ hi

/-- Entries for one glyph, top-left `(x, y)`. -/
def glyphEntries (fontData : FontData) (x : ℤ) (y : ℕ) (cols : List (List ℕ)) : Surface :=
  let off := y % 8
  let basePage := (y - off) / 8
  let lowShift := p2 off
  let hiShift := p2 (8 - off)
  (List.range cols.length).flatMap fun (c : ℕ) =>
    let colBytes := cols.getD c []
    let colX := x + c
    (List.range fontData.slices).flatMap fun sIdx =>
      cellEntries width height colX (basePage + sIdx : ℕ) (colBytes.getD sIdx 0) lowShift hiShift off

/-- A string left to right, stopping at the right edge. -/
def drawTextWith (fontData : FontData) (surf : Surface) (x : ℤ) (y : ℕ) (str : List UInt8) :
    Surface :=
  let adv := fontData.advance
  surf ++ (List.range str.length).flatMap fun (i : ℕ) =>
    let cx := x + i * adv
    if cx ≥ width then []
    else glyphEntries width height fontData cx y (colsForChar fontData (str.getD i 0))

end

/-! ### Glyphs -/

/-- The bit of a character's glyph, blank when the font has none. -/
def FontTable.glyphBit (tbl : FontTable) (ch : UInt8) (c r : ℕ) : Bool :=
  match tbl.glyphs (codepointOf ch) with
  | some rows => (rows.getD r 0).testBit (tbl.width - 1 - c)
  | none => false

/-- A pixel of a text: it is one of its character `i`, in column `c` and row `r` of the glyph. -/
def FontTable.Has (tbl : FontTable) (x : ℤ) (y : ℕ) (str : List UInt8) (px py : ℤ) : Prop :=
  ∃ i c r : ℕ, i < str.length ∧ c < tbl.width ∧ r < tbl.height ∧
    px - x - i * (tbl.width + 1) = c ∧ py - y = r ∧ tbl.glyphBit (str.getD i 0) c r = true

/-! ### Bits -/

theorem bitSet_eq (v n : ℕ) : bitSet v n = v.testBit n := by
  rw [bitSet, p2_eq, Nat.testBit_eq_decide_div_mod_eq]

theorem testBit_colByte (fW fH : ℕ) (rows : List ℕ) (c s : ℕ) :
    colByte fW fH rows c s < 2 ^ 8 ∧ ∀ r, (colByte fW fH rows c s).testBit r ↔
      r < 8 ∧ s * 8 + r < fH ∧ (rows.getD (s * 8 + r) 0).testBit (fW - 1 - c) := by
  have hbits := @BitField.foldl_range_bits (fun acc r =>
      let row := s * 8 + r
      if row < fH ∧ bitSet (rows.getD row 0) (fW - 1 - c) then acc + p2 r else acc)
    (fun r => s * 8 + r < fH ∧ bitSet (rows.getD (s * 8 + r) 0) (fW - 1 - c))
    (fun acc r hr => by rw [← p2_eq]; exact if_pos hr) (fun acc r hr => if_neg hr) 8
  simp only [bitSet_eq] at hbits
  simpa only [colByte, bitSet_eq] using hbits

/-- The bits of a byte that stay on its page. -/
theorem testBit_low {v off b : ℕ} (hb : b < 8) :
    (v * p2 off % 256).testBit b ↔ off ≤ b ∧ v.testBit (b - off) := by
  have hmod : (256 : ℕ) = 2 ^ 8 := rfl
  rw [hmod, p2_eq, Nat.testBit_mod_two_pow, Nat.mul_comm, Nat.testBit_two_pow_mul]
  simp only [Bool.and_eq_true, decide_eq_true_eq]
  exact and_iff_right hb

/-- And of those that reach the next. -/
theorem testBit_high {v off b : ℕ} :
    (v / p2 (8 - off)).testBit b ↔ v.testBit (b + (8 - off)) := by
  rw [p2_eq, Nat.testBit_div_two_pow]

/-! ### Cells -/

variable {width height : ℕ}

/-- **One entry**, if its page is on the panel. -/
theorem pageEntry_draws (hheight : 8 ∣ height) (col page : ℤ) {b : ℕ} (hcol : 0 ≤ col)
    (hcol' : col < width) (hb : b < 256) :
    Draws width height
      (some (if b ≠ 0 ∧ page ≥ 0 ∧ page < (height : ℤ).tdiv 8 then [⟨page * width + col, b⟩] else []))
      fun px py => px = col ∧ ∃ r : ℕ, r < 8 ∧ b.testBit r ∧ py = page * 8 + r := by
  obtain ⟨pages, rfl⟩ := hheight
  have hpages : ((8 * pages : ℕ) : ℤ).tdiv 8 = pages := by
    rw [Int.tdiv_eq_ediv_of_nonneg (Int.natCast_nonneg _)]
    omega
  rw [hpages]
  split
  · rename_i hon
    obtain ⟨col, rfl⟩ := Int.eq_ofNat_of_zero_le hcol
    obtain ⟨page, rfl⟩ := Int.eq_ofNat_of_zero_le hon.2.1
    refine ⟨_, rfl, fun e he => ?_, fun px py hpx hpy => ?_⟩
    · rw [List.mem_singleton.mp he]
      exact ⟨by positivity, hb⟩
    · constructor
      · rintro ⟨e, he, hplace, hbit⟩
        rw [List.mem_singleton.mp he] at hplace hbit
        dsimp only at hplace
        have hplace' : page * width + col = py / 8 * width + px := by exact_mod_cast hplace
        obtain ⟨rfl, rfl⟩ := place_inj (by omega) hpx hplace'
        exact ⟨rfl, py % 8, Nat.mod_lt py (by decide), hbit, by omega⟩
      · rintro ⟨hx, r, hr, hbit, hy⟩
        refine ⟨_, List.mem_singleton_self _, ?_, ?_⟩
        · have hpage : py / 8 = page := by omega
          rw [hpage, ← Int.ofNat_inj.mp hx]
          push_cast
          rfl
        · have hrow : py % 8 = r := by omega
          rw [hrow]
          exact hbit
  · rename_i hoff
    refine Draws.empty.of_iff fun px py _ _ _ _ => iff_of_false id ?_
    rintro ⟨-, r, hr, hbit, hy⟩
    have hzero : b = 0 := by omega
    rw [hzero, Nat.zero_testBit] at hbit
    exact Bool.false_ne_true hbit

/-- **A byte on two pages.** -/
theorem cellEntries_draws (hheight : 8 ∣ height) (col page : ℤ) {v off : ℕ} (hv : v < 256)
    (hoff : off < 8) :
    Draws width height (some (cellEntries width height col page v (p2 off) (p2 (8 - off)) off))
      fun px py => px = col ∧ ∃ r : ℕ, v.testBit r ∧ py = page * 8 + off + r := by
  rw [cellEntries]
  dsimp only
  by_cases hnone : v = 0 ∨ col < 0 ∨ col ≥ width
  · rw [if_pos hnone]
    refine Draws.empty.of_iff fun px py _ _ _ _ => iff_of_false id ?_
    rintro ⟨hx, r, hbit, -⟩
    have hzero : v = 0 := by omega
    rw [hzero, Nat.zero_testBit] at hbit
    exact Bool.false_ne_true hbit
  · rw [if_neg hnone]
    have hlow : v * p2 off % 256 < 256 := Nat.mod_lt _ (by decide)
    have hhigh : (if off = 0 then 0 else v / p2 (8 - off)) < 256 := by
      split
      · decide
      · exact (Nat.div_le_self _ _).trans_lt hv
    push Not at hnone
    have hboth := (pageEntry_draws hheight col page hnone.2.1 hnone.2.2 hlow).append
      (pageEntry_draws hheight col (page + 1) hnone.2.1 hnone.2.2 hhigh)
    refine hboth.of_iff fun px py _ _ _ _ => ?_
    constructor
    · rintro (⟨hx, r, hr, hbit, hy⟩ | ⟨hx, r, hr, hbit, hy⟩)
      · obtain ⟨hle, hbit'⟩ := (testBit_low hr).mp hbit
        exact ⟨hx, r - off, hbit', by omega⟩
      · split at hbit
        · rw [Nat.zero_testBit] at hbit
          exact absurd hbit Bool.false_ne_true
        · exact ⟨hx, r + (8 - off), testBit_high.mp hbit, by omega⟩
    · rintro ⟨hx, r, hbit, hy⟩
      have hr : r < 8 := by
        by_contra hlarge
        have hsmall : v < 2 ^ r :=
          hv.trans_le (Nat.pow_le_pow_right Nat.two_pos (not_lt.mp hlarge) : 2 ^ 8 ≤ 2 ^ r)
        rw [Nat.testBit_lt_two_pow hsmall] at hbit
        exact Bool.false_ne_true hbit
      by_cases hpage : off + r < 8
      · refine Or.inl ⟨hx, off + r, hpage, (testBit_low hpage).mpr ⟨Nat.le_add_right _ _, ?_⟩, ?_⟩
        · rw [Nat.add_sub_cancel_left]
          exact hbit
        · omega
      · refine Or.inr ⟨hx, off + r - 8, by omega, ?_, by omega⟩
        have hrow : off + r - 8 + (8 - off) = r := by omega
        rw [if_neg (by omega), testBit_high, hrow]
        exact hbit

/-! ### Texts -/

theorem length_colsForChar (tbl : FontTable) (ch : UInt8) :
    (colsForChar (mkFontData tbl) ch).length = tbl.width := by
  rw [colsForChar, mkFontData]
  dsimp only
  cases tbl.glyphs (codepointOf ch) with
  | none => exact List.length_replicate
  | some rows => simp [glyphColumns]

/-- **The columns of a character** have its glyph's bits. -/
theorem colsForChar_bits (tbl : FontTable) (ch : UInt8) {c s : ℕ} (hc : c < tbl.width)
    (hs : s < (tbl.height + 7) / 8) :
    ∃ v, (((colsForChar (mkFontData tbl) ch).getD c []).getD s 0) = v ∧ v < 256 ∧
      ∀ r, v.testBit r ↔ r < 8 ∧ s * 8 + r < tbl.height ∧ tbl.glyphBit ch c (s * 8 + r) = true := by
  rw [colsForChar, mkFontData]
  simp only [FontTable.glyphBit, List.getD_eq_getElem?_getD]
  cases tbl.glyphs (codepointOf ch) with
  | none =>
      refine ⟨0, ?_, by decide, fun r => ?_⟩
      · simp [hc, hs]
      · rw [Nat.zero_testBit]
        simp
  | some rows =>
      obtain ⟨hlt, hbits⟩ := testBit_colByte tbl.width tbl.height rows c s
      refine ⟨colByte tbl.width tbl.height rows c s, ?_, hlt, fun r => ?_⟩
      · simp [glyphColumns, hc, hs]
      · rw [hbits r, List.getD_eq_getElem?_getD]

/-- **A glyph** has its pixels. -/
theorem glyphEntries_draws (hheight : 8 ∣ height) (tbl : FontTable) (x : ℤ) (y : ℕ) (ch : UInt8) :
    Draws width height (some (glyphEntries width height (mkFontData tbl) x y
      (colsForChar (mkFontData tbl) ch)))
      fun px py => ∃ c r : ℕ, c < tbl.width ∧ r < tbl.height ∧ px = x + c ∧ py = y + r ∧
        tbl.glyphBit ch c r = true := by
  have hslices : (mkFontData tbl).slices = (tbl.height + 7) / 8 := rfl
  rw [glyphEntries]
  dsimp only
  rw [length_colsForChar, hslices]
  have hcells := @Draws.flatMap width height _ _ _ (List.range tbl.width) fun c hc =>
    @Draws.flatMap width height _ _ _ (List.range ((tbl.height + 7) / 8)) fun s hs => by
      obtain ⟨v, hv, hlt, -⟩ := colsForChar_bits tbl ch (List.mem_range.mp hc) (List.mem_range.mp hs)
      exact cellEntries_draws hheight (x + c) ((y - y % 8) / 8 + s : ℕ)
        (hv.symm ▸ hlt) (Nat.mod_lt y (by decide))
  refine hcells.of_iff fun px py _ _ _ _ => ?_
  constructor
  · rintro ⟨c, hc, s, hs, hx, r, hbit, hy⟩
    obtain ⟨v, hv, -, hbits⟩ :=
      colsForChar_bits tbl ch (List.mem_range.mp hc) (List.mem_range.mp hs)
    rw [hv] at hbit
    obtain ⟨-, hrow, hglyph⟩ := (hbits r).mp hbit
    exact ⟨c, s * 8 + r, List.mem_range.mp hc, hrow, hx, by omega, hglyph⟩
  · rintro ⟨c, r, hc, hr, hx, hy, hglyph⟩
    have hs : r / 8 < (tbl.height + 7) / 8 := by omega
    refine ⟨c, List.mem_range.mpr hc, r / 8, List.mem_range.mpr hs, hx, r % 8, ?_, by omega⟩
    obtain ⟨v, hv, -, hbits⟩ := colsForChar_bits tbl ch hc hs
    have hrow : r / 8 * 8 + r % 8 = r := Nat.div_add_mod' r 8
    rw [hv, hbits, hrow]
    exact ⟨Nat.mod_lt r (by decide), hr, hglyph⟩

/-- **A text** has its pixels, whatever is drawn already. -/
theorem drawTextWith_draws (hheight : 8 ∣ height) (tbl : FontTable) {surf : Surface}
    {S : ℤ → ℤ → Prop} (hsurf : Draws width height (some surf) S) (x : ℤ) (y : ℕ)
    (str : List UInt8) :
    Draws width height (some (drawTextWith width height (mkFontData tbl) surf x y str))
      fun px py => S px py ∨ tbl.Has x y str px py := by
  have hadvance : ((mkFontData tbl).advance : ℤ) = tbl.width + 1 := rfl
  have hchars := @Draws.flatMap width height _ (fun i : ℕ =>
      if x + i * (mkFontData tbl).advance ≥ width then []
      else glyphEntries width height (mkFontData tbl) (x + i * (mkFontData tbl).advance) y
        (colsForChar (mkFontData tbl) (str.getD i 0)))
    (fun i px py => ∃ c r : ℕ, c < tbl.width ∧ r < tbl.height ∧
      px = x + i * (tbl.width + 1) + c ∧ py = y + r ∧ tbl.glyphBit (str.getD i 0) c r = true)
    (List.range str.length) fun i _ => by
      rw [hadvance]
      split
      · refine Draws.empty.of_iff fun px py _ _ _ _ => iff_of_false id ?_
        rintro ⟨c, r, -, -, hx, -⟩
        omega
      · exact glyphEntries_draws hheight tbl _ y _
  refine (hsurf.append hchars).of_iff fun px py _ _ _ _ => or_congr_right ?_
  constructor
  · rintro ⟨i, hi, c, r, hc, hr, hx, hy, hglyph⟩
    exact ⟨i, c, r, List.mem_range.mp hi, hc, hr, by omega, by omega, hglyph⟩
  · rintro ⟨i, c, r, hi, hc, hr, hx, hy, hglyph⟩
    exact ⟨i, List.mem_range.mpr hi, c, r, hc, hr, by omega, by omega, hglyph⟩

/-- **The panel shows exactly the glyphs**, as far as the bitmap goes. -/
theorem drawText_lit (tbl : FontTable) (hheight : 8 ∣ height) (x : ℤ) (y : ℕ) (str : List UInt8)
    {out : List UInt8} (hout : out.length = width * height / 8) :
    ∃ ints, pack width height (drawTextWith width height (mkFontData tbl) [] x y str) = some ints ∧
      ∀ px py : ℕ, px < width → py < height →
        (lit width (decodeOled ints out).2 px py = true ↔
          tbl.Has x y str px py ∧ InBitmap width height px py) := by
  have hdraws := drawTextWith_draws hheight tbl (@Draws.empty width height) x y str
  exact (hdraws.of_iff fun px py _ _ _ _ => by rw [false_or]).lit hheight hout

/-- A font of one glyph, a vertical line for the space. -/
def lineTable : FontTable where
  width := 1
  height := 8
  glyphs code := if code = 32 then some [1, 1, 1, 1, 1, 1, 1, 1] else none
  rows code g h := by
    split at h
    · cases h
      rfl
    · cases h

/-- Three of them from left of the panel, over two pages. -/
theorem drawText_lit_line :
    ∃ ints, pack 4 16 (drawTextWith 4 16 (mkFontData lineTable) [] (-2) 3 [32, 33, 32]) =
      some ints ∧ ∀ px py : ℕ, px < 4 → py < 16 →
        (lit 4 (decodeOled ints [0, 0, 0, 0, 0, 0, 0, 0]).2 px py = true ↔
          lineTable.Has (-2) 3 [32, 33, 32] px py ∧ InBitmap 4 16 px py) :=
  drawText_lit lineTable (by decide) (-2) 3 [32, 33, 32] rfl

/-- A line feed, for which the font has no glyph, is drawn as its space, and a panel of one byte has
no integer to draw one in. -/
theorem drawText_lit_fails :
    lineTable.glyphs 10 = none ∧
      pack 4 8 (drawTextWith 4 8 (mkFontData lineTable) [] 0 0 [10]) = some [255] ∧
        lit 4 (decodeOled [255] [0, 0, 0, 0]).2 0 0 = true ∧
          pack 1 8 (drawTextWith 1 8 (mkFontData lineTable) [] 0 0 [32]) = some [] ∧
            lit 1 (decodeOled [] [0]).2 0 0 = false ∧ lineTable.Has 0 0 [32] 0 0 :=
  ⟨rfl, by decide, by decide, by decide, by decide, 0, 0, 0, by decide⟩

end BadgeOS.Content.DrawText
