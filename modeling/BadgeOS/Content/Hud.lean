import BadgeOS.Content.Font
import BadgeOS.Lib.BitField
import Mathlib

/-!
# A text in the framebuffer

What `renderText` packs and `applyOverlay` takes apart: every column of the text that is between the
panel's edges gets its byte, and nothing else is written.

* `FontData.columnBit` — the bits of a text's columns;
* `mem_textEntries` — the entries of a text are its columns;
* `renderText_lands` — what is in the framebuffer afterwards.
-/

namespace BadgeOS.Content

open Packing Oled

/-- The glyph a character is drawn with: a space's when it is not printable or has none. -/
def FontData.glyphOf (font : FontData) (ch : UInt8) : List ℕ :=
  ((font.glyphs ((cp ch).getD 32)).or (font.glyphs 32)).getD []

/-- Bit `r` of column `c` of a character: row `r` of its glyph, and nothing in the gap. -/
def FontData.columnBit (font : FontData) (ch : UInt8) (c r : ℕ) : Bool :=
  decide (c < 5) && ((font.glyphOf ch).getD r 0).testBit (4 - c)

/-! ### Columns -/

theorem pow2_eq (n : ℕ) : pow2 n = 2 ^ n := by
  induction n with
  | zero => rfl
  | succ n ih => rw [pow2, List.range_succ, List.foldl_concat, ← pow2, ih, Nat.pow_succ]

theorem bit_eq (v b : ℕ) : bit v b = (v.testBit b).toNat := by
  rw [Nat.toNat_testBit, bit, pow2_eq]
  omega

/-- A column has the bits of eight rows. -/
theorem testBit_colByte (rows : List ℕ) (c r : ℕ) :
    (colByte rows c).testBit r ↔ r < 8 ∧ (rows.getD r 0).testBit (4 - c) = true := by
  have hbits := @BitField.foldl_range_bits
    (fun acc r => acc + bit (rows.getD r 0) (4 - c) * pow2 r)
    (fun r => (rows.getD r 0).testBit (4 - c) = true)
    (fun acc r hr => by rw [bit_eq, pow2_eq, hr, Bool.toNat_true, Nat.one_mul])
    (fun acc r hr => by
      rw [bit_eq, Bool.eq_false_iff.mpr hr, Bool.toNat_false, Nat.zero_mul, Nat.add_zero]) 8
  exact hbits.2 r

theorem colsOf_eq (font : FontData) (ch : UInt8) :
    font.colsOf ch = (List.range 5).map (colByte (font.glyphOf ch)) := by
  have hspace := font.space
  rw [FontData.colsOf, FontData.glyphOf, FontData.glyphColsByCp, FontData.glyphColsByCp]
  cases font.glyphs ((cp ch).getD 32) with
  | some rows => rfl
  | none =>
      obtain ⟨rows, hrows⟩ := Option.isSome_iff_exists.mp hspace
      rw [hrows]
      rfl

/-- The byte a text's column gets. -/
def FontData.columnByte (font : FontData) (ch : UInt8) (c : ℕ) : ℕ :=
  if c < 5 then (font.colsOf ch).getD c 0 else 0

theorem columnByte_lt (font : FontData) (ch : UInt8) (c : ℕ) : font.columnByte ch c < 256 := by
  rw [FontData.columnByte, List.getD_eq_getElem?_getD]
  split
  · cases hget : (font.colsOf ch)[c]? with
    | none => decide
    | some b => exact font.colsOf_lt ch b (List.mem_of_getElem? hget)
  · decide

theorem columnByte_bits (font : FontData) (ch : UInt8) (c r : ℕ) :
    (font.columnByte ch c).testBit r ↔ r < 8 ∧ font.columnBit ch c r = true := by
  rw [FontData.columnBit, FontData.columnByte, Bool.and_eq_true, decide_eq_true_eq]
  split
  · rename_i hc
    rw [colsOf_eq, List.getD_eq_getElem?_getD, List.getElem?_map, List.getElem?_range hc,
      Option.map_some, Option.getD_some, testBit_colByte]
    exact and_congr_right fun _ => (and_iff_right hc).symm
  · rename_i hc
    rw [Nat.zero_testBit]
    exact iff_of_false Bool.false_ne_true fun hbit => hc hbit.2.1

/-! ### Entries -/

variable {font : FontData} {line : Line} {width : ℕ}

/-- **The entries of a text** are its columns between the panel's edges. -/
theorem mem_textEntries {e : ℕ × UInt8} :
    e ∈ textEntries font line width ↔
      ∃ i c col : ℕ, i < line.text.length ∧ c < 6 ∧ (col : ℤ) = line.x + 6 * i + c ∧ col < width ∧
        e = (line.page * width + col, UInt8.ofNat (font.columnByte (line.text.getD i 0) c)) := by
  have hadvance : (advance : ℤ) = 6 := rfl
  constructor
  · intro he
    obtain ⟨d, hd, rfl⟩ := List.mem_map.1 he
    obtain ⟨cell, hcell, rfl⟩ := List.mem_map.1 hd
    obtain ⟨hcell, hclip⟩ := List.mem_filter.1 hcell
    obtain ⟨i, hi, hcol⟩ := List.mem_flatMap.1 hcell
    obtain ⟨c, hc, rfl⟩ := List.mem_map.1 hcol
    have hclip' := of_decide_eq_true hclip
    rw [hadvance] at hclip' ⊢
    dsimp only at hclip' ⊢
    exact ⟨i, c, _, List.mem_range.1 hi, List.mem_range.1 hc, by omega, by omega, rfl⟩
  · rintro ⟨i, c, col, hi, hc, hcol, hwidth, rfl⟩
    refine List.mem_map.2 ⟨_, List.mem_map.2 ⟨((col : ℤ), _), List.mem_filter.2 ⟨?_, ?_⟩, rfl⟩, rfl⟩
    · refine List.mem_flatMap.2 ⟨i, List.mem_range.2 hi, List.mem_map.2 ⟨c, List.mem_range.2 hc, ?_⟩⟩
      refine Prod.ext ?_ rfl
      rw [hcol, hadvance, Int.mul_comm]
    · exact decide_eq_true (by dsimp only; omega)

/-- A column is one of one character. -/
theorem written_textEntries (font : FontData) {i c col : ℕ} (hi : i < line.text.length) (hc : c < 6)
    (hcol : (col : ℤ) = line.x + 6 * i + c) (hwidth : col < width) :
    written (textEntries font line width) (line.page * width + col) =
      some (UInt8.ofNat (font.columnByte (line.text.getD i 0) c)) := by
  have hmem : (line.page * width + col, UInt8.ofNat (font.columnByte (line.text.getD i 0) c)) ∈
      textEntries font line width := mem_textEntries.2 ⟨i, c, col, hi, hc, hcol, hwidth, rfl⟩
  obtain ⟨b, hb⟩ := Option.ne_none_iff_exists'.1 (written_ne_none hmem)
  obtain ⟨i', c', col', -, hc', hcol', -, heq⟩ := mem_textEntries.1 (mem_of_written hb)
  obtain ⟨hplace, rfl⟩ := Prod.mk.inj heq
  obtain rfl : i = i' := by omega
  obtain rfl : c = c' := by omega
  exact hb

/-- **The text is what lands in the framebuffer**: its columns between the edges, and nothing
else. -/
theorem renderText_lands (font : FontData) {line : Line} {width : ℕ} (hwidth : 0 < width)
    {out : List UInt8} (hmax : (line.page + 1) * width ≤ 1024)
    (hout : (line.page + 1) * width ≤ out.length) (dirty : Dirty) :
    ∃ fb, (applyOverlay (renderText font line width).overlay (renderText font line width).overlayN
        out width dirty).2 = fb ∧ fb.length = out.length ∧
      (∀ i c col : ℕ, i < line.text.length → c < 6 → (col : ℤ) = line.x + 6 * i + c → col < width →
        ∃ b, fb[line.page * width + col]? = some b ∧ ∀ r, r < 8 →
          b.toNat.testBit r = font.columnBit (line.text.getD i 0) c r) ∧
      ∀ o, (∀ i c col : ℕ, i < line.text.length → c < 6 → (col : ℤ) = line.x + 6 * i + c →
        col < width → o ≠ line.page * width + col) → fb[o]? = out[o]? := by
  have hpage : line.page * width + width = (line.page + 1) * width := (Nat.succ_mul _ _).symm
  have hcode : ∀ e ∈ textEntries font line width, e.1 < 1024 := by
    intro e he
    have hlast := (textEntries_page he).2
    omega
  have hlen : ∀ e ∈ textEntries font line width, e.1 < out.length := by
    intro e he
    have hlast := (textEntries_page he).2
    omega
  refine ⟨patch out (textEntries font line width), ?_, length_patch _ _, ?_, fun o ho => ?_⟩
  · rw [renderText_eq, applyOverlay_eq hwidth dirty hcode hlen, foldl_stamp]
  · intro i c col hi hc hcol hin
    have hwritten := written_textEntries font hi hc hcol hin
    refine ⟨UInt8.ofNat (font.columnByte (line.text.getD i 0) c), ?_, fun r hr => ?_⟩
    · rw [patch_get (by omega), hwritten, Option.some_or]
    · have hbyte : (UInt8.ofNat (font.columnByte (line.text.getD i 0) c)).toNat =
          font.columnByte (line.text.getD i 0) c := UInt8.toNat_ofNat_of_lt (columnByte_lt _ _ _)
      rw [Bool.eq_iff_iff, hbyte, columnByte_bits]
      exact and_iff_right hr
  · have hnone : written (textEntries font line width) o = none := by
      by_contra hsome
      obtain ⟨b, hb⟩ := Option.ne_none_iff_exists'.1 hsome
      obtain ⟨i, c, col, hi, hc, hcol, hin, heq⟩ := mem_textEntries.1 (mem_of_written hb)
      exact ho i c col hi hc hcol hin (Prod.mk.inj heq).1
    by_cases hlarge : o < out.length
    · rw [patch_get hlarge, hnone, Option.none_or]
    · have hlength := length_patch out (textEntries font line width)
      rw [List.getElem?_eq_none_iff.2 (by omega), List.getElem?_eq_none_iff.2 (by omega)]

/-- A font of solid glyphs. -/
def solidFont : FontData where
  glyphs := fun _ => some (List.replicate 8 31)
  rows := by
    intro code g h
    cases h
    rfl
  space := rfl

/-- Two characters across both edges of the second page. -/
theorem renderText_lands_clipped :
    ∃ fb, (applyOverlay (renderText solidFont ⟨[65, 10], -3, 1⟩ 7).overlay
        (renderText solidFont ⟨[65, 10], -3, 1⟩ 7).overlayN (List.replicate 15 1) 7 {}).2 = fb ∧
      fb.length = 15 ∧
      (∀ i c col : ℕ, i < 2 → c < 6 → (col : ℤ) = -3 + 6 * i + c → col < 7 →
        ∃ b, fb[1 * 7 + col]? = some b ∧ ∀ r, r < 8 →
          b.toNat.testBit r = solidFont.columnBit (([65, 10] : List UInt8).getD i 0) c r) ∧
      ∀ o, (∀ i c col : ℕ, i < 2 → c < 6 → (col : ℤ) = -3 + 6 * i + c →
        col < 7 → o ≠ 1 * 7 + col) → fb[o]? = (List.replicate 15 (1 : UInt8))[o]? :=
  renderText_lands solidFont (by decide) (by decide) (by decide) {}

end BadgeOS.Content
