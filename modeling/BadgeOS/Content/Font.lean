import BadgeOS.Oled.Eval
import Mathlib

/-!
# Text as overlay entries

`lib/font.nix`: `renderText` answers the entries that overwrite the columns of a text, six to a
character: the five columns of its glyph and one of nothing.  A string is its bytes here, as
`builtins.substring` cuts it.  The glyph table is a parameter, since any table of eight rows
to a glyph with one for the space will do.

* `renderText` — the function;
* `textEntries` — the entries it packs, with their bytes;
* `renderText_eq` — every byte is one, so they are packed as a delta is.
-/

namespace BadgeOS.Content

open Packing Oled

/-- The glyph table, by code: eight rows each, and the one that stands in for what is missing. -/
structure FontData where
  glyphs : ℕ → Option (List ℕ)
  rows : ∀ code g, glyphs code = some g → g.length = 8
  space : (glyphs 32).isSome

/-- `cp`: the code of a printable character. -/
def cp (c : UInt8) : Option ℕ :=
  if 32 ≤ c ∧ c ≤ 126 then some c.toNat else none

def pow2 (n : ℕ) : ℕ := (List.range n).foldl (fun a _ => a * 2) 1

/-- Bit `b` of `v`. -/
def bit (v b : ℕ) : ℕ :=
  let d := v / pow2 b
  d - d / 2 * 2

/-- Column `c` of a glyph as a vertical byte: row `r` is bit `r`. -/
def colByte (rows : List ℕ) (c : ℕ) : ℕ :=
  (List.range 8).foldl (fun acc r => acc + bit (rows.getD r 0) (4 - c) * pow2 r) 0

/-- The column bytes of a glyph. -/
def FontData.glyphColsByCp (font : FontData) (code : ℕ) : Option (List ℕ) :=
  (font.glyphs code).map fun rows => (List.range 5).map (colByte rows)

/-- The columns of a character, a space's when it has no glyph. -/
def FontData.colsOf (font : FontData) (ch : UInt8) : List ℕ :=
  ((font.glyphColsByCp ((cp ch).getD 32)).or (font.glyphColsByCp 32)).getD []

/-- Five pixels and a gap. -/
def advance : ℕ := 6

/-- A text and where it goes. -/
structure Line where
  text : List UInt8
  x : ℤ := 0
  page : ℕ := 0
  deriving DecidableEq, Repr

/-- Each character's columns and its gap, with the bytes they get. -/
def FontData.cells (font : FontData) (line : Line) : List (ℤ × ℕ) :=
  (List.range line.text.length).flatMap fun i =>
    let cols := font.colsOf (line.text.getD i 0)
    let base := line.x + i * advance
    (List.range advance).map fun (c : ℕ) => (base + c, if c < 5 then cols.getD c 0 else 0)

/-- The cells between the panel's edges, with their offsets. -/
def FontData.es (font : FontData) (line : Line) (width : ℕ) : List (ℕ × ℕ) :=
  ((font.cells line).filter fun e => 0 ≤ e.1 ∧ e.1 < (width : ℤ)).map fun e =>
    (line.page * width + e.1.toNat, e.2)

/-- What a text is rendered to. -/
structure Overlay where
  overlay : List ℤ
  overlayN : ℕ
  deriving DecidableEq, Repr

/-- `renderText`: the entries two to an integer, and how many they are. -/
def renderText (font : FontData) (line : Line) (width : ℕ) : Overlay :=
  let es := font.es line width
  let n := es.length
  let E (i : ℕ) : ℕ := (es.getD i (0, 0)).1 * 256 + (es.getD i (0, 0)).2
  let packed := (List.range ((n + 1) / 2)).map fun p =>
    E (2 * p) * 262144 + if 2 * p + 1 < n then E (2 * p + 1) else 0
  { overlay := packed.map Int.ofNat, overlayN := n }

/-! ### Bytes -/

theorem bit_le (v b : ℕ) : bit v b ≤ 1 := by
  unfold bit
  dsimp only
  omega

/-- A column of eight bits is a byte. -/
theorem colByte_lt (rows : List ℕ) (c : ℕ) : colByte rows c < 256 := by
  have hbit (r : ℕ) : bit (rows.getD r 0) (4 - c) ≤ 1 := bit_le _ _
  have h0 := hbit 0
  have h1 := hbit 1
  have h2 := hbit 2
  have h3 := hbit 3
  have h4 := hbit 4
  have h5 := hbit 5
  have h6 := hbit 6
  have h7 := hbit 7
  simp only [colByte, pow2, List.range_succ, List.range_zero, List.nil_append,
    List.cons_append, List.foldl_cons, List.foldl_nil]
  omega

theorem FontData.colsOf_lt (font : FontData) (ch : UInt8) : ∀ b ∈ font.colsOf ch, b < 256 := by
  have hcols (code : ℕ) (cols : List ℕ) (h : font.glyphColsByCp code = some cols) :
      ∀ b ∈ cols, b < 256 := by
    obtain ⟨rows, -, rfl⟩ := Option.map_eq_some_iff.1 h
    intro b hb
    obtain ⟨c, -, rfl⟩ := List.mem_map.1 hb
    exact colByte_lt rows c
  unfold FontData.colsOf
  cases hch : font.glyphColsByCp ((cp ch).getD 32) with
  | some cols => simpa using hcols _ cols hch
  | none =>
      cases hspace : font.glyphColsByCp 32 with
      | some cols => simpa using hcols _ cols hspace
      | none => simp

theorem FontData.cells_lt (font : FontData) (line : Line) : ∀ e ∈ font.cells line, e.2 < 256 := by
  intro e he
  obtain ⟨i, -, he⟩ := List.mem_flatMap.1 he
  obtain ⟨c, -, rfl⟩ := List.mem_map.1 he
  dsimp only
  split
  · rw [List.getD_eq_getElem?_getD]
    cases hget : (font.colsOf (line.text.getD i 0))[c]? with
    | none => simp
    | some b => exact font.colsOf_lt _ b (List.mem_of_getElem? hget)
  · decide

/-! ### Entries -/

/-- The entries of a text, with their bytes. -/
def textEntries (font : FontData) (line : Line) (width : ℕ) : List (ℕ × UInt8) :=
  (font.es line width).map fun e => (e.1, UInt8.ofNat e.2)

/-- Every entry is on the text's page. -/
theorem textEntries_page {font : FontData} {line : Line} {width : ℕ} {e : ℕ × UInt8}
    (he : e ∈ textEntries font line width) :
    line.page * width ≤ e.1 ∧ e.1 < line.page * width + width := by
  obtain ⟨d, hd, rfl⟩ := List.mem_map.1 he
  obtain ⟨c, hc, rfl⟩ := List.mem_map.1 hd
  have hclip : 0 ≤ c.1 ∧ c.1 < width := by simpa using (List.mem_filter.1 hc).2
  dsimp only
  omega

/-- **The packing** is a delta's. -/
theorem renderText_eq (font : FontData) (line : Line) (width : ℕ) :
    renderText font line width =
      { overlay := packEntries (textEntries font line width),
        overlayN := (textEntries font line width).length } := by
  have hbyte : ∀ e ∈ font.es line width, e.2 < 256 := by
    intro e he
    obtain ⟨c, hc, rfl⟩ := List.mem_map.1 he
    exact font.cells_lt line c (List.mem_of_mem_filter hc)
  have hcodes : (textEntries font line width).map entryCode =
      (font.es line width).map fun e => e.1 * 256 + e.2 := by
    rw [textEntries, List.map_map]
    apply List.map_congr_left
    intro e he
    have hmod : (UInt8.ofNat e.2).toNat = e.2 := by
      rw [UInt8.toNat_ofNat']
      exact Nat.mod_eq_of_lt (hbyte e he)
    rw [Function.comp_apply, entryCode, hmod]
  have hget (i : ℕ) : ((font.es line width).map fun e => e.1 * 256 + e.2).getD i 0 =
      ((font.es line width).getD i (0, 0)).1 * 256 + ((font.es line width).getD i (0, 0)).2 := by
    rw [List.getD_eq_getElem?_getD, List.getD_eq_getElem?_getD, List.getElem?_map]
    cases (font.es line width)[i]? <;> rfl
  rw [renderText, packEntries, hcodes, pairs_eq_map]
  simp only [hget, List.length_map, textEntries]
  norm_num

end BadgeOS.Content
