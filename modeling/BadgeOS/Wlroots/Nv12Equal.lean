import BadgeOS.Wlroots.Nv12Rows
import Mathlib

/-!
# The three converters are one

The planes hold just the bytes that a picture of their size has, and the destination just its
rectangle, so that a result means that nothing else was read or written.

* `Frame` — the sizes and the strides of a call;
* `Frame.converted` — what the destination is to hold;
* `converters_agree_iff` — all three leave that, where no `int` overflows.
-/

namespace BadgeOS.Wlroots.Nv12

open Memory Neon

/-- The sizes of a call.  Strides are at least a row long, and a plane lies in the address
space. -/
structure Frame where
  width : ℕ
  height : ℕ
  yStride : ℕ
  uvStride : ℕ
  dstStride : ℕ
  width_pos : 0 < width
  width_lt : width < 2 ^ 31
  height_pos : 0 < height
  height_lt : height < 2 ^ 31
  y_row : width ≤ yStride
  uv_row : (width + 1) / 2 * 2 ≤ uvStride
  dst_row : 4 * width ≤ dstStride
  y_plane : (height - 1) * yStride < 2 ^ 64
  uv_plane : (height - 1) / 2 * uvStride < 2 ^ 64
  dst_plane : (height - 1) * dstStride < 2 ^ 64

/-- A plane of `rows` rows of `len` bytes. -/
def plane (rows stride len : ℕ) (byte : ℕ → Option UInt8) : Mem :=
  ⟨fun a => decide (a / stride < rows) && decide (a % stride < len), byte⟩

namespace Frame

variable (f : Frame) (Y UV : ℕ → UInt8) (d : ℕ → Option UInt8)

/-- The Y plane, with the bytes `Y`. -/
def yPlane : Ptr := ⟨plane f.height f.yStride f.width fun a => some (Y a), 0⟩

/-- The UV plane, with the bytes `UV`. -/
def uvPlane : Ptr :=
  ⟨plane ((f.height + 1) / 2) f.uvStride ((f.width + 1) / 2 * 2) fun a => some (UV a), 0⟩

/-- The destination, which holds anything. -/
def dst : Mem := plane f.height f.dstStride (4 * f.width) d

/-- The samples of a row. -/
def yRow (row i : ℕ) : UInt8 := Y (row * f.yStride + i)

/-- The chroma samples of a row, which it shares with another one. -/
def uvRow (row i : ℕ) : UInt8 := UV (row / 2 * f.uvStride + i)

/-- **What the destination is to hold**: the pixels in their rectangle, and elsewhere what it
held. -/
def converted : Mem :=
  { f.dst d with
    byte := fun a =>
      if a / f.dstStride < f.height ∧ a % f.dstStride < 4 * f.width then
        (px (f.yRow Y (a / f.dstStride)) (f.uvRow UV (a / f.dstStride))
          (a % f.dstStride / 4))[a % f.dstStride % 4]?
      else d a }

/-- `pixman_nv12_to_xrgb8888_c` on it. -/
def runC : Option Mem :=
  pixmanNv12ToXrgb8888C (f.yPlane Y) f.yStride (f.uvPlane UV) f.uvStride (f.dst d) 0 f.dstStride
    f.width f.height

/-- `pixman_nv12_to_xrgb8888` on it. -/
def runNeon : Option Mem :=
  pixmanNv12ToXrgb8888 (f.yPlane Y) f.yStride (f.uvPlane UV) f.uvStride (f.dst d) 0 f.dstStride
    f.width f.height

/-- `pixman_nv12_to_xrgb8888_staged` on it, with its line buffer. -/
def runStaged : Option (Bool × Mem) :=
  pixmanNv12ToXrgb8888Staged true (f.yPlane Y) f.yStride (f.uvPlane UV) f.uvStride (f.dst d) 0
    f.dstStride f.width f.height

/-- The rows `rows`, put into a destination. -/
def paint (m : Mem) (rows : List ℕ) : Mem :=
  rows.foldl (fun m row =>
    m.put (row * f.dstStride) (pixels (f.yRow Y row) (f.uvRow UV row) 0 f.width)) m

end Frame

variable {f : Frame} {Y UV : ℕ → UInt8} {d : ℕ → Option UInt8} {line m : Mem} {row : ℕ}

/-! ### The planes -/

theorem mul_row_lt {row stride rows : ℕ} (hrow : row < rows) (h : (rows - 1) * stride < 2 ^ 64) :
    rowOffset row stride = row * stride := by
  have hle : row * stride ≤ (rows - 1) * stride := Nat.mul_le_mul_right _ (by omega)
  exact Nat.mod_eq_of_lt (by omega)

theorem row_div (row : ℕ) {stride i : ℕ} (hi : i < stride) :
    (row * stride + i) / stride = row ∧ (row * stride + i) % stride = i := by
  constructor
  · rw [Nat.mul_comm, Nat.mul_add_div (by omega), Nat.div_eq_of_lt hi, Nat.add_zero]
  · rw [Nat.mul_comm, Nat.mul_add_mod, Nat.mod_eq_of_lt hi]

/-- A byte of a row of a plane. -/
theorem plane_valid {rows stride len row i : ℕ} {byte : ℕ → Option UInt8} (hrow : row < rows)
    (hi : i < len) (hlen : len ≤ stride) :
    (plane rows stride len byte).valid (row * stride + i) = true := by
  obtain ⟨hdiv, hmod⟩ := row_div row (Nat.lt_of_lt_of_le hi hlen)
  unfold plane
  simp only [hdiv, hmod, decide_eq_true hrow, decide_eq_true hi, Bool.and_self]

theorem load_yPlane {i : ℕ} (hrow : row < f.height) (hi : i < f.width) :
    (rowPtr (f.yPlane Y) row f.yStride).load i = some (f.yRow Y row i) := by
  have haddr : (rowPtr (f.yPlane Y) row f.yStride).addr + i = row * f.yStride + i := by
    show 0 + rowOffset row f.yStride + i = _
    rw [mul_row_lt hrow f.y_plane, Nat.zero_add]
  unfold Ptr.load Mem.load
  rw [haddr]
  exact if_pos (plane_valid hrow hi f.y_row)

theorem load_uvPlane {i : ℕ} (hrow : row < f.height) (hi : i < (f.width + 1) / 2 * 2) :
    (rowPtr (f.uvPlane UV) (row / 2) f.uvStride).load i = some (f.uvRow UV row i) := by
  have hhalf : row / 2 < (f.height - 1) / 2 + 1 := by omega
  have haddr : (rowPtr (f.uvPlane UV) (row / 2) f.uvStride).addr + i =
      row / 2 * f.uvStride + i := by
    show 0 + rowOffset (row / 2) f.uvStride + i = _
    rw [mul_row_lt hhalf f.uv_plane, Nat.zero_add]
  unfold Ptr.load Mem.load
  rw [haddr]
  exact if_pos (plane_valid (by omega) hi f.uv_row)

theorem writable_dst (hm : m.valid = (f.dst d).valid) (hrow : row < f.height) :
    Writable m (row * f.dstStride) f.width := by
  intro i hi
  rw [hm]
  exact plane_valid hrow hi f.dst_row

theorem paint_valid (rows : List ℕ) (m : Mem) : (f.paint Y UV m rows).valid = m.valid := by
  induction rows generalizing m with
  | nil => rfl
  | cons row rows ih => exact ih _

/-- **All rows painted** are what the destination is to hold. -/
theorem paint_eq : f.paint Y UV (f.dst d) (List.range f.height) = f.converted Y UV d := by
  have hpos : 0 < f.dstStride := by
    have hrow := f.dst_row
    have hwidth := f.width_pos
    omega
  have hbyte (a : ℕ) : (f.paint Y UV (f.dst d) (List.range f.height)).byte a =
      (f.converted Y UV d).byte a := by
    unfold Frame.paint
    rw [byte_foldl_put (B := fun row => pixels (f.yRow Y row) (f.uvRow UV row) 0 f.width)
      (fun row => length_pixels _ _ _ _) f.dst_row hpos f.height a]
    show _ = if _ then _ else _
    split
    · rename_i hin
      exact getElem?_pixels _ _ hin.2
    · rfl
  have hext (p q : Mem) (hv : p.valid = q.valid) (hb : p.byte = q.byte) : p = q := by
    cases p
    cases q
    cases hv
    cases hb
    rfl
  exact hext _ _ (paint_valid _ _) (funext hbyte)

/-! ### The plain functions -/

theorem readable_planes (hrow : row < f.height) :
    Readable (rowPtr (f.yPlane Y) row f.yStride) (rowPtr (f.uvPlane UV) (row / 2) f.uvStride)
      (f.yRow Y row) (f.uvRow UV row) f.width :=
  ⟨fun _ hi => load_yPlane hrow hi, fun _ hi => load_uvPlane hrow hi⟩

theorem dst_addr (hrow : row < f.height) : 0 + rowOffset row f.dstStride = row * f.dstStride := by
  rw [Nat.zero_add, mul_row_lt hrow f.dst_plane]

/-- The rows of a pair, behind the row that the pair starts with. -/
theorem dst_addr_add {k : ℕ} (hrow : row + k < f.height) :
    0 + rowOffset row f.dstStride + rowOffset k f.dstStride = (row + k) * f.dstStride := by
  rw [Nat.zero_add, mul_row_lt (Nat.lt_of_le_of_lt (Nat.le_add_right _ _) hrow) f.dst_plane,
    mul_row_lt (Nat.lt_of_le_of_lt (Nat.le_add_left _ _) hrow) f.dst_plane, Nat.add_mul]

theorem runC_eq (hwidth : f.width < 2 ^ 31 - 1) : f.runC Y UV d = some (f.converted Y UV d) := by
  rw [← paint_eq]
  exact pixmanNv12ToXrgb8888C_eq (fun _ hrow => readable_planes hrow)
    (fun _ hrow => dst_addr hrow) (fun _ hrow => writable_dst rfl hrow) hwidth

theorem runNeon_eq (hwidth : f.width < 2 ^ 31 - 16) :
    f.runNeon Y UV d = some (f.converted Y UV d) := by
  rw [← paint_eq]
  exact pixmanNv12ToXrgb8888_eq (fun _ hrow => readable_planes hrow)
    (fun _ hrow => dst_addr hrow) (fun _ hrow => writable_dst rfl hrow) hwidth

/-! ### The line buffer -/

/-- Which addresses the line buffer has. -/
def Staged (f : Frame) (line : Mem) : Prop :=
  line.valid = (malloc (2 * f.width + (f.width + 1) / 2 * 2)).valid

theorem Staged.valid (h : Staged f line) {a : ℕ}
    (ha : a < 2 * f.width + (f.width + 1) / 2 * 2) : line.valid a = true := by
  rw [h]
  exact decide_eq_true ha

theorem Staged.put (h : Staged f line) (a : ℕ) (bs : List UInt8) : Staged f (line.put a bs) := h

/-- A Y row, copied to place `k`. -/
theorem copy_yRow (h : Staged f line) (k row : ℕ) (hk : k < 2) (hrow : row < f.height) :
    copyUncached line (k * f.width) (rowPtr (f.yPlane Y) row f.yStride) 0 f.width =
      some (line.put (k * f.width) ((List.range' 0 f.width).map (f.yRow Y row))) := by
  apply copyUncached_eq
  · intro i hi
    rw [Nat.zero_add]
    exact load_yPlane hrow hi
  · intro i hi
    have hle : k * f.width ≤ 1 * f.width := Nat.mul_le_mul_right _ (by omega)
    exact h.valid (by omega)

theorem copy_uvRow (h : Staged f line) (hrow : row < f.height) :
    copyUncached line (2 * f.width) (rowPtr (f.uvPlane UV) (row / 2) f.uvStride) 0
      ((f.width + 1) / 2 * 2) = some (line.put (2 * f.width)
        ((List.range' 0 ((f.width + 1) / 2 * 2)).map (f.uvRow UV row))) := by
  apply copyUncached_eq
  · intro i hi
    rw [Nat.zero_add]
    exact load_uvPlane hrow hi
  · intro i hi
    exact h.valid (by omega)

/-- What is in the line buffer: `rows` Y rows from `row` on, and their UV row. -/
structure Holds (f : Frame) (Y UV : ℕ → UInt8) (row rows : ℕ) (line : Mem) : Prop where
  staged : Staged f line
  luma : ∀ k < rows, ∀ i < f.width, line.load (k * f.width + i) = some (f.yRow Y (row + k) i)
  chroma : ∀ i < (f.width + 1) / 2 * 2, line.load (2 * f.width + i) = some (f.uvRow UV row i)

theorem getElem?_row (g : ℕ → UInt8) {i n : ℕ} (hi : i < n) :
    ((List.range' 0 n).map g)[i]? = some (g i) := by
  rw [List.getElem?_map, List.getElem?_range' hi, Nat.zero_add, Nat.one_mul]
  rfl

theorem length_row (g : ℕ → UInt8) (n : ℕ) : ((List.range' 0 n).map g).length = n := by
  rw [List.length_map, List.length_range']

/-- A byte of a row that was put at `a`. -/
theorem load_row {g : ℕ → UInt8} {a i n : ℕ} (hvalid : line.valid (a + i) = true) (hi : i < n) :
    (line.put a ((List.range' 0 n).map g)).load (a + i) = some (g i) := by
  rw [Mem.load_put_of_mem hvalid (Nat.le_add_right _ _) (by rw [length_row]; omega),
    Nat.add_sub_cancel_left, getElem?_row g hi]

/-- **What is staged** for a pair of rows, or for the last one. -/
theorem stage_eq (h : Staged f line) {rows : ℕ} (hrows : rows = 1 ∨ rows = 2)
    (hrow : row + rows ≤ f.height) :
    ∃ line', ((List.range rows).foldlM (fun line i => copyUncached line (i * f.width)
        (rowPtr (f.yPlane Y) (row + i) f.yStride) 0 f.width) line).bind
      (fun line => copyUncached line (2 * f.width)
        (rowPtr (f.uvPlane UV) (row / 2) f.uvStride) 0 ((f.width + 1) / 2 * 2)) = some line' ∧
      Holds f Y UV row rows line' := by
  have hchroma (m : Mem) (hm : Staged f m) (i : ℕ) (hi : i < (f.width + 1) / 2 * 2) :
      (m.put (2 * f.width) ((List.range' 0 ((f.width + 1) / 2 * 2)).map (f.uvRow UV row))).load
        (2 * f.width + i) = some (f.uvRow UV row i) :=
    load_row (hm.valid (by omega)) hi
  have hfirst := copy_yRow (Y := Y) h 0 (row + 0) (by omega) (by omega)
  obtain rfl | rfl := hrows
  · have hfold : (List.range 1).foldlM (fun line i => copyUncached line (i * f.width)
        (rowPtr (f.yPlane Y) (row + i) f.yStride) 0 f.width) line =
          some (line.put (0 * f.width) ((List.range' 0 f.width).map (f.yRow Y (row + 0)))) := by
      show (copyUncached line _ _ _ _).bind some = _
      rw [hfirst]
      rfl
    rw [hfold, Option.bind_some, copy_uvRow (h.put _ _) (by omega)]
    refine ⟨_, rfl, h, ?_, hchroma _ h⟩
    intro k hk i hi
    obtain rfl : k = 0 := by omega
    rw [Mem.load_put_of_not_mem (Or.inl (by omega))]
    exact load_row (h.valid (by omega)) hi
  · have hsecond := copy_yRow (Y := Y)
      (h.put (0 * f.width) ((List.range' 0 f.width).map (f.yRow Y (row + 0)))) 1 (row + 1)
      (by omega) (by omega)
    have hfold : (List.range 2).foldlM (fun line i => copyUncached line (i * f.width)
        (rowPtr (f.yPlane Y) (row + i) f.yStride) 0 f.width) line =
          some ((line.put (0 * f.width) ((List.range' 0 f.width).map (f.yRow Y (row + 0)))).put
            (1 * f.width) ((List.range' 0 f.width).map (f.yRow Y (row + 1)))) := by
      show (copyUncached line _ _ _ _).bind (fun line => (copyUncached line _ _ _ _).bind some) = _
      rw [hfirst, Option.bind_some, hsecond]
      rfl
    rw [hfold, Option.bind_some,
      copy_uvRow ((h.put _ _).put _ _) (by omega)]
    refine ⟨_, rfl, h, ?_, hchroma _ h⟩
    intro k hk i hi
    obtain rfl | rfl : k = 0 ∨ k = 1 := by omega
    · rw [Mem.load_put_of_not_mem (Or.inl (by omega)), Mem.load_put_of_not_mem (Or.inl (by omega))]
      exact load_row (h.valid (by omega)) hi
    · rw [Mem.load_put_of_not_mem (Or.inl (by omega))]
      exact load_row ((h.put _ _).valid (by omega)) hi

/-- What is staged is what the picture has. -/
theorem Holds.readable {rows k : ℕ} (h : Holds f Y UV row rows line) (heven : row % 2 = 0)
    (hrows : rows ≤ 2) (hk : k < rows) :
    Readable (rowPtr ⟨line, 0⟩ k f.width) (rowPtr ⟨line, 2 * f.width⟩ (k / 2) 0)
      (f.yRow Y (row + k)) (f.uvRow UV (row + k)) f.width := by
  have hwidth := f.width_lt
  have hhalf : (row + k) / 2 = row / 2 := by omega
  constructor
  · intro i hi
    have hoff : rowOffset k f.width = k * f.width := by
      have hle : k * f.width ≤ 1 * f.width := Nat.mul_le_mul_right _ (by omega)
      exact Nat.mod_eq_of_lt (by omega)
    show line.load (0 + rowOffset k f.width + i) = _
    rw [hoff, Nat.zero_add]
    exact h.luma k hk i hi
  · intro i hi
    show line.load (2 * f.width + rowOffset (k / 2) 0 + i) = _
    rw [rowOffset, Nat.mul_zero, Nat.zero_mod, Nat.add_zero, h.chroma i hi, Frame.uvRow,
      Frame.uvRow, hhalf]

/-- **The rows of the staged function**, from an even row on. -/
theorem stagedRows_eq (hwidth : f.width < 2 ^ 31 - 16) (hheight : f.height < 2 ^ 31 - 1)
    (hline : Staged f line) (heven : row % 2 = 0) (hm : m.valid = (f.dst d).valid) :
    stagedRows (f.yPlane Y) f.yStride (f.uvPlane UV) f.uvStride line m 0 f.dstStride f.width
      f.height row = some (f.paint Y UV m (List.range' row (f.height - row))) := by
  induction hn : f.height - row using Nat.strong_induction_on generalizing row line m with
  | _ n ih =>
    subst hn
    rw [stagedRows]
    by_cases hrow : row < f.height
    · have hrows : (if f.height - row < 2 then 1 else 2) = 1 ∨
          (if f.height - row < 2 then 1 else 2) = 2 := by
        split
        · exact .inl rfl
        · exact .inr rfl
      have hle : row + (if f.height - row < 2 then 1 else 2) ≤ f.height := by
        split <;> omega
      have hnext : f.height - row =
          (if f.height - row < 2 then 1 else 2) + (f.height - (row + 2)) := by
        split <;> omega
      have hstart : f.height - (row + 2) ≠ 0 →
          row + (if f.height - row < 2 then 1 else 2) = row + 2 := by
        split <;> omega
      generalize (if f.height - row < 2 then 1 else 2) = rows at hrows hle hnext hstart ⊢
      obtain ⟨line', hstage, hholds⟩ := stage_eq hline hrows hle
      have hconvert : pixmanNv12ToXrgb8888 ⟨line', 0⟩ f.width ⟨line', 2 * f.width⟩ 0 m
          (0 + rowOffset row f.dstStride) f.dstStride f.width rows =
            some ((List.range rows).foldl (fun m k => m.put ((row + k) * f.dstStride)
              (pixels (f.yRow Y (row + k)) (f.uvRow UV (row + k)) 0 f.width)) m) :=
        pixmanNv12ToXrgb8888_eq (fun k hk => hholds.readable heven (by omega) hk)
          (fun k hk => dst_addr_add (by omega)) (fun k hk => writable_dst hm (by omega)) hwidth
      have hpaint : (List.range rows).foldl (fun m k => m.put ((row + k) * f.dstStride)
          (pixels (f.yRow Y (row + k)) (f.uvRow UV (row + k)) 0 f.width)) m =
            f.paint Y UV m (List.range' row rows) := by
        rw [Frame.paint, List.range'_eq_map_range, List.foldl_map]
      have hrest : stagedRows (f.yPlane Y) f.yStride (f.uvPlane UV) f.uvStride line'
          (f.paint Y UV m (List.range' row rows)) 0 f.dstStride f.width f.height (row + 2) =
            some (f.paint Y UV (f.paint Y UV m (List.range' row rows))
              (List.range' (row + 2) (f.height - (row + 2)))) :=
        ih (f.height - (row + 2)) (by omega) hholds.staged (by omega)
          ((paint_valid _ _).trans hm) rfl
      have hsplit : List.range' row (f.height - row) =
          List.range' row rows ++ List.range' (row + 2) (f.height - (row + 2)) := by
        rw [hnext, ← List.range'_append_1]
        congr 1
        by_cases hlast : f.height - (row + 2) = 0
        · rw [hlast]
          rfl
        · rw [hstart hlast]
      rw [if_pos hrow]
      dsimp only
      rw [Option.bind_eq_bind]
      rw [← Option.bind_assoc, hstage, Option.bind_some, hconvert, hpaint, Option.bind_some,
        if_pos (by omega), hrest, hsplit]
      unfold Frame.paint
      rw [List.foldl_append]
    · have hnone : f.height - row = 0 := by omega
      rw [if_neg hrow, hnone]
      rfl

theorem runStaged_eq (hwidth : f.width < 2 ^ 31 - 16) (hheight : f.height < 2 ^ 31 - 1) :
    f.runStaged Y UV d = some (true, f.converted Y UV d) := by
  have hrows : stagedRows (f.yPlane Y) f.yStride (f.uvPlane UV) f.uvStride
      (malloc (2 * f.width + (f.width + 1) / 2 * 2)) (f.dst d) 0 f.dstStride f.width f.height 0 =
        some (f.paint Y UV (f.dst d) (List.range' 0 (f.height - 0))) :=
    stagedRows_eq hwidth hheight rfl rfl rfl
  rw [Nat.sub_zero, ← List.range_eq_range', paint_eq] at hrows
  unfold Frame.runStaged pixmanNv12ToXrgb8888Staged
  rw [if_pos rfl]
  show (stagedRows _ _ _ _ _ _ _ _ _ _ _).bind _ = _
  rw [hrows]
  rfl

/-! ### Where an `int` overflows -/

/-- A row that is so long that `col + 16` overflows behind its last block. -/
theorem convertRowNeon_overflow {yRow uvRow : Ptr} {dst : Mem} {dstRow col width : ℕ}
    (hwidth : 2 ^ 31 - 16 ≤ width) (hcol : col % 16 = 0) (hle : col ≤ 2 ^ 31 - 16) :
    convertRowNeon yRow uvRow dst dstRow col width = none := by
  induction hn : 2 ^ 31 - col using Nat.strong_induction_on generalizing col dst with
  | _ n ih =>
    rw [convertRowNeon]
    by_cases hfits : col + 16 < 2 ^ 31
    · have hrest (m : Mem) : convertRowNeon yRow uvRow m dstRow (col + 16) width = none :=
        ih (2 ^ 31 - (col + 16)) (by omega) (by omega) (by omega) rfl
      rw [if_pos hfits, if_pos (by omega)]
      simp only [hrest, Option.bind_eq_bind, Option.bind_fun_none]
    · rw [if_neg hfits]

/-- A picture that is so high that `row += 2` overflows behind its last row. -/
theorem stagedRows_overflow {y uv : Ptr} {yStride uvStride dstAddr dstStride width height : ℕ}
    (hheight : height = 2 ^ 31 - 1) (heven : row % 2 = 0) (hle : row ≤ 2 ^ 31 - 2) :
    stagedRows y yStride uv uvStride line m dstAddr dstStride width height row = none := by
  induction hn : height - row using Nat.strong_induction_on generalizing row line m with
  | _ n ih =>
    rw [stagedRows, if_pos (by omega)]
    dsimp only
    by_cases hfits : row + 2 < 2 ^ 31
    · have hrest (line m : Mem) : stagedRows y yStride uv uvStride line m dstAddr dstStride width
          height (row + 2) = none := by
        exact ih (height - (row + 2)) (by omega) (by omega) (by omega) rfl
      simp only [hrest, ite_self, Option.bind_eq_bind, Option.bind_fun_none]
    · simp only [if_neg hfits, Option.bind_eq_bind, Option.bind_fun_none]

theorem runNeon_overflow (hwidth : 2 ^ 31 - 16 ≤ f.width) : f.runNeon Y UV d = none := by
  obtain ⟨h, hh⟩ : ∃ h, f.height = h + 1 := ⟨f.height - 1, by have := f.height_pos; omega⟩
  unfold Frame.runNeon pixmanNv12ToXrgb8888
  rw [hh, List.range_succ_eq_map, List.foldlM_cons]
  dsimp only
  rw [convertRowNeon_overflow hwidth rfl (Nat.zero_le _)]
  rfl

theorem runStaged_overflow (hheight : f.height = 2 ^ 31 - 1) : f.runStaged Y UV d = none := by
  unfold Frame.runStaged pixmanNv12ToXrgb8888Staged
  rw [if_pos rfl]
  show (stagedRows _ _ _ _ _ _ _ _ _ _ _).bind _ = _
  rw [stagedRows_overflow hheight rfl (Nat.zero_le _)]
  rfl

/-- **The converters are one function** exactly where no `int` overflows: each leaves the
converted picture, and nothing else was read, written or out of 32 bits, when the vector loop may
look 16 columns ahead and the staged loop two rows. -/
theorem converters_agree_iff (f : Frame) (Y UV : ℕ → UInt8) (d : ℕ → Option UInt8) :
    (f.runC Y UV d = some (f.converted Y UV d) ∧ f.runNeon Y UV d = some (f.converted Y UV d) ∧
      f.runStaged Y UV d = some (true, f.converted Y UV d)) ↔
    f.width < 2 ^ 31 - 16 ∧ f.height < 2 ^ 31 - 1 := by
  constructor
  · intro h
    obtain ⟨-, hneon, hstaged⟩ := h
    have hlt := f.height_lt
    constructor
    · by_contra hwidth
      rw [runNeon_overflow (Nat.le_of_not_lt hwidth)] at hneon
      cases hneon
    · by_contra hheight
      rw [runStaged_overflow (by omega)] at hstaged
      cases hstaged
  · intro h
    exact ⟨runC_eq (by omega), runNeon_eq h.1, runStaged_eq h.1 h.2⟩

/-- One row of 2147483632 black pixels. -/
def widest : Frame where
  width := 2147483632
  height := 1
  yStride := 2147483632
  uvStride := 2147483632
  dstStride := 8589934528
  width_pos := by decide
  width_lt := by decide
  height_pos := by decide
  height_lt := by decide
  y_row := by decide
  uv_row := by decide
  dst_row := by decide
  y_plane := by decide
  uv_plane := by decide
  dst_plane := by decide

/-- The C code converts it; the vector code lets an `int` overflow. -/
theorem converters_differ_widest :
    widest.runC (fun _ => 16) (fun _ => 128) (fun _ => none) =
        some (widest.converted (fun _ => 16) (fun _ => 128) fun _ => none) ∧
      widest.runNeon (fun _ => 16) (fun _ => 128) (fun _ => none) = none :=
  ⟨runC_eq (by decide), runNeon_overflow (by decide)⟩

end BadgeOS.Wlroots.Nv12
