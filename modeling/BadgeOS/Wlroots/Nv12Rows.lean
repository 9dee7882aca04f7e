import BadgeOS.Wlroots.Nv12Pixel
import Mathlib

/-!
# A row, and the rows of a picture

What a row of the C code writes, what the blocks of the vector code and the C code behind them
write, and what the copy into the line buffer leaves for both, are the same bytes, put in one
place after the other.

* `convertRowC_eq`, `convertRowNeon_eq` — a row from some column on;
* `copyUncached_eq` — the copy;
* `paint`, `foldlM_put` — rows put into a picture one after the other.
-/

namespace BadgeOS.Wlroots.Nv12

open Memory Neon

/-- Pixel `i` of a row: two pixels share a chroma sample. -/
def px (Y UV : ℕ → UInt8) (i : ℕ) : List UInt8 := pixel (Y i) (UV (i / 2 * 2)) (UV (i / 2 * 2 + 1))

/-- The bytes of `n` pixels from `col` on. -/
def pixels (Y UV : ℕ → UInt8) (col n : ℕ) : List UInt8 := (List.range' col n).flatMap (px Y UV)

theorem length_px (Y UV : ℕ → UInt8) (i : ℕ) : (px Y UV i).length = 4 := rfl

theorem length_pixels (Y UV : ℕ → UInt8) (col n : ℕ) : (pixels Y UV col n).length = 4 * n := by
  induction n generalizing col with
  | zero => rfl
  | succ n ih =>
      rw [pixels, List.range'_succ, List.flatMap_cons, List.length_append, length_px]
      have hrest := ih (col + 1)
      unfold pixels at hrest
      omega

theorem pixels_add (Y UV : ℕ → UInt8) (col m n : ℕ) :
    pixels Y UV col m ++ pixels Y UV (col + m) n = pixels Y UV col (m + n) := by
  unfold pixels
  rw [← List.flatMap_append, List.range'_append_1]

theorem pixels_succ (Y UV : ℕ → UInt8) (col n : ℕ) :
    pixels Y UV col (n + 1) = px Y UV col ++ pixels Y UV (col + 1) n := by
  unfold pixels
  rw [List.range'_succ, List.flatMap_cons]

/-- The samples of a row may be read. -/
structure Readable (yRow uvRow : Ptr) (Y UV : ℕ → UInt8) (width : ℕ) : Prop where
  luma : ∀ i < width, yRow.load i = some (Y i)
  chroma : ∀ i < (width + 1) / 2 * 2, uvRow.load i = some (UV i)

/-- The pixels of a row may be written. -/
def Writable (dst : Mem) (dstRow width : ℕ) : Prop :=
  ∀ i < 4 * width, dst.valid (dstRow + i) = true

variable {yRow uvRow : Ptr} {Y UV : ℕ → UInt8} {dst : Mem} {dstRow width col : ℕ}

theorem Writable.put (h : Writable dst dstRow width) (a : ℕ) (bs : List UInt8) :
    Writable (dst.put a bs) dstRow width := h

/-- A write that stays in the row. -/
theorem Writable.stores (h : Writable dst dstRow width) {bs : List UInt8} {n : ℕ}
    (hlen : bs.length = 4 * n) (hn : col + n ≤ width) :
    dst.stores (dstRow + 4 * col) bs = some (dst.put (dstRow + 4 * col) bs) := by
  apply Mem.stores_eq
  intro i hi
  have hvalid := h (4 * col + i) (by omega)
  rw [← Nat.add_assoc] at hvalid
  exact hvalid

/-! ### The C code -/

theorem storePixel_eq (hload : yRow.load col = some (Y col)) (hwrite : Writable dst dstRow width)
    (hcol : col < width) (u v : UInt8) :
    storePixel yRow dst dstRow col ⟨redTerm v, false⟩ ⟨greenTerm u v, false⟩
      ⟨blueTerm u, false⟩ = some (dst.put (dstRow + 4 * col) (pixel (Y col) u v)) := by
  obtain ⟨word, hword, hbytes⟩ := toXrgb8888_eq (Y col) u v
  unfold storePixel
  rw [hload, Option.bind_eq_bind, Option.bind_some, hword, Option.bind_eq_bind, Option.bind_some,
    hbytes]
  exact hwrite.stores (n := 1) rfl hcol

/-- The chroma terms of `convert_row_c`. -/
theorem chromaTerms (u v : UInt8) :
    let u' := (ofByte u).sub 32 (const 128)
    let v' := (ofByte v).sub 32 (const 128)
    (const fixVR).mul 32 v' = ⟨redTerm v, false⟩ ∧
      ((const (-fixUG)).mul 32 u').sub 32 ((const fixVG).mul 32 v') = ⟨greenTerm u v, false⟩ ∧
      (const fixUB).mul 32 u' = ⟨blueTerm u, false⟩ := by
  have hu := byte_bounds u
  have hv := byte_bounds v
  have hu' : (ofByte u).sub 32 (const 128) = ⟨u.toNat - 128, false⟩ := sub32 (by omega) (by omega)
  have hv' : (ofByte v).sub 32 (const 128) = ⟨v.toNat - 128, false⟩ := sub32 (by omega) (by omega)
  have hug : (const (-fixUG)).mul 32 ⟨u.toNat - 128, false⟩ =
      ⟨-fixUG * (u.toNat - 128), false⟩ := by
    apply mul32 <;> unfold fixUG <;> omega
  have hvg : (const fixVG).mul 32 ⟨v.toNat - 128, false⟩ = ⟨fixVG * (v.toNat - 128), false⟩ := by
    apply mul32 <;> unfold fixVG <;> omega
  dsimp only
  rw [hu', hv', hug, hvg]
  refine ⟨?_, ?_, ?_⟩
  · have hred := red_bounds v
    unfold redTerm at hred ⊢
    exact mul32 (by omega) (by omega)
  · have hgreen := green_bounds u v
    unfold greenTerm at hgreen ⊢
    exact sub32 (by omega) (by omega)
  · have hblue := blue_bounds u
    unfold blueTerm at hblue ⊢
    exact mul32 (by omega) (by omega)

theorem px_even (heven : col % 2 = 0) :
    px Y UV col = pixel (Y col) (UV col) (UV (col + 1)) := by
  have hpair : col / 2 * 2 = col := by omega
  rw [px, hpair]

theorem px_odd (heven : col % 2 = 0) :
    px Y UV (col + 1) = pixel (Y (col + 1)) (UV col) (UV (col + 1)) := by
  have hpair : (col + 1) / 2 * 2 = col := by omega
  rw [px, hpair]

/-- **A row of the C code**, from an even column on. -/
theorem convertRowC_eq (hread : Readable yRow uvRow Y UV width)
    (hwrite : Writable dst dstRow width) (hwidth : width < 2 ^ 31 - 1) (heven : col % 2 = 0) :
    convertRowC yRow uvRow dst dstRow col width =
      some (dst.put (dstRow + 4 * col) (pixels Y UV col (width - col))) := by
  induction hn : width - col using Nat.strong_induction_on generalizing col dst with
  | _ n ih =>
    subst hn
    rw [convertRowC]
    by_cases hcol : col < width
    · obtain ⟨hr, hg, hb⟩ := chromaTerms (UV col) (UV (col + 1))
      rw [if_pos hcol, hread.chroma col (by omega), Option.bind_eq_bind, Option.bind_some,
        hread.chroma (col + 1) (by omega), Option.bind_eq_bind, Option.bind_some]
      dsimp only at hr hg hb ⊢
      rw [hr, hg, hb, storePixel_eq (hread.luma col hcol) hwrite hcol, Option.bind_some,
        ← px_even heven]
      by_cases hnext : col + 1 < width
      · have hsplit : width - col = width - (col + 2) + 1 + 1 := by omega
        have hrest : convertRowC yRow uvRow
            ((dst.put (dstRow + 4 * col) (px Y UV col)).put (dstRow + 4 * (col + 1))
              (px Y UV (col + 1))) dstRow (col + 2) width = _ :=
          ih (width - (col + 2)) (by omega) ((hwrite.put _ _).put _ _) (by omega) rfl
        rw [if_pos hnext, storePixel_eq (hread.luma (col + 1) hnext) (hwrite.put _ _) hnext,
          Option.bind_some, if_pos (by omega), ← px_odd heven, hrest, hsplit, pixels_succ,
          pixels_succ,
          Mem.put_append (b := dstRow + 4 * (col + 1)) _ _ _ (by rw [length_px]; omega),
          Mem.put_append _ _ _ (by rw [List.length_append, length_px, length_px]; omega),
          List.append_assoc]
      · have hlast : width - col = 0 + 1 := by omega
        rw [if_neg hnext, Option.bind_some, if_pos (by omega), hlast, pixels_succ, convertRowC,
          if_neg (by omega)]
        show _ = some (dst.put _ (_ ++ []))
        rw [List.append_nil]
    · rw [if_neg hcol, Nat.sub_eq_zero_of_le (Nat.le_of_not_lt hcol)]
      show some dst = some (dst.put _ [])
      rw [Mem.put_nil]

/-! ### The vector code -/

/-- The bytes that a block writes are those of its pixels. -/
theorem block_pixels (heven : col % 2 = 0) :
    blockNeon ((List.range 16).map fun j => Y (col + j))
      ((List.range 16).map fun j => UV (col + j)) = some (pixels Y UV col 16) := by
  have hpx : pixels Y UV col 16 =
      ((List.finRange 16).map fun i : Fin 16 => px Y UV (col + i)).flatten := rfl
  rw [blockNeon_eq, hpx]
  congr 2
  apply List.map_congr_left
  intro i _
  have hpair : (col + i) / 2 * 2 = col + 2 * (i / 2) := by omega
  rw [px, hpair, getD_row _ i.isLt, getD_row _ (by omega), getD_row _ (by omega), Nat.add_assoc]

theorem convertRowNeon_eq (hread : Readable yRow uvRow Y UV width)
    (hwrite : Writable dst dstRow width) (hwidth : width < 2 ^ 31 - 16) (heven : col % 2 = 0)
    (hcol : col ≤ width) :
    convertRowNeon yRow uvRow dst dstRow col width =
      some (dst.put (dstRow + 4 * col) (pixels Y UV col ((width - col) / 16 * 16)),
        col + (width - col) / 16 * 16) := by
  induction hn : width - col using Nat.strong_induction_on generalizing col dst with
  | _ n ih =>
    subst hn
    rw [convertRowNeon, if_pos (by omega)]
    by_cases hblock : col + 16 ≤ width
    · have hsplit : (width - col) / 16 * 16 = 16 + (width - (col + 16)) / 16 * 16 := by omega
      have hrest : convertRowNeon yRow uvRow (dst.put (dstRow + 4 * col) (pixels Y UV col 16))
          dstRow (col + 16) width = _ :=
        ih (width - (col + 16)) (by omega) (hwrite.put _ _) (by omega) (by omega) rfl
      rw [if_pos hblock, Ptr.loads_eq fun j hj => hread.luma (col + j) (by omega),
        Option.bind_eq_bind, Option.bind_some,
        Ptr.loads_eq fun j hj => hread.chroma (col + j) (by omega), Option.bind_eq_bind,
        Option.bind_some, block_pixels heven, Option.bind_some,
        hwrite.stores (length_pixels Y UV col 16) hblock,
        Option.bind_some, hrest, Mem.put_append _ _ _ (by rw [length_pixels]; omega), pixels_add,
        hsplit]
      congr 2
      omega
    · have hnone : (width - col) / 16 * 16 = 0 := by omega
      rw [if_neg hblock, hnone]
      show some (dst, col) = some (dst.put _ [], col)
      rw [Mem.put_nil]

/-- **A row of the vector code**, with the C code behind it. -/
theorem convertRow_eq (hread : Readable yRow uvRow Y UV width)
    (hwrite : Writable dst dstRow width) (hwidth : width < 2 ^ 31 - 16) :
    (do
      let (dst, col) ← convertRowNeon yRow uvRow dst dstRow 0 width
      convertRowC yRow uvRow dst dstRow col width) =
      some (dst.put dstRow (pixels Y UV 0 width)) := by
  have hsplit : width / 16 * 16 + (width - width / 16 * 16) = width := by omega
  rw [convertRowNeon_eq hread hwrite hwidth rfl (Nat.zero_le _), Option.bind_eq_bind,
    Option.bind_some]
  dsimp only
  rw [convertRowC_eq hread (hwrite.put _ _) (by omega) (by omega),
    Mem.put_append _ _ _ (by rw [length_pixels]; omega), Nat.sub_zero, pixels_add]
  rw [Nat.zero_add, hsplit]
  rfl

/-! ### The copy -/

/-- **The copy** leaves the bytes it was to copy. -/
theorem copyUncached_eq {src : Ptr} {f : ℕ → UInt8} {d s n : ℕ}
    (hread : ∀ i < n, src.load (s + i) = some (f (s + i)))
    (hwrite : ∀ i < n, dst.valid (d + i) = true) :
    copyUncached dst d src s n = some (dst.put d ((List.range' s n).map f)) := by
  induction n using Nat.strong_induction_on generalizing d s dst with
  | _ n ih =>
    have hpart (s n : ℕ) : (List.range n).map (fun j => f (s + j)) = (List.range' s n).map f := by
      rw [List.range'_eq_map_range, List.map_map]
      rfl
    have hstore {m : Mem} {d k : ℕ} (s : ℕ) (h : ∀ i < k, m.valid (d + i) = true) :
        m.stores d ((List.range' s k).map f) = some (m.put d ((List.range' s k).map f)) := by
      apply Mem.stores_eq
      rw [List.length_map, List.length_range']
      exact h
    rw [copyUncached]
    by_cases hn : 32 ≤ n
    · have hsplit : n = 16 + (16 + (n - 32)) := by omega
      have hsecond : s + 16 + 16 = s + 32 := by omega
      have hhigh (i : ℕ) (hi : i < 16) : dst.valid (d + 16 + i) = true := by
        rw [Nat.add_assoc]
        exact hwrite (16 + i) (by omega)
      have hrest (m : Mem) (hm : m.valid = dst.valid) :
          copyUncached m (d + 32) src (s + 32) (n - 32) =
            some (m.put (d + 32) ((List.range' (s + 32) (n - 32)).map f)) := by
        apply ih (n - 32) (by omega)
        · intro i hi
          rw [Nat.add_assoc]
          exact hread (32 + i) (by omega)
        · intro i hi
          rw [hm, Nat.add_assoc]
          exact hwrite (32 + i) (by omega)
      have hloads : src.loads (s + 16) 16 = some ((List.range' (s + 16) 16).map f) := by
        rw [← hpart]
        apply Ptr.loads_eq
        intro j hj
        rw [Nat.add_assoc]
        exact hread (16 + j) (by omega)
      have happend : (List.range' s n).map f = (List.range' s 16).map f ++
          ((List.range' (s + 16) 16).map f ++ (List.range' (s + 32) (n - 32)).map f) := by
        rw [← List.map_append, ← List.map_append, ← hsecond, List.range'_append_1,
          List.range'_append_1, ← hsplit]
      rw [if_pos hn, Ptr.loads_eq fun j hj => hread j (by omega), Option.bind_eq_bind,
        Option.bind_some, hloads, Option.bind_eq_bind, Option.bind_some, hpart,
        hstore s fun i hi => hwrite i (by omega), Option.bind_some,
        hstore (m := dst.put d _) (s + 16) hhigh, Option.bind_some,
        hrest ((dst.put d _).put (d + 16) _) rfl,
        Mem.put_append (b := d + 16) _ _ _ (by simp),
        Mem.put_append _ _ _ (by simp), happend, List.append_assoc]
    · rw [if_neg hn, Ptr.loads_eq hread, Option.bind_eq_bind, Option.bind_some, hpart]
      exact hstore s hwrite

/-! ### Rows, one after the other -/

/-- Writes that succeed, one after the other: what stays is which addresses may be used. -/
theorem foldlM_put {α : Type*} {g : Mem → α → Option Mem} {a : α → ℕ} {bs : α → List UInt8}
    {l : List α} (h : ∀ m : Mem, m.valid = dst.valid → ∀ x ∈ l, g m x = some (m.put (a x) (bs x))) :
    l.foldlM g dst = some (l.foldl (fun m x => m.put (a x) (bs x)) dst) := by
  induction l generalizing dst with
  | nil => rfl
  | cons x xs ih =>
      rw [List.foldlM_cons, h dst rfl x (by simp), Option.bind_eq_bind, Option.bind_some]
      exact ih fun m hm y hy => h m hm y (by simp [hy])

/-- Rows of one length, put a stride apart, byte by byte. -/
theorem byte_foldl_put {B : ℕ → List UInt8} {stride len : ℕ} (hlen : ∀ i, (B i).length = len)
    (hle : len ≤ stride) (hpos : 0 < stride) (r a : ℕ) :
    ((List.range r).foldl (fun m i => m.put (i * stride) (B i)) dst).byte a =
      if a / stride < r ∧ a % stride < len then (B (a / stride))[a % stride]?
      else dst.byte a := by
  induction r with
  | zero => rw [if_neg (fun h => Nat.not_lt_zero _ h.1)]; rfl
  | succ r ih =>
      rw [List.range_succ, List.foldl_append, List.foldl_cons, List.foldl_nil, Mem.byte_put, hlen,
        ih]
      have hdiv := Nat.div_add_mod a stride
      have hmod := Nat.mod_lt a hpos
      have hiff : r * stride ≤ a ∧ a < r * stride + len ↔ a / stride = r ∧ a % stride < len := by
        constructor
        · intro h
          have hquot : a / stride = r := by
            rw [Nat.div_eq_iff hpos]
            omega
          rw [hquot, Nat.mul_comm] at hdiv
          exact ⟨hquot, by omega⟩
        · intro h
          rw [h.1, Nat.mul_comm] at hdiv
          omega
      by_cases hr : a / stride = r
      · have hrest : a - r * stride = a % stride := by
          rw [hr, Nat.mul_comm] at hdiv
          omega
        by_cases hin : a % stride < len
        · rw [if_pos (hiff.2 ⟨hr, hin⟩), if_pos ⟨by omega, hin⟩, hrest, hr]
        · rw [if_neg (fun h => hin (hiff.1 h).2), if_neg (fun h => hin h.2),
            if_neg (fun h => hin h.2)]
      · have hlt : a / stride < r + 1 ↔ a / stride < r := by omega
        rw [if_neg (fun h => hr (hiff.1 h).1)]
        simp only [hlt]

/-- A byte of a row of pixels. -/
theorem getElem?_pixels (Y UV : ℕ → UInt8) {n x : ℕ} (hx : x < 4 * n) :
    (pixels Y UV 0 n)[x]? = (px Y UV (x / 4))[x % 4]? := by
  induction n with
  | zero => omega
  | succ n ih =>
      rw [← pixels_add Y UV 0 n 1]
      by_cases hlow : x < 4 * n
      · rw [List.getElem?_append_left (by rw [length_pixels]; exact hlow), ih hlow]
      · have hlast : pixels Y UV (0 + n) 1 = px Y UV n := by
          rw [Nat.zero_add, pixels_succ]
          exact List.append_nil _
        have hdiv : x / 4 = n := by omega
        have hmod : x - 4 * n = x % 4 := by omega
        rw [List.getElem?_append_right (by rw [length_pixels]; omega), hlast, length_pixels, hdiv,
          hmod]

/-! ### A picture -/

section Picture

variable {y uv : Ptr} {yStride uvStride dstAddr dstStride height : ℕ} {Yr UVr : ℕ → ℕ → UInt8}
  {addr : ℕ → ℕ}

theorem pixmanNv12ToXrgb8888C_eq
    (hread : ∀ row < height, Readable (rowPtr y row yStride) (rowPtr uv (row / 2) uvStride)
      (Yr row) (UVr row) width)
    (haddr : ∀ row < height, dstAddr + rowOffset row dstStride = addr row)
    (hwrite : ∀ row < height, Writable dst (addr row) width)
    (hwidth : width < 2 ^ 31 - 1) :
    pixmanNv12ToXrgb8888C y yStride uv uvStride dst dstAddr dstStride width height =
      some ((List.range height).foldl (fun m row =>
        m.put (addr row) (pixels (Yr row) (UVr row) 0 width)) dst) := by
  apply foldlM_put
  intro m hm row hrow
  have hlt := List.mem_range.1 hrow
  have hvalid : Writable m (addr row) width := by
    unfold Writable
    rw [hm]
    exact hwrite row hlt
  rw [haddr row hlt]
  exact convertRowC_eq (hread row hlt) hvalid hwidth rfl

theorem pixmanNv12ToXrgb8888_eq
    (hread : ∀ row < height, Readable (rowPtr y row yStride) (rowPtr uv (row / 2) uvStride)
      (Yr row) (UVr row) width)
    (haddr : ∀ row < height, dstAddr + rowOffset row dstStride = addr row)
    (hwrite : ∀ row < height, Writable dst (addr row) width)
    (hwidth : width < 2 ^ 31 - 16) :
    pixmanNv12ToXrgb8888 y yStride uv uvStride dst dstAddr dstStride width height =
      some ((List.range height).foldl (fun m row =>
        m.put (addr row) (pixels (Yr row) (UVr row) 0 width)) dst) := by
  apply foldlM_put
  intro m hm row hrow
  have hlt := List.mem_range.1 hrow
  have hvalid : Writable m (addr row) width := by
    unfold Writable
    rw [hm]
    exact hwrite row hlt
  rw [haddr row hlt]
  exact convertRow_eq (hread row hlt) hvalid hwidth

end Picture

end BadgeOS.Wlroots.Nv12
