import BadgeOS.CodaCube.Surface
import BadgeOS.Lib.Painting
import Mathlib

/-!
# Two rows of the window conversion

The NEON blocks and the C loop paint the same addresses with the same pixels: the rows of the
surface that there are, from end to end.

* `Target` — what the rows hold, and where they go;
* `Target.paints_c`, `Target.paints_neon` — both ways paint `Target.lines`.
-/

namespace BadgeOS.CodaCube.Surface

open Memory Neon

/-! ### A pixel -/

theorem length_px (fmt : Fmt) (y u v : UInt8) : (px fmt y u v).length = fmt.bpp := by
  cases fmt <;> rfl

theorem bpp_pos (fmt : Fmt) : 0 < fmt.bpp := by
  cases fmt <;> decide

theorem clamp_eq (x : ℤ) : clamp x = Lanes.byteOf (saturated 8 x) := by
  rw [clamp, Lanes.byteOf]
  congr 2
  rw [saturated]
  split_ifs <;> omega

/-- The chroma terms of the vector code, rounded. -/
def redTerm (v : UInt8) : ℤ := rounded 7 ((v.toNat - 128) * 179)

def greenTerm (u v : UInt8) : ℤ := rounded 7 ((u.toNat - 128) * -44 + (v.toNat - 128) * -91)

def blueTerm (u : UInt8) : ℤ := rounded 7 ((u.toNat - 128) * 227)

theorem px_eq (fmt : Fmt) (y u v : UInt8) : px fmt y u v =
    [Lanes.byteOf (saturated 8 (y.toNat + blueTerm u)),
      Lanes.byteOf (saturated 8 (y.toNat + greenTerm u v)),
      Lanes.byteOf (saturated 8 (y.toNat + redTerm v)), 255].take fmt.bpp := by
  have hblue : (227 * ((u.toNat : ℤ) - 128) + 64) / 2 ^ 7 = blueTerm u := by
    rw [blueTerm, rounded]
    omega
  have hgreen : (-44 * ((u.toNat : ℤ) - 128) - 91 * ((v.toNat : ℤ) - 128) + 64) / 2 ^ 7 =
      greenTerm u v := by
    rw [greenTerm, rounded]
    omega
  have hred : (179 * ((v.toNat : ℤ) - 128) + 64) / 2 ^ 7 = redTerm v := by
    rw [redTerm, rounded]
    omega
  simp only [px, hblue, hgreen, hred, clamp_eq]

theorem term_bounds (u v : UInt8) : (-512 ≤ redTerm v ∧ redTerm v ≤ 512) ∧
    (-512 ≤ greenTerm u v ∧ greenTerm u v ≤ 512) ∧ (-512 ≤ blueTerm u ∧ blueTerm u ≤ 512) := by
  have hu := u.toNat_lt
  have hv := v.toNat_lt
  simp only [redTerm, greenTerm, blueTerm, rounded]
  omega

/-! ### The vector code -/

/-- A channel of 16 pixels, lane by lane. -/
theorem channel16_of {f g : ℕ → ℤ} (hf : ∀ i, 0 ≤ f i ∧ f i ≤ 255)
    (hg : ∀ i, -512 ≤ g i ∧ g i ≤ 512) :
    channel16 (Lanes.of 16 f) (Lanes.of 8 g) =
      Lanes.of 16 fun i => saturated 8 (f i + g (i / 2)) := by
  have hlow : Lanes.vgetLow 8 (Lanes.of 16 f) = Lanes.of 8 f := Lanes.vgetLow_of 8 f
  have hhigh : Lanes.vgetHigh 8 (Lanes.of 16 f) = Lanes.of 8 fun i => f (8 + i) :=
    Lanes.vgetHigh_of 8 f
  have hzip1 : (Lanes.of 8 g).vzip1 1 (Lanes.of 8 g) = Lanes.of 8 fun i => g (i / 2) := by
    rw [Lanes.vzip1_of]
    apply Lanes.of_congr
    intro i _
    simp [Nat.mod_one]
  have hzip2 : Lanes.vzip2 (n := 4) (Lanes.of 8 g) (Lanes.of 8 g) =
      Lanes.of 8 fun i => g (4 + i / 2) := by
    refine (Lanes.vzip2_of (n := 4) g g).trans (Lanes.of_congr ?_)
    intro i _
    simp
  rw [channel16, hlow, hhigh, hzip1, hzip2]
  simp only [Lanes.vmovl_of]
  rw [Lanes.vadd_of (by decide) (fun i _ => by
      have h1 := hf i
      have h2 := hg (i / 2)
      constructor <;> omega),
    Lanes.vadd_of (by decide) (fun i _ => by
      have h1 := hf (8 + i)
      have h2 := hg (4 + i / 2)
      constructor <;> omega),
    Lanes.vqmovn_of, Lanes.vqmovn_of]
  refine (Lanes.vcombine_of (n := 8) _ _).trans (Lanes.of_congr ?_)
  intro i hi
  split
  · rfl
  · rw [show 8 + (i - 8) = i by omega, show 4 + (i - 8) / 2 = i / 2 by omega]

theorem stPx_of (dst : Mem) (a : ℕ) (b g r : ℕ → ℤ) (fmt : Fmt) :
    stPx dst a (Lanes.of 16 b) (Lanes.of 16 g) (Lanes.of 16 r) fmt =
      dst.stores a ((List.range 16).flatMap fun i =>
        [Lanes.byteOf (b i), Lanes.byteOf (g i), Lanes.byteOf (r i), 255].take fmt.bpp) := by
  cases fmt with
  | bgr24 =>
      rw [stPx]
      simp only [Lanes.vst3_of, Option.bind_eq_bind, Option.bind_some]
      rfl
  | xrgb =>
      rw [stPx]
      simp only [Lanes.vdup_eq, Lanes.vst4_of, Option.bind_eq_bind, Option.bind_some]
      rfl

theorem div_block {b q r : ℕ} (hr : r < b) : (q * b + r) / b = q := by
  rw [Nat.mul_comm, Nat.mul_add_div (by omega), Nat.div_eq_of_lt hr, Nat.add_zero]

/-! ### What the rows hold -/

/-- The samples of two picture rows. -/
structure Rows where
  luma : ℕ → ℕ → UInt8
  chroma : ℕ → UInt8

/-- The pixel `x` of row `row`. -/
def Rows.pixel (rows : Rows) (fmt : Fmt) (row x : ℕ) : List UInt8 :=
  px fmt (rows.luma row x) (rows.chroma (x / 2 * 2)) (rows.chroma (x / 2 * 2 + 1))

/-- The rows as they lie in memory, and the rows `d` of the surface, which may be written and
where `V` has the pixels. -/
structure Target (rows : Rows) (y0 y1 uv : Ptr) (d : ℕ → Option ℕ) (w : ℕ) (fmt : Fmt)
    (scale : ℕ) (V : ℕ → UInt8) (ok : ℕ → Bool) : Prop where
  scale_eq : scale = 1 ∨ scale = 2
  width : w % 16 = 0
  luma : ∀ row < 2, ∀ x < w, (if row = 0 then y0 else y1).load x = some (rows.luma row x)
  chroma : ∀ x < w, uv.load x = some (rows.chroma x)
  valid : ∀ j < 2 * scale, ∀ a, d j = some a → ∀ t < w * scale * fmt.bpp, ok (a + t) = true
  holds : ∀ j < 2 * scale, ∀ a, d j = some a → ∀ t < w * scale * fmt.bpp,
    (rows.pixel fmt (j / scale) (t / fmt.bpp / scale))[t % fmt.bpp]? = some (V (a + t))

/-- The rows of the surface that there are. -/
def lines (d : ℕ → Option ℕ) (n len : ℕ) : Set ℕ :=
  {z | ∃ j < n, ∃ a, d j = some a ∧ a ≤ z ∧ z < a + len}

section Target

variable {rows : Rows} {y0 y1 uv : Ptr} {d : ℕ → Option ℕ} {w : ℕ} {fmt : Fmt} {scale : ℕ}
  {V : ℕ → UInt8} {ok : ℕ → Bool}

theorem Target.scale_pos (h : Target rows y0 y1 uv d w fmt scale V ok) : 0 < scale := by
  have := h.scale_eq
  omega

/-- The pixels from `X` on, in one write. -/
theorem Target.store (h : Target rows y0 y1 uv d w fmt scale V ok) {j a X n : ℕ}
    (hj : j < 2 * scale) (ha : d j = some a) (hX : X + n ≤ w * scale) :
    Paints V ok (fun m => m.stores (a + X * fmt.bpp)
      ((List.range n).flatMap fun i => rows.pixel fmt (j / scale) ((X + i) / scale)))
      {z | a + X * fmt.bpp ≤ z ∧ z < a + (X + n) * fmt.bpp} := by
  have hpiece : ∀ i, (rows.pixel fmt (j / scale) ((X + i) / scale)).length = fmt.bpp :=
    fun i => length_px _ _ _ _
  have hlen := length_pieces hpiece n
  have hpos := bpp_pos fmt
  have hend : (X + n) * fmt.bpp ≤ w * scale * fmt.bpp := Nat.mul_le_mul_right _ hX
  rw [Nat.add_mul] at hend ⊢
  have hwrite : Paints V ok (fun m => m.stores (a + X * fmt.bpp)
      ((List.range n).flatMap fun i => rows.pixel fmt (j / scale) ((X + i) / scale))) _ :=
    Paints.store (by
      intro i hi
      rw [hlen] at hi
      rw [Nat.add_assoc]
      exact h.valid j hj a ha _ (by omega)) (by
      intro i hi
      rw [hlen] at hi
      have hholds := h.holds j hj a ha (X * fmt.bpp + i) (by omega)
      rw [getElem?_pieces hpiece n hi, Nat.add_assoc, ← hholds, Nat.add_comm (X * fmt.bpp),
        Nat.add_mul_div_right _ _ hpos, Nat.add_mul_mod_self_right, Nat.add_comm X])
  rw [hlen, Nat.add_assoc] at hwrite
  exact hwrite

/-! ### The C loop -/

theorem Target.pixel_eq (h : Target rows y0 y1 uv d w fmt scale V ok) {row x : ℕ}
    (hrow : row < 2) (hx : x < w) (m : Mem) : cvtPixel y0 y1 uv d fmt scale row m x =
      (List.range scale).foldlM (fun m k =>
        match d (row * scale + k) with
        | none => some m
        | some a => (List.range scale).foldlM (fun m sx =>
            m.stores (a + (x * scale + sx) * fmt.bpp) (rows.pixel fmt row x)) m) m := by
  have hwidth := h.width
  rw [cvtPixel]
  simp only [h.luma row hrow x hx, h.chroma (x / 2 * 2) (by omega),
    h.chroma (x / 2 * 2 + 1) (by omega), Option.bind_eq_bind, Option.bind_some]
  rcases h.scale_eq with rfl | rfl
  · simp only [List.range_one, List.foldlM_cons, List.foldlM_nil, if_true, Nat.mul_one, Nat.add_zero]
    rfl
  · simp only [OfNat.ofNat_ne_one, if_false, Nat.mul_comm 2 row]
    rfl

/-- A row of the surface, if there is one. -/
theorem paints_row {i : ℕ} {f : ℕ → Mem → Option Mem} {D : ℕ → Set ℕ}
    (h : ∀ a, d i = some a → Paints V ok (f a) (D a)) :
    Paints V ok (fun m => match d i with
      | none => some m
      | some a => f a m) {z | ∃ a, d i = some a ∧ z ∈ D a} := by
  cases hd : d i with
  | none =>
      refine Paints.skip.of_eq fun z => ?_
      simp
  | some a =>
      refine (h a hd).of_eq fun z => ?_
      simp

theorem Target.paints_pixel (h : Target rows y0 y1 uv d w fmt scale V ok) {row x : ℕ}
    (hrow : row < 2) (hx : x < w) :
    Paints V ok (fun m => cvtPixel y0 y1 uv d fmt scale row m x)
      {z | ∃ k ∈ List.range scale, ∃ a, d (row * scale + k) = some a ∧
        ∃ sx ∈ List.range scale, a + (x * scale + sx) * fmt.bpp ≤ z ∧
          z < a + (x * scale + sx + 1) * fmt.bpp} := by
  have hscale := h.scale_pos
  have hone : ∀ k ∈ List.range scale, ∀ a, d (row * scale + k) = some a →
      ∀ sx ∈ List.range scale, Paints V ok
        (fun m => m.stores (a + (x * scale + sx) * fmt.bpp) (rows.pixel fmt row x))
        {z | a + (x * scale + sx) * fmt.bpp ≤ z ∧ z < a + (x * scale + sx + 1) * fmt.bpp} := by
    intro k hk a ha sx hsx
    have hk := List.mem_range.mp hk
    have hsx := List.mem_range.mp hsx
    have hj : row * scale ≤ 1 * scale := Nat.mul_le_mul_right _ (by omega)
    have hX : (x + 1) * scale ≤ w * scale := Nat.mul_le_mul_right _ hx
    rw [Nat.add_mul, Nat.one_mul] at hX
    have hstore := h.store (show row * scale + k < 2 * scale by omega) ha
      (show x * scale + sx + 1 ≤ w * scale by omega)
    simp only [List.range_one, List.flatMap_singleton, Nat.add_zero, div_block hk,
      div_block hsx] at hstore
    exact hstore
  have hloop : Paints V ok (fun m => (List.range scale).foldlM (fun m k =>
      match d (row * scale + k) with
      | none => some m
      | some a => (List.range scale).foldlM (fun m sx =>
          m.stores (a + (x * scale + sx) * fmt.bpp) (rows.pixel fmt row x)) m) m) _ :=
    Paints.loop fun k hk => paints_row fun a ha => Paints.loop fun sx hsx => hone k hk a ha sx hsx
  exact fun m hm => (h.pixel_eq hrow hx m).trans (hloop m hm)

theorem Target.paints_c (h : Target rows y0 y1 uv d w fmt scale V ok) :
    Paints V ok (cvtRowsC y0 y1 uv d w fmt scale) (lines d (2 * scale) (w * scale * fmt.bpp)) := by
  have hscale := h.scale_pos
  have hpos := bpp_pos fmt
  have hloop : Paints V ok (cvtRowsC y0 y1 uv d w fmt scale) _ :=
    Paints.loop fun row hrow => Paints.loop fun x hx =>
      h.paints_pixel (List.mem_range.mp hrow) (List.mem_range.mp hx)
  refine hloop.of_eq fun z => ?_
  simp only [lines, Set.mem_ofPred_eq, List.mem_range]
  constructor
  · rintro ⟨row, hrow, x, hx, k, hk, a, ha, sx, hsx, hlow, hhigh⟩
    have hj : row * scale ≤ 1 * scale := Nat.mul_le_mul_right _ (by omega)
    have hX : (x + 1) * scale ≤ w * scale := Nat.mul_le_mul_right _ hx
    rw [Nat.add_mul, Nat.one_mul] at hX
    have hend : (x * scale + sx + 1) * fmt.bpp ≤ w * scale * fmt.bpp :=
      Nat.mul_le_mul_right _ (by omega)
    exact ⟨row * scale + k, by omega, a, ha, by omega, by omega⟩
  · rintro ⟨j, hj, a, ha, hlow, hhigh⟩
    have hX : (z - a) / fmt.bpp < w * scale := by
      rw [Nat.div_lt_iff_lt_mul hpos]
      omega
    have hsplit := Nat.div_add_mod (z - a) fmt.bpp
    have hmod := Nat.mod_lt (z - a) hpos
    have hXsplit := Nat.div_add_mod ((z - a) / fmt.bpp) scale
    have hjsplit := Nat.div_add_mod j scale
    refine ⟨j / scale, by rwa [Nat.div_lt_iff_lt_mul hscale], (z - a) / fmt.bpp / scale,
      by rwa [Nat.div_lt_iff_lt_mul hscale], j % scale, Nat.mod_lt _ hscale, a, ?_,
      (z - a) / fmt.bpp % scale, Nat.mod_lt _ hscale, ?_, ?_⟩
    · rw [Nat.mul_comm (j / scale), hjsplit]
      exact ha
    · rw [Nat.mul_comm ((z - a) / fmt.bpp / scale), hXsplit, Nat.mul_comm]
      omega
    · rw [Nat.mul_comm ((z - a) / fmt.bpp / scale), hXsplit, Nat.add_mul, Nat.one_mul,
        Nat.mul_comm]
      omega

/-! ### The vector loop -/

section Block

variable (rows : Rows) (row X : ℕ)

/-- The channels of the pixel `X` of row `row`. -/
def Rows.red : ℤ := saturated 8 ((rows.luma row X).toNat + redTerm (rows.chroma (X / 2 * 2 + 1)))

def Rows.green : ℤ := saturated 8 ((rows.luma row X).toNat +
  greenTerm (rows.chroma (X / 2 * 2)) (rows.chroma (X / 2 * 2 + 1)))

def Rows.blue : ℤ := saturated 8 ((rows.luma row X).toNat + blueTerm (rows.chroma (X / 2 * 2)))

theorem Rows.pixel_eq (fmt : Fmt) : rows.pixel fmt row X =
    [Lanes.byteOf (rows.blue row X), Lanes.byteOf (rows.green row X),
      Lanes.byteOf (rows.red row X), 255].take fmt.bpp := px_eq _ _ _ _

end Block

/-- The pixels `e 0`, `e 1` and so on, from three registers. -/
theorem stPx_pixels (rows : Rows) (m : Mem) (a row : ℕ) (e : ℕ → ℕ) (fmt : Fmt) :
    stPx m a (Lanes.of 16 fun i => rows.blue row (e i)) (Lanes.of 16 fun i => rows.green row (e i))
      (Lanes.of 16 fun i => rows.red row (e i)) fmt =
    m.stores a ((List.range 16).flatMap fun i => rows.pixel fmt row (e i)) := by
  simp only [Rows.pixel_eq]
  exact stPx_of m a _ _ _ fmt

/-- Each lane twice: the lower half, and the upper one. -/
theorem doubled (f : ℕ → ℤ) :
    (Lanes.of 16 f).vzip1 1 (Lanes.of 16 f) = Lanes.of 16 (fun i => f (i / 2)) ∧
      Lanes.vzip2 (n := 8) (Lanes.of 16 f) (Lanes.of 16 f) =
        Lanes.of 16 (fun i => f (8 + i / 2)) := by
  constructor
  · rw [Lanes.vzip1_of]
    apply Lanes.of_congr
    intro i _
    simp [Nat.mod_one]
  · refine (Lanes.vzip2_of (n := 8) f f).trans (Lanes.of_congr ?_)
    intro i _
    simp

/-- What the stores of a block paint of the rows of the surface for the picture row `row`. -/
def blockLines (d : ℕ → Option ℕ) (scale bpp x row : ℕ) : Set ℕ :=
  {z | ∃ k ∈ List.range scale, ∃ a, d (row * scale + k) = some a ∧
    a + x * scale * bpp ≤ z ∧ z < a + (x + 16) * scale * bpp}

theorem Target.paints_storeRow (h : Target rows y0 y1 uv d w fmt scale V ok) {row x : ℕ}
    (hrow : row < 2) (hx : x + 16 ≤ w) :
    Paints V ok (fun m => storeRow m d x row (Lanes.of 16 fun i => rows.blue row (x + i))
      (Lanes.of 16 fun i => rows.green row (x + i)) (Lanes.of 16 fun i => rows.red row (x + i))
      fmt scale) (blockLines d scale fmt.bpp x row) := by
  rcases h.scale_eq with rfl | rfl
  · have hone : Paints V ok (fun m => match d row with
        | none => some m
        | some a => m.stores (a + x * fmt.bpp)
            ((List.range 16).flatMap fun i => rows.pixel fmt row (x + i))) _ :=
      paints_row fun a ha => by
        have hstore := h.store (X := x) (n := 16) (by omega) ha (by omega)
        simpa only [Nat.div_one] using hstore
    have hset : Paints V ok _ (blockLines d 1 fmt.bpp x row) := hone.of_eq fun z => by
      simp [blockLines]
    intro m hm
    rw [← hset m hm]
    show storeRow m d x row _ _ _ fmt 1 = _
    rw [storeRow, if_pos rfl]
    cases d row with
    | none => rfl
    | some a => exact stPx_pixels ..
  · have htwo : Paints V ok (fun m => (List.range 2).foldlM (fun m k =>
        match d (2 * row + k) with
        | none => some m
        | some a => (m.stores (a + 2 * x * fmt.bpp) ((List.range 16).flatMap fun i =>
            rows.pixel fmt row (x + i / 2))).bind fun m =>
              m.stores (a + (2 * x + 16) * fmt.bpp) ((List.range 16).flatMap fun i =>
                rows.pixel fmt row (x + (8 + i / 2)))) m) _ :=
      Paints.loop fun k hk => paints_row fun a ha => by
        have hk := List.mem_range.mp hk
        have hlow := h.store (X := 2 * x) (n := 16) (by omega) ha (by omega)
        have hhigh := h.store (X := 2 * x + 16) (n := 16) (by omega) ha (by omega)
        have hj : (2 * row + k) / 2 = row := by omega
        have hfirst (i : ℕ) : (2 * x + i) / 2 = x + i / 2 := by omega
        have hsecond (i : ℕ) : (2 * x + 16 + i) / 2 = x + (8 + i / 2) := by omega
        simp only [hj, hfirst] at hlow
        simp only [hj, hsecond] at hhigh
        exact hlow.seq hhigh
    have hset : Paints V ok _ (blockLines d 2 fmt.bpp x row) := htwo.of_eq fun z => by
      simp only [blockLines, Set.mem_ofPred_eq, Set.mem_union, Nat.mul_comm row 2]
      refine exists_congr fun k => and_congr_right fun _ => exists_congr fun a =>
        and_congr_right fun _ => ?_
      cases fmt
      · simp only [Fmt.bpp]
        omega
      · simp only [Fmt.bpp]
        omega
    intro m hm
    rw [← hset m hm]
    simp only [storeRow, OfNat.ofNat_ne_one, if_false, (doubled _).1, (doubled _).2, stPx_pixels]
    rfl

/-- The chroma of a block, taken apart. -/
theorem chroma_of (f : ℕ → UInt8) {j : ℕ} (hj : j < 2) :
    (Lanes.vld2 8 ((List.range 16).map f) j).vsubl (Lanes.vdup 8 128) =
      Lanes.of 8 fun i => (f (2 * i + j)).toNat - 128 := by
  rw [Lanes.vld2_eq, Lanes.vdup_eq, Lanes.vsubl_of]
  · apply Lanes.of_congr
    intro i hi
    rw [getD_row _ (by omega)]
  · intro i _
    have hlt := (((List.range 16).map f).getD (2 * i + j) 0).toNat_lt
    omega

/-- The chroma terms of a block. -/
theorem terms_of {u v : ℕ → UInt8} :
    ((Lanes.of 8 fun i => ((v i).toNat : ℤ) - 128).vmulN 16 179).vrshr 7 =
        Lanes.of 8 (fun i => redTerm (v i)) ∧
      (((Lanes.of 8 fun i => ((u i).toNat : ℤ) - 128).vmulN 16 (-44)).vmlaN 16
        (Lanes.of 8 fun i => ((v i).toNat : ℤ) - 128) (-91)).vrshr 7 =
          Lanes.of 8 (fun i => greenTerm (u i) (v i)) ∧
      ((Lanes.of 8 fun i => ((u i).toNat : ℤ) - 128).vmulN 16 227).vrshr 7 =
        Lanes.of 8 (fun i => blueTerm (u i)) := by
  have hu (i : ℕ) := (u i).toNat_lt
  have hv (i : ℕ) := (v i).toNat_lt
  refine ⟨?_, ?_, ?_⟩
  · rw [Lanes.vmulN_of (by decide) (fun i _ => by have := hv i; omega),
      Lanes.vrshr_of (fun i _ => by have := hv i; rw [rounded]; omega)]
    rfl
  · rw [Lanes.vmulN_of (by decide) (fun i _ => by have := hu i; omega),
      Lanes.vmlaN_of (by decide) (fun i _ => by have := hu i; have := hv i; omega),
      Lanes.vrshr_of (fun i _ => by have := hu i; have := hv i; rw [rounded]; omega)]
    rfl
  · rw [Lanes.vmulN_of (by decide) (fun i _ => by have := hu i; omega),
      Lanes.vrshr_of (fun i _ => by have := hu i; rw [rounded]; omega)]
    rfl

theorem Target.block_eq (h : Target rows y0 y1 uv d w fmt scale V ok) {x : ℕ} (heven : x % 2 = 0)
    (hx : x + 16 ≤ w) (m : Mem) : cvtBlock y0 y1 uv d fmt scale m x =
      (List.range 2).foldlM (fun m row =>
        storeRow m d x row (Lanes.of 16 fun i => rows.blue row (x + i))
          (Lanes.of 16 fun i => rows.green row (x + i)) (Lanes.of 16 fun i => rows.red row (x + i))
          fmt scale) m := by
  have hluma (row : ℕ) (hrow : row < 2) : (if row = 0 then y0 else y1).loads x 16 =
      some ((List.range 16).map fun j => rows.luma row (x + j)) :=
    Ptr.loads_eq fun j hj => h.luma row hrow (x + j) (by omega)
  obtain ⟨hred, hgreen, hblue⟩ := terms_of (u := fun i => rows.chroma (x + (2 * i + 0)))
    (v := fun i => rows.chroma (x + (2 * i + 1)))
  have hvld (row : ℕ) : Lanes.vld1 16 ((List.range 16).map fun j => rows.luma row (x + j)) =
      Lanes.of 16 fun i => ((rows.luma row (x + i)).toNat : ℤ) := by
    rw [Lanes.vld1_eq]
    apply Lanes.of_congr
    intro i hi
    rw [getD_row _ hi]
  have hchannel (row : ℕ) (g : ℕ → ℤ) (t : ℕ → ℤ) (hg : ∀ i, -512 ≤ g i ∧ g i ≤ 512)
      (ht : ∀ i < 16, g (i / 2) = t (x + i)) :
      channel16 (Lanes.of 16 fun i => ((rows.luma row (x + i)).toNat : ℤ)) (Lanes.of 8 g) =
        Lanes.of 16 fun i => saturated 8 ((rows.luma row (x + i)).toNat + t (x + i)) := by
    rw [channel16_of (fun i => by have := (rows.luma row (x + i)).toNat_lt; omega) hg]
    apply Lanes.of_congr
    intro i hi
    rw [ht i hi]
  have hpair (i : ℕ) : x + (2 * (i / 2) + 0) = (x + i) / 2 * 2 := by omega
  have hpair' (i : ℕ) : x + (2 * (i / 2) + 1) = (x + i) / 2 * 2 + 1 := by omega
  have hstep (row : ℕ) (hrow : row < 2) (m : Mem) :
      ((if row = 0 then y0 else y1).loads x 16).bind (fun yBytes =>
        storeRow m d x row
          (channel16 (Lanes.vld1 16 yBytes)
            (Lanes.of 8 fun i => blueTerm (rows.chroma (x + (2 * i + 0)))))
          (channel16 (Lanes.vld1 16 yBytes)
            (Lanes.of 8 fun i => greenTerm (rows.chroma (x + (2 * i + 0)))
              (rows.chroma (x + (2 * i + 1)))))
          (channel16 (Lanes.vld1 16 yBytes)
            (Lanes.of 8 fun i => redTerm (rows.chroma (x + (2 * i + 1))))) fmt scale) =
      storeRow m d x row (Lanes.of 16 fun i => rows.blue row (x + i))
        (Lanes.of 16 fun i => rows.green row (x + i)) (Lanes.of 16 fun i => rows.red row (x + i))
        fmt scale := by
    rw [hluma row hrow, Option.bind_some, hvld]
    rw [hchannel row _ (fun X => blueTerm (rows.chroma (X / 2 * 2)))
        (fun i => (term_bounds _ 0).2.2) (fun i _ => by rw [hpair]),
      hchannel row _ (fun X => greenTerm (rows.chroma (X / 2 * 2)) (rows.chroma (X / 2 * 2 + 1)))
        (fun i => (term_bounds _ _).2.1) (fun i _ => by rw [hpair, hpair']),
      hchannel row _ (fun X => redTerm (rows.chroma (X / 2 * 2 + 1)))
        (fun i => (term_bounds 0 _).1) (fun i _ => by rw [hpair'])]
    rfl
  rw [cvtBlock, Ptr.loads_eq fun i hi => h.chroma (x + i) (by omega)]
  simp only [Option.bind_eq_bind, Option.bind_some,
    chroma_of (fun i => rows.chroma (x + i)) (by decide : 0 < 2),
    chroma_of (fun i => rows.chroma (x + i)) (by decide : 1 < 2), hred, hgreen, hblue]
  exact loop_congr fun row hrow m => hstep row (List.mem_range.mp hrow) m

theorem Target.paints_block (h : Target rows y0 y1 uv d w fmt scale V ok) {x : ℕ}
    (heven : x % 2 = 0) (hx : x + 16 ≤ w) :
    Paints V ok (fun m => cvtBlock y0 y1 uv d fmt scale m x)
      {z | ∃ row ∈ List.range 2, z ∈ blockLines d scale fmt.bpp x row} := by
  have hloop : Paints V ok (fun m => (List.range 2).foldlM (fun m row =>
      storeRow m d x row (Lanes.of 16 fun i => rows.blue row (x + i))
        (Lanes.of 16 fun i => rows.green row (x + i)) (Lanes.of 16 fun i => rows.red row (x + i))
        fmt scale) m) _ :=
    Paints.loop fun row hrow => h.paints_storeRow (List.mem_range.mp hrow) hx
  exact fun m hm => (h.block_eq heven hx m).trans (hloop m hm)

theorem Target.paints_neon (h : Target rows y0 y1 uv d w fmt scale V ok) :
    Paints V ok (cvtRows y0 y1 uv d w fmt scale) (lines d (2 * scale) (w * scale * fmt.bpp)) := by
  have hwidth := h.width
  have hblock : ∀ x ∈ List.range' 0 ((w + 15) / 16) 16, x % 2 = 0 ∧ x + 16 ≤ w := by
    intro x hx
    obtain ⟨i, hi, rfl⟩ := List.mem_range'.mp hx
    omega
  have hloop : Paints V ok (cvtRows y0 y1 uv d w fmt scale) _ :=
    Paints.loop fun x hx => h.paints_block (hblock x hx).1 (hblock x hx).2
  refine hloop.of_eq fun z => ?_
  simp only [lines, blockLines, Set.mem_ofPred_eq, List.mem_range]
  constructor
  · rintro ⟨x, hx, row, hrow, k, hk, a, ha, hlow, hhigh⟩
    have hj : row * scale ≤ 1 * scale := Nat.mul_le_mul_right _ (by omega)
    have hend : (x + 16) * scale * fmt.bpp ≤ w * scale * fmt.bpp :=
      Nat.mul_le_mul_right _ (Nat.mul_le_mul_right _ (hblock x hx).2)
    exact ⟨row * scale + k, by omega, a, ha, by omega, by omega⟩
  · rintro ⟨j, hj, a, ha, hlow, hhigh⟩
    have hscale := h.scale_pos
    -- the block of 16 pixels that the byte is in
    have hunit : 0 < 16 * (scale * fmt.bpp) := by
      have := Nat.mul_pos hscale (bpp_pos fmt)
      omega
    have hsplit := Nat.div_add_mod (z - a) (16 * (scale * fmt.bpp))
    have hmod := Nat.mod_lt (z - a) hunit
    have hlast : (z - a) / (16 * (scale * fmt.bpp)) < (w + 15) / 16 := by
      rw [Nat.div_lt_iff_lt_mul hunit]
      have hw : w = (w + 15) / 16 * 16 := by omega
      rw [Nat.mul_assoc, hw] at hhigh
      rw [← Nat.mul_assoc]
      omega
    have hjsplit := Nat.div_add_mod j scale
    refine ⟨16 * ((z - a) / (16 * (scale * fmt.bpp))),
      List.mem_range'.mpr ⟨_, hlast, (Nat.zero_add _).symm⟩, j / scale,
      by rwa [Nat.div_lt_iff_lt_mul hscale], j % scale, Nat.mod_lt _ hscale, a, ?_, ?_, ?_⟩
    · rw [Nat.mul_comm (j / scale), hjsplit]
      exact ha
    · have hstart : 16 * ((z - a) / (16 * (scale * fmt.bpp))) * scale * fmt.bpp =
          16 * (scale * fmt.bpp) * ((z - a) / (16 * (scale * fmt.bpp))) := by ring
      omega
    · have hstop : (16 * ((z - a) / (16 * (scale * fmt.bpp))) + 16) * scale * fmt.bpp =
          16 * (scale * fmt.bpp) * ((z - a) / (16 * (scale * fmt.bpp))) +
            16 * (scale * fmt.bpp) := by ring
      omega

end Target

end BadgeOS.CodaCube.Surface
