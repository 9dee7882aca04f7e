import BadgeOS.Content.Pack
import Mathlib

/-!
# What a surface lights

A surface's entries light the pixels of the panel that `pack` and the decoder make of them: bit `r`
of byte `page * width + col` is pixel `(col, page * 8 + r)`.  A primitive of `screens/draw.nix`
appends entries, so that what it draws is a union of pixels.

* `Covers` — an entry of the surface has the pixel;
* `Draws` — a surface with the pixels of a region, and the rules for unions;
* `Draws.lit` — what is lit on the panel in the end.
-/

namespace BadgeOS.Content

open Oled

/-- `builtins.genList`, which throws for a negative length. -/
def genList {α : Type*} (f : ℕ → α) (n : ℤ) : Option (List α) :=
  if n < 0 then none else some ((List.range n.toNat).map f)

/-- `range`: `[a, a+1, ..., a+n-1]`. -/
def range (a n : ℤ) : Option (List ℤ) := genList (fun i => a + i) n

/-- `builtins.concatMap` -/
def concatMap {α β : Type*} (f : α → Option (List β)) (xs : List α) : Option (List β) :=
  (xs.mapM f).map List.flatten

theorem genList_of_nonneg {α : Type*} (f : ℕ → α) {n : ℤ} (hn : 0 ≤ n) :
    genList f n = some ((List.range n.toNat).map f) := if_neg (not_lt.mpr hn)

theorem mem_range {n : ℤ} (hn : 0 ≤ n) :
    ∃ is, range 0 n = some is ∧ ∀ i, i ∈ is ↔ 0 ≤ i ∧ i < n := by
  refine ⟨_, genList_of_nonneg _ hn, fun i => ?_⟩
  rw [List.mem_map]
  constructor
  · rintro ⟨k, hk, rfl⟩
    have hlt := List.mem_range.mp hk
    omega
  · rintro ⟨hi, hlt⟩
    exact ⟨i.toNat, List.mem_range.mpr (by omega), by omega⟩

/-! ### Pixels -/

/-- Pixel `(px, py)` of a panel's memory. -/
def lit (width : ℕ) (gddram : List UInt8) (px py : ℕ) : Bool :=
  (gddram.getD (py / 8 * width + px) 0).toNat.testBit (py % 8)

/-- The pixel's byte is in an integer of the bitmap: they are of four bytes each. -/
def InBitmap (width height px py : ℕ) : Prop := py / 8 * width + px < 4 * (width * height / 32)

/-- An entry of the surface has the pixel. -/
def Covers (width : ℕ) (surf : Surface) (px py : ℕ) : Prop :=
  ∃ e ∈ surf, e.off = (py / 8 * width + px : ℕ) ∧ e.byte.testBit (py % 8)

variable {width height px py : ℕ} {surf surf' : Surface}

theorem testBit_orAt (surf : Surface) (o r : ℕ) :
    (orAt surf o).testBit r ↔ ∃ e ∈ surf, e.off = o ∧ e.byte.testBit r := by
  induction surf with
  | nil =>
      rw [orAt]
      simp
  | cons e surf ih =>
      rw [orAt_cons, Nat.testBit_or, Bool.or_eq_true, ih, List.exists_mem_cons_iff]
      refine or_congr ?_ Iff.rfl
      by_cases he : (o : ℤ) = e.off
      · rw [single, if_pos he, he]
        exact (and_iff_right rfl).symm
      · rw [single, if_neg he, Nat.zero_testBit]
        exact iff_of_false Bool.false_ne_true fun h => he h.1.symm

theorem Covers.append_iff :
    Covers width (surf ++ surf') px py ↔ Covers width surf px py ∨ Covers width surf' px py := by
  simp only [Covers, List.mem_append, or_and_right, exists_or]

/-- A pixel's place in the memory is its own. -/
theorem place_inj {page page' x x' : ℕ} (hx : x < width) (hx' : x' < width)
    (h : page * width + x = page' * width + x') : page = page' ∧ x = x' := by
  have hpos : 0 < width := Nat.zero_lt_of_lt hx
  have hpage (p : ℕ) {y : ℕ} (hy : y < width) : (p * width + y) / width = p := by
    rw [Nat.add_comm, Nat.add_mul_div_right _ _ hpos, Nat.div_eq_of_lt hy, Nat.zero_add]
  have heq : page = page' := by
    rw [← hpage page hx, h, hpage page' hx']
  subst heq
  exact ⟨rfl, Nat.add_left_cancel h⟩

/-! ### Drawings -/

/-- A surface that has, of the panel's pixels, those of `S`. -/
def Draws (width height : ℕ) (es : Option Surface) (S : ℤ → ℤ → Prop) : Prop :=
  ∃ surf, es = some surf ∧ (∀ e ∈ surf, 0 ≤ e.off ∧ e.byte < 256) ∧
    ∀ px py : ℕ, px < width → py < height → (Covers width surf px py ↔ S px py)

namespace Draws

variable {es : Option Surface} {S T : ℤ → ℤ → Prop}

theorem empty : Draws width height (some []) fun _ _ => False := by
  refine ⟨[], rfl, fun e he => absurd he List.not_mem_nil, fun px py _ _ => ?_⟩
  simp [Covers]

theorem of_iff (h : Draws width height es S)
    (hST : ∀ px py : ℤ, 0 ≤ px → px < width → 0 ≤ py → py < height → (S px py ↔ T px py)) :
    Draws width height es T := by
  obtain ⟨surf, hes, hbytes, hcovers⟩ := h
  refine ⟨surf, hes, hbytes, fun px py hpx hpy => (hcovers px py hpx hpy).trans ?_⟩
  exact hST px py (Int.natCast_nonneg _) (by omega) (Int.natCast_nonneg _) (by omega)

/-- **Union**: entries are appended. -/
theorem append (h : Draws width height (some surf) S) (h' : Draws width height es T) :
    Draws width height (es.map (surf ++ ·)) fun px py => S px py ∨ T px py := by
  obtain ⟨left, hleft, hbytes, hcovers⟩ := h
  cases hleft
  obtain ⟨surf', rfl, hbytes', hcovers'⟩ := h'
  refine ⟨surf ++ surf', rfl, fun e he => ?_, fun px py hpx hpy => ?_⟩
  · rcases List.mem_append.mp he with he | he
    · exact hbytes e he
    · exact hbytes' e he
  · rw [Covers.append_iff, hcovers px py hpx hpy, hcovers' px py hpx hpy]

/-- One primitive after another. -/
theorem bind {f : Surface → Option Surface} (h : Draws width height es S)
    (hf : ∀ surf, Draws width height (some surf) S → Draws width height (f surf) T) :
    Draws width height (es.bind f) T := by
  obtain ⟨surf, rfl, hsurf⟩ := h
  exact hf surf ⟨surf, rfl, hsurf⟩

/-- **The union over a list**, one member after the other. -/
theorem concatMap {ι : Type*} {f : ι → Option Surface} {R : ι → ℤ → ℤ → Prop} {is : List ι}
    (h : ∀ i ∈ is, Draws width height (f i) (R i)) :
    Draws width height (concatMap f is) fun px py => ∃ i ∈ is, R i px py := by
  induction is with
  | nil => exact empty.of_iff fun px py _ _ _ _ => by simp
  | cons i is ih =>
      have hrest := ih fun j hj => h j (List.mem_cons_of_mem i hj)
      obtain ⟨surf, hfirst, hsurf⟩ := h i List.mem_cons_self
      have hunion := append ⟨surf, rfl, hsurf⟩ hrest
      have heq : Content.concatMap f (i :: is) =
          (Content.concatMap f is).map (surf ++ ·) := by
        rw [Content.concatMap, Content.concatMap, List.mapM_cons, hfirst]
        cases is.mapM f with
        | none => rfl
        | some rest => rfl
      rw [heq]
      refine hunion.of_iff fun px py _ _ _ _ => ?_
      rw [List.exists_mem_cons_iff]

theorem flatMap {ι : Type*} {f : ι → Surface} {R : ι → ℤ → ℤ → Prop} {is : List ι}
    (h : ∀ i ∈ is, Draws width height (some (f i)) (R i)) :
    Draws width height (some (is.flatMap f)) fun px py => ∃ i ∈ is, R i px py := by
  have heq : Content.concatMap (fun i => some (f i)) is = some (is.flatMap f) := by
    induction is with
    | nil => rfl
    | cons i is ih =>
        have hrest := ih fun j hj => h j (List.mem_cons_of_mem i hj)
        rw [Content.concatMap] at hrest ⊢
        obtain ⟨ls, hls, hflat⟩ := Option.map_eq_some_iff.mp hrest
        rw [List.mapM_cons, hls, List.flatMap_cons, ← hflat]
        rfl
  rw [← heq]
  exact concatMap h

/-- **What is lit**: the region's pixels, as far as the bitmap goes. -/
theorem lit (h : Draws width height es S) (hheight : 8 ∣ height) {out : List UInt8}
    (hout : out.length = width * height / 8) :
    ∃ ints, es.bind (pack width height) = some ints ∧
      ∀ px py : ℕ, px < width → py < height →
        (Content.lit width (decodeOled ints out).2 px py = true ↔
          S px py ∧ InBitmap width height px py) := by
  obtain ⟨surf, rfl, hbytes, hcovers⟩ := h
  have hlt := orAt_lt fun e he => (hbytes e he).2
  have hcount : width * height / 8 / 4 = width * height / 32 := Nat.div_div_eq_div_mul _ _ _
  refine ⟨_, pack_eq width height fun e he => (hbytes e he).1, fun px py hpx hpy => ?_⟩
  have hplace : py / 8 * width + px < out.length := by
    obtain ⟨pages, rfl⟩ := hheight
    have hpage : py / 8 + 1 ≤ pages := by omega
    have hsize : width * (8 * pages) / 8 = pages * width := by
      rw [Nat.mul_left_comm, Nat.mul_div_cancel_left _ (by decide), Nat.mul_comm]
    have hle := Nat.mul_le_mul_right width hpage
    rw [Nat.succ_mul] at hle
    omega
  rw [Content.lit, decodeOled_lanes hlt (by omega), List.getD_eq_getElem?_getD,
    List.getElem?_map, List.getElem?_range hplace, Option.map_some, Option.getD_some, hcount,
    ← hcovers px py hpx hpy]
  by_cases hin : py / 8 * width + px < 4 * (width * height / 32)
  · have hbyte (o : ℕ) : (UInt8.ofNat (orAt surf o)).toNat = orAt surf o :=
      UInt8.toNat_ofNat_of_lt (hlt o)
    rw [if_pos hin, hbyte, testBit_orAt]
    exact (and_iff_left hin).symm
  · rw [if_neg hin]
    refine iff_of_false ?_ fun hlit => hin hlit.2
    simp

end Draws

end BadgeOS.Content
