import BadgeOS.Lib.Cells
import Mathlib

/-!
# Rectangles in a plane

A plane of samples is an array, one row of `stride` samples behind the other.  A loop over a
rectangle writes it sample by sample; where rectangles lie on each other the last one shows.

* `rect`, `rect_eq`, `rect_at` — the loop, and what it leaves;
* `layers_eq` — one thing after another that covers a part of the plane.
-/

namespace Raster

open Cells

variable {α : Type*} {size stride x y w h : ℕ}

/-- `plane[(y + j) * stride + x + i] = v` for every `i` and `j` of a rectangle. -/
def rect (size stride : ℕ) (x y : ℤ) (w h : ℕ) (v : ℕ → ℕ → Option α) (plane : ℕ → α) :
    Option (ℕ → α) :=
  (List.range h).foldlM (fun plane j => (List.range w).foldlM (fun plane i => do
    let b ← v i j
    put size plane ((y + j) * stride + x + i) b) plane) plane

/-- Index `a` of the plane lies in the rectangle. -/
def Inside (stride x y w h a : ℕ) : Prop :=
  (x ≤ a % stride ∧ a % stride < x + w) ∧ y ≤ a / stride ∧ a / stride < y + h

instance (a : ℕ) : Decidable (Inside stride x y w h a) := by
  unfold Inside
  infer_instance

theorem index_eq_iff {a i j : ℕ} (hi : i < stride) :
    a = j * stride + i ↔ a % stride = i ∧ a / stride = j := by
  constructor
  · rintro rfl
    rw [Nat.mul_add_mod_self_right, Nat.mod_eq_of_lt hi, Nat.add_comm,
      Nat.add_mul_div_right _ _ (by omega), Nat.div_eq_of_lt hi, Nat.zero_add]
    exact ⟨rfl, rfl⟩
  · rintro ⟨rfl, rfl⟩
    exact (Nat.div_add_mod' a stride).symm

theorem index_lt_size {i j : ℕ} (hi : i < stride) (hj : j < h) (hsize : h * stride ≤ size) :
    j * stride + i < size := by
  have hrow : (j + 1) * stride ≤ h * stride := Nat.mul_le_mul_right stride hj
  rw [Nat.succ_mul] at hrow
  omega

/-- One row. -/
theorem row_eq {v : ℕ → Option α} {f : ℕ → α} (hx : x + w ≤ stride)
    (hsize : (y + 1) * stride ≤ size) (hv : ∀ i < w, v i = some (f i)) (plane : ℕ → α) :
    (List.range w).foldlM (fun plane i => do
      let b ← v i
      put size plane ((y : ℤ) * stride + x + i) b) plane =
      some fun a => if Inside stride x y w 1 a then f (a % stride - x) else plane a := by
  induction w with
  | zero =>
      have hno (a : ℕ) : ¬ Inside stride x y 0 1 a := fun ha => by
        obtain ⟨⟨hle, hlt⟩, -⟩ := ha
        omega
      simp only [hno, if_false]
      rfl
  | succ w ih =>
      have hindex : (y : ℤ) * stride + x + w = ((y * stride + (x + w) : ℕ) : ℤ) := by
        push_cast
        ring
      rw [List.range_succ, List.foldlM_append, ih (by omega) fun i hi => hv i (by omega)]
      show ((v w).bind fun b => put size _ ((y : ℤ) * stride + x + w) b).bind _ = _
      rw [hv w (Nat.lt_succ_self w), Option.bind_some, hindex,
        put_of_lt _ _ (index_lt_size (by omega) (Nat.lt_succ_self y) hsize)]
      refine congrArg some (funext fun a => ?_)
      simp only [index_eq_iff (show x + w < stride by omega)]
      by_cases hlast : a % stride = x + w ∧ a / stride = y
      · rw [if_pos hlast, if_pos (by unfold Inside; omega), hlast.1, Nat.add_sub_cancel_left]
      · rw [if_neg hlast]
        exact if_congr (by unfold Inside; omega) rfl rfl

/-- **The loop over a rectangle.** -/
theorem rect_eq {v : ℕ → ℕ → Option α} {f : ℕ → ℕ → α} (hx : x + w ≤ stride)
    (hsize : (y + h) * stride ≤ size) (hv : ∀ i < w, ∀ j < h, v i j = some (f i j))
    (plane : ℕ → α) :
    rect size stride x y w h v plane = some fun a =>
      if Inside stride x y w h a then f (a % stride - x) (a / stride - y) else plane a := by
  induction h with
  | zero =>
      have hno (a : ℕ) : ¬ Inside stride x y w 0 a := fun ha => by
        obtain ⟨-, hle, hlt⟩ := ha
        omega
      simp only [hno, if_false]
      rfl
  | succ h ih =>
      have hsize' : (y + h) * stride ≤ size :=
        le_trans (Nat.mul_le_mul_right stride (by omega)) hsize
      have hfirst := ih hsize' fun i hi j hj => hv i hi j (by omega)
      have hrow := row_eq (y := y + h) (f := fun i => f i h) hx hsize
        fun i hi => hv i hi h (Nat.lt_succ_self h)
      rw [rect] at hfirst ⊢
      rw [List.range_succ, List.foldlM_append, hfirst]
      push_cast at hrow
      refine (congrArg (Option.bind · some) (hrow _)).trans ?_
      refine congrArg some (funext fun a => ?_)
      by_cases hlast : (x ≤ a % stride ∧ a % stride < x + w) ∧ a / stride = y + h
      · rw [if_pos (by unfold Inside; omega), if_pos (by unfold Inside; omega), hlast.2,
          Nat.add_sub_cancel_left]
      · rw [if_neg (by unfold Inside; omega)]
        exact if_congr (by unfold Inside; omega) rfl rfl

/-- A sample that only depends on its place. -/
theorem rect_at {v : ℕ → ℕ → Option α} {g : ℕ → ℕ → α} (hx : x + w ≤ stride)
    (hsize : (y + h) * stride ≤ size)
    (hv : ∀ i < w, ∀ j < h, v i j = some (g (x + i) (y + j))) (plane : ℕ → α) :
    rect size stride x y w h v plane = some fun a =>
      if Inside stride x y w h a then g (a % stride) (a / stride) else plane a := by
  rw [rect_eq (f := fun i j => g (x + i) (y + j)) hx hsize hv]
  refine congrArg some (funext fun a => ?_)
  by_cases ha : Inside stride x y w h a
  · obtain ⟨⟨hleft, -⟩, htop, -⟩ := id ha
    rw [if_pos ha, if_pos ha, Nat.add_sub_cancel' hleft, Nat.add_sub_cancel' htop]
  · rw [if_neg ha, if_neg ha]

/-- **Layers**, each on those before. -/
theorem layers_eq {β : Type*} {step : (ℕ → α) → β → Option (ℕ → α)} {covers : β → ℕ → Bool}
    {f : β → ℕ → α} {l : List β}
    (h : ∀ b ∈ l, ∀ plane, step plane b = some fun a => if covers b a then f b a else plane a)
    (plane : ℕ → α) :
    l.foldlM step plane = some fun a =>
      ((l.reverse.find? (covers · a)).map (f · a)).getD (plane a) := by
  induction l using List.reverseRec with
  | nil => rfl
  | append_singleton l b ih =>
      rw [List.foldlM_append, ih fun c hc => h c (List.mem_append_left _ hc)]
      show (step _ b).bind _ = _
      rw [h b (by simp), List.reverse_append, List.reverse_singleton]
      refine congrArg some (funext fun a => ?_)
      rw [List.singleton_append, List.find?_cons]
      cases covers b a <;> rfl

end Raster
