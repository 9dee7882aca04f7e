import Mathlib

/-!
# Rectangles of a pixel grid

A rectangle with integer corner and size; one without a width or a height has no pixel.

* `Rect`, `Rect.IsEmpty` — a rectangle, and its pixels as the elements of it;
* `Ops`, `Ops.Lawful` — the intersection and the bounding box of two, and what is known of them;
* `inter`, `bounding` — operations that meet it.
-/

namespace Rectangle

structure Rect where
  x : ℤ
  y : ℤ
  w : ℤ
  h : ℤ
  deriving DecidableEq, Repr

/-- A pixel, column first. -/
abbrev Pixel := ℤ × ℤ

/-- The pixels of a rectangle. -/
def Rect.Has (r : Rect) (p : Pixel) : Prop :=
  r.x ≤ p.1 ∧ p.1 < r.x + r.w ∧ r.y ≤ p.2 ∧ p.2 < r.y + r.h

instance : Membership Pixel Rect := ⟨Rect.Has⟩

theorem mem_iff {r : Rect} {p : Pixel} :
    p ∈ r ↔ r.x ≤ p.1 ∧ p.1 < r.x + r.w ∧ r.y ≤ p.2 ∧ p.2 < r.y + r.h := Iff.rfl

instance (r : Rect) (p : Pixel) : Decidable (p ∈ r) :=
  inferInstanceAs (Decidable (r.x ≤ p.1 ∧ p.1 < r.x + r.w ∧ r.y ≤ p.2 ∧ p.2 < r.y + r.h))

/-- No width, or no height. -/
def Rect.IsEmpty (r : Rect) : Prop := r.w ≤ 0 ∨ r.h ≤ 0

instance (r : Rect) : Decidable r.IsEmpty := inferInstanceAs (Decidable (r.w ≤ 0 ∨ r.h ≤ 0))

theorem Rect.IsEmpty.not_mem {r : Rect} (h : r.IsEmpty) (p : Pixel) : p ∉ r := by
  intro hp
  rw [mem_iff] at hp
  obtain h | h := h
  · omega
  · omega

/-! ### Two rectangles -/

/-- An intersection, if there is one, and a bounding box. -/
structure Ops where
  intersection : Rect → Rect → Option Rect
  union : Rect → Rect → Rect

/-- What is known of them: an intersection is the pixels in both, and a bounding box holds both,
and is in whatever holds both. -/
structure Ops.Lawful (ops : Ops) : Prop where
  mem_intersection : ∀ {A B C : Rect}, ops.intersection A B = some C →
    ∀ p : Pixel, p ∈ C ↔ p ∈ A ∧ p ∈ B
  disjoint : ∀ {A B : Rect}, ops.intersection A B = none → ∀ p : Pixel, p ∈ A → p ∉ B
  mem_union : ∀ {A B : Rect} (p : Pixel), p ∈ A ∨ p ∈ B → p ∈ ops.union A B
  union_within : ∀ {A B R : Rect}, (∀ p : Pixel, p ∈ A → p ∈ R) → (∀ p : Pixel, p ∈ B → p ∈ R) →
    ∀ p : Pixel, p ∈ ops.union A B → p ∈ R

/-- The intersection, by corners. -/
def inter (A B : Rect) : Option Rect :=
  let x := max A.x B.x
  let y := max A.y B.y
  let C : Rect := ⟨x, y, min (A.x + A.w) (B.x + B.w) - x, min (A.y + A.h) (B.y + B.h) - y⟩
  if C.IsEmpty then none else some C

/-- The bounding box, by corners; an empty rectangle adds nothing. -/
def bounding (A B : Rect) : Rect :=
  if A.IsEmpty then (if B.IsEmpty then ⟨0, 0, 0, 0⟩ else B)
  else if B.IsEmpty then A
  else
    let x := min A.x B.x
    let y := min A.y B.y
    ⟨x, y, max (A.x + A.w) (B.x + B.w) - x, max (A.y + A.h) (B.y + B.h) - y⟩

/-- Both, by corners. -/
def corners : Ops := ⟨inter, bounding⟩

theorem mem_inter {A B C : Rect} (h : inter A B = some C) (p : Pixel) :
    p ∈ C ↔ p ∈ A ∧ p ∈ B := by
  unfold inter at h
  dsimp only at h
  split at h
  · cases h
  · cases h
    simp only [mem_iff]
    omega

theorem inter_disjoint {A B : Rect} (h : inter A B = none) (p : Pixel) (hA : p ∈ A) : p ∉ B := by
  intro hB
  unfold inter at h
  dsimp only at h
  split at h
  · rename_i hempty
    rw [mem_iff] at hA hB
    obtain hw | hh := hempty
    · dsimp only at hw
      omega
    · dsimp only at hh
      omega
  · cases h

theorem mem_bounding {A B : Rect} (p : Pixel) (h : p ∈ A ∨ p ∈ B) : p ∈ bounding A B := by
  unfold bounding
  split
  · rename_i hA
    have hB := h.resolve_left (hA.not_mem p)
    rw [if_neg fun hempty => hempty.not_mem p hB]
    exact hB
  · split
    · rename_i hB
      exact h.resolve_right (hB.not_mem p)
    · simp only [mem_iff] at h ⊢
      omega

theorem bounding_within {A B R : Rect} (hA : ∀ p : Pixel, p ∈ A → p ∈ R)
    (hB : ∀ p : Pixel, p ∈ B → p ∈ R) (p : Pixel) (h : p ∈ bounding A B) : p ∈ R := by
  unfold bounding at h
  split at h
  · split at h
    · exact absurd h (Rect.IsEmpty.not_mem (Or.inl le_rfl) p)
    · exact hB p h
  · split at h
    · exact hA p h
    · rename_i hneA hneB
      rw [Rect.IsEmpty, not_or, not_le, not_le] at hneA hneB
      -- the corners of both are in `R`
      have hAtop := hA (A.x, A.y) ⟨le_rfl, by dsimp only; omega, le_rfl, by dsimp only; omega⟩
      have hAlow := hA (A.x + A.w - 1, A.y + A.h - 1)
        ⟨by dsimp only; omega, by dsimp only; omega, by dsimp only; omega, by dsimp only; omega⟩
      have hBtop := hB (B.x, B.y) ⟨le_rfl, by dsimp only; omega, le_rfl, by dsimp only; omega⟩
      have hBlow := hB (B.x + B.w - 1, B.y + B.h - 1)
        ⟨by dsimp only; omega, by dsimp only; omega, by dsimp only; omega, by dsimp only; omega⟩
      simp only [mem_iff] at hAtop hAlow hBtop hBlow h ⊢
      omega

theorem corners_lawful : corners.Lawful where
  mem_intersection := mem_inter
  disjoint := inter_disjoint
  mem_union := mem_bounding
  union_within := bounding_within

end Rectangle
