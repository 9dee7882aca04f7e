import Mathlib

/-!
# The middle of what was collected

Values are collected in the first cells of an array, kept in ascending order; the one in the
middle is then taken.  With fewer than half of the values outside an interval, the middle one lies
inside it, whatever the others are.

* `front` — the first cells of an array;
* `half_mem` — the counting argument, for every ascending list and every interval.
-/

namespace Median

variable {α : Type*} {a b : ℕ → α} {n : ℕ}

/-- The first `n` cells. -/
def front (a : ℕ → α) (n : ℕ) : List α := (List.range n).map a

@[simp] theorem front_zero (a : ℕ → α) : front a 0 = [] := rfl

theorem front_succ (a : ℕ → α) (n : ℕ) : front a (n + 1) = front a n ++ [a n] := by
  rw [front, List.range_succ, List.map_append, List.map_singleton, ← front]

@[simp] theorem length_front (a : ℕ → α) (n : ℕ) : (front a n).length = n := by
  rw [front, List.length_map, List.length_range]

theorem front_congr (h : ∀ i < n, a i = b i) : front a n = front b n :=
  List.map_congr_left fun i hi => h i (List.mem_range.mp hi)

theorem getElem_front {i : ℕ} (h : i < (front a n).length) : (front a n)[i] = a i := by
  simp [front]

variable [LinearOrder α]

/-- One value more at the end, no less than those in front. -/
theorem pairwise_concat {l : List α} {x : α} (hl : l.Pairwise (· ≤ ·)) (hx : ∀ y ∈ l, y ≤ x) :
    (l ++ [x]).Pairwise (· ≤ ·) := by
  rw [List.pairwise_append]
  refine ⟨hl, List.pairwise_singleton _ x, ?_⟩
  intro y hy z hz
  rw [List.mem_singleton.mp hz]
  exact hx y hy

/-- **The middle of an ascending list.** With fewer than half of the elements outside an interval,
the middle one is inside. -/
theorem half_mem {l : List α} (hl : l.Pairwise (· ≤ ·)) {S : Set α} [DecidablePred (· ∈ S)]
    (hS : S.OrdConnected) (hfew : 2 * l.countP (fun x => decide (x ∉ S)) < l.length)
    (hhalf : l.length / 2 < l.length) : l[l.length / 2] ∈ S := by
  by_contra hout
  have hle (i j : ℕ) (hij : i ≤ j) (hj : j < l.length) : l[i] ≤ l[j] := by
    rcases hij.eq_or_lt with rfl | hlt
    · exact le_rfl
    · exact List.pairwise_iff_getElem.mp hl i j _ hj hlt
  have hsplit : l.countP (fun x => decide (x ∉ S)) =
      (l.take (l.length / 2)).countP (fun x => decide (x ∉ S)) +
        (l.drop (l.length / 2)).countP (fun x => decide (x ∉ S)) := by
    rw [← List.countP_append, List.take_append_drop]
  -- an element inside on both sides would put the middle one inside as well
  by_cases hlow : ∀ x ∈ l.take (l.length / 2), x ∉ S
  · have hall : (l.take (l.length / 2)).countP (fun x => decide (x ∉ S)) = l.length / 2 := by
      rw [List.countP_eq_length.mpr fun x hx => decide_eq_true (hlow x hx), List.length_take]
      omega
    have hone : 0 < (l.drop (l.length / 2)).countP (fun x => decide (x ∉ S)) := by
      rw [List.countP_pos_iff]
      exact ⟨l[l.length / 2], List.mem_drop_iff_getElem.mpr ⟨0, by omega, by simp⟩,
        decide_eq_true hout⟩
    omega
  · push Not at hlow
    obtain ⟨x, hx, hin⟩ := hlow
    obtain ⟨i, hi, rfl⟩ := List.mem_take_iff_getElem.mp hx
    have hhigh : ∀ y ∈ l.drop (l.length / 2), y ∉ S := by
      intro y hy hyS
      obtain ⟨j, hj, rfl⟩ := List.mem_drop_iff_getElem.mp hy
      have hbelow := hle i (l.length / 2) (by omega) hhalf
      have habove := hle (l.length / 2) (l.length / 2 + j) (by omega) (by omega)
      exact hout (hS.out hin hyS ⟨hbelow, habove⟩)
    have hall := List.countP_eq_length.mpr fun y hy => decide_eq_true (hhigh y hy)
    rw [List.length_drop] at hall
    omega

end Median
