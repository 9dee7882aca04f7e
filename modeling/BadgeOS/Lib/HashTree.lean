import Mathlib

/-!
# Trees of hash blocks

Blocks are taken in groups, and each group has a parent block; the parents are grouped again, until
one block is left.  The levels of such a tree are told from the number of blocks alone: level `i`
has the ceiling of that number over a power of the arity, so that the nested ceilings of a level by
level count are plain ones.

* `groups` — a list cut into pieces of one length;
* `Hashing`, `Hashing.levels` — the tree over a list of blocks, from the lowest level to the root;
* `count` — how many blocks it has, as a sum over its levels;
* `length_flatten_levels`, `count_mono` — the tree has that many, and more data never means less.
-/

namespace HashTree

variable {α : Type*}

/-! ### Ceilings -/

theorem ceilDiv_ceilDiv {a b : ℕ} (ha : 0 < a) (hb : 0 < b) (n : ℕ) :
    n ⌈/⌉ a ⌈/⌉ b = n ⌈/⌉ (a * b) := by
  apply eq_of_forall_ge_iff
  intro c
  rw [ceilDiv_le_iff_le_mul hb, ceilDiv_le_iff_le_mul ha, ceilDiv_le_iff_le_mul (by positivity),
    mul_assoc]

theorem ceilDiv_mono {a m n : ℕ} (ha : 0 < a) (h : m ≤ n) : m ⌈/⌉ a ≤ n ⌈/⌉ a :=
  (gc_mul_ceilDiv ha).monotone_l h

theorem ceilDiv_lt {a n : ℕ} (ha : 2 ≤ a) (hn : 1 < n) : n ⌈/⌉ a < n := by
  have hle : n ⌈/⌉ a ≤ n - 1 := by
    rw [ceilDiv_le_iff_le_mul (by omega)]
    calc n ≤ 2 * (n - 1) := by omega
      _ ≤ a * (n - 1) := Nat.mul_le_mul_right _ ha
  omega

/-! ### Groups -/

/-- The list in pieces of `k`, the last one of what is left. -/
def groups (k : ℕ) (l : List α) : List (List α) :=
  if 0 < k ∧ l ≠ [] then l.take k :: groups k (l.drop k) else []
  termination_by l.length
  decreasing_by
    have := List.length_pos_iff.mpr ‹0 < k ∧ l ≠ []›.2
    rw [List.length_drop]
    omega

theorem length_groups {k : ℕ} (hk : 0 < k) (l : List α) :
    (groups k l).length = l.length ⌈/⌉ k := by
  fun_induction groups k l with
  | case1 l h ih =>
      have hpos : 0 < l.length := List.length_pos_iff.mpr h.2
      rw [List.length_cons, ih, List.length_drop, Nat.ceilDiv_eq_add_pred_div,
        Nat.ceilDiv_eq_add_pred_div, ← Nat.add_div_right _ hk]
      by_cases hlong : k ≤ l.length
      · congr 1
        omega
      · rw [show l.length - k + k - 1 + k = k - 1 + k by omega, Nat.add_div_right _ hk,
          Nat.div_eq_of_lt (by omega : k - 1 < k),
          show l.length + k - 1 = l.length - 1 + k by omega, Nat.add_div_right _ hk,
          Nat.div_eq_of_lt (by omega)]
  | case2 l h =>
      have hnil : l = [] := by
        by_contra hne
        exact h ⟨hk, hne⟩
      rw [hnil, List.length_nil, List.length_nil, zero_ceilDiv]

theorem length_le_of_mem_groups {k : ℕ} {l g : List α} (hg : g ∈ groups k l) : g.length ≤ k := by
  fun_induction groups k l with
  | case1 l h ih =>
      rcases List.mem_cons.mp hg with rfl | hg
      · exact List.length_take_le k l
      · exact ih hg
  | case2 l h => cases hg

/-! ### The number of hash blocks -/

/-- The blocks above `n` blocks: on each level the ceiling over a power of the arity. -/
def count (a n : ℕ) : ℕ := ∑ i ∈ Finset.range (Nat.clog a n), n ⌈/⌉ a ^ (i + 1)

theorem count_of_le_one {a n : ℕ} (hn : n ≤ 1) : count a n = 0 := by
  rw [count, Nat.clog_of_right_le_one hn, Finset.sum_range_zero]

/-- The lowest level, and the tree over it. -/
theorem count_of_one_lt {a n : ℕ} (ha : 2 ≤ a) (hn : 1 < n) :
    count a n = n ⌈/⌉ a + count a (n ⌈/⌉ a) := by
  have hlevels : Nat.clog a n = Nat.clog a (n ⌈/⌉ a) + 1 := Nat.clog_of_one_lt ha hn
  rw [count, hlevels, Finset.sum_range_succ', zero_add, pow_one, add_comm, count]
  congr 1
  apply Finset.sum_congr rfl
  intro i _
  rw [ceilDiv_ceilDiv (by omega) (by positivity), ← pow_succ']

theorem count_mono {a : ℕ} (ha : 2 ≤ a) : Monotone (count a) := by
  intro m n h
  calc count a m ≤ ∑ i ∈ Finset.range (Nat.clog a m), n ⌈/⌉ a ^ (i + 1) :=
        Finset.sum_le_sum fun i _ => ceilDiv_mono (by positivity) h
    _ ≤ count a n := Finset.sum_le_sum_of_subset
        (Finset.range_subset_range.mpr (Nat.clog_mono_right a h))

/-! ### The tree -/

/-- How groups get their parents. -/
structure Hashing (α : Type*) where
  arity : ℕ
  two_le : 2 ≤ arity
  /-- The block with the hashes of a group. -/
  parent : List α → α

namespace Hashing

variable (H : Hashing α)

/-- The parents of a level. -/
def above (l : List α) : List α := (groups H.arity l).map H.parent

theorem length_above (l : List α) : (H.above l).length = l.length ⌈/⌉ H.arity := by
  rw [above, List.length_map, length_groups (by have := H.two_le; omega)]

/-- The levels of hash blocks over `l`, up to the root; none over one block. -/
def levels (l : List α) : List (List α) :=
  if 1 < l.length then H.above l :: levels (H.above l) else []
  termination_by l.length
  decreasing_by
    rw [H.length_above]
    exact ceilDiv_lt H.two_le ‹1 < l.length›

theorem levels_eq_nil_iff (l : List α) : H.levels l = [] ↔ l.length ≤ 1 := by
  rw [levels]
  split
  · simp only [reduceCtorEq, false_iff]
    omega
  · simp only [true_iff]
    omega

/-- **The size of the tree.** -/
theorem length_flatten_levels (l : List α) :
    (H.levels l).flatten.length = count H.arity l.length := by
  fun_induction levels H l with
  | case1 l h ih =>
      rw [List.flatten_cons, List.length_append, ih, H.length_above, count_of_one_lt H.two_le h]
  | case2 l h => rw [List.flatten_nil, List.length_nil, count_of_le_one (by omega)]

/-- A single block is on top. -/
theorem length_getLast_levels (l : List α) (h : H.levels l ≠ []) :
    ((H.levels l).getLast h).length = 1 := by
  fun_induction levels H l with
  | case1 l hlong ih =>
      by_cases htop : H.levels (H.above l) = []
      · have hshort := (H.levels_eq_nil_iff _).mp htop
        have hne : 0 < (H.above l).length := by
          rw [H.length_above]
          by_contra hzero
          have hle := (ceilDiv_le_iff_le_mul (by have := H.two_le; omega)).mp
            (not_lt.mp hzero)
          omega
        simp only [htop, List.getLast_singleton]
        omega
      · rw [List.getLast_cons htop]
        exact ih htop
  | case2 l hshort => exact absurd rfl h

/-- Each block of the tree is a parent. -/
theorem parent_of_mem_levels {l : List α} {b : α} (hb : b ∈ (H.levels l).flatten) :
    ∃ g : List α, g.length ≤ H.arity ∧ H.parent g = b := by
  fun_induction levels H l with
  | case1 l h ih =>
      rw [List.flatten_cons, List.mem_append] at hb
      rcases hb with hb | hb
      · obtain ⟨g, hg, hparent⟩ := List.mem_map.mp hb
        exact ⟨g, length_le_of_mem_groups hg, hparent⟩
      · exact ih hb
  | case2 l h => cases hb

end Hashing

end HashTree
