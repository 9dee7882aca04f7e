import Mathlib

/-!
# Arrays with checked indices

An array is a function with a size, and an access outside the size has no result.  A loop over a
list of indices is a fold in `Option`; its invariant speaks of the indices done so far.

* `get`, `put`, `get₂`, `put₂` — accesses of arrays with one and two indices;
* `loop_run` — a loop whose every step has a result, with its invariant.
-/

namespace Cells

variable {α σ ι : Type*} {n m : ℕ}

def get (n : ℕ) (a : ℕ → α) (i : ℤ) : Option α :=
  if 0 ≤ i ∧ i < n then some (a i.toNat) else none

def put (n : ℕ) (a : ℕ → α) (i : ℤ) (v : α) : Option (ℕ → α) :=
  if 0 ≤ i ∧ i < n then some fun j => if j = i.toNat then v else a j else none

/-- `t[i][j]`, in `n` rows of `m`. -/
def get₂ (n m : ℕ) (t : ℕ → ℕ → α) (i j : ℤ) : Option α := (get n t i).bind fun row => get m row j

def put₂ (n m : ℕ) (t : ℕ → ℕ → α) (i j : ℤ) (v : α) : Option (ℕ → ℕ → α) :=
  (get n t i).bind fun row => (put m row j v).bind fun row' => put n t i row'

theorem get_of_lt {i : ℕ} (a : ℕ → α) (h : i < n) : get n a i = some (a i) := by
  rw [get, if_pos ⟨by omega, by exact_mod_cast h⟩, Int.toNat_natCast]

theorem put_of_lt {i : ℕ} (a : ℕ → α) (v : α) (h : i < n) :
    put n a i v = some fun j => if j = i then v else a j := by
  rw [put, if_pos ⟨by omega, by exact_mod_cast h⟩, Int.toNat_natCast]

theorem get₂_of_lt {i j : ℕ} (t : ℕ → ℕ → α) (hi : i < n) (hj : j < m) :
    get₂ n m t i j = some (t i j) := by
  rw [get₂, get_of_lt t hi, Option.bind_some, get_of_lt _ hj]

theorem put₂_of_lt {i j : ℕ} (t : ℕ → ℕ → α) (v : α) (hi : i < n) (hj : j < m) :
    put₂ n m t i j v = some fun i' j' => if i' = i ∧ j' = j then v else t i' j' := by
  rw [put₂, get_of_lt t hi, Option.bind_some, put_of_lt _ v hj, Option.bind_some, put_of_lt _ _ hi]
  congr 1
  funext i' j'
  by_cases h : i' = i
  · subst h
    simp
  · simp [h]

/-- A loop over `l`, with an invariant of the indices done. -/
theorem loop_run {l : List ι} {step : σ → ι → Option σ} {s : σ} (motive : List ι → σ → Prop)
    (hstart : motive [] s)
    (hstep : ∀ done x rest s, l = done ++ x :: rest → motive done s →
      ∃ s', step s x = some s' ∧ motive (done ++ [x]) s') :
    ∃ s', l.foldlM step s = some s' ∧ motive l s' := by
  suffices h : ∀ done rest s, l = done ++ rest → motive done s →
      ∃ s', rest.foldlM step s = some s' ∧ motive l s' from h [] l s rfl hstart
  intro done rest
  induction rest generalizing done with
  | nil =>
      intro s hl hs
      rw [List.append_nil] at hl
      exact ⟨s, rfl, hl ▸ hs⟩
  | cons x rest ih =>
      intro s hl hs
      obtain ⟨s', hx, hs'⟩ := hstep done x rest s hl hs
      obtain ⟨t, ht, hmotive⟩ := ih (done ++ [x]) s' (by simp [hl]) hs'
      refine ⟨t, ?_, hmotive⟩
      rw [List.foldlM_cons, hx]
      exact ht

theorem mapM_run {β : Type*} {l : List α} {g : α → Option β} (h : ∀ x ∈ l, ∃ y, g x = some y) :
    ∃ ys, l.mapM g = some ys ∧ ∀ y, y ∈ ys ↔ ∃ x ∈ l, g x = some y := by
  induction l with
  | nil => exact ⟨[], rfl, by simp⟩
  | cons x l ih =>
      obtain ⟨y, hy⟩ := h x (by simp)
      obtain ⟨ys, hys, hmem⟩ := ih fun z hz => h z (by simp [hz])
      refine ⟨y :: ys, ?_, ?_⟩
      · rw [List.mapM_cons, hy, hys]
        rfl
      · intro z
        simp [hmem, hy, eq_comm]

end Cells
