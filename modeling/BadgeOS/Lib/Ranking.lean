import Mathlib

/-!
# Taking the best until the budget is spent

From a finite set the element with the least key is taken, again and again.  What `n` takings
have taken is told by the set alone: the elements with fewer than `n` before them.

* `rank` — how many elements come before one;
* `Taken` — the elements taken first;
* `Taken.next` — one more taking.
-/

namespace Ranking

variable {α ι : Type*} [LinearOrder ι] {key : α → ι} {s T : Finset α} {n : ℕ} {a b : α}

def rank (key : α → ι) (s : Finset α) (a : α) : ℕ := (s.filter fun b => key b < key a).card

/-- `T` is what `n` takings took from `s`. -/
structure Taken (key : α → ι) (s : Finset α) (n : ℕ) (T : Finset α) : Prop where
  sub : T ⊆ s
  card : T.card = n
  mem_iff : ∀ a ∈ s, a ∈ T ↔ rank key s a < n

theorem rank_le (h : key a ≤ key b) : rank key s a ≤ rank key s b := by
  apply Finset.card_le_card
  intro c hc
  rw [Finset.mem_filter] at hc ⊢
  exact ⟨hc.1, hc.2.trans_le h⟩

theorem rank_lt (ha : a ∈ s) (h : key a < key b) : rank key s a < rank key s b := by
  apply Finset.card_lt_card
  rw [Finset.ssubset_iff_of_subset]
  · exact ⟨a, Finset.mem_filter.mpr ⟨ha, h⟩, fun hmem => lt_irrefl _ (Finset.mem_filter.mp hmem).2⟩
  · intro c hc
    rw [Finset.mem_filter] at hc ⊢
    exact ⟨hc.1, hc.2.trans h⟩

theorem Taken.none (key : α → ι) (s : Finset α) : Taken key s 0 ∅ where
  sub := Finset.empty_subset s
  card := rfl
  mem_iff := fun a _ => by simp

/-- The least element left comes right behind those taken. -/
theorem Taken.rank_eq (h : Taken key s n T) (ha : a ∈ s) (hnew : a ∉ T)
    (hleast : ∀ b ∈ s, b ∉ T → key a ≤ key b) : rank key s a = n := by
  have hbefore : (s.filter fun b => key b < key a) = T := by
    ext b
    rw [Finset.mem_filter]
    constructor
    · rintro ⟨hb, hlt⟩
      by_contra hleft
      exact absurd (hleast b hb hleft) (not_le.mpr hlt)
    · intro hb
      refine ⟨h.sub hb, ?_⟩
      by_contra hle
      have hrank := rank_le (s := s) (not_lt.mp hle)
      exact hnew ((h.mem_iff a ha).mpr (hrank.trans_lt ((h.mem_iff b (h.sub hb)).mp hb)))
  rw [rank, hbefore, h.card]

theorem Taken.next [DecidableEq α] (h : Taken key s n T) (hinj : Set.InjOn key s) (ha : a ∈ s)
    (hnew : a ∉ T) (hleast : ∀ b ∈ s, b ∉ T → key a ≤ key b) :
    Taken key s (n + 1) (insert a T) where
  sub := Finset.insert_subset ha h.sub
  card := by rw [Finset.card_insert_of_notMem hnew, h.card]
  mem_iff := by
    intro b hb
    have hrank := h.rank_eq ha hnew hleast
    rw [Finset.mem_insert, h.mem_iff b hb]
    constructor
    · rintro (rfl | hlt)
      · omega
      · omega
    · intro hlt
      rcases Nat.lt_succ_iff_lt_or_eq.mp hlt with hlow | heq
      · exact Or.inr hlow
      · left
        rcases lt_trichotomy (key a) (key b) with hkey | hkey | hkey
        · have := rank_lt ha hkey
          omega
        · exact (hinj ha hb hkey).symm
        · have := rank_lt hb hkey
          omega

/-- With nothing left, or a spent budget, those taken are the first `n` all the same. -/
theorem Taken.budget (h : Taken key s n T) {m : ℕ} (hn : n ≤ m)
    (hend : n = m ∨ ∀ a ∈ s, a ∈ T) (ha : a ∈ s) : a ∈ T ↔ rank key s a < m := by
  rcases hend with rfl | hall
  · exact h.mem_iff a ha
  · have hin := hall a ha
    exact iff_of_true hin (((h.mem_iff a ha).mp hin).trans_le hn)

end Ranking
