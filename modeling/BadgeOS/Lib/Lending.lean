import Mathlib

/-!
# What is lent is given back once

A lender's book of what it has lent and what came back, and a borrower that keeps what it was lent
in places of its own.  `held r` counts the places of `r`: moving it about keeps the count, and with
it the account of the book.

* `Book`, `Book.Out` — what was lent and what came back, and what is still out;
* `Custody` — the borrower's places and the book agree, and nothing was lent twice;
* `Custody.once`, `Custody.held_iff` — nothing comes back twice, and what is held is what is out;
* `Apart` — what is out sits in different slots of the lender.
-/

namespace Lending

variable {R S : Type*} [DecidableEq R] {held held' : R → ℕ} {r : R}

structure Book (R : Type*) where
  lent : List R
  returned : List R
  deriving DecidableEq, Repr

variable {b : Book R}

def Book.lend (b : Book R) (r : R) : Book R := { b with lent := r :: b.lent }

def Book.giveBack (b : Book R) (r : R) : Book R := { b with returned := r :: b.returned }

def Book.Out (b : Book R) (r : R) : Prop := r ∈ b.lent ∧ r ∉ b.returned

/-- The places that hold `r` and the times it came back are the times it was lent, at most one. -/
structure Custody (held : R → ℕ) (b : Book R) : Prop where
  nodup : b.lent.Nodup
  balance : ∀ r, held r + b.returned.count r = b.lent.count r

theorem Custody.start : Custody (fun _ : R => 0) ⟨[], []⟩ := ⟨List.nodup_nil, fun _ => rfl⟩

theorem Custody.move (h : Custody held b) (hmove : ∀ r, held' r = held r) : Custody held' b where
  nodup := h.nodup
  balance r := by
    rw [hmove]
    exact h.balance r

theorem Custody.lend (h : Custody held b) (hnew : r ∉ b.lent)
    (hheld : ∀ q, held' q = held q + [r].count q) : Custody held' (b.lend r) where
  nodup := List.nodup_cons.mpr ⟨hnew, h.nodup⟩
  balance q := by
    have hbalance := h.balance q
    have hlent : (r :: b.lent).count q = b.lent.count q + [r].count q := by
      rw [← List.singleton_append, List.count_append, Nat.add_comm]
    rw [hheld, Book.lend]
    simp only [hlent]
    omega

theorem Custody.giveBack (h : Custody held b) (hheld : ∀ q, held' q + [r].count q = held q) :
    Custody held' (b.giveBack r) where
  nodup := h.nodup
  balance q := by
    have hbalance := h.balance q
    have hback : (r :: b.returned).count q = b.returned.count q + [r].count q := by
      rw [← List.singleton_append, List.count_append, Nat.add_comm]
    rw [Book.giveBack]
    simp only [hback]
    rw [← hheld] at hbalance
    omega

theorem Custody.le_one (h : Custody held b) (r : R) : held r + b.returned.count r ≤ 1 := by
  rw [h.balance]
  exact List.nodup_iff_count_le_one.mp h.nodup r

/-- **Nothing comes back twice.** -/
theorem Custody.once (h : Custody held b) : b.returned.Nodup := by
  rw [List.nodup_iff_count_le_one]
  intro r
  have hle := h.le_one r
  omega

/-- **What is held is what is out.** -/
theorem Custody.held_iff (h : Custody held b) : 0 < held r ↔ b.Out r := by
  have hle := h.le_one r
  have hbalance := h.balance r
  rw [Book.Out, ← List.count_pos_iff, List.count_eq_zero.symm]
  omega

/-- No two of what is out have one slot. -/
def Apart (slot : R → S) (b : Book R) : Prop :=
  ∀ r r', b.Out r → b.Out r' → slot r = slot r' → r = r'

variable {slot : R → S}

omit [DecidableEq R]

theorem Apart.lend (h : Apart slot b) (hfree : ∀ q, b.Out q → slot q ≠ slot r) :
    Apart slot (b.lend r) := by
  have hcases (q : R) (hq : (b.lend r).Out q) : q = r ∨ b.Out q := by
    obtain ⟨hlent, hback⟩ := hq
    obtain rfl | hlent := List.mem_cons.mp hlent
    · exact Or.inl rfl
    · exact Or.inr ⟨hlent, hback⟩
  intro q q' hq hq' heq
  rcases hcases q hq with hqr | hold
  · rcases hcases q' hq' with hqr' | hold'
    · rw [hqr, hqr']
    · rw [hqr] at heq
      exact absurd heq.symm (hfree q' hold')
  · rcases hcases q' hq' with hqr' | hold'
    · rw [hqr'] at heq
      exact absurd heq (hfree q hold)
    · exact h q q' hold hold' heq

theorem Apart.giveBack (h : Apart slot b) (r : R) : Apart slot (b.giveBack r) := by
  have hout (q : R) (hq : (b.giveBack r).Out q) : b.Out q :=
    ⟨hq.1, fun hmem => hq.2 (List.mem_cons_of_mem _ hmem)⟩
  intro q q' hq hq' heq
  exact h q q' (hout q hq) (hout q' hq') heq

/-- What is held in `places`, each at most once and among `slots`, is no more than these. -/
theorem Apart.length_le (h : Apart slot b) {places : List R} {slots : List S}
    (hnodup : places.Nodup) (hout : ∀ r ∈ places, b.Out r)
    (hslots : ∀ r ∈ places, slot r ∈ slots) : places.length ≤ slots.length := by
  have hinj : (places.map slot).Nodup :=
    hnodup.map_on fun q hq q' hq' heq => h q q' (hout q hq) (hout q' hq') heq
  have hsub : places.map slot ⊆ slots := by
    intro x hx
    obtain ⟨q, hq, rfl⟩ := List.mem_map.mp hx
    exact hslots q hq
  have hle := (hinj.subperm hsub).length_le
  rwa [List.length_map] at hle

end Lending
