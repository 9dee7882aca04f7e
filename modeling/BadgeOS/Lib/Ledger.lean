import Mathlib

/-!
# What is taken and given back

A run of a program as the list of what it took and gave back.  `settle` follows the list: giving
back what is not held has no result.

* `Balanced` — everything is given back, nothing that was not held;
* `Balanced.count_eq` — of each resource as much is given as was taken;
* `settle_takes`, `settle_gives` — a row of takings, and the same row given back.
-/

namespace Ledger

inductive Entry (R : Type*)
  | take (r : R)
  | give (r : R)
  deriving DecidableEq, Repr

variable {R : Type*} [DecidableEq R] {held held' : List R} {es : List (Entry R)}

/-- What is held after `es`. -/
def settle (held : List R) : List (Entry R) → Option (List R)
  | [] => some held
  | .take r :: es => settle (r :: held) es
  | .give r :: es => if r ∈ held then settle (held.erase r) es else none

def Balanced (es : List (Entry R)) : Prop := settle [] es = some []

theorem settle_append (held : List R) (es es' : List (Entry R)) :
    settle held (es ++ es') = (settle held es).bind fun held => settle held es' := by
  induction es generalizing held with
  | nil => rfl
  | cons e es ih =>
      cases e with
      | take r => exact ih (r :: held)
      | give r =>
          rw [List.cons_append, settle, settle]
          split
          · exact ih (held.erase r)
          · rfl

theorem settle_takes (held rs : List R) :
    settle held (rs.map .take) = some (rs.reverse ++ held) := by
  induction rs generalizing held with
  | nil => rfl
  | cons r rs ih =>
      rw [List.map_cons, settle, ih, List.reverse_cons, List.append_assoc]
      rfl

/-- Giving back a part of what is held, in any order. -/
theorem settle_gives {rs rest : List R} (h : held.Perm (rs ++ rest)) :
    ∃ left, settle held (rs.map .give) = some left ∧ left.Perm rest := by
  induction rs generalizing held with
  | nil => exact ⟨held, rfl, h⟩
  | cons r rs ih =>
      have hmem : r ∈ held := h.mem_iff.mpr (by simp)
      have herase : (held.erase r).Perm (rs ++ rest) := by
        have herased := h.erase r
        rwa [List.cons_append, List.erase_cons_head] at herased
      rw [List.map_cons, settle, if_pos hmem]
      exact ih herase

theorem settle_count (h : settle held es = some held') (r : R) :
    held.count r + es.count (.take r) = held'.count r + es.count (.give r) := by
  induction es generalizing held with
  | nil =>
      cases h
      simp
  | cons e es ih =>
      cases e with
      | take s =>
          have hrest : (s :: held).count r + es.count (.take r) =
              held'.count r + es.count (.give r) := ih h
          rw [List.count_cons] at hrest
          simp only [List.count_cons, beq_iff_eq, Entry.take.injEq, reduceCtorEq, if_false] at hrest ⊢
          omega
      | give s =>
          rw [settle] at h
          split at h
          · rename_i hmem
            have hrest := ih h
            have hcount : (held.erase s).count r = held.count r - if s == r then 1 else 0 :=
              List.count_erase
            have hpos : 0 < held.count s := List.count_pos_iff.mpr hmem
            simp only [List.count_cons, beq_iff_eq, Entry.give.injEq, reduceCtorEq, if_false]
              at hrest hcount ⊢
            by_cases hrs : s = r
            · subst hrs
              simp only [if_true] at hcount ⊢
              omega
            · simp only [hrs, if_false] at hcount ⊢
              omega
          · cases h

/-- **Each resource is given back as often as it was taken.** -/
theorem Balanced.count_eq (h : Balanced es) (r : R) :
    es.count (.take r) = es.count (.give r) := by
  have hcount := settle_count h r
  simpa using hcount

/-- Two rows taken one after the other, and given back the later one first. -/
theorem balanced_nested (ms ss : List R) :
    Balanced (ms.map .take ++ ss.map .take ++ ss.map .give ++ ms.map .give) := by
  have hinner : (ss.reverse ++ (ms.reverse ++ [])).Perm (ss ++ ms.reverse) := by
    rw [List.append_nil]
    exact (List.reverse_perm ss).append_right ms.reverse
  obtain ⟨left, hgive, hleft⟩ := settle_gives hinner
  have houter : left.Perm (ms ++ []) := by
    rw [List.append_nil]
    exact hleft.trans (List.reverse_perm ms)
  obtain ⟨rest, hrest, hempty⟩ := settle_gives houter
  rw [Balanced, settle_append, settle_append, settle_append, settle_takes, Option.bind_some,
    settle_takes, Option.bind_some, hgive, Option.bind_some, hrest, hempty.eq_nil]

end Ledger
