import Mathlib

/-!
# Rotation

Taking turns among `n`: the turn of number `t` goes to `t % n`.

* `turns` — consecutive turns, and `turns_append`;
* `mem_of_turns_eq` — since a member's turn all the others had theirs when it is its turn again;
* `turns_nodup_iff`, `infix_turns` — which consecutive turns go to different members.
-/

namespace Rotation

variable {n start count i : ℕ} {a b window : List ℕ}

/-- The members whose turns are `start`, …, `start + count - 1`. -/
def turns (n start count : ℕ) : List ℕ := (List.range' start count).map (· % n)

theorem turns_succ : turns n start (count + 1) = start % n :: turns n (start + 1) count := rfl

@[simp] theorem length_turns : (turns n start count).length = count := by
  rw [turns, List.length_map, List.length_range']

theorem turns_append (k : ℕ) :
    turns n start (k + count) = turns n start k ++ turns n (start + k) count := by
  induction k generalizing start with
  | zero => rw [Nat.zero_add, Nat.add_zero]; rfl
  | succ k ih =>
      rw [Nat.add_right_comm, turns_succ, turns_succ, ih, List.cons_append, Nat.add_assoc,
        Nat.add_comm 1 k]

/-- What consecutive turns are cut into are consecutive turns. -/
theorem turns_eq_append (h : turns n start count = a ++ b) :
    a = turns n start a.length ∧ b = turns n (start + a.length) b.length := by
  have hlen : count = a.length + b.length := by
    rw [← List.length_append, ← h, length_turns]
  rw [hlen, turns_append] at h
  obtain ⟨ha, hb⟩ := List.append_inj h length_turns
  exact ⟨ha.symm, hb.symm⟩

theorem infix_turns (h : window <:+: turns n start count) :
    ∃ start', window = turns n start' window.length := by
  obtain ⟨a, b, hcut⟩ := h
  have hleft := (turns_eq_append hcut.symm).1
  have hmid := (turns_eq_append hleft.symm).2
  exact ⟨_, hmid⟩

theorem mem_turns {t : ℕ} (hlow : start ≤ t) (hhigh : t < start + count) :
    t % n ∈ turns n start count := by
  rw [turns]
  apply List.mem_map_of_mem
  rw [List.mem_range'_1]
  exact ⟨hlow, hhigh⟩

/-- When it is a member's turn again, all the others had theirs in between. -/
theorem mem_of_turns_eq (h : turns n start count = a ++ i :: b) (hi : (start + count) % n = i)
    {e : ℕ} (he : e < n) (hne : e ≠ i) : e ∈ b := by
  obtain ⟨-, hmid⟩ := turns_eq_append h
  rw [List.length_cons, turns_succ] at hmid
  obtain ⟨hturn, hb⟩ := List.cons.inj hmid
  have hcount : count = a.length + (b.length + 1) := by
    rw [← List.length_cons, ← List.length_append, ← h, length_turns]
  have hn : 0 < n := Nat.zero_lt_of_lt he
  have hin : i < n := hi ▸ Nat.mod_lt _ hn
  -- a whole round lies between the two turns
  have hround : n ≤ b.length + 1 := by
    have hdvd : (start + count - (start + a.length)) % n = 0 :=
      Nat.sub_mod_eq_zero_of_mod_eq (hi.trans hturn)
    rw [show start + count - (start + a.length) = b.length + 1 by omega] at hdvd
    exact Nat.le_of_dvd (Nat.succ_pos _) (Nat.dvd_of_mod_eq_zero hdvd)
  -- and `e` has its turn in that round
  have hlater : 0 < (e + n - i) % n := by
    rcases Nat.lt_or_gt_of_ne hne with hlt | hgt
    · rw [Nat.mod_eq_of_lt (by omega)]
      omega
    · rw [show e + n - i = e - i + n by omega, Nat.add_mod_right, Nat.mod_eq_of_lt (by omega)]
      omega
  have hturn' : (start + a.length + (e + n - i) % n) % n = e := by
    rw [Nat.add_mod_mod, ← Nat.mod_add_mod, ← hturn, show i + (e + n - i) = e + n by omega,
      Nat.add_mod_right, Nat.mod_eq_of_lt he]
  have hbefore : (e + n - i) % n < n := Nat.mod_lt _ hn
  rw [hb, ← hturn']
  exact mem_turns (by omega) (by omega)

/-- Consecutive turns go to different members as long as there are no more than members. -/
theorem turns_nodup_iff (hn : 0 < n) : (turns n start count).Nodup ↔ count ≤ n := by
  constructor
  · intro hnodup
    by_contra hmany
    obtain ⟨k, rfl⟩ : ∃ k, count = k + 1 := ⟨count - 1, by omega⟩
    rw [turns_succ, List.nodup_cons] at hnodup
    have hagain : (start + n) % n ∈ turns n (start + 1) k := mem_turns (by omega) (by omega)
    rw [Nat.add_mod_right] at hagain
    exact hnodup.1 hagain
  · intro hle
    apply List.Nodup.map_on _ List.nodup_range'
    intro x hx y hy heq
    rw [List.mem_range'_1] at hx hy
    have hxy := Nat.sub_mod_eq_zero_of_mod_eq heq
    have hyx := Nat.sub_mod_eq_zero_of_mod_eq heq.symm
    rw [Nat.mod_eq_of_lt (by omega)] at hxy hyx
    omega

end Rotation
