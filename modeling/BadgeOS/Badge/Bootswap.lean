import BadgeOS.Oled.Button
import Mathlib

/-!
# The BOOT button

`cmdBootswap` samples the BOOT line and starts the core swap once in a hold of three seconds.  The
samples are a sequence without end: what happens at one depends on those before it only.

* `turn` — one round of the loop, and whether it calls `doBootswap`;
* `RunFrom` — samples that are pressed, from the first of them on;
* `track` — what the loop knows of the run it is in;
* `swaps_once_in_hold` — it swaps at the first sample that is late enough in its run, and only then.
-/

namespace BadgeOS.Badge

open Oled.Button (PressState Sample)

/-- `bootswap_hold_ms` -/
def bootswapHoldMs : ℕ := 3000

/-- What `cmdBootswap` carries from sample to sample. -/
structure Bootswap where
  press : PressState := {}
  fired : Bool := false
  deriving DecidableEq, Repr

/-- The line is active-low; a read that fails is not pressed. -/
def pressed (x : Sample) : Bool :=
  match x.level with
  | some lvl => lvl.val == 0
  | none => false

/-- One round of the loop, when `doBootswap` returns: what it carries on, and whether it calls. -/
def turn (s : Bootswap) (x : Sample) : Bootswap × Bool :=
  if pressed x && !s.press.down then
    ({ press := { startMs := x.nowMs, down := true }, fired := false }, false)
  else if pressed x && s.press.down && !s.fired then
    if bootswapHoldMs ≤ x.nowMs - s.press.startMs then ({ s with fired := true }, true)
    else (s, false)
  else if !pressed x && s.press.down then
    ({ s with press := { s.press with down := false } }, false)
  else (s, false)

/-- The loop before sample `n`. -/
def before (samples : ℕ → Sample) : ℕ → Bootswap
  | 0 => {}
  | n + 1 => (turn (before samples n) (samples n)).1

/-- `doBootswap` is called at sample `n`. -/
def calls (samples : ℕ → Sample) (n : ℕ) : Bool := (turn (before samples n) (samples n)).2

/-- The samples from `j` to `i` are pressed, and `j` is the first of the run. -/
structure RunFrom (samples : ℕ → Sample) (j i : ℕ) : Prop where
  le : j ≤ i
  held : ∀ m, j ≤ m → m ≤ i → pressed (samples m) = true
  first : ∀ m, m + 1 = j → pressed (samples m) = false

/-- The button is down for long enough at sample `i` of the run that begins at `j`. -/
def LongEnough (samples : ℕ → Sample) (j i : ℕ) : Prop :=
  bootswapHoldMs ≤ (samples i).nowMs - (samples j).nowMs

variable {samples : ℕ → Sample} {i j j' n : ℕ}

theorem RunFrom.snoc (h : RunFrom samples j i) (hp : pressed (samples (i + 1)) = true) :
    RunFrom samples j (i + 1) := by
  refine ⟨Nat.le_succ_of_le h.le, fun m hjm hmi => ?_, h.first⟩
  obtain hle | rfl : m ≤ i ∨ m = i + 1 := by omega
  · exact h.held m hjm hle
  · exact hp

theorem RunFrom.anti {m : ℕ} (h : RunFrom samples j i) (hjm : j ≤ m) (hmi : m ≤ i) :
    RunFrom samples j m :=
  ⟨hjm, fun m' hj hm => h.held m' hj (Nat.le_trans hm hmi), h.first⟩

/-- A sample is in one run. -/
theorem RunFrom.unique (h : RunFrom samples j i) (h' : RunFrom samples j' i) : j = j' := by
  have aux {j j' : ℕ} (h : RunFrom samples j i) (h' : RunFrom samples j' i) : ¬ j < j' := by
    intro hlt
    have hlast := h'.first (j' - 1) (by omega)
    have hle := h'.le
    rw [h.held (j' - 1) (by omega) (by omega)] at hlast
    cases hlast
  have hlt := aux h h'
  have hgt := aux h' h
  omega

/-! ### What the loop knows -/

/-- Of the run that sample `n` may go on: where it began, and whether it was long enough before. -/
structure Track (samples : ℕ → Sample) (n : ℕ) (s : Bootswap) : Prop where
  up : s.press.down = false → ∀ m, m + 1 = n → pressed (samples m) = false
  down : s.press.down = true → ∃ j i, i + 1 = n ∧ RunFrom samples j i ∧
    s.press.startMs = (samples j).nowMs ∧
    (s.fired = true ↔ ∃ m, j ≤ m ∧ m ≤ i ∧ LongEnough samples j m)

/-- A run of one sample. -/
theorem RunFrom.single (hp : pressed (samples n) = true)
    (hfirst : ∀ m, m + 1 = n → pressed (samples m) = false) : RunFrom samples n n := by
  refine ⟨Nat.le_refl n, fun m hnm hmn => ?_, hfirst⟩
  rwa [Nat.le_antisymm hmn hnm]

theorem not_longEnough_self : ¬ LongEnough samples n n := by
  simp [LongEnough, bootswapHoldMs]

/-- Whether the run was long enough, one sample on. -/
theorem longEnough_succ (hle : j ≤ i + 1) :
    (∃ m, j ≤ m ∧ m ≤ i + 1 ∧ LongEnough samples j m) ↔
      (∃ m, j ≤ m ∧ m ≤ i ∧ LongEnough samples j m) ∨ LongEnough samples j (i + 1) := by
  constructor
  · rintro ⟨m, hjm, hmi, hlong⟩
    obtain hle | rfl : m ≤ i ∨ m = i + 1 := by omega
    · exact Or.inl ⟨m, hjm, hle, hlong⟩
    · exact Or.inr hlong
  · rintro (⟨m, hjm, hmi, hlong⟩ | hlong)
    · exact ⟨m, hjm, Nat.le_succ_of_le hmi, hlong⟩
    · exact ⟨i + 1, hle, Nat.le_refl _, hlong⟩

theorem track_step {s : Bootswap} (h : Track samples n s) :
    Track samples (n + 1) (turn s (samples n)).1 := by
  cases hp : pressed (samples n) <;> cases hd : s.press.down
  · -- still up
    simp only [turn, hp, hd, Bool.false_and, Bool.false_eq_true, if_false, Bool.and_false]
    refine ⟨fun _ m hm => ?_, fun hdown => ?_⟩
    · obtain rfl : m = n := by omega
      exact hp
    · rw [hd] at hdown
      cases hdown
  · -- released
    simp only [turn, hp, hd, Bool.false_and, Bool.false_eq_true, if_false, Bool.not_false,
      Bool.and_self, if_true]
    refine ⟨fun _ m hm => ?_, Bool.noConfusion⟩
    obtain rfl : m = n := by omega
    exact hp
  · -- pressed: a run begins
    simp only [turn, hp, hd, Bool.not_false, Bool.and_self, if_true]
    refine ⟨Bool.noConfusion, fun _ => ⟨n, n, rfl, .single hp (h.up hd), rfl, ?_⟩⟩
    refine ⟨Bool.noConfusion, fun ⟨m, hnm, hmn, hlong⟩ => ?_⟩
    obtain rfl : m = n := Nat.le_antisymm hmn hnm
    exact absurd hlong not_longEnough_self
  · -- held on
    obtain ⟨j, i, rfl, hrun, hstart, hfired⟩ := h.down hd
    have hnext := hrun.snoc hp
    have hlater : (∃ m, j ≤ m ∧ m ≤ i + 1 ∧ LongEnough samples j m) ↔
        s.fired = true ∨ LongEnough samples j (i + 1) := by
      rw [longEnough_succ hnext.le, hfired]
    cases hf : s.fired with
    | true =>
        simp only [turn, hp, hd, hf, Bool.not_true, Bool.and_false, Bool.false_eq_true, if_false,
          Bool.false_and]
        refine ⟨fun hup => ?_, fun _ => ⟨j, i + 1, rfl, hnext, hstart, ?_⟩⟩
        · rw [hd] at hup
          cases hup
        · rw [hlater]
          simp [hf]
    | false =>
        simp only [turn, hp, hd, hf, Bool.not_true, Bool.and_false, Bool.false_eq_true, if_false,
          Bool.not_false, Bool.and_self, if_true, hstart]
        by_cases hlong : LongEnough samples j (i + 1)
        · rw [if_pos (show bootswapHoldMs ≤ _ from hlong)]
          refine ⟨fun hup => ?_, fun _ => ⟨j, i + 1, rfl, hnext, hstart, ?_⟩⟩
          · exact absurd (hd.symm.trans hup) (by simp)
          · rw [hlater]
            simp [hlong]
        · rw [if_neg (show ¬ bootswapHoldMs ≤ _ from hlong)]
          refine ⟨fun hup => ?_, fun _ => ⟨j, i + 1, rfl, hnext, hstart, ?_⟩⟩
          · exact absurd (hd.symm.trans hup) (by simp)
          · rw [hlater]
            simp [hf, hlong]

theorem track (samples : ℕ → Sample) (n : ℕ) : Track samples n (before samples n) := by
  induction n with
  | zero => exact ⟨fun _ m hm => absurd hm (by omega), Bool.noConfusion⟩
  | succ n ih => exact track_step ih

/-- On a clock that does not run backwards no difference of the loop is below zero. -/
theorem start_le (hclock : Monotone fun n => (samples n).nowMs)
    (hdown : (before samples n).press.down = true) :
    (before samples n).press.startMs ≤ (samples n).nowMs := by
  obtain ⟨j, i, rfl, hrun, hstart, -⟩ := (track samples n).down hdown
  rw [hstart]
  exact hclock (Nat.le_succ_of_le hrun.le)

/-! ### When it swaps -/

/-- The first sample of a run that is late enough. -/
structure FirstLate (samples : ℕ → Sample) (j i : ℕ) : Prop where
  run : RunFrom samples j i
  late : LongEnough samples j i
  early : ∀ m, j ≤ m → m < i → ¬ LongEnough samples j m

theorem FirstLate.unique (h : FirstLate samples j i) {i' : ℕ} (h' : FirstLate samples j i') :
    i = i' := by
  have hle := h.run.le
  have hle' := h'.run.le
  by_contra hne
  obtain hlt | hlt : i < i' ∨ i' < i := by omega
  · exact h'.early i hle hlt h.late
  · exact h.early i' hle' hlt h'.late

/-- **It swaps** at the first sample that is late enough in its run. -/
theorem calls_iff : calls samples i = true ↔ ∃ j, FirstLate samples j i := by
  have htrack := track samples i
  rw [calls]
  generalize before samples i = s at htrack
  cases hp : pressed (samples i) with
  | false =>
      have hcall : (turn s (samples i)).2 = false := by
        cases hd : s.press.down <;> simp [turn, hp, hd]
      rw [hcall]
      refine ⟨Bool.noConfusion, fun ⟨j, h⟩ => ?_⟩
      rw [h.run.held i h.run.le (Nat.le_refl i)] at hp
      cases hp
  | true =>
      cases hd : s.press.down with
      | false =>
          have hcall : (turn s (samples i)).2 = false := by simp [turn, hp, hd]
          rw [hcall]
          refine ⟨Bool.noConfusion, fun ⟨j, h⟩ => ?_⟩
          obtain rfl := h.run.unique (.single hp (htrack.up hd))
          exact absurd h.late not_longEnough_self
      | true =>
          obtain ⟨j, i, rfl, hrun, hstart, hfired⟩ := htrack.down hd
          have hnext := hrun.snoc hp
          cases hf : s.fired with
          | true =>
              have hcall : (turn s (samples (i + 1))).2 = false := by simp [turn, hp, hd, hf]
              rw [hcall]
              refine ⟨Bool.noConfusion, fun ⟨j', h⟩ => ?_⟩
              obtain rfl := h.run.unique hnext
              obtain ⟨m, hjm, hmi, hlong⟩ := hfired.mp hf
              exact absurd hlong (h.early m hjm (Nat.lt_succ_of_le hmi))
          | false =>
              have hcall : (turn s (samples (i + 1))).2 = true ↔ LongEnough samples j (i + 1) := by
                simp only [turn, hp, hd, hf, hstart, LongEnough, Bool.not_true, Bool.and_false,
                  Bool.false_eq_true, if_false, Bool.not_false, Bool.and_self, if_true]
                split <;> simp_all
              rw [hcall]
              constructor
              · refine fun hlong => ⟨j, hnext, hlong, fun m hjm hmi hearly => ?_⟩
                have hsome := hfired.mpr ⟨m, hjm, Nat.le_of_lt_succ hmi, hearly⟩
                rw [hf] at hsome
                cases hsome
              · rintro ⟨j', h⟩
                obtain rfl := h.run.unique hnext
                exact h.late

/-- **Once a hold, and never otherwise.**  The loop swaps at sample `i` exactly where it is the
first of its run that is late enough, and in a run that has such a sample at just one. -/
theorem swaps_once_in_hold (samples : ℕ → Sample) :
    (∀ i, calls samples i = true ↔ ∃ j, FirstLate samples j i) ∧
      ∀ j, (∃ m, RunFrom samples j m ∧ LongEnough samples j m) →
        ∃! i, RunFrom samples j i ∧ calls samples i = true := by
  refine ⟨fun i => calls_iff, fun j hlate => ?_⟩
  classical
  obtain ⟨hrun, hlong⟩ := Nat.find_spec hlate
  have hfirst : FirstLate samples j (Nat.find hlate) := by
    refine ⟨hrun, hlong, fun m hjm hmi hearly => ?_⟩
    exact Nat.find_min hlate hmi ⟨hrun.anti hjm (Nat.le_of_lt hmi), hearly⟩
  refine ⟨Nat.find hlate, ⟨hrun, calls_iff.mpr ⟨j, hfirst⟩⟩, fun i ⟨hi, hcall⟩ => ?_⟩
  obtain ⟨j', h⟩ := calls_iff.mp hcall
  obtain rfl := h.run.unique hi
  exact h.unique hfirst

end BadgeOS.Badge
