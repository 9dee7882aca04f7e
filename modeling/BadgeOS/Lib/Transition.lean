import Mathlib

/-!
# Runs of a partial step function

A system is a function `step : σ → ℓ → Option σ`: the action `a` is enabled in `s` when
`step s a` is some state, and that is the state it leads to.  Interleavings are lists of
actions, so a property of every run is a property of every interleaving.

* `RunWith step G s as t` — the actions `as` lead from `s` to `t`, and every step met the
  condition `G`, which sees the state before the step and the action;
* `Run` — the same without a condition;
* `RunWith.invariant` and `RunWith.traceInvariant` — the two induction rules: what one step
  preserves, a run preserves, for a property of the state or of the state and its history;
* `runFrom` — runs computed, for replaying one fixed interleaving.
-/

namespace Transition

variable {σ ℓ : Type*} {step : σ → ℓ → Option σ} {G : σ → ℓ → Prop} {s t u : σ} {as : List ℓ}

/-- The actions `as` lead from `s` to the last state, each step meeting `G`. -/
inductive RunWith (step : σ → ℓ → Option σ) (G : σ → ℓ → Prop) (s : σ) : List ℓ → σ → Prop
  | nil : RunWith step G s [] s
  | snoc {as : List ℓ} {t u : σ} {a : ℓ} :
      RunWith step G s as t → G t a → step t a = some u → RunWith step G s (as ++ [a]) u

/-- A run with no condition on its steps. -/
abbrev Run (step : σ → ℓ → Option σ) : σ → List ℓ → σ → Prop :=
  RunWith step fun _ _ => True

/-- **The invariant rule.**  What every step meeting `G` preserves, every such run does. -/
theorem RunWith.invariant {I : σ → Prop}
    (hstep : ∀ s a t, I s → G s a → step s a = some t → I t)
    (h : RunWith step G s as t) (hs : I s) : I t := by
  induction h with
  | nil => exact hs
  | snoc _ hG hstep' ih => exact hstep _ _ _ ih hG hstep'

/-- **The trace rule**, for a property of the state and the actions that led to it. -/
theorem RunWith.traceInvariant {I : List ℓ → σ → Prop} (h0 : I [] s)
    (hstep : ∀ as s a t, I as s → G s a → step s a = some t → I (as ++ [a]) t)
    (h : RunWith step G s as t) : I as t := by
  induction h with
  | nil => exact h0
  | snoc _ hG hstep' ih => exact hstep _ _ _ _ ih hG hstep'

theorem RunWith.mono {G' : σ → ℓ → Prop} (hG : ∀ s a, G s a → G' s a)
    (h : RunWith step G s as t) : RunWith step G' s as t := by
  induction h with
  | nil => exact .nil
  | snoc _ hg hs ih => exact .snoc ih (hG _ _ hg) hs

/-- Dropping the condition. -/
theorem RunWith.run (h : RunWith step G s as t) : Run step s as t :=
  h.mono fun _ _ _ => trivial

theorem RunWith.append {bs : List ℓ} (h : RunWith step G s as t) (h' : RunWith step G t bs u) :
    RunWith step G s (as ++ bs) u := by
  induction h' with
  | nil => simpa using h
  | snoc _ hG hs ih =>
      rw [← List.append_assoc]
      exact .snoc ih hG hs

theorem RunWith.cons {a : ℓ} (hG : G s a) (hs : step s a = some t) (h : RunWith step G t as u) :
    RunWith step G s (a :: as) u :=
  have hone : RunWith step G s ([] ++ [a]) t := .snoc .nil hG hs
  hone.append h

/-- A run's last action, undone. -/
theorem RunWith.of_snoc {a : ℓ} (h : RunWith step G s (as ++ [a]) u) :
    ∃ t, RunWith step G s as t ∧ G t a ∧ step t a = some u := by
  generalize hbs : as ++ [a] = bs at h
  cases h with
  | nil => simp at hbs
  | snoc hrun hG hstep =>
      obtain ⟨rfl, hlast⟩ := List.append_inj' hbs rfl
      obtain rfl : a = _ := List.head_eq_of_cons_eq hlast
      exact ⟨_, hrun, hG, hstep⟩

/-- The same actions lead to the same state. -/
theorem RunWith.unique {G' : σ → ℓ → Prop} (h : RunWith step G s as t)
    (h' : RunWith step G' s as u) : t = u := by
  induction h generalizing u with
  | nil =>
      generalize hbs : ([] : List ℓ) = bs at h'
      cases h' with
      | nil => rfl
      | snoc => simp at hbs
  | snoc _ _ hstep ih =>
      obtain ⟨v, hrun, -, hstep'⟩ := h'.of_snoc
      obtain rfl := ih hrun
      rw [hstep] at hstep'
      exact Option.some.inj hstep'

/-- **One step more** meets the condition when the run before it did and it does. -/
theorem RunWith.snoc_iff {a : ℓ} (h : Run step s as t) (hstep : step t a = some u) :
    RunWith step G s (as ++ [a]) u ↔ RunWith step G s as t ∧ G t a := by
  constructor
  · intro hrun
    obtain ⟨v, hv, hG, -⟩ := hrun.of_snoc
    obtain rfl := h.unique hv
    exact ⟨hv, hG⟩
  · intro hboth
    obtain ⟨hrun, hG⟩ := hboth
    exact .snoc hrun hG hstep

/-! ### Replaying one interleaving -/

/-- The state a list of actions leads to, or `none` when one of them is not enabled. -/
def runFrom (step : σ → ℓ → Option σ) : σ → List ℓ → Option σ
  | s, [] => some s
  | s, a :: as => (step s a).bind fun t => runFrom step t as

/-- The same, stopping too when a step misses a decidable condition. -/
def runFromWith (step : σ → ℓ → Option σ) (G : σ → ℓ → Bool) : σ → List ℓ → Option σ
  | s, [] => some s
  | s, a :: as => if G s a then (step s a).bind fun t => runFromWith step G t as else none

theorem run_of_runFrom (h : runFrom step s as = some t) : Run step s as t := by
  induction as generalizing s with
  | nil =>
      obtain rfl : s = t := by simpa [runFrom] using h
      exact .nil
  | cons a as ih =>
      simp only [runFrom, Option.bind_eq_some_iff] at h
      obtain ⟨u, hu, hrest⟩ := h
      exact .cons trivial hu (ih hrest)

theorem runWith_of_runFromWith {G : σ → ℓ → Bool} (h : runFromWith step G s as = some t) :
    RunWith step (fun s a => G s a = true) s as t := by
  induction as generalizing s with
  | nil =>
      obtain rfl : s = t := by simpa [runFromWith] using h
      exact .nil
  | cons a as ih =>
      simp only [runFromWith] at h
      split at h
      · rename_i hG
        simp only [Option.bind_eq_some_iff] at h
        obtain ⟨u, hu, hrest⟩ := h
        exact .cons hG hu (ih hrest)
      · cases h

/-- A replay that ends in a state where a check succeeds shows that such a state is reached. -/
theorem run_exists_of_check {p : σ → Bool} (h : (runFrom step s as).any p = true) :
    ∃ t, Run step s as t ∧ p t = true := by
  cases hr : runFrom step s as with
  | none => simp [hr] at h
  | some t => exact ⟨t, run_of_runFrom hr, by simpa [hr] using h⟩

theorem runWith_exists_of_check {G : σ → ℓ → Bool} {p : σ → Bool}
    (h : (runFromWith step G s as).any p = true) :
    ∃ t, RunWith step (fun s a => G s a = true) s as t ∧ p t = true := by
  cases hr : runFromWith step G s as with
  | none => simp [hr] at h
  | some t => exact ⟨t, runWith_of_runFromWith hr, by simpa [hr] using h⟩

end Transition
