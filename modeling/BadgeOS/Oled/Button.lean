import BadgeOS.Lib.Transition
import Mathlib

/-!
# The button and the loop

A thread samples the USER button at a fixed rate and sets one of three flags at a release, by
how long the button was held; the loop takes the flags between two frames.  Signals set two of
the flags as well.  A flag is a bit, so a request that finds its flag still set adds nothing.

* `buttonSampler` — one turn of the sampler;
* `step` — the sampler, the signals and the loop, interleaved;
* `completed` — the presses in a list of samples, by their class;
* `no_press_lost_iff` — the loop acts as often as the button was pressed if and only if every
  press finds its flag clear.
-/

namespace BadgeOS.Oled.Button

open Transition

/-- What a flag asks the loop for. -/
inductive Want
  | nextPattern
  | nextScreen
  | switchBackend
  deriving DecidableEq, Repr

/-- `oled_longpress_ms`. -/
def oledLongpressMs : ℕ := 400

/-- `backend_switch_ms`. -/
def backendSwitchMs : ℕ := 5000

/-- Button press timing carried across the sampling loop. -/
structure PressState where
  startMs : ℕ := 0
  down : Bool := false
  deriving DecidableEq, Repr

/-- The flag of a press. -/
def wantOf (held : ℕ) : Want :=
  if backendSwitchMs ≤ held then .switchBackend
  else if oledLongpressMs ≤ held then .nextScreen
  else .nextPattern

/-- One turn of the sampler: the press state, and the flag it sets.  The line is active-low,
and a read may fail. -/
def buttonSampler (press : PressState) (nowMs : ℕ) (level : Option (Fin 2)) :
    PressState × Option Want :=
  match level with
  | none => (press, none)
  | some lvl =>
      let pressed := lvl == 0
      if pressed && !press.down then ({ startMs := nowMs, down := true }, none)
      else if !pressed && press.down then
        ({ press with down := false }, some (wantOf (nowMs - press.startMs)))
      else (press, none)

/-! ### The interleaving -/

/-- A sample, with the clock it was taken at. -/
structure Sample where
  nowMs : ℕ
  level : Option (Fin 2)
  deriving DecidableEq, Repr

/-- Where the loop is: in a frame (the render, the flush and the wait), or about to take a
flag. -/
inductive LoopAt
  | frame
  | taking (w : Want)
  deriving DecidableEq, Repr

/-- The flags and both sides, with what has been counted: the samples, the newest first, the
signals and the actions of the loop. -/
structure State where
  press : PressState := {}
  flag : Want → Bool := fun _ => false
  loop : LoopAt := .frame
  samples : List Sample := []
  signalled : Want → ℕ := fun _ => 0
  performed : Want → ℕ := fun _ => 0

/-- A turn of the sampler, `SIGUSR1` or `SIGUSR2`, or the next step of the loop. -/
inductive Action
  | sample (s : Sample)
  | user1
  | user2
  | loop
  deriving DecidableEq, Repr

/-- The signal handler's flag. -/
def Action.signal : Action → Option Want
  | .user1 => some .nextPattern
  | .user2 => some .nextScreen
  | _ => none

/-- The flag an action sets. -/
def request (s : State) : Action → Option Want
  | .sample x => (buttonSampler s.press x.nowMs x.level).2
  | a => a.signal

def setFlag (flag : Want → Bool) : Option Want → Want → Bool
  | none => flag
  | some w => Function.update flag w true

def countUp (count : Want → ℕ) : Option Want → Want → ℕ
  | none => count
  | some w => Function.update count w (count w + 1)

/-- After a flag the loop takes the next one, and after the last it renders. -/
def LoopAt.next : LoopAt → LoopAt
  | .frame => .taking .nextPattern
  | .taking .nextPattern => .taking .nextScreen
  | .taking .nextScreen => .taking .switchBackend
  | .taking .switchBackend => .frame

/-- The loop's own step: the end of a frame, or a flag taken with `swap(false)` and acted on
if it was set. -/
def loopStep (s : State) : State :=
  match s.loop with
  | .frame => { s with loop := s.loop.next }
  | .taking w =>
      { s with
        loop := s.loop.next
        flag := Function.update s.flag w false
        performed := countUp s.performed (if s.flag w then some w else none) }

/-- One step of either thread.  The clock does not run backwards. -/
def step (s : State) (a : Action) : Option State :=
  match a with
  | .sample x =>
      if s.samples.all fun y => y.nowMs ≤ x.nowMs then
        some { s with
          press := (buttonSampler s.press x.nowMs x.level).1
          flag := setFlag s.flag (request s a)
          samples := x :: s.samples }
      else none
  | .loop => some (loopStep s)
  | _ => some { s with flag := setFlag s.flag a.signal
                       signalled := countUp s.signalled a.signal }

/-! ### Presses -/

/-- When the button went down, if it is down after the samples (the newest first). -/
def downSince : List Sample → Option ℕ
  | [] => none
  | x :: samples =>
      match x.level with
      | none => downSince samples
      | some lvl => if lvl = 0 then some ((downSince samples).getD x.nowMs) else none

/-- How long the presses were that the samples complete. -/
def presses : List Sample → List ℕ
  | [] => []
  | x :: samples =>
      match x.level, downSince samples with
      | some 1, some startMs => (x.nowMs - startMs) :: presses samples
      | _, _ => presses samples

/-- How many of them are of a class. -/
def completed (samples : List Sample) (w : Want) : ℕ :=
  (presses samples).countP fun held => wantOf held == w

/-- The requests of a class: its presses and its signals. -/
def requests (s : State) (w : Want) : ℕ := completed s.samples w + s.signalled w

/-- No request of class `w` finds its flag still set. -/
def Clear (w : Want) (s : State) (a : Action) : Prop :=
  request s a = some w → s.flag w = false

instance (w : Want) (s : State) (a : Action) : Decidable (Clear w s a) :=
  inferInstanceAs (Decidable (_ → _))

/-! ### One step -/

/-- The sampler knows when the button went down. -/
def Tracks (s : State) : Prop :=
  downSince s.samples = if s.press.down then some s.press.startMs else none

variable {s t : State} {a : Action} {w : Want}

/-- One, if `r` is a request of class `w`. -/
def asks (r : Option Want) (w : Want) : ℕ := if r = some w then 1 else 0

theorem countUp_apply (count : Want → ℕ) (r : Option Want) (w : Want) :
    countUp count r w = count w + asks r w := by
  cases r with
  | none => rfl
  | some v =>
      by_cases hv : v = w
      · subst hv
        simp [countUp, asks]
      · simp [countUp, asks, hv, Ne.symm hv]

theorem setFlag_apply (flag : Want → Bool) (r : Option Want) (w : Want) :
    setFlag flag r w = (flag w || r == some w) := by
  cases r with
  | none => simp [setFlag]
  | some v =>
      by_cases hv : v = w
      · subst hv
        simp [setFlag]
      · simp [setFlag, hv, Ne.symm hv]

/-- **One sample.**  The sampler goes on knowing when the button went down, and it sets a flag
exactly when the sample completes a press, the one of its class. -/
theorem sampler_spec (h : Tracks s) (x : Sample) :
    downSince (x :: s.samples) =
      (if (buttonSampler s.press x.nowMs x.level).1.down then
        some (buttonSampler s.press x.nowMs x.level).1.startMs else none) ∧
    ∀ w, completed (x :: s.samples) w =
      completed s.samples w + asks (buttonSampler s.press x.nowMs x.level).2 w := by
  unfold Tracks at h
  obtain ⟨nowMs, level⟩ := x
  match level with
  | none =>
      refine ⟨h, fun w => ?_⟩
      simp [buttonSampler, completed, presses, asks]
  | some 0 =>
      cases hdown : s.press.down with
      | false =>
          rw [hdown] at h
          refine ⟨by simp [buttonSampler, hdown, downSince, h], fun w => ?_⟩
          simp [buttonSampler, hdown, completed, presses, asks]
      | true =>
          rw [hdown] at h
          refine ⟨by simp [buttonSampler, hdown, downSince, h], fun w => ?_⟩
          simp [buttonSampler, hdown, completed, presses, asks]
  | some 1 =>
      cases hdown : s.press.down with
      | false =>
          rw [hdown] at h
          refine ⟨by simp [buttonSampler, hdown, downSince], fun w => ?_⟩
          simp [buttonSampler, hdown, completed, presses, asks, h]
      | true =>
          rw [hdown] at h
          refine ⟨by simp [buttonSampler, hdown, downSince], fun w => ?_⟩
          simp [buttonSampler, hdown, completed, presses, asks, h, List.countP_cons]

/-- A request that finds its flag set. -/
def overrun (w : Want) (s : State) (a : Action) : ℕ := asks (request s a) w * (s.flag w).toNat

theorem overrun_eq_zero : overrun w s a = 0 ↔ Clear w s a := by
  unfold overrun asks Clear
  by_cases hr : request s a = some w
  · simp [hr]
  · simp [hr]

/-- A flag that is set: one pending more, unless it was set already. -/
theorem setFlag_balance (flag : Want → Bool) (r : Option Want) (w : Want) :
    (setFlag flag r w).toNat + asks r w * (flag w).toNat = (flag w).toNat + asks r w := by
  rw [setFlag_apply, asks]
  by_cases hr : r = some w
  · cases flag w <;> simp [hr]
  · have hbeq : (r == some w) = false := by simpa using hr
    simp [hr, hbeq]

/-- A flag that is taken: one action, if it was set. -/
theorem loopStep_balance (s : State) (w : Want) :
    (loopStep s).performed w + ((loopStep s).flag w).toNat = s.performed w + (s.flag w).toNat := by
  unfold loopStep
  cases hloop : s.loop with
  | frame => rfl
  | taking v =>
      dsimp only
      rw [countUp_apply]
      by_cases hv : v = w
      · subst hv
        cases hf : s.flag v <;> simp [asks]
      · have hne : (if s.flag v = true then some v else none) ≠ some w := by
          split <;> simp [hv]
        simp [asks, hne, Function.update_of_ne (Ne.symm hv)]

/-- **One step.**  What is asked for is done, pending or lost, and it is lost when its flag was
still set. -/
theorem step_balance (ht : Tracks s) (h : step s a = some t) :
    Tracks t ∧ ∀ w,
      t.performed w + (t.flag w).toNat + overrun w s a + requests s w =
        s.performed w + (s.flag w).toNat + requests t w := by
  cases a with
  | sample x =>
      rw [step] at h
      split at h
      · cases h
        obtain ⟨htracks, hcount⟩ := sampler_spec ht x
        refine ⟨htracks, fun w => ?_⟩
        have hflag := setFlag_balance s.flag (request s (.sample x)) w
        have hc := hcount w
        have hreq : request s (.sample x) = (buttonSampler s.press x.nowMs x.level).2 := rfl
        simp only [overrun, requests]
        rw [hreq] at hflag ⊢
        omega
      · cases h
  | user1 =>
      cases h
      refine ⟨ht, fun w => ?_⟩
      have hflag := setFlag_balance s.flag (Action.signal .user1) w
      have hcount := countUp_apply s.signalled (Action.signal .user1) w
      simp only [overrun, requests, request]
      omega
  | user2 =>
      cases h
      refine ⟨ht, fun w => ?_⟩
      have hflag := setFlag_balance s.flag (Action.signal .user2) w
      have hcount := countUp_apply s.signalled (Action.signal .user2) w
      simp only [overrun, requests, request]
      omega
  | loop =>
      cases h
      have hloop (w : Want) := loopStep_balance s w
      have hkeep : (loopStep s).press = s.press ∧ (loopStep s).samples = s.samples ∧
          (loopStep s).signalled = s.signalled := by
        unfold loopStep
        split <;> exact ⟨rfl, rfl, rfl⟩
      obtain ⟨hpress, hsamples, hsignalled⟩ := hkeep
      refine ⟨by rw [Tracks, hpress, hsamples]; exact ht, fun w => ?_⟩
      have hno : overrun w s .loop = 0 := Nat.zero_mul _
      have hw := hloop w
      simp only [hno, requests, hsamples, hsignalled]
      omega

/-! ### Runs -/

/-- What a run has lost of each class: nothing, just when every request found its flag
clear. -/
def Accounted (as : List Action) (s : State) : Prop :=
  Tracks s ∧ ∀ w, ∃ lost,
    s.performed w + (s.flag w).toNat + lost = requests s w ∧
    (lost = 0 ↔ RunWith step (Clear w) {} as s)

theorem accounted_snoc {as : List Action} (hrun : Run step {} as s) (h : Accounted as s)
    (hstep : step s a = some t) : Accounted (as ++ [a]) t := by
  obtain ⟨htracks, hbalance⟩ := step_balance h.1 hstep
  refine ⟨htracks, fun w => ?_⟩
  obtain ⟨lost, heq, hiff⟩ := h.2 w
  refine ⟨lost + overrun w s a, ?_, ?_⟩
  · have hw := hbalance w
    omega
  · rw [hrun.snoc_iff hstep, ← hiff, ← overrun_eq_zero]
    exact Nat.add_eq_zero_iff

/-- **Every run** is accounted for. -/
theorem accounted_run {as : List Action} (h : Run step {} as s) : Accounted as s := by
  induction h with
  | nil =>
      refine ⟨rfl, fun w => ⟨0, rfl, ?_⟩⟩
      exact iff_of_true rfl .nil
  | snoc hrun _ hstep ih => exact accounted_snoc hrun ih hstep

/-- A run without signals counts none. -/
theorem signalled_eq_zero {as : List Action} (h : Run step {} as s)
    (hquiet : ∀ a ∈ as, a.signal = none) : s.signalled = fun _ => 0 := by
  induction h with
  | nil => rfl
  | @snoc as t u a _ _ hstep ih =>
      have hinit : t.signalled = fun _ => 0 := ih fun a ha => hquiet a (List.mem_append_left _ ha)
      have hlast : a.signal = none := hquiet a (by simp)
      cases a with
      | sample x =>
          rw [step] at hstep
          split at hstep
          · cases hstep
            exact hinit
          · cases hstep
      | user1 => cases hlast
      | user2 => cases hlast
      | loop =>
          cases hstep
          unfold loopStep
          split <;> exact hinit

/-- **When no press is lost.**  Over a run of the sampler and the loop, in any interleaving,
at whose end the flag of class `w` has been taken, the loop has performed as many actions of
that class as presses of it were completed if and only if at every release of a press of that
class the loop had taken the flag of the one before. -/
theorem no_press_lost_iff {as : List Action} {s : State} (h : Run step {} as s)
    (hquiet : ∀ a ∈ as, a.signal = none) (w : Want) (htaken : s.flag w = false) :
    s.performed w = completed s.samples w ↔ RunWith step (Clear w) {} as s := by
  obtain ⟨lost, heq, hiff⟩ := (accounted_run h).2 w
  have hsig : s.signalled w = 0 := congrFun (signalled_eq_zero h hquiet) w
  rw [← hiff]
  rw [htaken, requests, hsig] at heq
  simp only [Bool.toNat_false] at heq
  omega

/-- One short press, handled. -/
def onePress : List Action :=
  [Action.sample ⟨0, some 0⟩, .sample ⟨15, none⟩, .sample ⟨30, some 1⟩, .loop, .loop]

theorem no_press_lost_iff_one : ∃ s, Run step {} onePress s ∧
    (s.performed .nextPattern = completed s.samples .nextPattern ↔
      RunWith step (Clear .nextPattern) {} onePress s) := by
  have hreach : ∃ s, Run step {} onePress s ∧ (!s.flag .nextPattern) = true :=
    run_exists_of_check (by decide +kernel)
  obtain ⟨s, hrun, htaken⟩ := hreach
  refine ⟨s, hrun, ?_⟩
  exact no_press_lost_iff hrun (by decide) .nextPattern (by simpa using htaken)

/-- Two short presses while the loop is in one frame, and then all flags taken. -/
def twoPresses : List Action :=
  [Action.sample ⟨0, some 0⟩, .sample ⟨15, some 1⟩, .sample ⟨30, some 0⟩, .sample ⟨45, some 1⟩,
    .loop, .loop, .loop, .loop]

/-- **Two presses in one frame are one action.** -/
theorem presses_in_one_frame :
    ¬ ∀ (as : List Action) (s : State), Run step {} as s → (∀ a ∈ as, a.signal = none) →
      s.loop = .frame → (∀ w, s.flag w = false) →
      ∀ w, s.performed w = completed s.samples w := by
  intro h
  have hreach : ∃ s, Run step {} twoPresses s ∧
      (s.loop == .frame && !s.flag .nextPattern && !s.flag .nextScreen && !s.flag .switchBackend &&
        s.performed .nextPattern != completed s.samples .nextPattern) = true :=
    run_exists_of_check (by decide +kernel)
  obtain ⟨s, hrun, hend⟩ := hreach
  simp only [Bool.and_eq_true, beq_iff_eq, Bool.not_eq_true', bne_iff_ne] at hend
  obtain ⟨⟨⟨⟨hloop, hpattern⟩, hscreen⟩, hbackend⟩, hne⟩ := hend
  refine hne (h twoPresses s hrun (by decide) hloop ?_ .nextPattern)
  intro w
  cases w with
  | nextPattern => exact hpattern
  | nextScreen => exact hscreen
  | switchBackend => exact hbackend

end BadgeOS.Oled.Button
