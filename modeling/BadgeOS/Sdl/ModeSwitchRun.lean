import BadgeOS.Sdl.ModeSwitch
import Mathlib

/-!
# The desktop mode, over a run

A switch ends when the output reports the recorded mode while its head is in it.  As long as no
report of another mode is then still on its way, the display stays what it was before the first
switch, and comes back to it.

* `findMode_eq`, `setDisplayMode_cases` — a target, and the three ways a request can go;
* `Kept` — the invariant, and `Kept.step`;
* `mode_switch_run` — a run of requests, answers and reports.
-/

namespace BadgeOS.Sdl.Output

open Transition

variable {V : Video} {s t : State} {home : Mode} {request : Request} {first second : Answer}

/-! ### Targets -/

/-- **A mode of the head is found** by its own size and refresh rate. -/
theorem findMode_eq {head : Head} {m : Mode} (hm : m ∈ head.modes) :
    ∃ i, findMode head m = some i ∧ head.modes[i]? = some m := by
  obtain ⟨k, hk⟩ := List.mem_iff_getElem?.1 hm
  have hfit : (m, k) ∈ head.modes.zipIdx.filter
      (fun p : Mode × ℕ => p.1.width = m.width ∧ p.1.height = m.height) :=
    List.mem_filter.2 ⟨List.mem_zipIdx_iff_getElem?.2 hk, by simp⟩
  unfold findMode closest
  cases hmin : (head.modes.zipIdx.filter
      (fun p : Mode × ℕ => p.1.width = m.width ∧ p.1.height = m.height)).argmin
        (fun p => (p.1.refresh - m.refresh).natAbs) with
  | none =>
      rw [List.argmin_eq_none] at hmin
      rw [hmin] at hfit
      cases hfit
  | some p =>
      have hmem := List.mem_filter.1 (List.argmin_mem hmin)
      have hle := List.le_of_mem_argmin hfit hmin
      have hsize : p.1.width = m.width ∧ p.1.height = m.height := by simpa using hmem.2
      have hrefresh : p.1.refresh = m.refresh := by
        dsimp only at hle
        omega
      have hmode : p.1 = m := by
        cases hp : p.1
        cases m
        simp_all
      exact ⟨p.2, rfl, hmode ▸ List.mem_zipIdx_iff_getElem?.1 hmem.1⟩

/-- A target is a mode of the head. -/
theorem findMode_mem {head : Head} {m : Mode} {i : ℕ} (h : findMode head m = some i) :
    ∃ m', head.modes[i]? = some m' := by
  unfold findMode closest at h
  obtain ⟨p, hp, rfl⟩ := Option.map_eq_some_iff.1 h
  have hmem := (List.mem_filter.1 (List.argmin_mem hp)).1
  exact ⟨p.1, List.mem_zipIdx_iff_getElem?.1 hmem⟩

/-! ### A request -/

/-- The mode that a switch goes back to: the recorded one, or at the first switch the current. -/
def back (s : State) (m : Mode) : Mode := if s.active then s.record else m

/-- A switch to mode `i` that succeeded, from mode `m`. -/
def switched (s : State) (m : Mode) (i : ℕ) : State :=
  { attempt s i .succeeded with record := back s m, active := true }

/-- `ApplyMode` with a target: a success, or nothing happened. -/
theorem applyMode_cases {m : Mode} {i : ℕ} (hi : findMode s.head m = some i) :
    ((first = .succeeded ∨ second = .succeeded) ∧
      applyMode s m first second = (attempt s i .succeeded, .succeeded)) ∨
    ∃ a, a ≠ .succeeded ∧ applyMode s m first second = (s, a) := by
  unfold applyMode
  rw [hi]
  cases first with
  | succeeded => exact Or.inl ⟨Or.inl rfl, rfl⟩
  | failed => exact Or.inr ⟨.failed, Answer.noConfusion, rfl⟩
  | cancelled =>
      cases second with
      | succeeded => exact Or.inl ⟨Or.inr rfl, rfl⟩
      | failed => exact Or.inr ⟨.failed, Answer.noConfusion, rfl⟩
      | cancelled => exact Or.inr ⟨.cancelled, Answer.noConfusion, rfl⟩

theorem refused_ne_set (request : Request) :
    (if request = .desktop then Outcome.error else .emulated) ≠ .set := by
  split <;> exact Outcome.noConfusion

/-- A switch to a target. -/
theorem switchMode_cases (request : Request) (first second : Answer) {m m' : Mode} {i : ℕ}
    (hm : s.head.current = some m)
    (hi : findMode s.head m' = some i) :
    ((first = .succeeded ∨ second = .succeeded) ∧
      switchMode s request s.head.current m' first second = (switched s m i, .set)) ∨
    ∃ o, o ≠ .set ∧
      switchMode s request s.head.current m' first second = ({ s with record := back s m }, o) := by
  unfold switchMode
  dsimp only
  cases hactive : s.active with
  | true =>
      have hback : back s m = s.record := by rw [back, hactive, if_pos rfl]
      rw [if_pos rfl]
      obtain ⟨hanswer, happly⟩ | ⟨a, ha, happly⟩ := applyMode_cases (s := s) hi
      · refine Or.inl ⟨hanswer, ?_⟩
        rw [happly, switched, hback]
        show ((attempt s i .succeeded, Outcome.set) : State × Outcome) = _
        rw [← hactive]
        rfl
      · refine Or.inr ⟨_, refused_ne_set request, ?_⟩
        rw [happly, hback]
        cases a with
        | succeeded => exact absurd rfl ha
        | failed => rw [← hactive]
        | cancelled => rw [← hactive]
  | false =>
      have hback : back s m = m := by rw [back, hactive, if_neg Bool.false_ne_true]
      rw [if_neg Bool.false_ne_true, hm]
      dsimp only
      obtain ⟨hanswer, happly⟩ | ⟨a, ha, happly⟩ :=
        applyMode_cases (s := { s with record := m, active := true }) hi
      · refine Or.inl ⟨hanswer, ?_⟩
        rw [happly, switched, hback]
        rfl
      · refine Or.inr ⟨_, refused_ne_set request, ?_⟩
        rw [happly, hback]
        cases a with
        | succeeded => exact absurd rfl ha
        | failed => rw [← hactive]
        | cancelled => rw [← hactive]

/-- **The three ways a request can go**: nothing to switch, a switch that succeeded, or one that
the compositor refused. -/
theorem setDisplayMode_cases (request : Request) (first second : Answer) {m : Mode}
    (hm : s.head.current = some m) :
    (∃ o, setDisplayMode s request first second = (s, o) ∧ (o = .set →
      (request = .desktop ∧ s.active = false) ∨
        ∃ i, findMode s.head (hardwareMode s request) = some i ∧ s.head.currentMode = some i)) ∨
    (∃ i, findMode s.head (hardwareMode s request) = some i ∧
      (first = .succeeded ∨ second = .succeeded) ∧ (request = .desktop → s.active = true) ∧
        setDisplayMode s request first second = (switched s m i, .set)) ∨
    (∃ o, o ≠ .set ∧
      setDisplayMode s request first second = ({ s with record := back s m }, o)) := by
  unfold setDisplayMode
  split
  · rename_i hdesktop
    refine Or.inl ⟨.set, rfl, fun _ => Or.inl ⟨hdesktop.1, ?_⟩⟩
    simpa using hdesktop.2
  rename_i hasked
  have hactive (hdesktop : request = .desktop) : s.active = true := by
    by_contra hnot
    exact hasked ⟨hdesktop, by simpa using hnot⟩
  dsimp only
  split
  · exact Or.inl ⟨_, rfl, fun hset => absurd hset (refused_ne_set request)⟩
  · rename_i head hhead
    obtain rfl : s.head = head := by
      unfold findSwitchableHead at hhead
      split at hhead
      · exact Option.some.inj hhead
      · cases hhead
    split
    · exact Or.inl ⟨_, rfl, fun hset => absurd hset (refused_ne_set request)⟩
    · rename_i i hi
      split
      · rename_i hcurrent
        exact Or.inl ⟨.set, rfl, fun _ => Or.inr ⟨i, hi, hcurrent⟩⟩
      · obtain ⟨hanswer, hswitch⟩ | hrefused := switchMode_cases request first second hm hi
        · exact Or.inr (Or.inl ⟨i, hi, hanswer, hactive, hswitch⟩)
        · exact Or.inr (Or.inr hrefused)

/-! ### The invariant -/

/-- **What stays**: the record is the mode from before the switch, outside a switch the output and
all its reports are in that mode, and the display is as it was. -/
structure Kept (V : Video) (home : Mode) (d : Display) (s : State) : Prop where
  mode : home ∈ s.head.modes
  current : ∃ m, s.head.current = some m
  record : s.active = true → s.record = home
  ended : s.active = false → s.head.current = some home ∧ ∀ r ∈ s.pending, r = home
  last : s.active = true → s.head.current = some home → s.pending.getLast? = some home
  desktop : s.display.desktopMode = d.desktopMode
  list : s.display.fullscreenModes = d.fullscreenModes
  built : V.rebuild home (headDisplayModes s) = d
  returned : s.restored = true → s.head.current = some home ∧ (s.active = false → s.display = d)

/-- No report of another mode is on its way when a report of the recorded mode ends the switch. -/
def Settled (s : State) : Act → Prop
  | .handle => s.active = true → s.head.current = some s.record → s.pending.head? = some s.record →
      ∀ r ∈ s.pending, r = s.record
  | _ => True

instance (s : State) : (a : Act) → Decidable (Settled s a)
  | .handle => inferInstanceAs (Decidable (s.active = true → s.head.current = some s.record →
      s.pending.head? = some s.record → ∀ r ∈ s.pending, r = s.record))
  | .request _ _ _ => isTrue trivial
  | .report => isTrue trivial

/-- A state before the first request. -/
structure Start (V : Video) (home : Mode) (s : State) : Prop where
  inactive : s.active = false
  unasked : s.restored = false
  current : s.head.current = some home
  pending : ∀ r ∈ s.pending, r = home
  built : s.display = V.rebuild home (headDisplayModes s)

theorem mem_of_current {head : Head} {m : Mode} (h : head.current = some m) : m ∈ head.modes := by
  unfold Head.current at h
  obtain ⟨i, -, hi⟩ := Option.bind_eq_some_iff.1 h
  exact List.mem_of_getElem? hi

theorem Start.kept (h : Start V home s) : Kept V home s.display s where
  mode := mem_of_current h.current
  current := ⟨home, h.current⟩
  record hactive := by rw [h.inactive] at hactive; cases hactive
  ended _ := ⟨h.current, h.pending⟩
  last hactive := by rw [h.inactive] at hactive; cases hactive
  desktop := rfl
  list := rfl
  built := h.built.symm
  returned hrestored := by rw [h.unasked] at hrestored; cases hrestored

section Kept

variable {d : Display}

/-- The modes that a display takes of its head stay while the head's modes do. -/
theorem headDisplayModes_congr (hmodes : t.head.modes = s.head.modes)
    (htransform : t.transform90 = s.transform90) : headDisplayModes t = headDisplayModes s := by
  unfold headDisplayModes findSwitchableHead
  rw [hmodes]
  by_cases htwo : 2 ≤ s.head.modes.length
  · rw [if_pos htwo, if_pos htwo]
    dsimp only
    rw [hmodes, htransform]
  · rw [if_neg htwo, if_neg htwo]

/-- The record of a switch that begins or goes on. -/
theorem Kept.back_eq (h : Kept V home d s) {m : Mode} (hm : s.head.current = some m) :
    back s m = home := by
  unfold back
  split
  · rename_i hactive
    exact h.record hactive
  · rename_i hactive
    rw [(h.ended (by simpa using hactive)).1] at hm
    exact (Option.some.inj hm).symm

/-- The desktop mode's target is the mode from before the switch. -/
theorem Kept.target (h : Kept V home d s) (hactive : s.active = true) {i : ℕ}
    (hi : findMode s.head (hardwareMode s .desktop) = some i) : s.head.modes[i]? = some home := by
  have hrecord : hardwareMode s .desktop = home := h.record hactive
  obtain ⟨j, hj, hhome⟩ := findMode_eq h.mode
  rw [hrecord, hj] at hi
  rw [← Option.some.inj hi]
  exact hhome

/-- A display in its desktop mode is the one from before the switch. -/
theorem Kept.display_eq (hV : V.Lawful) (h : Kept V home d s) :
    { s.display with currentMode := s.display.desktopMode } = d := by
  have hcurrent : d.currentMode = d.desktopMode := by
    rw [← h.built]
    exact hV _ _
  show Display.mk s.display.desktopMode s.display.fullscreenModes s.display.desktopMode = d
  rw [h.desktop, h.list]
  exact congrArg (Display.mk d.desktopMode d.fullscreenModes) hcurrent.symm

/-- **A request.** -/
theorem Kept.asked (hV : V.Lawful) (h : Kept V home d s) (request : Request)
    (first second : Answer) : Kept V home d (setDisplayModeForDisplay s request first second) := by
  obtain ⟨m, hm⟩ := h.current
  have hback := h.back_eq hm
  unfold setDisplayModeForDisplay
  obtain ⟨o, hresult, hset⟩ | ⟨i, hi, -, hactive, hresult⟩ | ⟨o, ho, hresult⟩ :=
    setDisplayMode_cases request first second hm
  · -- nothing to switch
    rw [hresult]
    cases o with
    | set =>
        refine ⟨h.mode, h.current, h.record, h.ended, h.last, h.desktop, h.list, h.built, ?_⟩
        intro hrestored
        have hdesktop : request = .desktop := by simpa using hrestored
        subst hdesktop
        refine ⟨?_, fun _ => h.display_eq hV⟩
        show s.head.current = some home
        cases hactive : s.active with
        | false => exact (h.ended hactive).1
        | true =>
            obtain ⟨-, hinactive⟩ | ⟨i, hi, hcurrent⟩ := hset rfl
            · rw [hinactive] at hactive
              cases hactive
            · unfold Head.current
              rw [hcurrent]
              exact h.target hactive hi
    | emulated =>
        exact ⟨h.mode, h.current, h.record, h.ended, h.last, h.desktop, h.list, h.built,
          fun hrestored => by cases hrestored⟩
    | error =>
        exact ⟨h.mode, h.current, h.record, h.ended, h.last, h.desktop, h.list, h.built,
          fun hrestored => by cases hrestored⟩
  · -- a switch that succeeded
    obtain ⟨m', hm'⟩ := findMode_mem hi
    have hcurrent : (switched s m i).head.current = some m' := hm'
    have hpending : (switched s m i).pending = s.pending ++ [m'] := by
      show s.pending ++ s.head.modes[i]?.toList = _
      rw [hm']
      rfl
    rw [hresult]
    exact {
      mode := h.mode
      current := ⟨m', hcurrent⟩
      record := fun _ => hback
      ended := fun hended => by cases hended
      last := fun _ hhome => by
        have hhome' : (switched s m i).head.current = some home := hhome
        show (switched s m i).pending.getLast? = some home
        rw [hpending, List.getLast?_concat, ← hcurrent]
        exact hhome'
      desktop := h.desktop
      list := h.list
      built := by
        rw [← h.built]
        exact congrArg (V.rebuild home) (headDisplayModes_congr rfl rfl)
      returned := fun hrestored => by
        have hdesktop : request = .desktop := by simpa using hrestored
        subst hdesktop
        exact ⟨h.target (hactive rfl) hi, fun hended => by cases hended⟩ }
  · -- a switch that was refused
    have hkept : Kept V home d { s with record := back s m, restored := false } :=
      ⟨h.mode, h.current, fun _ => hback, h.ended, h.last, h.desktop, h.list, h.built,
        fun hrestored => by cases hrestored⟩
    rw [hresult]
    cases o with
    | set => exact absurd rfl ho
    | emulated => exact hkept
    | error => exact hkept

/-- A report that is sent. -/
theorem Kept.report (h : Kept V home d s) :
    Kept V home d { s with pending := s.pending ++ s.head.current.toList } := by
  obtain ⟨m, hm⟩ := h.current
  rw [hm]
  exact {
    mode := h.mode
    current := ⟨m, hm⟩
    record := h.record
    ended := fun hended => by
      have hhome := (h.ended hended).1
      rw [hm] at hhome
      refine ⟨hm.trans hhome, ?_⟩
      intro r hr
      obtain hr | hr := List.mem_append.1 hr
      · exact (h.ended hended).2 r hr
      · rw [List.mem_singleton.1 hr]
        exact Option.some.inj hhome
    last := fun _ hhome => by
      show (s.pending ++ [m]).getLast? = some home
      rw [List.getLast?_concat, ← hm]
      exact hhome
    desktop := h.desktop
    list := h.list
    built := h.built
    returned := h.returned }

theorem setSwitchedDisplayMode_kept (display : Display) (reported : DisplayMode) :
    (setSwitchedDisplayMode display reported).desktopMode = display.desktopMode ∧
      (setSwitchedDisplayMode display reported).fullscreenModes = display.fullscreenModes := by
  unfold setSwitchedDisplayMode
  split
  · exact ⟨rfl, rfl⟩
  · exact ⟨rfl, rfl⟩

/-- A report of a mode that the client switched to. -/
theorem Kept.switched (h : Kept V home d s) (hactive : s.active = true) {r : Mode}
    {rest : List Mode} (hpending : s.pending = r :: rest)
    (hother : s.head.current = some home → r ≠ home) (reported : DisplayMode) :
    Kept V home d { s with
      pixel := r
      pending := rest
      display := setSwitchedDisplayMode s.display reported } where
  mode := h.mode
  current := h.current
  record := h.record
  ended hended := by
    have hended' : s.active = false := hended
    rw [hactive] at hended'
    cases hended'
  last _ hhome := by
    have hlast := h.last hactive hhome
    rw [hpending] at hlast
    cases rest with
    | nil => exact absurd (Option.some.inj hlast) (hother hhome)
    | cons r' rest => rwa [List.getLast?_cons_cons] at hlast
  desktop := (setSwitchedDisplayMode_kept _ _).1.trans h.desktop
  list := (setSwitchedDisplayMode_kept _ _).2.trans h.list
  built := h.built
  returned hrestored := by
    refine ⟨(h.returned hrestored).1, fun hended => ?_⟩
    have hended' : s.active = false := hended
    rw [hactive] at hended'
    cases hended'

/-- A report of the mode from before the switch, outside a switch or at its end. -/
theorem Kept.rebuilt (h : Kept V home d s) {r : Mode} {rest : List Mode}
    (hpending : s.pending = r :: rest) (hall : ∀ r ∈ s.pending, r = home)
    (hhome : s.head.current = some home) :
    Kept V home d { s with
      pixel := r
      active := false
      pending := rest
      display := V.rebuild r (headDisplayModes { s with pixel := r, pending := rest }) } := by
  rw [hpending] at hall
  obtain rfl := hall r List.mem_cons_self
  have hbuilt : V.rebuild r (headDisplayModes { s with pixel := r, pending := rest }) = d := h.built
  rw [hbuilt]
  exact {
    mode := h.mode
    current := ⟨r, hhome⟩
    record := fun hactive => by cases hactive
    ended := fun _ => ⟨hhome, fun r' hr' => hall r' (List.mem_cons_of_mem r hr')⟩
    last := fun hactive => by cases hactive
    desktop := rfl
    list := rfl
    built := h.built
    returned := fun _ => ⟨hhome, fun _ => rfl⟩ }

/-- **A report that is handled.** -/
theorem Kept.handle (h : Kept V home d s) (hsettled : Settled s .handle) {r : Mode}
    {rest : List Mode} (hpending : s.pending = r :: rest) :
    Kept V home d (handleOutputDone V { s with pixel := r, pending := rest }) := by
  obtain ⟨m, hm⟩ := h.current
  unfold handleOutputDone isOutputModeSwitched
  dsimp only
  cases hactive : s.active with
  | false =>
      obtain ⟨hhome, hall⟩ := h.ended hactive
      rw [Bool.not_false, if_pos rfl]
      exact h.rebuilt hpending hall hhome
  | true =>
      have hrecord := h.record hactive
      rw [Bool.not_true, if_neg Bool.false_ne_true, hm]
      dsimp only
      by_cases hr : r = s.record
      · rw [if_neg (not_not_intro hr)]
        by_cases hcurrent : m = s.record
        · -- the switch ends
          rw [if_neg (not_not_intro hcurrent)]
          have hhome : s.head.current = some s.record := by rw [hm, hcurrent]
          have hall := hsettled hactive hhome (by rw [hpending, hr]; rfl)
          rw [hrecord] at hall hhome
          exact h.rebuilt hpending hall hhome
        · rw [if_pos hcurrent]
          dsimp only
          rw [← hactive]
          refine h.switched hactive hpending ?_ _
          intro hhome
          rw [hm, ← hrecord] at hhome
          exact absurd (Option.some.inj hhome) hcurrent
      · rw [if_pos hr]
        dsimp only
        rw [← hactive]
        refine h.switched hactive hpending ?_ _
        rw [← hrecord]
        exact fun _ => hr

/-- **The step lemma.** -/
theorem Kept.step (hV : V.Lawful) {a : Act} (h : Kept V home d s) (hsettled : Settled s a)
    (hstep : step V s a = some t) : Kept V home d t := by
  cases a with
  | request request first second =>
      obtain rfl := Option.some.inj hstep
      exact h.asked hV request first second
  | report =>
      obtain rfl := Option.some.inj hstep
      exact h.report
  | handle =>
      cases hpending : s.pending with
      | nil =>
          simp only [Output.step, hpending] at hstep
          cases hstep
      | cons r rest =>
          simp only [Output.step, hpending] at hstep
          obtain rfl := Option.some.inj hstep
          exact h.handle hsettled hpending

end Kept

/-! ### Runs -/

/-- **A run of requests, answers and reports**, in which no report of another mode is on its way
when a report of the recorded mode ends the switch.  During a switch the record is the mode from
before it; the desktop mode and the mode list stay; a request that the compositor refuses leaves
the output and the record; and after a restore that succeeded, with all reports handled, the
switch is over and the display is the one from before it. -/
theorem mode_switch_run (hV : V.Lawful) (hstart : Start V home s) {as : List Act}
    (hrun : RunWith (step V) Settled s as t) :
    (t.active = true → t.record = home) ∧
    t.display.desktopMode = s.display.desktopMode ∧
    t.display.fullscreenModes = s.display.fullscreenModes ∧
    (∀ request first second u, first ≠ .succeeded → second ≠ .succeeded →
      step V t (.request request first second) = some u →
        u.head = t.head ∧ u.active = t.active ∧ (t.active = true → u.record = t.record)) ∧
    (t.restored = true → t.pending = [] → t.active = false ∧ t.display = s.display) := by
  have hkept : Kept V home s.display t :=
    hrun.invariant (fun _ _ _ h hsettled hstep => h.step hV hsettled hstep) hstart.kept
  refine ⟨hkept.record, hkept.desktop, hkept.list, ?_, ?_⟩
  · intro request first second u hfirst hsecond hstep
    obtain rfl := Option.some.inj hstep
    obtain ⟨m, hm⟩ := hkept.current
    unfold setDisplayModeForDisplay
    obtain ⟨o, hresult, -⟩ | ⟨i, -, hanswer, -⟩ | ⟨o, ho, hresult⟩ :=
      setDisplayMode_cases request first second hm
    · rw [hresult]
      cases o with
      | set => exact ⟨rfl, rfl, fun _ => rfl⟩
      | emulated => exact ⟨rfl, rfl, fun _ => rfl⟩
      | error => exact ⟨rfl, rfl, fun _ => rfl⟩
    · obtain hanswer | hanswer := hanswer
      · exact absurd hanswer hfirst
      · exact absurd hanswer hsecond
    · have hrecord (hactive : t.active = true) : back t m = t.record := by rw [back, if_pos hactive]
      rw [hresult]
      cases o with
      | set => exact absurd rfl ho
      | emulated => exact ⟨rfl, rfl, hrecord⟩
      | error => exact ⟨rfl, rfl, hrecord⟩
  · intro hrestored hpending
    obtain ⟨hhome, hdisplay⟩ := hkept.returned hrestored
    cases hactive : t.active with
    | false => exact ⟨rfl, hdisplay hactive⟩
    | true =>
        have hlast := hkept.last hactive hhome
        rw [hpending] at hlast
        cases hlast

/-! ### One output of two modes -/

/-- A display that shows a report as it is, and the modes of the head. -/
def plainVideo : Video where
  nativeMode m := ⟨m.width, m.height, m.refresh, 1000, 0⟩
  rebuild m modes :=
    ⟨⟨m.width, m.height, m.refresh, 1000, 0⟩, modes, ⟨m.width, m.height, m.refresh, 1000, 0⟩⟩

theorem plainVideo_lawful : plainVideo.Lawful := fun _ _ => rfl

/-- An output of 1920×1080 that can show 1280×720, with one report on its way. -/
def twoModes : State where
  transform90 := false
  head := ⟨[⟨1920, 1080, 60000⟩, ⟨1280, 720, 60000⟩], some 0⟩
  pixel := ⟨1920, 1080, 60000⟩
  active := false
  record := ⟨0, 0, 0⟩
  display := plainVideo.rebuild ⟨1920, 1080, 60000⟩
    [⟨1920, 1080, 60000, 1000, 0⟩, ⟨1280, 720, 60000, 1000, 0⟩]
  pending := [⟨1920, 1080, 60000⟩]
  restored := false

theorem twoModes_start : Start plainVideo ⟨1920, 1080, 60000⟩ twoModes where
  inactive := rfl
  unasked := rfl
  current := rfl
  pending := fun _ hr => List.mem_singleton.1 hr
  built := by decide

/-- A switch to 1280×720. -/
def smaller : Act := .request (.fullscreen ⟨1280, 720, 60000, 1000, 0⟩) .succeeded .failed

def desktop : Act := .request .desktop .cancelled .succeeded

/-- The first report handled at once, then a switch, its report, the way back and its report. -/
theorem mode_switch_run_back :
    ∃ t, Run (step plainVideo) twoModes [.handle, smaller, .handle, desktop, .handle] t ∧
      t.active = false ∧ t.display = twoModes.display := by
  have hcheck : (runFromWith (step plainVideo) (fun s a => decide (Settled s a)) twoModes
      [.handle, smaller, .handle, desktop, .handle]).any
        (fun t => decide (t.restored = true ∧ t.pending = [])) = true := by decide
  obtain ⟨t, hrun, hdone⟩ := runWith_exists_of_check hcheck
  have hsettled := hrun.mono fun _ _ h => of_decide_eq_true h
  have hall := mode_switch_run plainVideo_lawful twoModes_start hsettled
  obtain ⟨hrestored, hpending⟩ := of_decide_eq_true hdone
  exact ⟨t, hrun.run, hall.2.2.2.2 hrestored hpending⟩

/-- A report from before the switch that is handled after the way back ends the switch, and then
the report of 1280×720 becomes the desktop mode. -/
theorem mode_switch_late_report :
    ¬ ∀ (V : Video) (home : Mode) (s t : State) (as : List Act), V.Lawful → Start V home s →
      Run (step V) s as t → t.display.desktopMode = s.display.desktopMode := by
  intro hall
  have hcheck : (runFrom (step plainVideo) twoModes [smaller, desktop, .handle, .handle]).any
      (fun t => decide (t.display.desktopMode = ⟨1280, 720, 60000, 1000, 0⟩)) = true := by decide
  obtain ⟨t, hrun, hdesktop⟩ := run_exists_of_check hcheck
  have hkept := hall plainVideo _ _ t _ plainVideo_lawful twoModes_start hrun
  rw [of_decide_eq_true hdesktop] at hkept
  exact absurd hkept (by decide)

end BadgeOS.Sdl.Output
