import BadgeOS.Lib.Transition
import BadgeOS.Oled.Navigation
import Mathlib

/-!
# Hidden screens

A hidden screen is transient: a jump reaches it, and its time up it goes back.  A turn of the
loop is taken apart into its phases, and beside the loop runs a watch, which the phases do not
read: the last screen shown that is not hidden, the one an auto-return owes its user, and
whether the index to come back to has lost its screen.

* `Phase`, `iterate_eq_phases` — a turn is its phases in order;
* `Watch` — the loop with what it is held to;
* `Kept` — what one phase has to keep, and `Good`, when it does;
* `hidden_screens_transient` — over every run of good phases.
-/

namespace BadgeOS.Oled

open Transition

/-- The parts of a turn, and the restart, which a power cut brings at any time. -/
inductive Phase
  | restart (stored : Option Name) (set : LoadedSet) (nowMs : ℕ)
  | render (rendered : Option ℕ)
  | nextScreen (nowMs : ℕ) (want : Bool)
  | jump (nowMs : ℕ) (want : ℤ)
  | autoReturn (nowMs autoReturnMs : ℕ)
  | switchBackend (nowMs : ℕ) (reopened : Option Reopened)

/-- One phase of the loop; a turn begins with its render, and there is none once the loop has
stopped. -/
def Phase.run : Phase → Option Loop → Option Loop
  | .restart stored set nowMs, _ => start stored set nowMs
  | _, none => none
  | .render rendered, some s =>
      if !s.running then none
      else do
        let cur ← s.current
        return (s.render cur rendered).1
  | .nextScreen nowMs want, some s => s.takeNextScreen nowMs want
  | .jump nowMs want, some s => s.takeJump nowMs want
  | .autoReturn nowMs autoReturnMs, some s => s.autoReturn nowMs autoReturnMs
  | .switchBackend nowMs reopened, some s => s.takeSwitch nowMs reopened

/-- The phases of a turn.  The render asks for the auto-return, and a fault asks for none. -/
def Turn.phases (t : Turn) : List Phase :=
  [.render t.rendered, .nextScreen t.nowMs t.nextScreen, .jump t.nowMs t.jump,
   .autoReturn t.nowMs (t.rendered.getD 0), .switchBackend t.nowMs t.switchBackend]

theorem Loop.render_asks (s : Loop) (cur : Screen) (rendered : Option ℕ) :
    (s.render cur rendered).2 = rendered.getD 0 := by
  cases rendered <;> rfl

/-- **A turn is its phases.** -/
theorem iterate_eq_phases {s : Loop} (hrun : s.running = true) (t : Turn) :
    iterate s t = t.phases.foldlM (fun s p => p.run (some s)) s := by
  cases hcur : s.current with
  | none => simp [iterate, Turn.phases, Phase.run, hrun, hcur]
  | some cur =>
      have hasks := s.render_asks cur t.rendered
      simp [iterate, Turn.phases, Phase.run, hrun, hcur, hasks]

/-! ### The watch -/

/-- The loop, and what is remembered beside it: the last current screen that is not hidden, the
one that was that before the last switch, and whether `prevScreenIx` has lost its screen. -/
structure Watch where
  loop : Option Loop := none
  last : Option Screen := none
  home : Option Screen := none
  stale : Bool := false
  deriving DecidableEq

/-- The screen of the same name, after the slice was built again. -/
def refind (active : List Screen) (r : Screen) : Option Screen :=
  (findScreen active r.name).bind fun ix => active[ix]?

/-- The index that a render takes out of the slice. -/
def Loop.dropped (s : Loop) (rendered : Option ℕ) : Option ℕ :=
  if rendered.isNone ∧ 1 < s.screens.length then
    s.current.bind fun cur => findScreen s.screens cur.name
  else none

/-- What the watch notes of a phase that leads to `after`. -/
def Watch.note (w : Watch) (after : Loop) : Phase → Watch
  | .restart _ _ _ => { loop := some after }
  | .render rendered =>
      { w with
        loop := some after
        stale := w.stale || w.loop.any fun s =>
          (s.dropped rendered).any fun rm => decide (rm ≤ s.prevScreenIx) }
  | .nextScreen _ _ | .jump _ _ =>
      if w.loop.any fun s => decide (s.screenIx ≠ after.screenIx) then
        { loop := some after, last := w.last, home := w.last }
      else { w with loop := some after }
  | .switchBackend _ (some (.loaded _ _)) =>
      let home := w.home.bind (refind after.screens)
      { loop := some after, last := w.last.bind (refind after.screens), home := home,
        stale := decide (home ≠ after.screens[0]?) }
  | _ => { w with loop := some after }

/-- The screen that is current. -/
def Watch.current (w : Watch) : Option Screen := w.loop.bind Loop.current

/-- The current screen is the last shown, unless it is hidden. -/
def Watch.look (w : Watch) : Watch :=
  match w.current with
  | some c => if c.hidden then w else { w with last := some c }
  | none => w

/-- A phase of the loop, watched. -/
def Watch.step (w : Watch) (p : Phase) : Option Watch :=
  (p.run w.loop).map fun after => (w.note after p).look

@[simp] theorem Watch.look_loop (w : Watch) : w.look.loop = w.loop := by
  unfold Watch.look
  split
  · split <;> rfl
  · rfl

@[simp] theorem Watch.look_home (w : Watch) : w.look.home = w.home := by
  unfold Watch.look
  split
  · split <;> rfl
  · rfl

@[simp] theorem Watch.look_stale (w : Watch) : w.look.stale = w.stale := by
  unfold Watch.look
  split
  · split <;> rfl
  · rfl

@[simp] theorem Watch.note_loop (w : Watch) (after : Loop) (p : Phase) :
    (w.note after p).loop = some after := by
  unfold Watch.note
  split <;> first | rfl | split <;> rfl

/-- **The watch is beside the loop**: the phases run as they do without it. -/
theorem Watch.step_loop {w w' : Watch} {p : Phase} (h : w.step p = some w') :
    ∃ after, p.run w.loop = some after ∧ w' = (w.note after p).look ∧ w'.loop = some after := by
  rw [Watch.step, Option.map_eq_some_iff] at h
  obtain ⟨after, hrun, rfl⟩ := h
  exact ⟨after, hrun, rfl, by simp⟩

/-! ### What a phase has to keep -/

/-- The phase is a direct jump. -/
def Phase.isJump : Phase → Bool
  | .jump _ _ => true
  | _ => false

/-- The screen `c` was current before the phase: the same entry, or, where the slice is built
again, the entry of that name. -/
def Phase.keeps (p : Phase) (c₀ c : Screen) : Prop :=
  match p with
  | .restart _ _ _ => False
  | .switchBackend _ _ => c₀.name = c.name
  | _ => c₀ = c

/-- An auto-return that moves the index. -/
def Watch.returned (w w' : Watch) (p : Phase) : Prop :=
  (∃ nowMs ms, p = .autoReturn nowMs ms) ∧ w.loop.map Loop.screenIx ≠ w'.loop.map Loop.screenIx

/-- A hidden screen becomes current by a jump alone, and an auto-return goes to the last screen
shown before the switch, if that one is still there. -/
structure Watch.Kept (w : Watch) (p : Phase) (w' : Watch) : Prop where
  hidden : p.isJump = false → ∀ c, w'.current = some c → c.hidden = true →
    ∃ c₀, w.current = some c₀ ∧ p.keeps c₀ c
  home : w.returned w' p → ∀ r s, w.home = some r → w.loop = some s → r ∈ s.screens →
    w'.current = some r

/-- The auto-return moves the index. -/
def Loop.ReturnDue (s : Loop) (nowMs autoReturnMs : ℕ) : Prop :=
  0 < autoReturnMs ∧ autoReturnMs ≤ nowMs - s.screenEnteredMs ∧
    s.prevScreenIx < s.screens.length ∧ s.prevScreenIx ≠ s.screenIx

/-- The screen behind the one at `ix`, and the first behind the last. -/
def Loop.behind (s : Loop) (ix : ℕ) : Option Screen :=
  if ix + 1 < s.screens.length then s.screens[ix + 1]? else s.screens[0]?

/-- When a phase keeps it:
* the restart finds the stored screen, not hidden, or the first screen is not hidden;
* the screen behind one that is dropped is not hidden;
* an auto-return comes to a screen that is not hidden, and the index it goes by has lost
  nothing, or the screen it owes is gone too;
* a change of the evaluator finds the current screen's name again, or the first screen is not
  hidden, and the name fits the buffer. -/
def Watch.Good (w : Watch) : Phase → Prop
  | .restart stored set _ =>
      let active := buildEvalRegistry set
      (∀ c, active[restoreScreen stored active]? = some c → c.hidden = false) ∨
        ∀ c, active[0]? = some c → c.hidden = false
  | .render rendered =>
      ∀ s, w.loop = some s → s.dropped rendered = some s.screenIx →
        ∀ c, s.behind s.screenIx = some c → c.hidden = false
  | .nextScreen _ _ | .jump _ _ => True
  | .autoReturn nowMs autoReturnMs =>
      ∀ s, w.loop = some s → s.ReturnDue nowMs autoReturnMs →
        (∀ c, s.screens[s.prevScreenIx]? = some c → c.hidden = false) ∧
        (w.stale = true → ∀ r, w.home = some r → r ∉ s.screens)
  | .switchBackend _ reopened =>
      ∀ set freed, reopened = some (.loaded set freed) → ∀ c, w.current = some c →
        c.name.length ≤ 64 ∧
        ((findScreen (buildEvalRegistry set) c.name).isSome ∨
          ∀ c', (buildEvalRegistry set)[0]? = some c' → c'.hidden = false)

/-! ### What a phase does -/

@[simp] theorem persistScreen_screens (s : Loop) (name : Name) :
    (persistScreen s name).screens = s.screens := by
  unfold persistScreen
  split <;> rfl

@[simp] theorem persistScreen_screenIx (s : Loop) (name : Name) :
    (persistScreen s name).screenIx = s.screenIx := by
  unfold persistScreen
  split <;> rfl

@[simp] theorem persistScreen_prevScreenIx (s : Loop) (name : Name) :
    (persistScreen s name).prevScreenIx = s.prevScreenIx := by
  unfold persistScreen
  split <;> rfl

/-- The index stays, or moves and remembers where it was. -/
structure Loop.Switched (s t : Loop) : Prop where
  screens : t.screens = s.screens
  index : (t.screenIx = s.screenIx ∧ t.prevScreenIx = s.prevScreenIx) ∨
    (t.screenIx ≠ s.screenIx ∧ t.prevScreenIx = s.screenIx)

theorem Loop.Inv.takeNextScreen_spec {s t : Loop} (h : s.Inv) {nowMs : ℕ} {want : Bool}
    (hrun : s.takeNextScreen nowMs want = some t) :
    s.Switched t ∧ (t.screenIx ≠ s.screenIx → ∀ c, t.current = some c → c.hidden = false) := by
  unfold Loop.takeNextScreen at hrun
  cases want with
  | false =>
      obtain rfl : s = t := by simpa using hrun
      exact ⟨⟨rfl, .inl ⟨rfl, rfl⟩⟩, fun hmoved => absurd rfl hmoved⟩
  | true =>
      obtain ⟨turns, r, hwalk, -, hr, hend⟩ :
          ∃ turns r, walk s.screens s.screens.length 0 s.screenIx = some (turns, r) ∧
            turns ≤ 0 + s.screens.length ∧ ∃ hr : r < s.screens.length,
              s.screens[r].hidden = false ∨
                r = (s.screenIx + s.screens.length) % s.screens.length := walk_spec h.live 0
      by_cases hsame : r = s.screenIx
      · obtain rfl : { s with log := .walked turns s.screens.length :: s.log } = t := by
          simpa [hwalk, hsame] using hrun
        exact ⟨⟨rfl, .inl ⟨rfl, rfl⟩⟩, fun hmoved => absurd rfl hmoved⟩
      · have hvisible : s.screens[r].hidden = false := by
          rcases hend with hvisible | hround
          · exact hvisible
          · rw [Nat.add_mod_right, Nat.mod_eq_of_lt h.live] at hround
            exact absurd hround hsame
        obtain rfl := by simpa [hwalk, hsame, Loop.current, hr] using hrun
        constructor
        · exact ⟨by simp, .inr ⟨by simpa using hsame, by simp⟩⟩
        · intro _ c hc
          obtain rfl : s.screens[r] = c := by simpa [Loop.current, hr] using hc
          exact hvisible

theorem Loop.takeJump_spec {s t : Loop} {nowMs : ℕ} {want : ℤ}
    (hrun : s.takeJump nowMs want = some t) : s.Switched t := by
  unfold Loop.takeJump at hrun
  have hstay : s.Switched s := ⟨rfl, .inl ⟨rfl, rfl⟩⟩
  by_cases hnone : want = jumpNone
  · obtain rfl : s = t := by simpa [hnone] using hrun
    exact hstay
  rw [if_neg hnone] at hrun
  cases htarget : jumpTarget s.screens want with
  | none =>
      obtain rfl : s = t := by simpa [htarget] using hrun
      exact hstay
  | some tix =>
      by_cases hsame : tix = s.screenIx
      · obtain rfl : s = t := by simpa [htarget, hsame] using hrun
        exact hstay
      · have hlt := jumpTarget_lt htarget
        obtain rfl := by simpa [htarget, hsame, hlt] using hrun
        split
        · exact ⟨by simp, .inr ⟨by simpa using hsame, by simp⟩⟩
        · exact ⟨by simp, .inr ⟨by simpa using hsame, by simp⟩⟩

/-- An auto-return that is not due does nothing. -/
theorem Loop.autoReturn_spec {s t : Loop} {nowMs ms : ℕ} (hrun : s.autoReturn nowMs ms = some t) :
    s = t ∨ (s.ReturnDue nowMs ms ∧
      t = { s with screenIx := s.prevScreenIx, screenEnteredMs := nowMs }) := by
  unfold Loop.autoReturn at hrun
  split at hrun
  · rename_i hdue
    obtain ⟨-, -, hprev, -⟩ := id hdue
    obtain rfl := by simpa [Loop.current, hprev] using hrun
    exact .inr ⟨hdue, rfl⟩
  · exact .inl (Option.some.inj hrun)

/-- The first screen of the current name is the current one, or one before it. -/
theorem Loop.dropped_le {s : Loop} (h : s.Inv) {rendered : Option ℕ} {rm : ℕ}
    (hdrop : s.dropped rendered = some rm) : rm ≤ s.screenIx := by
  unfold Loop.dropped at hdrop
  split at hdrop
  · rw [h.current] at hdrop
    obtain ⟨_, _, hfirst⟩ := List.findIdx?_eq_some_iff_getElem.1 hdrop
    by_contra hlt
    have hnot := hfirst s.screenIx (by omega)
    simp at hnot
  · cases hdrop

/-- A render that drops nothing leaves the loop as it is. -/
theorem Loop.render_of_not_dropped {s : Loop} {cur : Screen} (hcur : s.current = some cur)
    {rendered : Option ℕ} (hdrop : s.dropped rendered = none) : (s.render cur rendered).1 = s := by
  cases rendered with
  | some ms => rfl
  | none =>
      unfold Loop.dropped at hdrop
      have hsame : dropScreen s.screens cur.name s.screenIx = (s.screens, s.screenIx) := by
        unfold dropScreen
        by_cases hone : s.screens.length ≤ 1
        · cases findScreen s.screens cur.name with
          | none => rfl
          | some rm => simp [hone]
        · have hfind : findScreen s.screens cur.name = none := by
            simpa [hone, hcur, Nat.lt_of_not_le hone] using hdrop
          simp [hfind]
      simp [Loop.render, hsame]

theorem Loop.render_of_dropped {s : Loop} (h : s.Inv) {cur : Screen} (hcur : s.current = some cur)
    {rendered : Option ℕ} {rm : ℕ} (hdrop : s.dropped rendered = some rm) :
    (s.render cur rendered).1.screens = s.screens.eraseIdx rm ∧
      (s.render cur rendered).1.prevScreenIx = s.prevScreenIx ∧
      (s.render cur rendered).1.current =
        if rm = s.screenIx then s.behind s.screenIx else s.current := by
  have hle := Loop.dropped_le h hdrop
  have hlive := h.live
  unfold Loop.dropped at hdrop
  split at hdrop
  · rename_i hfault
    obtain ⟨hnone, hlen⟩ := hfault
    obtain rfl : rendered = none := by simpa using hnone
    have hfind : findScreen s.screens cur.name = some rm := by simpa [hcur] using hdrop
    have hshorter : (s.screens.eraseIdx rm).length = s.screens.length - 1 :=
      List.length_eraseIdx_of_lt (by omega)
    have hdropped : dropScreen s.screens cur.name s.screenIx =
        (s.screens.eraseIdx rm,
          if s.screens.length - 1 ≤ (if rm < s.screenIx then s.screenIx - 1 else s.screenIx)
          then 0 else if rm < s.screenIx then s.screenIx - 1 else s.screenIx) := by
      simp [dropScreen, hfind, Nat.not_le.2 hlen, hshorter]
    refine ⟨by simp [Loop.render, hdropped], rfl, ?_⟩
    rw [Loop.render, hdropped]
    simp only [Loop.current, Loop.behind, List.getElem?_eraseIdx]
    by_cases hown : rm = s.screenIx
    · -- the index now points at the screen behind, or wraps
      subst hown
      by_cases hlast : s.screenIx + 1 < s.screens.length
      · have hstay : ¬ s.screens.length - 1 ≤ s.screenIx := by omega
        simp [hlast, hstay]
      · have hend : s.screens.length - 1 ≤ s.screenIx := by omega
        have hpos : 0 < s.screenIx := by omega
        simp [hlast, hend, hpos]
    · -- the index moves with its screen
      have hbefore : rm < s.screenIx := by omega
      have hstay : ¬ s.screens.length - 1 ≤ s.screenIx - 1 := by omega
      have hafter : ¬ s.screenIx - 1 < rm := by omega
      have hsame : s.screenIx - 1 + 1 = s.screenIx := by omega
      simp [hown, hbefore, hstay, hafter, hsame]
  · cases hdrop

/-- A switch that finds no new set keeps the screens. -/
theorem Loop.takeSwitch_spec {s t : Loop} {nowMs : ℕ} {reopened : Option Reopened}
    (hrun : s.takeSwitch nowMs reopened = some t) :
    (t.screens = s.screens ∧ t.screenIx = s.screenIx ∧ t.prevScreenIx = s.prevScreenIx ∧
      ∀ set freed, reopened ≠ some (.loaded set freed)) ∨
    ∃ set freed keep, reopened = some (.loaded set freed) ∧ s.current = some keep ∧
      t.screens = buildEvalRegistry set ∧ t.prevScreenIx = 0 ∧
      t.screenIx = (findScreen t.screens
        (if keep.name.length ≤ 64 then keep.name else freed)).getD 0 := by
  cases reopened with
  | none =>
      obtain rfl : s = t := by simpa [Loop.takeSwitch] using hrun
      exact .inl ⟨rfl, rfl, rfl, by simp⟩
  | some reopened =>
      cases hcur : s.current with
      | none => simp [Loop.takeSwitch, hcur] at hrun
      | some keep =>
          cases reopened with
          | lost =>
              obtain rfl := by simpa [Loop.takeSwitch, hcur] using hrun
              exact .inl ⟨rfl, rfl, rfl, by simp⟩
          | loaded set freed =>
              obtain rfl := by simpa [Loop.takeSwitch, hcur] using hrun
              exact .inr ⟨set, freed, keep, rfl, rfl, rfl, rfl, rfl⟩

/-! ### The watch along a run -/

theorem Phase.run_inv {p : Phase} {l : Option Loop} {t : Loop} (h : ∀ s, l = some s → s.Inv)
    (hrun : p.run l = some t) : t.Inv := by
  have hone {f : Option Loop} (hf : ∃ u, f = some u ∧ u.Inv) (ht : f = some t) : t.Inv := by
    obtain ⟨u, hu, hinv⟩ := hf
    rw [hu] at ht
    exact Option.some.inj ht ▸ hinv
  cases p with
  | restart stored set nowMs =>
      have hstart : start stored set nowMs = some t := by simpa [Phase.run] using hrun
      exact hone (start_inv stored set nowMs) hstart
  | render rendered =>
      cases l with
      | none => simp [Phase.run] at hrun
      | some s =>
          have hs := h s rfl
          obtain ⟨cur, hcur⟩ : ∃ cur, s.current = some cur := ⟨_, hs.current⟩
          have ht : s.running = true ∧ (s.render cur rendered).1 = t := by
            simpa [Phase.run, hcur] using hrun
          exact ht.2 ▸ hs.render cur rendered
  | nextScreen nowMs want =>
      cases l with
      | none => simp [Phase.run] at hrun
      | some s => exact hone ((h s rfl).takeNextScreen nowMs want) hrun
  | jump nowMs want =>
      cases l with
      | none => simp [Phase.run] at hrun
      | some s => exact hone ((h s rfl).takeJump nowMs want) hrun
  | autoReturn nowMs ms =>
      cases l with
      | none => simp [Phase.run] at hrun
      | some s => exact hone ((h s rfl).autoReturn nowMs ms) hrun
  | switchBackend nowMs reopened =>
      cases l with
      | none => simp [Phase.run] at hrun
      | some s => exact hone ((h s rfl).takeSwitch nowMs reopened) hrun

/-- The loop is live; a current screen that is not hidden is the last one; and, unless the index
to come back to has lost its screen, a screen there that is not hidden is the one owed. -/
structure Watch.Inv (w : Watch) : Prop where
  live : ∀ s, w.loop = some s → s.Inv
  last : ∀ c, w.current = some c → c.hidden = false → w.last = some c
  home : w.stale = false → ∀ s r c, w.loop = some s → w.home = some r → r ∈ s.screens →
    s.screens[s.prevScreenIx]? = some c → c.hidden = false → c = r

theorem Watch.look_current (w : Watch) : w.look.current = w.current := by
  rw [Watch.current, Watch.look_loop, ← Watch.current]

theorem Watch.look_last {w : Watch} {c : Screen} (hcur : w.current = some c)
    (hvisible : c.hidden = false) : w.look.last = some c := by
  simp [Watch.look, hcur, hvisible]

/-- What is left of the invariant after a phase: what is owed. -/
theorem Watch.Inv.of_home {w w' : Watch} {p : Phase} (h : w.Inv) {after : Loop}
    (hrun : p.run w.loop = some after) (hw' : w' = (w.note after p).look)
    (hhome : (w.note after p).stale = false → ∀ r c, (w.note after p).home = some r →
      r ∈ after.screens → after.screens[after.prevScreenIx]? = some c → c.hidden = false →
      c = r) : w'.Inv := by
  subst hw'
  constructor
  · intro s hs
    obtain rfl : after = s := by simpa using hs
    exact Phase.run_inv h.live hrun
  · intro c hc hvisible
    rw [Watch.look_current] at hc
    exact Watch.look_last hc hvisible
  · intro hstale s r c hs hr hmem hprev hvisible
    obtain rfl : after = s := by simpa using hs
    rw [Watch.look_stale] at hstale
    rw [Watch.look_home] at hr
    exact hhome hstale r c hr hmem hprev hvisible

/-- A phase that ends in another screen only where that one is not hidden keeps what it has
to. -/
theorem Watch.Kept.of_current {w w' : Watch} {p : Phase} {after : Loop}
    (hloop : w'.loop = some after) (hreturn : ∀ nowMs ms, p ≠ .autoReturn nowMs ms)
    (hcur : p.isJump = false → ∀ c, after.current = some c → c.hidden = true →
      ∃ c₀, w.current = some c₀ ∧ p.keeps c₀ c) : w.Kept p w' := by
  constructor
  · intro hjump c hc
    have hafter : after.current = some c := by simpa [Watch.current, hloop] using hc
    exact hcur hjump c hafter
  · intro hreturned
    obtain ⟨⟨nowMs, ms, hp⟩, -⟩ := hreturned
    exact absurd hp (hreturn nowMs ms)

theorem Watch.Inv.restart {w w' : Watch} (h : w.Inv) {stored : Option Name} {set : LoadedSet}
    {nowMs : ℕ} (hgood : w.Good (.restart stored set nowMs))
    (hstep : w.step (.restart stored set nowMs) = some w') :
    w'.Inv ∧ w.Kept (.restart stored set nowMs) w' := by
  obtain ⟨after, hrun, hw', hloop⟩ := Watch.step_loop hstep
  constructor
  · refine h.of_home hrun hw' ?_
    intro _ r c hr
    simp [Watch.note] at hr
  · refine Watch.Kept.of_current hloop (by simp) ?_
    intro _ c hc hhidden
    -- the restore goes back to screen 0 from a hidden one
    exfalso
    have hstart : start stored set nowMs = some after := by simpa [Phase.run] using hrun
    simp only [start, Option.bind_eq_bind, Option.bind_eq_some_iff] at hstart
    obtain ⟨first, hfirst, cur, hcur, hafter⟩ := hstart
    obtain rfl := by simpa using hafter
    obtain rfl : cur = c := by simpa [Loop.current, hcur] using hc
    by_cases hany : ((buildEvalRegistry set)[restoreScreen stored (buildEvalRegistry set)]?).any
        (·.hidden) = true
    · rw [if_pos hany] at hcur
      rcases hgood with hstored | hzero
      · obtain ⟨stored', hstored', hhidden'⟩ := (Option.any_eq_true _ _).1 hany
        have hvisible := hstored stored' hstored'
        rw [hvisible] at hhidden'
        cases hhidden'
      · have hvisible := hzero cur hcur
        rw [hvisible] at hhidden
        cases hhidden
    · rw [if_neg hany] at hcur
      simp [hcur, hhidden] at hany

theorem Watch.Inv.render {w w' : Watch} (h : w.Inv) {rendered : Option ℕ}
    (hgood : w.Good (.render rendered)) (hstep : w.step (.render rendered) = some w') :
    w'.Inv ∧ w.Kept (.render rendered) w' := by
  obtain ⟨after, hrun, hw', hloop⟩ := Watch.step_loop hstep
  cases hs : w.loop with
  | none => simp [Phase.run, hs] at hrun
  | some s =>
      have hlive := h.live s hs
      obtain ⟨cur, hcur⟩ : ∃ cur, s.current = some cur := ⟨_, hlive.current⟩
      have hwcur : w.current = some cur := by simpa [Watch.current, hs] using hcur
      obtain ⟨-, hafter⟩ : s.running = true ∧ (s.render cur rendered).1 = after := by
        simpa [Phase.run, hs, hcur] using hrun
      cases hdrop : s.dropped rendered with
      | none =>
          obtain rfl : s = after := by rw [← hafter, Loop.render_of_not_dropped hcur hdrop]
          constructor
          · refine h.of_home hrun hw' ?_
            intro hstale r c hr
            have hfresh : w.stale = false := by simpa [Watch.note, hs, hdrop] using hstale
            exact h.home hfresh s r c hs hr
          · refine Watch.Kept.of_current hloop (by simp) ?_
            intro _ c hc _
            obtain rfl : cur = c := by simpa [hcur] using hc
            exact ⟨cur, hwcur, rfl⟩
      | some rm =>
          obtain ⟨hscreens, hprev, hnow⟩ := Loop.render_of_dropped hlive hcur hdrop
          rw [hafter] at hscreens hprev hnow
          constructor
          · refine h.of_home hrun hw' ?_
            intro hstale r c hr hmem hback
            obtain ⟨hfresh, hbefore⟩ : w.stale = false ∧ s.prevScreenIx < rm := by
              simpa [Watch.note, hs, hdrop] using hstale
            rw [hscreens] at hmem hback
            rw [hprev, List.getElem?_eraseIdx, if_pos hbefore] at hback
            exact h.home hfresh s r c hs hr (List.mem_of_mem_eraseIdx hmem) hback
          · refine Watch.Kept.of_current hloop (by simp) ?_
            intro _ c hc hhidden
            rw [hc] at hnow
            by_cases hown : rm = s.screenIx
            · rw [if_pos hown] at hnow
              have hbehind := hgood s hs (by rw [hdrop, hown]) c hnow.symm
              simp [hhidden] at hbehind
            · rw [if_neg hown, hcur] at hnow
              obtain rfl : c = cur := Option.some.inj hnow
              exact ⟨c, hwcur, rfl⟩

/-- A move by a press or a jump remembers the screen it left. -/
theorem Watch.Inv.of_switched {w w' : Watch} (h : w.Inv) {p : Phase} {s after : Loop}
    (hp : (∃ nowMs want, p = .nextScreen nowMs want) ∨ ∃ nowMs want, p = .jump nowMs want)
    (hs : w.loop = some s) (hrun : p.run w.loop = some after)
    (hw' : w' = (w.note after p).look) (hmove : s.Switched after) : w'.Inv := by
  refine h.of_home hrun hw' ?_
  have hnote : w.note after p =
      if s.screenIx ≠ after.screenIx then { loop := some after, last := w.last, home := w.last }
      else { w with loop := some after } := by
    rcases hp with ⟨nowMs, want, rfl⟩ | ⟨nowMs, want, rfl⟩ <;> simp [Watch.note, hs]
  rw [hnote, hmove.screens]
  intro hstale r c hr hmem hback hvisible
  rcases hmove.index with ⟨hsame, hprev⟩ | ⟨hmoved, hprev⟩
  · rw [hprev] at hback
    simp only [hsame, ne_eq, not_true_eq_false, if_false] at hstale hr
    exact h.home hstale s r c hs hr hmem hback hvisible
  · rw [hprev] at hback
    have hcur : w.current = some c := by simpa [Watch.current, Loop.current, hs] using hback
    have hlast : w.last = some c := h.last c hcur hvisible
    simp only [ne_eq, Ne.symm hmoved, not_false_eq_true, if_true, hlast] at hr
    exact Option.some.inj hr

theorem Watch.Inv.nextScreen {w w' : Watch} (h : w.Inv) {nowMs : ℕ} {want : Bool}
    (hstep : w.step (.nextScreen nowMs want) = some w') :
    w'.Inv ∧ w.Kept (.nextScreen nowMs want) w' := by
  obtain ⟨after, hrun, hw', hloop⟩ := Watch.step_loop hstep
  cases hs : w.loop with
  | none => simp [Phase.run, hs] at hrun
  | some s =>
      have hnext : s.takeNextScreen nowMs want = some after := by
        simpa [Phase.run, hs] using hrun
      obtain ⟨hmove, hvisible⟩ := (h.live s hs).takeNextScreen_spec hnext
      refine ⟨h.of_switched (.inl ⟨nowMs, want, rfl⟩) hs hrun hw' hmove, ?_⟩
      refine Watch.Kept.of_current hloop (by simp) ?_
      intro _ c hc hhidden
      by_cases hsame : after.screenIx = s.screenIx
      · refine ⟨c, ?_, rfl⟩
        rw [Loop.current, hmove.screens, hsame] at hc
        simpa [Watch.current, Loop.current, hs] using hc
      · have hnot := hvisible hsame c hc
        simp [hhidden] at hnot

theorem Watch.Inv.jump {w w' : Watch} (h : w.Inv) {nowMs : ℕ} {want : ℤ}
    (hstep : w.step (.jump nowMs want) = some w') : w'.Inv ∧ w.Kept (.jump nowMs want) w' := by
  obtain ⟨after, hrun, hw', hloop⟩ := Watch.step_loop hstep
  cases hs : w.loop with
  | none => simp [Phase.run, hs] at hrun
  | some s =>
      have hjump : s.takeJump nowMs want = some after := by simpa [Phase.run, hs] using hrun
      have hmove := Loop.takeJump_spec hjump
      refine ⟨h.of_switched (.inr ⟨nowMs, want, rfl⟩) hs hrun hw' hmove, ?_⟩
      refine Watch.Kept.of_current hloop (by simp) ?_
      intro hnot
      cases hnot

theorem Watch.Inv.autoReturn {w w' : Watch} (h : w.Inv) {nowMs ms : ℕ}
    (hgood : w.Good (.autoReturn nowMs ms)) (hstep : w.step (.autoReturn nowMs ms) = some w') :
    w'.Inv ∧ w.Kept (.autoReturn nowMs ms) w' := by
  obtain ⟨after, hrun, hw', hloop⟩ := Watch.step_loop hstep
  cases hs : w.loop with
  | none => simp [Phase.run, hs] at hrun
  | some s =>
      have hreturn : s.autoReturn nowMs ms = some after := by simpa [Phase.run, hs] using hrun
      have hcases := Loop.autoReturn_spec hreturn
      have hsame : after.screens = s.screens ∧ after.prevScreenIx = s.prevScreenIx := by
        rcases hcases with rfl | ⟨-, rfl⟩
        · exact ⟨rfl, rfl⟩
        · exact ⟨rfl, rfl⟩
      refine ⟨h.of_home hrun hw' ?_, ?_, ?_⟩
      · rw [hsame.1, hsame.2]
        intro hstale r c hr
        exact h.home hstale s r c hs hr
      · intro _ c hc hhidden
        have hnow : after.current = some c := by simpa [Watch.current, hloop] using hc
        rcases hcases with rfl | ⟨hdue, rfl⟩
        · exact ⟨c, by simpa [Watch.current, hs] using hnow, rfl⟩
        · have hvisible := (hgood s hs hdue).1 c hnow
          rw [hvisible] at hhidden
          cases hhidden
      · intro hreturned r s' hr hs' hmem
        obtain rfl : s = s' := by simpa [hs] using hs'
        rcases hcases with rfl | ⟨hdue, rfl⟩
        · exact absurd (by rw [hs, hloop]) hreturned.2
        · obtain ⟨hvisible, hfresh⟩ := hgood s hs hdue
          have hstale : w.stale = false := by
            by_contra hnot
            exact hfresh (by simpa using hnot) r hr hmem
          obtain ⟨-, -, hprev, -⟩ := hdue
          have hback : s.screens[s.prevScreenIx]? = some s.screens[s.prevScreenIx] :=
            List.getElem?_eq_getElem hprev
          have howed := h.home hstale s r _ hs hr hmem hback (hvisible _ hback)
          rw [Watch.current, hloop]
          show s.screens[s.prevScreenIx]? = some r
          rw [hback, howed]

theorem Watch.Inv.switchBackend {w w' : Watch} (h : w.Inv) {nowMs : ℕ}
    {reopened : Option Reopened} (hgood : w.Good (.switchBackend nowMs reopened))
    (hstep : w.step (.switchBackend nowMs reopened) = some w') :
    w'.Inv ∧ w.Kept (.switchBackend nowMs reopened) w' := by
  obtain ⟨after, hrun, hw', hloop⟩ := Watch.step_loop hstep
  cases hs : w.loop with
  | none => simp [Phase.run, hs] at hrun
  | some s =>
      have hswitch : s.takeSwitch nowMs reopened = some after := by
        simpa [Phase.run, hs] using hrun
      rcases Loop.takeSwitch_spec hswitch with
        ⟨hscreens, hix, hprev, hnone⟩ | ⟨set, freed, keep, rfl, hkeep, hscreens, hprev, hix⟩
      · have hnote : w.note after (.switchBackend nowMs reopened) =
            { w with loop := some after } := by
          cases reopened with
          | none => rfl
          | some reopened =>
              cases reopened with
              | lost => rfl
              | loaded set freed => exact absurd rfl (hnone set freed)
        constructor
        · refine h.of_home hrun hw' ?_
          rw [hnote, hscreens, hprev]
          intro hstale r c hr
          exact h.home hstale s r c hs hr
        · refine Watch.Kept.of_current hloop (by simp) ?_
          intro _ c hc _
          refine ⟨c, ?_, rfl⟩
          rw [Loop.current, hscreens, hix] at hc
          simpa [Watch.current, Loop.current, hs] using hc
      · have hcur : w.current = some keep := by simpa [Watch.current, hs] using hkeep
        constructor
        · refine h.of_home hrun hw' ?_
          rw [hprev]
          intro hstale r c hr _ hback _
          have hfirst : w.home.bind (refind after.screens) = after.screens[0]? := by
            simpa [Watch.note] using hstale
          have hhome : w.home.bind (refind after.screens) = some r := hr
          rw [hfirst, hback] at hhome
          exact Option.some.inj hhome
        · refine Watch.Kept.of_current hloop (by simp) ?_
          intro _ c hc hhidden
          refine ⟨keep, hcur, ?_⟩
          obtain ⟨hlen, hfound⟩ := hgood set freed rfl keep hcur
          rw [if_pos hlen, hscreens] at hix
          rw [Loop.current, hscreens, hix] at hc
          cases hfind : findScreen (buildEvalRegistry set) keep.name with
          | some k =>
              obtain ⟨hk, hname, -⟩ := List.findIdx?_eq_some_iff_getElem.1 hfind
              obtain rfl : (buildEvalRegistry set)[k] = c := by simpa [hfind, hk] using hc
              have hsame : (buildEvalRegistry set)[k].name = keep.name := by simpa using hname
              exact hsame.symm
          | none =>
              have hzero := hfound.resolve_left (by simp [hfind]) c (by simpa [hfind] using hc)
              rw [hzero] at hhidden
              cases hhidden

/-- **One good phase** keeps the invariant, and what it has to. -/
theorem Watch.Inv.step {w w' : Watch} (h : w.Inv) {p : Phase} (hgood : w.Good p)
    (hstep : w.step p = some w') : w'.Inv ∧ w.Kept p w' := by
  cases p with
  | restart stored set nowMs => exact h.restart hgood hstep
  | render rendered => exact h.render hgood hstep
  | nextScreen nowMs want => exact h.nextScreen hstep
  | jump nowMs want => exact h.jump hstep
  | autoReturn nowMs ms => exact h.autoReturn hgood hstep
  | switchBackend nowMs reopened => exact h.switchBackend hgood hstep

theorem Watch.inv_nil : Watch.Inv {} := by
  constructor
  · simp
  · simp [Watch.current]
  · simp

/-- **Hidden screens are transient** in every run whose phases are good: through presses, jumps,
faulting renders, auto-returns, changes of the evaluator and restarts with any stored name, a
hidden screen becomes current by a jump alone, and an auto-return makes the screen current that
was the last not hidden before the switch, if that one is still in the slice. -/
theorem hidden_screens_transient {phases : List Phase} {w : Watch}
    (hrun : RunWith Watch.step Watch.Good {} phases w) {p : Phase} {w' : Watch} (hgood : w.Good p)
    (hstep : w.step p = some w') : w.Kept p w' := by
  have hinv : w.Inv :=
    hrun.invariant (fun _ _ _ h hG hs => (Watch.Inv.step h hG hs).1) Watch.inv_nil
  exact (hinv.step hgood hstep).2

/-- `"a"`, then the hidden `"h"`, then `"b"`. -/
def hiddenBetween : LoadedSet := ⟨[([97], false), ([104], true), ([98], false)], by decide⟩

/-- The watch after a jump to its hidden screen. -/
def onHidden : Watch where
  loop := some { screens := buildEvalRegistry hiddenBetween, screenIx := 1, screenEnteredMs := 10 }
  last := some ⟨[97], 0, false⟩
  home := some ⟨[97], 0, false⟩

/-- A jump to the hidden screen, and back from it. -/
theorem hidden_screens_transient_back :
    onHidden.Kept (.autoReturn 100 50)
      { onHidden with
        loop := some { screens := buildEvalRegistry hiddenBetween, screenIx := 0,
                       screenEnteredMs := 100 } } := by
  have hzero : ∀ c, (buildEvalRegistry hiddenBetween)[0]? = some c → c.hidden = false := by
    intro c hc
    obtain rfl : (⟨[97], 0, false⟩ : Screen) = c := Option.some.inj hc
    rfl
  have hrun : RunWith Watch.step Watch.Good {}
      ([] ++ [.restart none hiddenBetween 0] ++ [.jump 10 1]) onHidden :=
    .snoc (.snoc .nil (.inr hzero) rfl) trivial rfl
  refine hidden_screens_transient hrun ?_ rfl
  intro s hs _
  obtain rfl := Option.some.inj hs
  exact ⟨hzero, by simp [onHidden]⟩

/-- A fault in the first screen makes the hidden one behind it current, with no jump; and two
jumps go through two hidden screens, and the second comes back to the first. -/
theorem hidden_screens_not_transient :
    (∃ s₀ s, start none hiddenBetween 0 = some s₀ ∧
      iterate s₀ { nowMs := 0, rendered := none } = some s ∧
      s₀.current = some ⟨[97], 0, false⟩ ∧ s.current = some ⟨[104], 1, true⟩) ∧
    ∃ (set : LoadedSet) (s₀ s : Loop),
      start none set 0 = some s₀ ∧ s₀.current = some ⟨[97], 0, false⟩ ∧
      [{ nowMs := 0, jump := 1 }, { nowMs := 10, jump := 2 },
       { nowMs := 100, rendered := some 50 : Turn }].foldlM iterate s₀ = some s ∧
      ⟨[97], 0, false⟩ ∈ s.screens ∧ s.current = some ⟨[104], 1, true⟩ := by
  constructor
  · exact ⟨_, _, rfl, rfl, rfl, rfl⟩
  · refine ⟨⟨[([97], false), ([104], true), ([105], true)], by decide⟩, _, _, rfl, rfl, rfl, ?_,
      rfl⟩
    decide

end BadgeOS.Oled
