import BadgeOS.Lib.Text
import Mathlib

/-!
# Which screen is up

The loop keeps an index into the slice of active screens and one to come back to.  A render
fault drops a screen out of the slice, a long press walks on to the next visible screen, a
signal jumps to any, a transient screen returns by itself, and a change of the evaluator
rebuilds the slice.  Indexing is checked: a step that indexes past the slice has no result.

* `start`, `iterate` — the restore, and one turn of the loop with what happens in it;
* `Event` — what is observed on the way: the walks, and the names written to the state file;
* `Loop.Inv` — the index is live, the walks ended and the names written are right;
* `screen_index_always_live` — over every run.
-/

namespace BadgeOS.Oled

/-- The bytes of a name. -/
abbrev Name := List UInt8

/-- An entry of the registry. -/
structure Screen where
  name : Name
  eval : ℕ
  hidden : Bool := false
  deriving DecidableEq, Repr

/-- What is observed of a run: a walk, with the screens it looked at and the number there are;
and a name written, with the screen that is current then. -/
inductive Event
  | walked (turns len : ℕ)
  | wrote (name : Name) (current : Option Screen)
  deriving DecidableEq, Repr

/-- The loop's variables, with what has been observed, the newest first. -/
structure Loop where
  screens : List Screen
  screenIx : ℕ
  prevScreenIx : ℕ := 0
  screenEnteredMs : ℕ
  running : Bool := true
  log : List Event := []
  deriving DecidableEq, Repr

/-- `active_screens[screen_ix]`. -/
def Loop.current (s : Loop) : Option Screen := s.screens[s.screenIx]?

/-- `max_eval_screens`. -/
def maxEvalScreens : ℕ := 24

/-- A set that has been opened: names and `hidden` flags, of one screen at least. -/
abbrev LoadedSet := { set : List (Name × Bool) // set ≠ [] }

/-- The registry of a set. -/
def buildEvalRegistry (set : LoadedSet) : List Screen :=
  (set.1.take maxEvalScreens).mapIdx fun n s => { name := s.1, eval := n, hidden := s.2 }

/-- The index of the screen named `name`. -/
def findScreen (active : List Screen) (name : Name) : Option ℕ :=
  active.findIdx? fun s => s.name == name

/-- The index of the first screen whose name contains `frag`. -/
def findScreenContaining (active : List Screen) (frag : Name) : Option ℕ :=
  active.findIdx? fun s => decide (frag <:+: s.name)

/-- What `std.mem.trim` takes off a name. -/
def isBlank (c : UInt8) : Bool := c == 32 || c == 9 || c == 13 || c == 10

/-- The screen that was last shown; a missing file, or a name that is not there, is screen
0. -/
def restoreScreen (stored : Option Name) (active : List Screen) : ℕ :=
  match stored with
  | none => 0
  | some raw => (findScreen active (Text.trim isBlank (raw.take 64))).getD 0

/-- Store the current screen's name; a name that does not fit the line is not stored. -/
def persistScreen (s : Loop) (name : Name) : Loop :=
  if name.length + 1 ≤ 64 then { s with log := .wrote name s.current :: s.log } else s

/-- Remove the first screen named `name`, and move `curIx` with the screens behind it. -/
def dropScreen (active : List Screen) (name : Name) (curIx : ℕ) : List Screen × ℕ :=
  match findScreen active name with
  | none => (active, curIx)
  | some rm =>
      -- never drop the last screen
      if active.length ≤ 1 then (active, curIx)
      else
        let shorter := active.eraseIdx rm
        let curIx := if rm < curIx then curIx - 1 else curIx
        (shorter, if shorter.length ≤ curIx then 0 else curIx)

/-! ### One turn -/

/-- The walk of a long press, with `todo` turns left before `steps` reaches the number of
screens: how many turns it took, and where it stopped. -/
def walk (active : List Screen) : (todo steps ix : ℕ) → Option (ℕ × ℕ)
  | 0, steps, ix => some (steps, ix)
  | todo + 1, steps, ix => do
      let ix := (ix + 1) % active.length
      let s ← active[ix]?
      if !s.hidden then return (steps + 1, ix)
      walk active todo (steps + 1) ix

/-- `want_next_screen`: on to the next screen that is not hidden. -/
def Loop.takeNextScreen (s : Loop) (nowMs : ℕ) (want : Bool) : Option Loop :=
  if !want then some s
  else do
    let (turns, ix) ← walk s.screens s.screens.length 0 s.screenIx
    let s := { s with log := .walked turns s.screens.length :: s.log }
    if ix = s.screenIx then return s
    let s := { s with prevScreenIx := s.screenIx, screenIx := ix, screenEnteredMs := nowMs }
    let cur ← s.current
    return persistScreen s cur.name

def jumpNone : ℤ := -1

def jumpSwapcore : ℤ := -2

/-- `"swapcore"`. -/
def swapcore : Name := [115, 119, 97, 112, 99, 111, 114, 101]

/-- The screen a jump is for, if there is one. -/
def jumpTarget (active : List Screen) (jump : ℤ) : Option ℕ :=
  if jump = jumpSwapcore then findScreenContaining active swapcore
  else if 0 ≤ jump ∧ jump.toNat < active.length then some jump.toNat
  else none

/-- `want_jump`: to any screen, and a hidden one is not stored. -/
def Loop.takeJump (s : Loop) (nowMs : ℕ) (jump : ℤ) : Option Loop :=
  if jump = jumpNone then some s
  else
    match jumpTarget s.screens jump with
    | none => some s
    | some tix =>
        if tix = s.screenIx then some s
        else do
          let s := { s with prevScreenIx := s.screenIx, screenIx := tix, screenEnteredMs := nowMs }
          let target ← s.screens[tix]?
          return if !target.hidden then persistScreen s target.name else s

/-- A transient screen's time is up: back to the screen before it. -/
def Loop.autoReturn (s : Loop) (nowMs autoReturnMs : ℕ) : Option Loop :=
  if 0 < autoReturnMs ∧ autoReturnMs ≤ nowMs - s.screenEnteredMs ∧
      s.prevScreenIx < s.screens.length ∧ s.prevScreenIx ≠ s.screenIx then do
    let s := { s with screenIx := s.prevScreenIx, screenEnteredMs := nowMs }
    let _ ← s.current
    return s
  else some s

/-- What a change of the evaluator comes to: no set, or one; `freed` is what a name that did
not fit the buffer reads as when its set is gone. -/
inductive Reopened
  | lost
  | loaded (set : LoadedSet) (freed : Name)

/-- `want_switch_backend`: a new registry, on the screen of the same name if it has one. -/
def Loop.takeSwitch (s : Loop) (nowMs : ℕ) : Option Reopened → Option Loop
  | none => some s
  | some reopened => do
      let keep ← s.current
      match reopened with
      | .lost => return { s with running := false }
      | .loaded set freed =>
          let keepName := if keep.name.length ≤ 64 then keep.name else freed
          let screens := buildEvalRegistry set
          return { s with screens, screenIx := (findScreen screens keepName).getD 0,
                          prevScreenIx := 0, screenEnteredMs := nowMs }

/-- What a turn of the loop meets: the clock, the render (`none` for a fault, or the
auto-return it asks for), and the requests it takes. -/
structure Turn where
  nowMs : ℕ
  rendered : Option ℕ := some 0
  nextScreen : Bool := false
  jump : ℤ := jumpNone
  switchBackend : Option Reopened := none

/-- A faulting screen is dropped, and asks for no auto-return. -/
def Loop.render (s : Loop) (cur : Screen) : Option ℕ → Loop × ℕ
  | some autoReturnMs => (s, autoReturnMs)
  | none =>
      let r := dropScreen s.screens cur.name s.screenIx
      ({ s with screens := r.1, screenIx := r.2 }, 0)

/-- One turn of the loop, which does nothing once it has stopped. -/
def iterate (s : Loop) (t : Turn) : Option Loop :=
  if !s.running then some s
  else do
    let cur ← s.current
    let (s, autoReturnMs) := s.render cur t.rendered
    let s ← s.takeNextScreen t.nowMs t.nextScreen
    let s ← s.takeJump t.nowMs t.jump
    let s ← s.autoReturn t.nowMs autoReturnMs
    s.takeSwitch t.nowMs t.switchBackend

/-- The restore: the stored screen, and never a hidden one but screen 0. -/
def start (stored : Option Name) (set : LoadedSet) (nowMs : ℕ) : Option Loop := do
  let active := buildEvalRegistry set
  let _ ← active[0]?
  let screenIx := restoreScreen stored active
  let screenIx := if (active[screenIx]?).any (·.hidden) then 0 else screenIx
  let _ ← active[screenIx]?
  return { screens := active, screenIx, screenEnteredMs := nowMs }

/-! ### The invariant -/

/-- A walk looked at no screen twice, and a name written is the current screen's, which is not
hidden. -/
def Event.Ok : Event → Prop
  | .walked turns len => turns ≤ len
  | .wrote name current => ∃ s, current = some s ∧ s.name = name ∧ s.hidden = false

/-- The index is live, and all that was observed is right. -/
structure Loop.Inv (s : Loop) : Prop where
  live : s.screenIx < s.screens.length
  log : ∀ e ∈ s.log, e.Ok

variable {active : List Screen} {s : Loop} {name : Name}

theorem findScreen_lt {ix : ℕ} (h : findScreen active name = some ix) : ix < active.length := by
  obtain ⟨hlt, -⟩ := List.findIdx?_eq_some_iff_getElem.1 h
  exact hlt

theorem findScreen_getD_lt (hne : active ≠ []) (name : Name) :
    (findScreen active name).getD 0 < active.length := by
  cases h : findScreen active name with
  | none => exact List.length_pos_iff.2 hne
  | some ix => exact findScreen_lt h

theorem buildEvalRegistry_ne_nil (set : LoadedSet) : buildEvalRegistry set ≠ [] := by
  obtain ⟨set, hset⟩ := set
  have hpos := List.length_pos_iff.2 hset
  refine List.ne_nil_of_length_pos ?_
  rw [buildEvalRegistry, List.length_mapIdx, List.length_take, maxEvalScreens]
  dsimp only
  omega

theorem Loop.Inv.current (h : s.Inv) : s.current = some (s.screens.get ⟨s.screenIx, h.live⟩) :=
  List.getElem?_eq_getElem h.live

/-- **The drop.**  The index stays live, and a screen stays. -/
theorem dropScreen_lt {curIx : ℕ} (h : curIx < active.length) (name : Name) :
    (dropScreen active name curIx).2 < (dropScreen active name curIx).1.length := by
  unfold dropScreen
  cases hfind : findScreen active name with
  | none => exact h
  | some rm =>
      have hrm := findScreen_lt hfind
      by_cases hone : active.length ≤ 1
      · simpa only [if_pos hone] using h
      · have hlen : (active.eraseIdx rm).length = active.length - 1 :=
          List.length_eraseIdx_of_lt hrm
        simp only [if_neg hone, hlen]
        by_cases hend : active.length - 1 ≤ if rm < curIx then curIx - 1 else curIx
        · rw [if_pos hend]
          omega
        · rw [if_neg hend]
          omega

theorem Loop.Inv.render (h : s.Inv) (cur : Screen) (rendered : Option ℕ) :
    (s.render cur rendered).1.Inv := by
  cases rendered with
  | some ms => exact h
  | none => exact ⟨dropScreen_lt h.live cur.name, h.log⟩

/-- **The walk** ends at a screen that is not hidden, or looks at every screen and comes round
to where it started. -/
theorem walk_spec {todo ix : ℕ} (hix : ix < active.length) (steps : ℕ) :
    ∃ turns r, walk active todo steps ix = some (turns, r) ∧ turns ≤ steps + todo ∧
      ∃ hr : r < active.length,
        active[r].hidden = false ∨ r = (ix + todo) % active.length := by
  induction todo generalizing ix steps with
  | zero => exact ⟨steps, ix, rfl, le_rfl, hix, .inr (Nat.mod_eq_of_lt hix).symm⟩
  | succ todo ih =>
      have hnext : (ix + 1) % active.length < active.length := Nat.mod_lt _ (by omega)
      have hget := List.getElem?_eq_getElem hnext
      by_cases hhidden : active[(ix + 1) % active.length].hidden = true
      · obtain ⟨turns, r, hwalk, hturns, hr, hend⟩ := ih hnext (steps + 1)
        refine ⟨turns, r, ?_, by omega, hr, ?_⟩
        · simp [walk, hget, hhidden, hwalk]
        · rcases hend with hvisible | hround
          · exact .inl hvisible
          · refine .inr ?_
            rw [hround, Nat.mod_add_mod]
            congr 1
            omega
      · have hvisible : active[(ix + 1) % active.length].hidden = false := by simpa using hhidden
        refine ⟨steps + 1, (ix + 1) % active.length, ?_, by omega, hnext, .inl hvisible⟩
        simp [walk, hget, hvisible]

/-- A name written is right when its screen is current and not hidden. -/
theorem Loop.Inv.persist (h : s.Inv) {cur : Screen} (hcur : s.current = some cur)
    (hvisible : cur.hidden = false) : (persistScreen s cur.name).Inv := by
  unfold persistScreen
  split
  · refine ⟨h.live, fun e he => ?_⟩
    rcases List.mem_cons.1 he with rfl | he
    · exact ⟨cur, hcur, rfl, hvisible⟩
    · exact h.log e he
  · exact h

theorem Loop.Inv.takeNextScreen (h : s.Inv) (nowMs : ℕ) (want : Bool) :
    ∃ t, s.takeNextScreen nowMs want = some t ∧ t.Inv := by
  unfold Loop.takeNextScreen
  cases want with
  | false => exact ⟨s, rfl, h⟩
  | true =>
      obtain ⟨turns, r, hwalk, hturns, hr, hend⟩ :
          ∃ turns r, walk s.screens s.screens.length 0 s.screenIx = some (turns, r) ∧
            turns ≤ 0 + s.screens.length ∧ ∃ hr : r < s.screens.length,
              s.screens[r].hidden = false ∨
                r = (s.screenIx + s.screens.length) % s.screens.length := walk_spec h.live 0
      have hlog : ∀ e ∈ Event.walked turns s.screens.length :: s.log, e.Ok := by
        intro e he
        rcases List.mem_cons.1 he with rfl | he
        · show turns ≤ s.screens.length
          omega
        · exact h.log e he
      by_cases hsame : r = s.screenIx
      · refine ⟨{ s with log := .walked turns s.screens.length :: s.log }, ?_, h.live, hlog⟩
        simp [hwalk, hsame]
      · -- the walk that comes round ends where it started
        have hvisible : s.screens[r].hidden = false := by
          rcases hend with hvisible | hround
          · exact hvisible
          · rw [Nat.add_mod_right, Nat.mod_eq_of_lt h.live] at hround
            exact absurd hround hsame
        have hmoved : Loop.Inv
            { s with log := .walked turns s.screens.length :: s.log, prevScreenIx := s.screenIx,
                     screenIx := r, screenEnteredMs := nowMs } := ⟨hr, hlog⟩
        refine ⟨_, ?_, hmoved.persist hmoved.current hvisible⟩
        simp [hwalk, hsame, Loop.current, hr]

theorem jumpTarget_lt {jump : ℤ} {tix : ℕ} (h : jumpTarget active jump = some tix) :
    tix < active.length := by
  unfold jumpTarget at h
  split at h
  · obtain ⟨hlt, -⟩ := List.findIdx?_eq_some_iff_getElem.1 h
    exact hlt
  · split at h
    · rename_i hin
      cases h
      exact hin.2
    · cases h

theorem Loop.Inv.takeJump (h : s.Inv) (nowMs : ℕ) (jump : ℤ) :
    ∃ t, s.takeJump nowMs jump = some t ∧ t.Inv := by
  unfold Loop.takeJump
  by_cases hnone : jump = jumpNone
  · exact ⟨s, if_pos hnone, h⟩
  rw [if_neg hnone]
  cases htarget : jumpTarget s.screens jump with
  | none => exact ⟨s, rfl, h⟩
  | some tix =>
      have hlt := jumpTarget_lt htarget
      by_cases hsame : tix = s.screenIx
      · exact ⟨s, if_pos hsame, h⟩
      · have hmoved : Loop.Inv
            { s with prevScreenIx := s.screenIx, screenIx := tix, screenEnteredMs := nowMs } :=
          ⟨hlt, h.log⟩
        by_cases hhidden : s.screens[tix].hidden = true
        · refine ⟨_, ?_, hmoved⟩
          simp [hsame, hlt, hhidden]
        · have hvisible : s.screens[tix].hidden = false := by simpa using hhidden
          refine ⟨_, ?_, hmoved.persist hmoved.current hvisible⟩
          simp [hsame, hlt, hvisible]

theorem Loop.Inv.autoReturn (h : s.Inv) (nowMs autoReturnMs : ℕ) :
    ∃ t, s.autoReturn nowMs autoReturnMs = some t ∧ t.Inv := by
  unfold Loop.autoReturn
  split
  · rename_i hdue
    obtain ⟨-, -, hprev, -⟩ := hdue
    refine ⟨{ s with screenIx := s.prevScreenIx, screenEnteredMs := nowMs }, ?_, hprev, h.log⟩
    simp [Loop.current, hprev]
  · exact ⟨s, rfl, h⟩

theorem Loop.Inv.takeSwitch (h : s.Inv) (nowMs : ℕ) (reopened : Option Reopened) :
    ∃ t, s.takeSwitch nowMs reopened = some t ∧ t.Inv := by
  cases reopened with
  | none => exact ⟨s, rfl, h⟩
  | some reopened =>
      cases reopened with
      | lost =>
          refine ⟨{ s with running := false }, ?_, h.live, h.log⟩
          simp [Loop.takeSwitch, h.current]
      | loaded set freed =>
          have hlive (keepName : Name) : Loop.Inv
              { s with screens := buildEvalRegistry set,
                       screenIx := (findScreen (buildEvalRegistry set) keepName).getD 0,
                       prevScreenIx := 0, screenEnteredMs := nowMs } :=
            ⟨findScreen_getD_lt (buildEvalRegistry_ne_nil set) keepName, h.log⟩
          obtain ⟨keep, hkeep⟩ : ∃ keep, s.current = some keep := ⟨_, h.current⟩
          refine ⟨_, ?_, hlive (if keep.name.length ≤ 64 then keep.name else freed)⟩
          simp [Loop.takeSwitch, hkeep]

/-- **One turn** indexes no further than the slice, and keeps the invariant. -/
theorem Loop.Inv.iterate (h : s.Inv) (t : Turn) : ∃ s', iterate s t = some s' ∧ s'.Inv := by
  unfold BadgeOS.Oled.iterate
  by_cases hstop : s.running = false
  · exact ⟨s, by simp [hstop], h⟩
  have hrunning : s.running = true := by simpa using hstop
  obtain ⟨cur, hcur⟩ : ∃ cur, s.current = some cur := ⟨_, h.current⟩
  obtain ⟨s₁, h₁, hinv₁⟩ := (h.render cur t.rendered).takeNextScreen t.nowMs t.nextScreen
  obtain ⟨s₂, h₂, hinv₂⟩ := hinv₁.takeJump t.nowMs t.jump
  obtain ⟨s₃, h₃, hinv₃⟩ := hinv₂.autoReturn t.nowMs (s.render cur t.rendered).2
  obtain ⟨s₄, h₄, hinv₄⟩ := hinv₃.takeSwitch t.nowMs t.switchBackend
  refine ⟨s₄, ?_, hinv₄⟩
  simp [hrunning, hcur, h₁, h₂, h₃, h₄]

theorem start_inv (stored : Option Name) (set : LoadedSet) (nowMs : ℕ) :
    ∃ s, start stored set nowMs = some s ∧ s.Inv := by
  have hne := buildEvalRegistry_ne_nil set
  have hpos : 0 < (buildEvalRegistry set).length := List.length_pos_iff.2 hne
  have hix : restoreScreen stored (buildEvalRegistry set) < (buildEvalRegistry set).length := by
    cases stored with
    | none => exact hpos
    | some raw => exact findScreen_getD_lt hne _
  unfold start
  generalize hactive : buildEvalRegistry set = active at *
  cases hhidden : active[restoreScreen stored active].hidden with
  | true =>
      refine ⟨{ screens := active, screenIx := 0, screenEnteredMs := nowMs }, ?_, hpos, by simp⟩
      simp [hpos, hix, hhidden]
  | false =>
      refine ⟨{ screens := active, screenIx := restoreScreen stored active,
                screenEnteredMs := nowMs }, ?_, hix, by simp⟩
      simp [hpos, hix, hhidden]

/-- **A run** of turns does. -/
theorem Loop.Inv.run (h : s.Inv) (turns : List Turn) :
    ∃ s', turns.foldlM BadgeOS.Oled.iterate s = some s' ∧ s'.Inv := by
  induction turns generalizing s with
  | nil => exact ⟨s, rfl, h⟩
  | cons t turns ih =>
      obtain ⟨s₁, hone, hinv₁⟩ := h.iterate t
      obtain ⟨s', hrest, hinv'⟩ := ih hinv₁
      refine ⟨s', ?_, hinv'⟩
      rw [List.foldlM_cons, hone]
      exact hrest

/-- **The screen index is always live.**  From the restore over any registry and any stored
name, through any turns: no step indexes past the slice of active screens, the slice has a
screen and the index is below its length, every walk of a long press ended within one look at
each screen, and every name written was that of the screen current then, which is not
hidden. -/
theorem screen_index_always_live (stored : Option Name) (set : LoadedSet) (nowMs : ℕ)
    (turns : List Turn) :
    ∃ s₀ s, start stored set nowMs = some s₀ ∧ turns.foldlM iterate s₀ = some s ∧
      s.screens ≠ [] ∧ s.screenIx < s.screens.length ∧
      (∀ taken len, Event.walked taken len ∈ s.log → taken ≤ len) ∧
      ∀ name current, Event.wrote name current ∈ s.log →
        ∃ scr, current = some scr ∧ scr.name = name ∧ scr.hidden = false := by
  obtain ⟨s₀, hstart, hinv₀⟩ := start_inv stored set nowMs
  obtain ⟨s, hturns, hinv⟩ := hinv₀.run turns
  refine ⟨s₀, s, hstart, hturns, ?_, hinv.live, fun taken len hmem => hinv.log _ hmem,
    fun name current hmem => hinv.log _ hmem⟩
  exact List.ne_nil_of_length_pos (Nat.zero_lt_of_lt hinv.live)

end BadgeOS.Oled
