import BadgeOS.Oled.Navigation
import Mathlib

/-!
# The screen that a fault drops

A registry names its screens after their files, and files of different directories may share a
name.  The loop has the faulted screen's index, and `dropScreen` looks for its name.

* `screenName`, `loadedSet` — the names of a set;
* `Loop.withoutFaulted` — the loop without the screen that faulted;
* `render_drops_iff` — the registries in which a fault drops it.
-/

namespace BadgeOS.Oled

/-- `std.fs.path.basename`; 47 is the slash. -/
def basename (path : List UInt8) : Name := (path.rdropWhile (· = 47)).rtakeWhile (· ≠ 47)

/-- `".nix"`. -/
def dotNix : Name := [46, 110, 105, 120]

/-- The basename sans a trailing `.nix`; `"screen"` where nothing is left. -/
def screenName (path : List UInt8) : Name :=
  let base := basename path
  let stem := if dotNix <:+ base then base.take (base.length - 4) else base
  if stem = [] then [115, 99, 114, 101, 101, 110] else stem

/-- The set of the files that loaded, with what the probe finds of their `hidden` flags. -/
def loadedSet (paths : List (List UInt8)) (hne : paths ≠ []) (hidden : ℕ → Bool) : LoadedSet :=
  ⟨paths.mapIdx fun n path => (screenName path, hidden n), by
    rw [Ne, List.mapIdx_eq_nil_iff]
    exact hne⟩

/-- The loop without the screen that is up, on the one that followed it, or on the first. -/
def Loop.withoutFaulted (s : Loop) : Loop :=
  { s with
    screens := s.screens.eraseIdx s.screenIx
    screenIx := if s.screenIx + 1 < s.screens.length then s.screenIx else 0 }

/-! ### Registries -/

variable {set : LoadedSet} {active : List Screen} {i j : ℕ}

theorem nodup_buildEvalRegistry (set : LoadedSet) :
    ((buildEvalRegistry set).map (·.eval)).Nodup := by
  have heval : (buildEvalRegistry set).map (·.eval) =
      List.range (set.1.take maxEvalScreens).length := by
    refine List.ext_getElem ?_ fun n h1 h2 => ?_
    · rw [List.length_map, buildEvalRegistry, List.length_mapIdx, List.length_range]
    · rw [List.getElem_range, List.getElem_map]
      simp only [buildEvalRegistry, List.getElem_mapIdx]
  rw [heval]
  exact List.nodup_range

theorem nodup_of_sublist (h : active.Sublist (buildEvalRegistry set)) : active.Nodup :=
  ((nodup_buildEvalRegistry set).sublist (h.map _)).of_map _

/-- Of screens that all differ, dropping another leaves others. -/
theorem eraseIdx_ne_of_lt (hnodup : active.Nodup) (hij : i < j) (hj : j < active.length) :
    active.eraseIdx i ≠ active.eraseIdx j := by
  intro heq
  have hget := congrArg (·[i]?) heq
  simp only [List.getElem?_eraseIdx_of_ge le_rfl, List.getElem?_eraseIdx_of_lt hij] at hget
  have hi : i < active.length := hij.trans hj
  have hsucc := (List.getElem?_inj hi hnodup).mp hget.symm
  omega

/-- What `dropScreen` finds: the screen that is up, or one before it with its name. -/
theorem findScreen_current {cur : Screen} (hcur : active[i]? = some cur) :
    ∃ rm ≤ i, findScreen active cur.name = some rm ∧
      (rm = i ↔ ∀ j < i, ∀ t, active[j]? = some t → t.name ≠ cur.name) := by
  obtain ⟨hi, rfl⟩ := List.getElem?_eq_some_iff.mp hcur
  have hmatch (j : ℕ) (hj : j < active.length) :
      (fun s : Screen => s.name == active[i].name) active[j] = true ↔
        active[j].name = active[i].name := beq_iff_eq
  cases hfind : findScreen active active[i].name with
  | none =>
      have hnone := List.findIdx?_eq_none_iff.mp hfind active[i] (List.getElem_mem hi)
      rw [beq_self_eq_true] at hnone
      cases hnone
  | some rm =>
      obtain ⟨hrm, hname, hbefore⟩ := List.findIdx?_eq_some_iff_getElem.mp hfind
      rw [hmatch rm hrm] at hname
      have hle : rm ≤ i := by
        by_contra hgt
        exact hbefore i (Nat.lt_of_not_le hgt) ((hmatch i hi).mpr rfl)
      refine ⟨rm, hle, rfl, ?_⟩
      constructor
      · rintro rfl j hj t ht heq
        obtain ⟨hlt, rfl⟩ := List.getElem?_eq_some_iff.mp ht
        exact hbefore j hj ((hmatch j hlt).mpr heq)
      · intro hnone
        by_contra hne
        exact hnone rm (Nat.lt_of_le_of_ne hle hne) _ (List.getElem?_eq_getElem hrm) hname

/-! ### The drop -/

variable {s : Loop} {cur : Screen}

/-- The screen that is found goes. -/
theorem render_none {rm : ℕ} (hfind : findScreen s.screens cur.name = some rm)
    (hlen : 2 ≤ s.screens.length) :
    (s.render cur none).1.screens = s.screens.eraseIdx rm := by
  rw [Loop.render, dropScreen, hfind]
  simp only [if_neg (show ¬s.screens.length ≤ 1 by omega)]

theorem render_none_current (hfind : findScreen s.screens cur.name = some s.screenIx)
    (hlen : 2 ≤ s.screens.length) : (s.render cur none).1 = s.withoutFaulted := by
  have hlt := findScreen_lt hfind
  have hindex : (s.screens.eraseIdx s.screenIx).length ≤ s.screenIx ↔
      ¬s.screenIx + 1 < s.screens.length := by
    rw [List.length_eraseIdx_of_lt hlt]
    omega
  rw [Loop.render, dropScreen, hfind, Loop.withoutFaulted]
  simp only [if_neg (show ¬s.screens.length ≤ 1 by omega), if_neg (lt_irrefl s.screenIx), hindex,
    ite_not]

/-- **A fault drops the screen that faulted**, and that one only, exactly where no screen before
it has its name. -/
theorem render_drops_iff (paths : List (List UInt8)) (hne : paths ≠ []) (hidden : ℕ → Bool)
    (s : Loop) (hactive : s.screens.Sublist (buildEvalRegistry (loadedSet paths hne hidden)))
    (hlen : 2 ≤ s.screens.length) (cur : Screen) (hcur : s.current = some cur) :
    (s.render cur none).1 = s.withoutFaulted ↔
      ∀ j < s.screenIx, ∀ t, s.screens[j]? = some t → t.name ≠ cur.name := by
  obtain ⟨rm, hle, hfind, hfirst⟩ := findScreen_current hcur
  rw [← hfirst]
  constructor
  · intro hdrop
    by_contra hne
    have hscreens := (render_none hfind hlen).symm.trans (congrArg Loop.screens hdrop)
    exact eraseIdx_ne_of_lt (nodup_of_sublist hactive) (Nat.lt_of_le_of_ne hle hne)
      (List.getElem?_eq_some_iff.mp hcur).1 hscreens
  · rintro rfl
    exact render_none_current hfind hlen

/-- `a/clock.nix` and `b/clock.nix`, and a third. -/
def sharedNames : List (List UInt8) :=
  [[97, 47, 99, 108, 111, 99, 107, 46, 110, 105, 120],
   [98, 47, 99, 108, 111, 99, 107, 46, 110, 105, 120],
   [99, 47, 112, 111, 110, 103, 46, 110, 105, 120]]

/-- The second of two clocks faults, and the first is dropped. -/
theorem render_sharedNames :
    ¬ ∀ (paths : List (List UInt8)) (hne : paths ≠ []) (hidden : ℕ → Bool) (s : Loop),
      s.screens.Sublist (buildEvalRegistry (loadedSet paths hne hidden)) →
      2 ≤ s.screens.length → ∀ cur, s.current = some cur →
        (s.render cur none).1 = s.withoutFaulted := by
  intro hall
  let s : Loop := {
    screens := buildEvalRegistry (loadedSet sharedNames (by decide) fun _ => false)
    screenIx := 1
    screenEnteredMs := 0 }
  have hdrop := hall sharedNames (by decide) (fun _ => false) s (List.Sublist.refl _) (by decide)
    ⟨[99, 108, 111, 99, 107], 1, false⟩ (by decide)
  exact absurd hdrop (by decide)

/-- The first of them faults, and goes. -/
theorem render_first :
    let s : Loop := {
      screens := buildEvalRegistry (loadedSet sharedNames (by decide) fun _ => false)
      screenIx := 0
      screenEnteredMs := 0 }
    (s.render ⟨[99, 108, 111, 99, 107], 0, false⟩ none).1 = s.withoutFaulted :=
  (render_drops_iff sharedNames (by decide) (fun _ => false) _ (List.Sublist.refl _) (by decide) _
    (by decide)).mpr fun j hj => absurd hj (Nat.not_lt_zero j)

end BadgeOS.Oled
