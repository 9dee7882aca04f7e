import BadgeOS.Lib.Text
import Mathlib

/-!
# The remembered screen

`nix-badge.zig`: the name of the screen that is shown is kept in a file, from which the next start
takes its screen.  Writer and reader have buffers of 64 bytes, and the reader trims blanks, which a
file's name may begin or end with.

* `screenName`, `persistScreen`, `restoreScreen` — the functions;
* `screen_remembered_iff` — a stored name comes back just when it is trimmed, or when its screen is
  the first and no other has the trimmed name.
-/

namespace BadgeOS.Oled.ScreenState

abbrev Bytes := List UInt8

/-- `screenName`, of a path's basename. -/
def screenName (base : Bytes) : Bytes :=
  let stem := if [46, 110, 105, 120].isSuffixOf base then base.take (base.length - 4) else base
  if stem.length = 0 then [115, 99, 114, 101, 101, 110] else stem

/-- `" \t\r\n"` -/
def blank (c : UInt8) : Bool := c == 32 || c == 9 || c == 13 || c == 10

/-- `restoreScreen`, of the state file, which may be missing. -/
def restoreScreen (file : Option Bytes) (active : List Bytes) : ℕ :=
  match file with
  | none => 0
  | some contents =>
      let raw := contents.take 64
      let name := Text.trim blank raw
      (active.findIdx? (· = name)).getD 0

/-- How `writeFile` goes: well, or with a fault that leaves the file so. -/
inductive Write
  | done
  | fault (left : Option Bytes)
  deriving DecidableEq

/-- `persistScreen`, with what `ensureRuntimeDir` answers. -/
def persistScreen (dir : Bool) (write : Write) (file : Option Bytes) (name : Bytes) : Option Bytes :=
  if !dir then file
  -- `bufPrint` has no room
  else if 64 < name.length + 1 then file
  else
    match write with
    | .done => some (name ++ [10])
    | .fault left => left

/-- `persistScreen` comes to its write. -/
def Writes (dir : Bool) (name : Bytes) : Prop := dir = true ∧ name.length + 1 ≤ 64

variable {active : List Bytes} {name : Bytes} {ix : ℕ}

theorem persistScreen_done {dir : Bool} (h : Writes dir name) (file : Option Bytes) :
    persistScreen dir .done file name = some (name ++ [10]) := by
  unfold persistScreen
  rw [h.1, if_neg (by decide), if_neg (Nat.not_lt.mpr h.2)]

/-- A call that does not come to its write keeps the file. -/
theorem persistScreen_of_not_writes {dir : Bool} (h : ¬Writes dir name) (write : Write)
    (file : Option Bytes) : persistScreen dir write file name = file := by
  unfold persistScreen
  cases dir with
  | false => exact if_pos rfl
  | true =>
      have hlong : 64 < name.length + 1 := Nat.lt_of_not_le fun hle => h ⟨rfl, hle⟩
      rw [if_neg (by decide), if_pos hlong]

/-- A written name is read back trimmed. -/
theorem restoreScreen_written (hlength : name.length + 1 ≤ 64) (active : List Bytes) :
    restoreScreen (some (name ++ [10])) active =
      (active.findIdx? (· = Text.trim blank name)).getD 0 := by
  have htake : (name ++ [10]).take 64 = name ++ [10] :=
    List.take_of_length_le (by rw [List.length_append]; exact hlength)
  have htrim : Text.trim blank (name ++ [10]) = Text.trim blank name :=
    Text.trim_concat_of_pos rfl
  rw [restoreScreen, htake, htrim]

theorem findIdx?_of_getElem? (hnodup : active.Nodup) (h : active[ix]? = some name) :
    active.findIdx? (· = name) = some ix := by
  obtain ⟨hlt, hget⟩ := List.getElem?_eq_some_iff.mp h
  refine List.findIdx?_eq_some_iff_getElem.mpr ⟨hlt, decide_eq_true hget, fun j hj heq => ?_⟩
  have hsame : active[j]? = active[ix]? := by
    rw [h, List.getElem?_eq_getElem (hj.trans hlt)]
    exact congrArg some (of_decide_eq_true heq)
  exact absurd ((List.getElem?_inj (hj.trans hlt) hnodup).mp hsame) hj.ne

/-- **A stored name** comes back trimmed. -/
theorem restoreScreen_iff (hnodup : active.Nodup) (h : active[ix]? = some name)
    (hlength : name.length + 1 ≤ 64) :
    restoreScreen (some (name ++ [10])) active = ix ↔
      Text.trim blank name = name ∨ ix = 0 ∧ Text.trim blank name ∉ active := by
  rw [restoreScreen_written hlength]
  by_cases hmem : Text.trim blank name ∈ active
  · obtain ⟨j, hj⟩ := List.mem_iff_getElem?.mp hmem
    rw [findIdx?_of_getElem? hnodup hj, Option.getD_some]
    constructor
    · rintro rfl
      exact Or.inl (Option.some.inj (hj.symm.trans h))
    · rintro (htrim | ⟨-, hnot⟩)
      · rw [htrim] at hj
        have hlt := (List.getElem?_eq_some_iff.mp hj).1
        exact (List.getElem?_inj hlt hnodup).mp (hj.trans h.symm)
      · exact absurd hmem hnot
  · have hnone : active.findIdx? (· = Text.trim blank name) = none := by
      rw [List.findIdx?_eq_none_iff]
      intro n hn
      exact decide_eq_false fun heq => hmem (heq ▸ hn)
    rw [hnone, Option.getD_none]
    constructor
    · rintro rfl
      exact Or.inr ⟨rfl, hmem⟩
    · rintro (htrim | ⟨rfl, -⟩)
      · rw [htrim] at hmem
        exact absurd (List.mem_of_getElem? h) hmem
      · rfl

/-- **The remembered screen**: a stored name's index comes back just when the name is trimmed, or
its screen is the first and none has the trimmed name; and a call that stores nothing leaves what
was there before to be restored. -/
theorem screen_remembered_iff (hnodup : active.Nodup) (h : active[ix]? = some name) (dir : Bool)
    (file : Option Bytes) :
    (Writes dir name → restoreScreen (persistScreen dir .done file name) active = ix) ∧
        (¬Writes dir name → ∀ (write : Write) (others : List Bytes),
          restoreScreen (persistScreen dir write file name) others = restoreScreen file others) ↔
      (Writes dir name → Text.trim blank name = name ∨ ix = 0 ∧ Text.trim blank name ∉ active) := by
  have hkept : ¬Writes dir name → ∀ (write : Write) (others : List Bytes),
      restoreScreen (persistScreen dir write file name) others = restoreScreen file others := by
    intro hnot write others
    rw [persistScreen_of_not_writes hnot]
  rw [and_iff_left hkept]
  refine forall_congr' fun hwrites => ?_
  rw [persistScreen_done hwrites, restoreScreen_iff hnodup h hwrites.2]

/-- Two screens. -/
theorem screen_remembered_iff_clock :
    (Writes true [99, 108] →
        restoreScreen (persistScreen true .done none [99, 108]) [[97], [99, 108]] = 1) ∧
        (¬Writes true [99, 108] → ∀ (write : Write) (others : List Bytes),
          restoreScreen (persistScreen true write none [99, 108]) others =
            restoreScreen none others) ↔
      (Writes true [99, 108] → Text.trim blank [99, 108] = [99, 108] ∨
        1 = 0 ∧ Text.trim blank [99, 108] ∉ [[97], [99, 108]]) :=
  screen_remembered_iff (by decide) rfl true none

/-- `"clock.nix"` and `"clock .nix"`: of the second, the first comes back. -/
theorem blank_screen_forgotten :
    screenName [99, 46, 110, 105, 120] = [99] ∧ screenName [99, 32, 46, 110, 105, 120] = [99, 32] ∧
      restoreScreen (persistScreen true .done none [99, 32]) [[99], [99, 32]] = 0 := by
  decide

end BadgeOS.Oled.ScreenState
