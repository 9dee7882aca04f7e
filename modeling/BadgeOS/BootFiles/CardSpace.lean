import BadgeOS.BootFiles.BootFat
import BadgeOS.BootFiles.Refusals
import Mathlib

/-!
# The room on a card's BOOT

The installer compares bytes with what `df` says, where the card has clusters: the new FIT, the
copy of the old one and the names need up to a cluster more each than the check counts.

* `Deploy.peak` — the clusters in use when both FITs are there twice over;
* `Room.inside`, `peak_le` — a deploy keeps inside the FAT exactly when its peak does;
* `FipInTime`, `PeakFits`, `deploy_clean_iff` — when a refused deploy has written nothing, and one
  that passes the check has the room.
-/

namespace BadgeOS.BootFiles

open Crash Files Function Fat
open Stage0 (Slot Text)

variable {Dev : Type} [DecidableEq Dev] {card boot : Dev} {k : Deploy Dev} {F : BootFat card}
  {s : Slot} {image old : Bytes} {C C' : Path Dev → Option Bytes}
  {D D' : Folder → Slots (Path Dev)} {v : BootVol Dev} {bound : ℕ}

namespace Deploy

variable (k) (card) (s)

/-- The card's files that a deploy reads and writes. -/
def slotPaths : List (Path Dev) :=
  [.kept card (.slot k.core s .boot), .kept card (.slot k.core s .prev),
    .new card (.slot k.core s .prev), .new card (.slot k.core s .boot)]

variable {card}
variable (F) (C) (D)

/-- The card's directories with the slot's, -/
def madeDirs : Folder → Slots (Path Dev) :=
  makeDir F.toGeometry C (makeDir F.toGeometry C D (.coreDir card k.core)) (.dir card k.core s)

/-- ... without the leftovers, -/
def slotDirs : Folder → Slots (Path Dev) :=
  [Path.kept card (.slot k.core s .prev), .new card (.slot k.core s .prev),
    .new card (.slot k.core s .boot)].foldl (leave F.toGeometry) (k.madeDirs F s C D)

/-- ... and with every name in them that the deploy adds. -/
def cardDirs : Folder → Slots (Path Dev) :=
  let add := enter F.toGeometry (fun _ => (none : Option Bytes))
  let D := add (k.slotDirs F s C D) (.new card (.slot k.core s .boot))
  if (C (.kept card (.slot k.core s .boot))).isSome then
    add (add D (.new card (.slot k.core s .prev))) (.kept card (.slot k.core s .prev))
  else add D (.kept card (.slot k.core s .boot))

/-- The clusters in use when the new FIT is beside the old one and its copy. -/
def peak (image : Bytes) : ℕ :=
  let freed := F.size C (.kept card (.slot k.core s .prev)) +
    F.size C (.new card (.slot k.core s .prev)) + F.size C (.new card (.slot k.core s .boot))
  F.base + F.dirLoad (k.cardDirs F s C D) + (F.load C - freed) +
    clustersOf F.clusterSize image.length + F.size C (.kept card (.slot k.core s .boot))

end Deploy

/-- A deploy to the card finds the room that it needs, at every moment. -/
def CardFits (k : Deploy Dev) (F : BootFat card) (v : BootVol Dev) : Prop :=
  Within (Fat.disk F.toGeometry) (fun w => F.used w ≤ F.clusters)
    ((k.script (F.availKib v)).comap Vol.store) v

/-! ### Directories -/

theorem enter_eq {p : Path Dev} (h : C p = none) :
    enter F.toGeometry C D p = enter F.toGeometry (fun _ => (none : Option Bytes)) D p := by
  simp only [enter, h]

theorem dirLoad_enter {p : Path Dev} : F.dirLoad D ≤ F.dirLoad (enter F.toGeometry C D p) :=
  dirLoad_mono fun d => length_enter d

theorem dirLoad_leave {p : Path Dev} : F.dirLoad (leave F.toGeometry D p) = F.dirLoad D := by
  refine congrArg List.sum (List.map_congr_left fun d _ => ?_)
  rw [length_leave]

theorem dirLoad_leaves (ps : List (Path Dev)) :
    F.dirLoad (ps.foldl (leave F.toGeometry) D) = F.dirLoad D := by
  refine congrArg List.sum (List.map_congr_left fun d _ => ?_)
  rw [length_leaves]

/-- A new directory is more than none. -/
theorem dirLoad_makeDir {p : Path Dev}
    (h : ∀ d, folder card p = some d → C p = none → D d = []) :
    F.dirLoad D ≤ F.dirLoad (makeDir F.toGeometry C D p) := by
  rw [makeDir, F.opens_eq]
  cases hfolder : folder card p with
  | none => exact dirLoad_enter
  | some d =>
      show _ ≤ F.dirLoad (if (C p).isSome then D else update (enter _ C D p) d (fresh F.per p))
      split
      · exact Nat.le_refl _
      · rename_i hgone
        refine dirLoad_mono fun e => ?_
        by_cases he : e = d
        · subst he
          rw [h e hfolder (by simpa using hgone)]
          exact Nat.zero_le _
        · rw [update_of_ne he]
          exact length_enter e

/-! ### Files -/

theorem size_none {p : Path Dev} (h : C p = none) : F.size C p = 0 := by
  have htwo := F.two_le_per
  have hpos : 0 < F.clusterSize := by omega
  rw [Geometry.size, h]
  show (0 + F.clusterSize - 1) / F.clusterSize = 0
  exact Nat.div_eq_of_lt (by omega)

/-- What a deploy changes of the load. -/
theorem load_slot (hlist : k.slotPaths card s ⊆ F.files)
    (h : ∀ p, p ∉ k.slotPaths card s → IsFile card p ∨ IsTree card p → C' p = C p) :
    F.load C + ((k.slotPaths card s).map (F.size C')).sum =
      F.load C' + ((k.slotPaths card s).map (F.size C)).sum := by
  refine load_exchange F.files_nodup (by simp [Deploy.slotPaths]) hlist (fun p hp hout => ?_)
    fun t ht => ?_
  · rw [Geometry.size, Geometry.size, h p hout (Or.inl (F.isFile p hp))]
  · have htree := F.isTree t ht
    have hout : t.1 ∉ k.slotPaths card s := by
      intro hmem
      simp only [Deploy.slotPaths, List.mem_cons, List.not_mem_nil, or_false] at hmem
      obtain heq | heq | heq | heq := hmem <;> rw [heq] at htree <;> exact htree
    rw [h t.1 hout (Or.inr htree)]

/-! ### Stages -/

section Stages

variable (card k s C)

/-- What programs read when the slot is there, -/
def slotMade : Path Dev → Option Bytes :=
  let C := update C (.coreDir card k.core) (some ((C (.coreDir card k.core)).getD []))
  update C (.dir card k.core s) (some ((C (.dir card k.core s)).getD []))

/-- ... when the leftovers are gone, -/
def slotCleared : Path Dev → Option Bytes := fun p =>
  if p ∈ [.kept card (.slot k.core s .prev), .new card (.slot k.core s .prev),
    .new card (.slot k.core s .boot)] then none
  else slotMade card k s C p

/-- ... when the new FIT is there, -/
def fitWritten (image : Bytes) : Path Dev → Option Bytes :=
  update (slotCleared card k s C) (.new card (.slot k.core s .boot)) (some image)

/-- ... when the old one is there twice, -/
def fitCopied (image old : Bytes) : Path Dev → Option Bytes :=
  update (fitWritten card k s C image) (.new card (.slot k.core s .prev)) (some old)

/-- ... and has its name. -/
def fitKept (image old : Bytes) : Path Dev → Option Bytes :=
  update (update (fitCopied card k s C image old) (.new card (.slot k.core s .prev)) none)
    (.kept card (.slot k.core s .prev)) (some old)

/-- The new FIT gets its name. -/
def fitNamed (image : Bytes) : Path Dev → Option Bytes :=
  update (update C (.new card (.slot k.core s .boot)) none)
    (.kept card (.slot k.core s .boot)) (some image)

end Stages

theorem slotMade_of_file {p : Path Dev} (h : IsFile card p ∨ IsTree card p) :
    slotMade card k s C p = C p := by
  have hcore : p ≠ .coreDir card k.core := by
    rintro rfl
    exact h.elim id id
  have hdir : p ≠ .dir card k.core s := by
    rintro rfl
    exact h.elim id id
  rw [slotMade, update_of_ne hdir, update_of_ne hcore]

theorem fitNamed_of_out {p : Path Dev} (h : p ∉ k.slotPaths card s) :
    fitNamed card k s C image p = C p := by
  simp only [Deploy.slotPaths, List.mem_cons, List.not_mem_nil, or_false, not_or] at h
  rw [fitNamed, update_of_ne h.1, update_of_ne h.2.2.2]

theorem fitKept_of_out {p : Path Dev} (h : p ∉ k.slotPaths card s)
    (hfile : IsFile card p ∨ IsTree card p) : fitKept card k s C image old p = C p := by
  simp only [Deploy.slotPaths, List.mem_cons, List.not_mem_nil, or_false, not_or] at h
  obtain ⟨-, hprev, hprevNew, hbootNew⟩ := h
  rw [fitKept, update_of_ne hprev, update_of_ne hprevNew, fitCopied, update_of_ne hprevNew,
    fitWritten, update_of_ne hbootNew, slotCleared, if_neg (by simp [hprev, hprevNew, hbootNew]),
    slotMade_of_file hfile]

/-! ### What the deploy does to the card -/

theorem makeDir_made (D : Folder → Slots (Path Dev)) : makeDir F.toGeometry
    (update C (.coreDir card k.core) (some ((C (.coreDir card k.core)).getD []))) D
    (.dir card k.core s) = makeDir F.toGeometry C D (.dir card k.core s) := by
  have hdir : update C (.coreDir card k.core) (some ((C (.coreDir card k.core)).getD []))
      (.dir card k.core s) = C (.dir card k.core s) := update_of_ne (by simp) _ _
  simp only [makeDir, enter, hdir]

theorem made_dir : update (update C (.coreDir card k.core)
      (some ((C (.coreDir card k.core)).getD []))) (.dir card k.core s)
      (some ((update C (.coreDir card k.core) (some ((C (.coreDir card k.core)).getD []))
        (.dir card k.core s)).getD [])) = slotMade card k s C := by
  rw [slotMade, update_of_ne (by simp)]

theorem yields_mkdirs : Fat.Yields F.toGeometry (mkdirs card k.core s) C D (slotMade card k s C)
    (k.madeDirs F s C D) := by
  have hyields : Fat.Yields F.toGeometry (mkdirs card k.core s) C D _ _ :=
    .cons .mkdir (.cons .mkdir .nil)
  rw [dirsAfter, dirsAfter, makeDir_made, made_dir] at hyields
  exact hyields

theorem yields_clear : Fat.Yields F.toGeometry
    (.seq [.rm [.kept card (.slot k.core s .prev), .new card (.slot k.core s .prev),
      .new card (.slot k.core s .boot)], .sync]) (slotMade card k s C)
    (k.madeDirs F s C D) (slotCleared card k s C) (k.slotDirs F s C D) :=
  .cons .rm (.cons .sync .nil)

section Dirs

variable (F s C D) in
/-- The directories with the new FIT, -/
def Deploy.writtenDirs (k : Deploy Dev) : Folder → Slots (Path Dev) :=
  enter F.toGeometry (fun _ => (none : Option Bytes)) (k.slotDirs F s C D)
    (.new card (.slot k.core s .boot))

variable (F s C D) in
/-- ... and with the copy of the old one. -/
def Deploy.copiedDirs (k : Deploy Dev) : Folder → Slots (Path Dev) :=
  enter F.toGeometry (fun _ => (none : Option Bytes)) (k.writtenDirs F s C D)
    (.new card (.slot k.core s .prev))

theorem dirs_write (image : Bytes) : dirsAfter F.toGeometry (slotCleared card k s C) (k.slotDirs F s C D)
    (.write (.new card (.slot k.core s .boot)) image) = k.writtenDirs F s C D := by
  have hgone : slotCleared card k s C (.new card (.slot k.core s .boot)) = none := by
    simp [slotCleared]
  exact enter_eq hgone

theorem fitWritten_boot : fitWritten card k s C image (.kept card (.slot k.core s .boot)) =
    C (.kept card (.slot k.core s .boot)) := by
  have hfile : IsFile card (.kept card (.slot k.core s .boot)) := rfl
  rw [fitWritten, update_of_ne (by simp), slotCleared, if_neg (by simp),
    slotMade_of_file (Or.inl hfile)]

theorem fitWritten_new :
    fitWritten card k s C image (.new card (.slot k.core s .boot)) = some image := update_self ..

theorem fitCopied_new :
    fitCopied card k s C image old (.new card (.slot k.core s .prev)) = some old := update_self ..

theorem dirs_copy (image : Bytes)
    (hold : C (.kept card (.slot k.core s .boot)) = some old) :
    dirsAfter F.toGeometry (fitWritten card k s C image) (k.writtenDirs F s C D)
      (.copy (.kept card (.slot k.core s .boot)) (.new card (.slot k.core s .prev))) =
      k.copiedDirs F s C D := by
  have hboot : fitWritten card k s C image (.kept card (.slot k.core s .boot)) = some old :=
    fitWritten_boot.trans hold
  have hprevNew : fitWritten card k s C image (.new card (.slot k.core s .prev)) = none := by
    simp [fitWritten, slotCleared]
  simp only [dirsAfter, hboot, enter_eq hprevNew]
  rfl

theorem dirs_keep (image : Bytes)
    (hold : C (.kept card (.slot k.core s .boot)) = some old) :
    dirsAfter F.toGeometry (fitCopied card k s C image old) (k.copiedDirs F s C D)
      (.mv (.new card (.slot k.core s .prev)) (.kept card (.slot k.core s .prev))) =
      leave F.toGeometry (k.cardDirs F s C D) (.new card (.slot k.core s .prev)) := by
  have hprev : fitCopied card k s C image old (.kept card (.slot k.core s .prev)) = none := by
    simp [fitCopied, fitWritten, slotCleared]
  simp only [dirsAfter, fitCopied_new, enter_eq hprev, Deploy.cardDirs, hold]
  rfl

theorem dirs_name_new (image : Bytes)
    (hold : C (.kept card (.slot k.core s .boot)) = none) :
    dirsAfter F.toGeometry (fitWritten card k s C image) (k.writtenDirs F s C D)
      (.mv (.new card (.slot k.core s .boot)) (.kept card (.slot k.core s .boot))) =
      leave F.toGeometry (k.cardDirs F s C D) (.new card (.slot k.core s .boot)) := by
  have hboot : fitWritten card k s C image (.kept card (.slot k.core s .boot)) = none :=
    fitWritten_boot.trans hold
  simp only [dirsAfter, fitWritten_new, enter_eq hboot, Deploy.cardDirs, hold]
  rfl

theorem fitKept_boot (hold : C (.kept card (.slot k.core s .boot)) = some old) :
    fitKept card k s C image old (.kept card (.slot k.core s .boot)) = some old := by
  rw [fitKept, update_of_ne (by simp), update_of_ne (by simp), fitCopied, update_of_ne (by simp),
    fitWritten_boot, hold]

theorem fitKept_new :
    fitKept card k s C image old (.new card (.slot k.core s .boot)) = some image := by
  rw [fitKept, update_of_ne (by simp), update_of_ne (by simp), fitCopied, update_of_ne (by simp),
    fitWritten_new]

theorem dirs_name_over (image : Bytes)
    (hold : C (.kept card (.slot k.core s .boot)) = some old) :
    dirsAfter F.toGeometry (fitKept card k s C image old)
      (leave F.toGeometry (k.cardDirs F s C D) (.new card (.slot k.core s .prev)))
      (.mv (.new card (.slot k.core s .boot)) (.kept card (.slot k.core s .boot))) =
      leave F.toGeometry (leave F.toGeometry (k.cardDirs F s C D)
        (.new card (.slot k.core s .prev))) (.new card (.slot k.core s .boot)) := by
  have hsame (D : Folder → Slots (Path Dev)) : enter F.toGeometry
      (fitKept card k s C image old) D (.kept card (.slot k.core s .boot)) = D := by
    rw [enter, F.name_eq]
    simp [entry, seatOf, fitKept_boot hold]
  simp only [dirsAfter, fitKept_new, hsame]
  rfl

end Dirs

theorem yields_write : Fat.Yields F.toGeometry
    (.seq [.write (.new card (.slot k.core s .boot)) image, .sync]) (slotCleared card k s C)
    (k.slotDirs F s C D) (fitWritten card k s C image) (k.writtenDirs F s C D) := by
  rw [← dirs_write image]
  exact .cons .write (.cons .sync .nil)

/-- The old FIT, twice. -/
theorem yields_keep (hold : C (.kept card (.slot k.core s .boot)) = some old) :
    Fat.Yields F.toGeometry
      (.seq [.copy (.kept card (.slot k.core s .boot)) (.new card (.slot k.core s .prev)), .sync,
        .mv (.new card (.slot k.core s .prev)) (.kept card (.slot k.core s .prev))])
      (fitWritten card k s C image) (k.writtenDirs F s C D) (fitKept card k s C image old)
      (leave F.toGeometry (k.cardDirs F s C D) (.new card (.slot k.core s .prev))) := by
  refine .cons (.copy (fitWritten_boot.trans hold)) (.cons .sync ?_)
  rw [← dirs_keep image hold, dirs_copy image hold]
  exact .cons (.mv fitCopied_new) .nil

/-- The new FIT gets its name, where there was none, -/
theorem yields_name_new (hold : C (.kept card (.slot k.core s .boot)) = none) :
    Fat.Yields F.toGeometry
      (.seq [.mv (.new card (.slot k.core s .boot)) (.kept card (.slot k.core s .boot)), .sync])
      (fitWritten card k s C image) (k.writtenDirs F s C D)
      (fitNamed card k s (fitWritten card k s C image) image)
      (leave F.toGeometry (k.cardDirs F s C D) (.new card (.slot k.core s .boot))) := by
  rw [← dirs_name_new image hold]
  exact .cons (.mv fitWritten_new) (.cons .sync .nil)

/-- ... and in the place of the old one. -/
theorem yields_name_over (hold : C (.kept card (.slot k.core s .boot)) = some old) :
    Fat.Yields F.toGeometry
      (.seq [.mv (.new card (.slot k.core s .boot)) (.kept card (.slot k.core s .boot)), .sync])
      (fitKept card k s C image old)
      (leave F.toGeometry (k.cardDirs F s C D) (.new card (.slot k.core s .prev)))
      (fitNamed card k s (fitKept card k s C image old) image)
      (leave F.toGeometry (leave F.toGeometry (k.cardDirs F s C D)
        (.new card (.slot k.core s .prev))) (.new card (.slot k.core s .boot))) := by
  rw [← dirs_name_over image hold]
  exact .cons (.mv fitKept_new) (.cons .sync .nil)

/-! ### What is in use -/

variable (k s) in
/-- The clusters of the files that the deploy reads and writes. -/
def slotLoad (F : BootFat card) (C : Path Dev → Option Bytes) : ℕ :=
  ((k.slotPaths card s).map (F.size C)).sum

theorem slotLoad_le (hlist : k.slotPaths card s ⊆ F.files) : slotLoad k s F C ≤ F.load C := by
  let gone : Path Dev → Option Bytes := fun p => if p ∈ k.slotPaths card s then none else C p
  have hload : F.load C + _ = F.load gone + _ := load_slot hlist fun p hp _ => if_neg hp
  have hnone : ((k.slotPaths card s).map (F.size gone)).sum = 0 := by
    refine List.sum_eq_zero fun n hn => ?_
    obtain ⟨p, hp, rfl⟩ := List.mem_map.mp hn
    exact size_none (if_pos hp)
  rw [hnone] at hload
  rw [slotLoad]
  omega

/-- The deploy is at its peak with both FITs there twice over. -/
theorem total_stage (image : Bytes) (D D' : Folder → Slots (Path Dev))
    (hlist : k.slotPaths card s ⊆ F.files)
    (hout : ∀ p, p ∉ k.slotPaths card s → IsFile card p ∨ IsTree card p → C' p = C p) :
    F.total C' D' + (F.dirLoad (k.cardDirs F s C D) + clustersOf F.clusterSize image.length +
        2 * F.size C (.kept card (.slot k.core s .boot))) =
      k.peak F s C D image + (F.dirLoad D' + slotLoad k s F C') := by
  have hload : F.load C + slotLoad k s F C' = F.load C' + slotLoad k s F C := load_slot hlist hout
  have hle : slotLoad k s F C ≤ F.load C := slotLoad_le hlist
  have hslot : slotLoad k s F C = F.size C (.kept card (.slot k.core s .boot)) +
      (F.size C (.kept card (.slot k.core s .prev)) +
        (F.size C (.new card (.slot k.core s .prev)) +
          (F.size C (.new card (.slot k.core s .boot)) + 0))) := rfl
  rw [Deploy.peak, Geometry.total]
  omega

/-- Below the peak. -/
theorem total_le (hlist : k.slotPaths card s ⊆ F.files) (hpeak : k.peak F s C D image ≤ bound)
    (hout : ∀ p, p ∉ k.slotPaths card s → IsFile card p ∨ IsTree card p → C' p = C p)
    (hdirs : F.dirLoad D' ≤ F.dirLoad (k.cardDirs F s C D))
    (hload : slotLoad k s F C' ≤ clustersOf F.clusterSize image.length +
      2 * F.size C (.kept card (.slot k.core s .boot))) : F.total C' D' ≤ bound := by
  have hstage := total_stage image D D' hlist hout
  omega

theorem load_congr (h : ∀ p, IsFile card p ∨ IsTree card p → C' p = C p) :
    F.load C' = F.load C := by
  refine Nat.le_antisymm ?_ ?_
  · refine load_mono (fun p hp => ?_) fun t ht => ?_
    · rw [Geometry.size, Geometry.size, h p (Or.inl (F.isFile p hp))]
    · rw [h t.1 (Or.inr (F.isTree t ht))]
      exact id
  · refine load_mono (fun p hp => ?_) fun t ht => ?_
    · rw [Geometry.size, Geometry.size, h p (Or.inl (F.isFile p hp))]
    · rw [h t.1 (Or.inr (F.isTree t ht))]
      exact id

/-! ### The directories of the slot -/

variable (k s) in
/-- The slot's directories are as a file system has them. -/
structure SlotSound (F : BootFat card) (C : Path Dev → Option Bytes)
    (D : Folder → Slots (Path Dev)) : Prop where
  coreAbsent : C (.coreDir card k.core) = none → D (.core k.core) = []
  slotAbsent : C (.dir card k.core s) = none → D (.slot k.core s) = []
  inCore : C (.coreDir card k.core) = none → C (.dir card k.core s) = none
  inSlot : C (.dir card k.core s) = none → ∀ p ∈ k.slotPaths card s, C p = none

theorem Sound.slot (h : Sound F v) : SlotSound k s F (content v.store) v.dirs := by
  have hcore : folder card (.coreDir card k.core) = some (.core k.core) := if_pos rfl
  have hdir : folder card (.dir card k.core s) = some (.slot k.core s) := if_pos rfl
  have hseat : entry card (.dir card k.core s) = some (.core k.core, nameSlots 6) := by
    simp [entry, seatOf]
  refine ⟨h.absent _ _ hcore, h.absent _ _ hdir, h.inside _ _ _ _ hseat hcore, fun hgone p hp => ?_⟩
  have hslot : ∃ n, entry card p = some (.slot k.core s, n) := by
    simp only [Deploy.slotPaths, List.mem_cons, List.not_mem_nil, or_false] at hp
    obtain rfl | rfl | rfl | rfl := hp <;> exact ⟨_, by simp [entry, seatOf, File.seat]; rfl⟩
  obtain ⟨n, hn⟩ := hslot
  exact h.inside _ _ _ _ hn hdir hgone

theorem makeDir_of_some {p : Path Dev} {d : Folder} (hp : folder card p = some d)
    (h : (C p).isSome = true) : makeDir F.toGeometry C D p = D := by
  rw [makeDir, F.opens_eq, hp]
  exact if_pos h

/-- A core's directory is none of a slot. -/
theorem makeDir_core_slot (core core' : Text) :
    makeDir F.toGeometry C D (.coreDir card core) (.slot core' s) = D (.slot core' s) := by
  have hfolder : folder card (.coreDir card core) = some (.core core) := if_pos rfl
  rw [makeDir, F.opens_eq, hfolder]
  show (if (C (.coreDir card core)).isSome then D else update _ _ _) _ = _
  split
  · rfl
  · rw [update_of_ne (by simp), enter, F.name_eq]
    simp only [entry, seatOf, if_true, Option.map_some]
    split
    · rfl
    · rw [update_of_ne (by simp)]

theorem dirLoad_made (h : SlotSound k s F C D) :
    F.dirLoad (makeDir F.toGeometry C D (.coreDir card k.core)) ≤
      F.dirLoad (k.madeDirs F s C D) := by
  refine dirLoad_makeDir fun d hd hnone => ?_
  have hdir : folder card (.dir card k.core s) = some (.slot k.core s) := if_pos rfl
  obtain rfl := Option.some.inj (hdir.symm.trans hd)
  rw [makeDir_core_slot]
  exact h.slotAbsent hnone

theorem dirLoad_slotDirs : F.dirLoad (k.slotDirs F s C D) = F.dirLoad (k.madeDirs F s C D) :=
  dirLoad_leaves _

/-- Each name that is added makes the directories larger, or leaves them. -/
theorem dirLoad_new : F.dirLoad (enter F.toGeometry (fun _ => (none : Option Bytes))
      (k.slotDirs F s C D) (.new card (.slot k.core s .boot))) ≤
    F.dirLoad (k.cardDirs F s C D) := by
  rw [Deploy.cardDirs]
  split
  · exact Nat.le_trans dirLoad_enter dirLoad_enter
  · exact dirLoad_enter

theorem dirLoad_prevNew (hold : (C (.kept card (.slot k.core s .boot))).isSome = true) :
    F.dirLoad (enter F.toGeometry (fun _ => (none : Option Bytes))
      (enter F.toGeometry (fun _ => (none : Option Bytes)) (k.slotDirs F s C D)
        (.new card (.slot k.core s .boot))) (.new card (.slot k.core s .prev))) ≤
      F.dirLoad (k.cardDirs F s C D) := by
  rw [Deploy.cardDirs]
  rw [if_pos hold]
  exact dirLoad_enter

theorem dirLoad_made_le : F.dirLoad (k.madeDirs F s C D) ≤ F.dirLoad (k.cardDirs F s C D) := by
  rw [← dirLoad_slotDirs]
  exact Nat.le_trans dirLoad_enter dirLoad_new

/-- With the slot's directories the FAT holds what it held, or no file of the slot. -/
theorem total_made (h : SlotSound k s F C D) (hlist : k.slotPaths card s ⊆ F.files)
    (hstart : F.total C D ≤ bound) (hpeak : k.peak F s C D image ≤ bound) :
    F.total (slotMade card k s C) (k.madeDirs F s C D) ≤ bound := by
  have hcore : folder card (.coreDir card k.core) = some (.core k.core) := if_pos rfl
  have hdir : folder card (.dir card k.core s) = some (.slot k.core s) := if_pos rfl
  cases hthere : C (.dir card k.core s) with
  | none =>
      refine total_le hlist hpeak (fun p _ hfile => slotMade_of_file hfile) dirLoad_made_le ?_
      have hzero : slotLoad k s F (slotMade card k s C) = 0 := by
        refine List.sum_eq_zero fun n hn => ?_
        obtain ⟨p, hp, rfl⟩ := List.mem_map.mp hn
        refine size_none ?_
        rw [slotMade_of_file (Or.inl (F.isFile p (hlist hp)))]
        exact h.inSlot hthere p hp
      rw [hzero]
      exact Nat.zero_le _
  | some bytes =>
      have hcoreThere : (C (.coreDir card k.core)).isSome = true := by
        rw [Option.isSome_iff_ne_none]
        intro hnone
        rw [h.inCore hnone] at hthere
        cases hthere
      have hsame : k.madeDirs F s C D = D := by
        rw [Deploy.madeDirs, makeDir_of_some hcore hcoreThere, makeDir_of_some hdir (by rw [hthere]; rfl)]
      have hload : F.load (slotMade card k s C) = F.load C := load_congr fun p => slotMade_of_file
      rw [hsame, Geometry.total, hload]
      exact hstart

/-! ### Inside the card -/

/-- The clusters of a file, or of none. -/
def clustersIn (F : BootFat card) (file : Option Bytes) : ℕ :=
  clustersOf F.clusterSize (file.getD []).length

theorem clustersIn_none : clustersIn F none = 0 := by
  have hpos : 0 < F.clusterSize := by
    have htwo := F.two_le_per
    omega
  exact Nat.div_eq_of_lt (by simp; omega)

/-- The four files. -/
structure Holds (k : Deploy Dev) (card : Dev) (s : Slot) (C : Path Dev → Option Bytes)
    (boot prev prevNew bootNew : Option Bytes) : Prop where
  boot : C (.kept card (.slot k.core s .boot)) = boot
  prev : C (.kept card (.slot k.core s .prev)) = prev
  prevNew : C (.new card (.slot k.core s .prev)) = prevNew
  bootNew : C (.new card (.slot k.core s .boot)) = bootNew

theorem Holds.load {boot prev prevNew bootNew : Option Bytes}
    (h : Holds k card s C boot prev prevNew bootNew) : slotLoad k s F C =
      clustersIn F boot + clustersIn F prev + clustersIn F prevNew + clustersIn F bootNew := by
  obtain ⟨rfl, rfl, rfl, rfl⟩ := h
  simp only [slotLoad, Deploy.slotPaths, List.map_cons, List.map_nil, List.sum_cons, List.sum_nil]
  show clustersIn F _ + (clustersIn F _ + (clustersIn F _ + (clustersIn F _ + 0))) = _
  omega

theorem holds_cleared : Holds k card s (slotCleared card k s C)
    (C (.kept card (.slot k.core s .boot))) none none none := by
  have hfile : IsFile card (.kept card (.slot k.core s .boot)) := rfl
  refine ⟨?_, if_pos (by simp), if_pos (by simp), if_pos (by simp)⟩
  rw [slotCleared, if_neg (by simp), slotMade_of_file (Or.inl hfile)]

theorem holds_written : Holds k card s (fitWritten card k s C image)
    (C (.kept card (.slot k.core s .boot))) none none (some image) :=
  ⟨fitWritten_boot, by simp [fitWritten, slotCleared], by simp [fitWritten, slotCleared],
    fitWritten_new⟩

theorem holds_copied (hold : C (.kept card (.slot k.core s .boot)) = some old) :
    Holds k card s (fitCopied card k s C image old) (some old) none (some old) (some image) := by
  have hwritten : Holds k card s (fitWritten card k s C image) _ _ _ _ := holds_written
  refine ⟨?_, ?_, fitCopied_new, ?_⟩
  · rw [fitCopied, update_of_ne (by simp), hwritten.boot, hold]
  · rw [fitCopied, update_of_ne (by simp), hwritten.prev]
  · rw [fitCopied, update_of_ne (by simp), hwritten.bootNew]

theorem holds_kept (hold : C (.kept card (.slot k.core s .boot)) = some old) :
    Holds k card s (fitKept card k s C image old) (some old) (some old) none (some image) :=
  ⟨fitKept_boot hold, update_self .., by simp [fitKept], fitKept_new⟩

theorem holds_named {boot prev prevNew bootNew : Option Bytes}
    (h : Holds k card s C boot prev prevNew bootNew) :
    Holds k card s (fitNamed card k s C image) (some image) prev prevNew none := by
  refine ⟨update_self .., ?_, ?_, by simp [fitNamed]⟩
  · rw [fitNamed, update_of_ne (by simp), update_of_ne (by simp), h.prev]
  · rw [fitNamed, update_of_ne (by simp), update_of_ne (by simp), h.prevNew]

/-- What a deploy needs of the card, and has. -/
structure Room (k : Deploy Dev) (F : BootFat card) (s : Slot) (image : Bytes)
    (C : Path Dev → Option Bytes) (D : Folder → Slots (Path Dev)) (bound : ℕ) : Prop where
  listed : k.slotPaths card s ⊆ F.files
  sound : SlotSound k s F C D
  start : F.total C D ≤ bound
  peak : k.peak F s C D image ≤ bound

theorem Room.inside_mkdirs (h : Room k F s image C D bound) :
    Inside F.toGeometry bound (mkdirs card k.core s) C D := by
  have hmade := total_made h.sound h.listed h.start h.peak
  have hcore : F.total (update C (.coreDir card k.core) (some ((C (.coreDir card k.core)).getD [])))
      (makeDir F.toGeometry C D (.coreDir card k.core)) ≤ bound := by
    refine Nat.le_trans (total_mono (dirLoad_made h.sound) (Nat.le_of_eq ?_)) hmade
    have hslot : F.load (slotMade card k s C) = F.load C := load_congr fun p => slotMade_of_file
    rw [hslot]
    refine load_congr fun p hp => update_of_ne ?_ _ _
    rintro rfl
    exact hp.elim id id
  refine .cons h.start .mkdir (.cons hcore .mkdir (.nil ?_))
  rw [dirsAfter, dirsAfter, makeDir_made, made_dir]
  exact hmade

/-- No stage is above the peak. -/
theorem Room.stage (h : Room k F s image C D bound) {boot prev prevNew bootNew : Option Bytes}
    (hout : ∀ p, p ∉ k.slotPaths card s → IsFile card p ∨ IsTree card p → C' p = C p)
    (hdirs : F.dirLoad D' ≤ F.dirLoad (k.cardDirs F s C D))
    (hholds : Holds k card s C' boot prev prevNew bootNew)
    (hle : clustersIn F boot + clustersIn F prev + clustersIn F prevNew + clustersIn F bootNew ≤
      clustersIn F (some image) + 2 * clustersIn F (C (.kept card (.slot k.core s .boot)))) :
    F.total C' D' ≤ bound := by
  refine total_le h.listed h.peak hout hdirs ?_
  rw [hholds.load]
  exact hle

theorem slotCleared_of_out {p : Path Dev} (hp : p ∉ k.slotPaths card s)
    (hfile : IsFile card p ∨ IsTree card p) : slotCleared card k s C p = C p := by
  rw [slotCleared, if_neg fun hmem => hp (List.mem_cons_of_mem _ hmem), slotMade_of_file hfile]

theorem fitWritten_of_out {p : Path Dev} (hp : p ∉ k.slotPaths card s)
    (hfile : IsFile card p ∨ IsTree card p) : fitWritten card k s C image p = C p := by
  have hne : p ≠ .new card (.slot k.core s .boot) := by
    rintro rfl
    exact hp (by simp [Deploy.slotPaths])
  rw [fitWritten, update_of_ne hne, slotCleared_of_out hp hfile]

theorem fitCopied_of_out {p : Path Dev} (hp : p ∉ k.slotPaths card s)
    (hfile : IsFile card p ∨ IsTree card p) : fitCopied card k s C image old p = C p := by
  have hne : p ≠ .new card (.slot k.core s .prev) := by
    rintro rfl
    exact hp (by simp [Deploy.slotPaths])
  rw [fitCopied, update_of_ne hne, fitWritten_of_out hp hfile]

section Stages

variable (hroom : Room k F s image C D bound)

include hroom

theorem total_cleared : F.total (slotCleared card k s C) (k.slotDirs F s C D) ≤ bound := by
  refine hroom.stage (fun p hp hfile => slotCleared_of_out hp hfile)
    (Nat.le_trans dirLoad_enter dirLoad_new) holds_cleared ?_
  rw [clustersIn_none]
  omega

theorem total_written : F.total (fitWritten card k s C image) (k.writtenDirs F s C D) ≤ bound := by
  refine hroom.stage (fun p hp hfile => fitWritten_of_out hp hfile) dirLoad_new holds_written ?_
  rw [clustersIn_none]
  omega

theorem total_copied (hold : C (.kept card (.slot k.core s .boot)) = some old) :
    F.total (fitCopied card k s C image old) (k.copiedDirs F s C D) ≤ bound := by
  refine hroom.stage (fun p hp hfile => fitCopied_of_out hp hfile)
    (dirLoad_prevNew (by rw [hold]; rfl)) (holds_copied hold) ?_
  rw [clustersIn_none, hold]
  omega

theorem total_kept (hold : C (.kept card (.slot k.core s .boot)) = some old) :
    F.total (fitKept card k s C image old)
      (leave F.toGeometry (k.cardDirs F s C D) (.new card (.slot k.core s .prev))) ≤ bound := by
  refine hroom.stage (fun p hp hfile => fitKept_of_out hp hfile) (Nat.le_of_eq dirLoad_leave)
    (holds_kept hold) ?_
  rw [clustersIn_none, hold]
  omega

theorem total_name_new :
    F.total (fitNamed card k s (fitWritten card k s C image) image)
      (leave F.toGeometry (k.cardDirs F s C D) (.new card (.slot k.core s .boot))) ≤ bound := by
  refine hroom.stage (fun p hp hfile => ?_) (Nat.le_of_eq dirLoad_leave)
    (holds_named holds_written) ?_
  · rw [fitNamed_of_out hp, fitWritten_of_out hp hfile]
  · rw [clustersIn_none]
    omega

theorem total_name_over (hold : C (.kept card (.slot k.core s .boot)) = some old) :
    F.total (fitNamed card k s (fitKept card k s C image old) image)
      (leave F.toGeometry (leave F.toGeometry (k.cardDirs F s C D)
        (.new card (.slot k.core s .prev))) (.new card (.slot k.core s .boot))) ≤ bound := by
  refine hroom.stage (fun p hp hfile => ?_)
    (Nat.le_of_eq (dirLoad_leave.trans dirLoad_leave)) (holds_named (holds_kept hold)) ?_
  · rw [fitNamed_of_out hp, fitKept_of_out hp hfile]
  · rw [clustersIn_none, hold]
    omega

theorem inside_clear : Inside F.toGeometry bound
    (.seq [.rm [.kept card (.slot k.core s .prev), .new card (.slot k.core s .prev),
      .new card (.slot k.core s .boot)], .sync]) (slotMade card k s C) (k.madeDirs F s C D) :=
  .cons (total_made hroom.sound hroom.listed hroom.start hroom.peak) .rm
    (.cons (total_cleared hroom) .sync (.nil (total_cleared hroom)))

theorem inside_write : Inside F.toGeometry bound
    (.seq [.write (.new card (.slot k.core s .boot)) image, .sync]) (slotCleared card k s C)
    (k.slotDirs F s C D) := by
  refine .cons (total_cleared hroom) .write ?_
  rw [dirs_write]
  exact .cons (total_written hroom) .sync (.nil (total_written hroom))

theorem inside_keep (hold : C (.kept card (.slot k.core s .boot)) = some old) :
    Inside F.toGeometry bound
      (.seq [.copy (.kept card (.slot k.core s .boot)) (.new card (.slot k.core s .prev)), .sync,
        .mv (.new card (.slot k.core s .prev)) (.kept card (.slot k.core s .prev))])
      (fitWritten card k s C image) (k.writtenDirs F s C D) := by
  have hcopied := total_copied hroom hold
  refine .cons (total_written hroom) (.copy (fitWritten_boot.trans hold)) ?_
  rw [dirs_copy image hold]
  refine .cons hcopied .sync (.cons hcopied (.mv fitCopied_new) ?_)
  show Inside _ _ _ _ (dirsAfter _ (fitCopied card k s C image old) (k.copiedDirs F s C D) _)
  rw [dirs_keep image hold]
  exact .nil (total_kept hroom hold)

theorem inside_name_new (hold : C (.kept card (.slot k.core s .boot)) = none) :
    Inside F.toGeometry bound
      (.seq [.mv (.new card (.slot k.core s .boot)) (.kept card (.slot k.core s .boot)), .sync])
      (fitWritten card k s C image) (k.writtenDirs F s C D) := by
  have hnamed := total_name_new hroom
  refine .cons (total_written hroom) (.mv fitWritten_new) ?_
  rw [dirs_name_new image hold]
  exact .cons hnamed .sync (.nil hnamed)

theorem inside_name_over (hold : C (.kept card (.slot k.core s .boot)) = some old) :
    Inside F.toGeometry bound
      (.seq [.mv (.new card (.slot k.core s .boot)) (.kept card (.slot k.core s .boot)), .sync])
      (fitKept card k s C image old)
      (leave F.toGeometry (k.cardDirs F s C D) (.new card (.slot k.core s .prev))) := by
  have hnamed := total_name_over hroom hold
  refine .cons (total_kept hroom hold) (.mv fitKept_new) ?_
  rw [dirs_name_over image hold]
  exact .cons hnamed .sync (.nil hnamed)

end Stages

/-! ### The whole deploy -/

theorem look_none (hold : C (.kept card (.slot k.core s .boot)) = none) (S : Disks Dev)
    (hS : content S = fitWritten card k s C image) :
    (S (.kept card (.slot k.core s .boot))).isSome = false := by
  rw [isSome_eq hS, fitWritten_boot, hold]
  rfl

theorem look_some (hold : C (.kept card (.slot k.core s .boot)) = some old) (S : Disks Dev)
    (hS : content S = fitWritten card k s C image) :
    (S (.kept card (.slot k.core s .boot))).isSome = true := by
  rw [isSome_eq hS, fitWritten_boot, hold]
  rfl

/-- What the FIT leaves on the card. -/
theorem Room.yields_fit (h : Room k F s image C D bound) (himage : k.image = some image) :
    ∃ C' D', Fat.Yields F.toGeometry (k.installFit card s) (slotMade card k s C)
      (k.madeDirs F s C D) C' D' ∧ F.total C' D' ≤ bound := by
  rw [Deploy.installFit, himage]
  cases hold : C (.kept card (.slot k.core s .boot)) with
  | none =>
      exact ⟨_, _, yields_clear.andThen (yields_write.andThen
        ((Fat.Yields.see (look_none hold) .pure).andThen (yields_name_new hold))),
        total_name_new h⟩
  | some old =>
      exact ⟨_, _, yields_clear.andThen (yields_write.andThen
        ((Fat.Yields.see (look_some hold) (yields_keep hold)).andThen (yields_name_over hold))),
        total_name_over h hold⟩

theorem Room.inside_fit (h : Room k F s image C D bound) (himage : k.image = some image) :
    Inside F.toGeometry bound (k.installFit card s) (slotMade card k s C) (k.madeDirs F s C D) := by
  rw [Deploy.installFit, himage]
  refine (inside_clear h).andThen yields_clear ((inside_write h).andThen yields_write ?_)
  cases hold : C (.kept card (.slot k.core s .boot)) with
  | none =>
      exact (Inside.see (look_none hold) (.pure (total_written h))).andThen
        (Fat.Yields.see (look_none hold) .pure) (inside_name_new h hold)
  | some old =>
      exact (Inside.see (look_some hold) (inside_keep h hold)).andThen
        (Fat.Yields.see (look_some hold) (yields_keep hold)) (inside_name_over h hold)

/-- The marker is not on the card's BOOT. -/
theorem inside_marker (h : F.total C D ≤ bound) :
    Inside F.toGeometry bound (k.writeMarker s) C D := by
  have hload {p : Path Dev} (hp : ¬(IsFile card p ∨ IsTree card p)) (C : Path Dev → Option Bytes)
      (x : Option Bytes) : F.load (update C p x) = F.load C := by
    refine load_congr fun q hq => update_of_ne ?_ _ _
    rintro rfl
    exact hp hq
  have hnew : ¬(IsFile card (.cardfitNew s) ∨ IsTree card (.cardfitNew s)) := fun h => h.elim id id
  have hkept : ¬(IsFile card (.cardfit s) ∨ IsTree card (.cardfit s)) := fun h => h.elim id id
  have henter {p : Path Dev} (hp : entry card p = none) (C : Path Dev → Option Bytes) :
      enter F.toGeometry C D p = D := by
    rw [enter, F.name_eq, hp]
  have hleave : leave F.toGeometry D (.cardfitNew s) = D := by
    rw [leave, F.name_eq]
    rfl
  have hwritten : F.total (update C (.cardfitNew s) (some (k.toplevel ++ [10]))) D ≤ bound := by
    rw [Geometry.total, hload hnew]
    exact h
  refine .cons h .write ?_
  rw [dirsAfter, henter rfl]
  refine .cons hwritten .sync (.cons hwritten (.mv (update_self ..)) ?_)
  rw [dirsAfter, dirsAfter, henter rfl, hleave, ite_self]
  have hnamed : F.total (update (update (update C (.cardfitNew s) (some (k.toplevel ++ [10])))
      (.cardfitNew s) none) (.cardfit s) (some (k.toplevel ++ [10]))) D ≤ bound := by
    rw [Geometry.total, hload hkept, hload hnew, hload hnew]
    exact h
  exact .cons hnamed .sync (.nil hnamed)

/-- **A deploy that has the room** is inside it at every moment. -/
theorem Room.inside (h : Room k F s image C D bound) (himage : k.image = some image) :
    Inside F.toGeometry bound (k.installCard card s) C D := by
  obtain ⟨C', D', hyields, htotal⟩ := h.yields_fit himage
  exact h.inside_mkdirs.andThen yields_mkdirs
    ((h.inside_fit himage).andThen hyields (inside_marker htotal))

/-- Where every name and both copies are there, it is the peak. -/
theorem total_eq_peak (hlist : k.slotPaths card s ⊆ F.files)
    (hout : ∀ p, p ∉ k.slotPaths card s → IsFile card p ∨ IsTree card p → C' p = C p)
    (hdirs : F.dirLoad D' = F.dirLoad (k.cardDirs F s C D))
    {boot prev prevNew bootNew : Option Bytes} (hholds : Holds k card s C' boot prev prevNew bootNew)
    (hload : clustersIn F boot + clustersIn F prev + clustersIn F prevNew + clustersIn F bootNew =
      clustersIn F (some image) + 2 * clustersIn F (C (.kept card (.slot k.core s .boot)))) :
    F.total C' D' = k.peak F s C D image := by
  have hstage := total_stage image D D' hlist hout
  rw [hholds.load, hload, hdirs] at hstage
  change _ + (_ + clustersIn F (some image) + 2 * clustersIn F _) = _ at hstage
  omega

/-- A deploy that is inside the card comes to its peak. -/
theorem peak_le (hlist : k.slotPaths card s ⊆ F.files) (himage : k.image = some image)
    (hC : content v.store = C) (hD : v.dirs = D)
    (h : Within (Fat.disk F.toGeometry) (fun w => F.used w ≤ bound)
      ((k.installCard card s).comap Vol.store) v) : k.peak F s C D image ≤ bound := by
  obtain ⟨v₁, hC₁, hD₁, -, h₁⟩ := yields_mkdirs.behind hC hD h
  rw [Script.comap_andThen, within_andThen] at h₁
  have hfit := h₁.1
  rw [Deploy.installFit, himage] at hfit
  obtain ⟨v₂, hC₂, hD₂, -, h₂⟩ := yields_clear.behind hC₁ hD₁ hfit
  obtain ⟨v₃, hC₃, hD₃, -, h₃⟩ := yields_write.behind hC₂ hD₂ h₂
  cases hold : C (.kept card (.slot k.core s .boot)) with
  | none =>
      obtain ⟨v₄, hC₄, hD₄, -, h₄⟩ := (Fat.Yields.see (look_none hold) .pure).behind hC₃ hD₃ h₃
      obtain ⟨-, hC₅, hD₅⟩ := yields_name_new hold v₄ hC₄ hD₄
      have hused := h₄.finish
      rw [Geometry.used, hC₅, hD₅] at hused
      have hout : ∀ p, p ∉ k.slotPaths card s → IsFile card p ∨ IsTree card p →
          fitNamed card k s (fitWritten card k s C image) image p = C p := by
        intro p hp hfile
        rw [fitNamed_of_out hp, fitWritten_of_out hp hfile]
      rw [← total_eq_peak hlist hout dirLoad_leave (holds_named holds_written)]
      · exact hused
      · rw [clustersIn_none, hold, clustersIn_none]
  | some old =>
      obtain ⟨v₄, hC₄, hD₄, hused, -⟩ :=
        (Fat.Yields.see (look_some hold) (yields_keep hold)).behind hC₃ hD₃ h₃
      rw [Geometry.used, hC₄, hD₄] at hused
      rw [← total_eq_peak hlist (fun p hp hfile => fitKept_of_out hp hfile) dirLoad_leave
        (holds_kept hold)]
      · exact hused
      · rw [clustersIn_none, hold]
        omega

/-! ### The script -/

/-- The deploy to a card that has passed every check writes to it. -/
theorem within_script {I : BootVol Dev → Prop} {availKib : ℕ} (hcard : k.onCard = true)
    (hchecked : k.checked v.store = .ok (boot, card, s)) (himage : k.image = some image)
    (hfull : k.full availKib image card s v.store = false) :
    Within (Fat.disk F.toGeometry) I ((k.script availKib).comap Vol.store) v ↔
      Within (Fat.disk F.toGeometry) I ((k.installCard card s).comap Vol.store) v := by
  have hinstall : Within (Fat.disk F.toGeometry) I ((k.script availKib).comap Vol.store) v ↔
      Within (Fat.disk F.toGeometry) I
        ((orFailed (k.installCard card s) (pure .finished)).comap Vol.store) v := by
    rw [Deploy.script, Script.comap_bind, Script.comap_see, within_see, Function.comp_apply,
      hchecked]
    show Within _ I ((k.install availKib boot card s).comap Vol.store) v ↔ _
    rw [Deploy.install, if_pos hcard, himage]
    show Within _ I ((Script.see (k.full availKib image card s) >>= _).comap Vol.store) v ↔ _
    rw [Script.comap_bind, Script.comap_see, within_see, Function.comp_apply, hfull]
    rfl
  rw [hinstall, orFailed, Script.comap_bind, within_bind]
  refine ⟨fun h => h.1, fun h => ⟨h, ?_⟩⟩
  have hlast := h.finish
  split
  · exact within_done.mpr hlast
  · exact within_done.mpr hlast

/-- A deploy that is refused, or has no FIT, writes nothing. -/
theorem within_idle {I : BootVol Dev → Prop} {availKib : ℕ} (hcard : k.onCard = true)
    (h : ∀ boot dev s image, k.checked v.store = .ok (boot, dev, s) → k.image = some image →
      k.full availKib image dev s v.store = true) (hI : I v) :
    Within (Fat.disk F.toGeometry) I ((k.script availKib).comap Vol.store) v := by
  rw [Deploy.script, Script.comap_bind, Script.comap_see, within_see, Function.comp_apply]
  cases hchecked : k.checked v.store with
  | error r => exact within_done.mpr hI
  | ok where' =>
      obtain ⟨boot, dev, s⟩ := where'
      show Within _ I ((k.install availKib boot dev s).comap Vol.store) v
      rw [Deploy.install, if_pos hcard]
      cases himage : k.image with
      | none => exact within_done.mpr hI
      | some image =>
          show Within _ I ((Script.see (k.full availKib image dev s) >>= _).comap Vol.store) v
          rw [Script.comap_bind, Script.comap_see, within_see, Function.comp_apply,
            h boot dev s image hchecked himage]
          exact within_done.mpr hI

omit [DecidableEq Dev] in
theorem checked_card {S : Disks Dev} {dev : Dev} (hcard : k.onCard = true)
    (h : k.checked S = .ok (boot, dev, s)) :
    k.bootCard = some dev ∧ slotOf k.cmdline = some s := by
  rw [Deploy.checked] at h
  split at h
  · cases h
  · cases hboot : k.boot with
    | none =>
        rw [hboot] at h
        cases h
    | some boot' =>
        simp only [hboot, Deploy.fitdev, hcard, if_true] at h
        cases hbootCard : k.bootCard with
        | none =>
            rw [hbootCard] at h
            cases h
        | some dev' =>
            rw [hbootCard] at h
            cases hslot : slotOf k.cmdline with
            | none =>
                rw [hslot] at h
                cases h
            | some s' =>
                simp only [hslot] at h
                split at h
                · cases h
                · cases h
                  exact ⟨rfl, rfl⟩

/-- What passes the check for room has the clusters that it needs. -/
def PeakFits (k : Deploy Dev) (F : BootFat card) (v : BootVol Dev) : Prop :=
  ∀ boot s image, k.checked v.store = .ok (boot, card, s) → k.image = some image →
    k.full (F.availKib v) image card s v.store = false →
      k.peak F s (content v.store) v.dirs image ≤ F.clusters

theorem cardFits_iff (hsound : Sound F v) (hcard : k.onCard = true)
    (hboot : ∀ dev, k.bootCard = some dev → dev = card)
    (hlist : ∀ s, slotOf k.cmdline = some s → k.slotPaths card s ⊆ F.files) :
    CardFits k F v ↔ PeakFits k F v := by
  constructor
  · intro hfits boot s image hchecked himage hfull
    have hslot := (checked_card hcard hchecked).2
    rw [CardFits, within_script hcard hchecked himage hfull] at hfits
    exact peak_le (hlist s hslot) himage rfl rfl hfits
  · intro hpeak
    by_cases hidle : ∀ boot dev s image, k.checked v.store = .ok (boot, dev, s) →
        k.image = some image → k.full (F.availKib v) image dev s v.store = true
    · exact within_idle hcard hidle hsound.fits
    · push Not at hidle
      obtain ⟨boot, dev, s, image, hchecked, himage, hfull⟩ := hidle
      obtain ⟨hbootCard, hslot⟩ := checked_card hcard hchecked
      obtain rfl := hboot dev hbootCard
      have hfull := Bool.eq_false_iff.mpr hfull
      rw [CardFits, within_script hcard hchecked himage hfull]
      have hroom : Room k F s image (content v.store) v.dirs F.clusters :=
        ⟨hlist s hslot, hsound.slot, hsound.fits, hpeak boot s image hchecked himage hfull⟩
      exact hroom.inside himage v rfl rfl

/-- Only a deploy with nothing to do finds its fip too large. -/
def FipInTime (k : Deploy Dev) (S : Disks Dev) : Prop :=
  ∀ boot s image, k.onCard = false → k.checked S = .ok (boot, boot, s) → k.image = some image →
    k.ownsFip → 1048576 < k.activeFip.length → k.UpToDate boot s image (content S)

/-- **A refused deploy has written nothing, and one that passes the check has the room**, exactly
where the fip that is too large finds nothing to do and the peak fits. -/
theorem deploy_clean_iff (hsound : Sound F v) (hboot : ∀ dev, k.bootCard = some dev → dev = card)
    (hlist : ∀ s, slotOf k.cmdline = some s → k.slotPaths card s ⊆ F.files) :
    (RefusedClean k (F.availKib v) v.store ∧ (k.onCard = true → CardFits k F v)) ↔
      FipInTime k v.store ∧ (k.onCard = true → PeakFits k F v) := by
  rw [refusedClean_iff]
  refine and_congr_right fun _ => ⟨fun h hcard => ?_, fun h hcard => ?_⟩
  · exact (cardFits_iff hsound hcard hboot hlist).mp (h hcard)
  · exact (cardFits_iff hsound hcard hboot hlist).mpr (h hcard)

/-! ### A small card -/

/-- A deploy of the core `duo` to a card, where the eMMC's FAT is the device `false`. -/
def smallDeploy : Deploy Bool where
  core := "duo".toList
  recoveryFip := none
  activeFip := []
  fipPath := fipBin
  emmc := true
  externalStorage := true
  squashfs := true
  boot := some false
  lower := true
  bootCard := some true
  cmdline := "rauc.slot=A".toList
  toplevel := []
  image := some [1]
  genSecure := some unsigned
  fipBlock := true

/-- The card holds an old FIT of one byte. -/
def smallStore : Disks Bool := fun p =>
  if p = .kept false .secure then some ⟨unsigned, true⟩
  else if p = .kept false (.slot "duo".toList .A .vbmeta) then some ⟨[], true⟩
  else if p = .coreDir true "duo".toList then some ⟨[], true⟩
  else if p = .dir true "duo".toList .A then some ⟨[], true⟩
  else if p = .kept true (.slot "duo".toList .A .boot) then some ⟨[2], true⟩
  else none

/-- The card, with `n` clusters of 512 bytes. -/
def smallFat (n : ℕ) : BootFat true where
  clusterSize := 512
  clusters := n
  name := entry true
  opens := folder true
  dirs := [.core "duo".toList, .slot "duo".toList .A]
  files := smallDeploy.slotPaths true .A
  trees := []
  base := 0
  name_eq := rfl
  opens_eq := rfl
  two_le_per := Nat.le_of_ble_eq_true rfl
  dirs_nodup := by decide
  files_nodup := by decide
  isFile := by
    intro p hp
    simp only [Deploy.slotPaths, List.mem_cons, List.not_mem_nil, or_false] at hp
    obtain rfl | rfl | rfl | rfl := hp <;> exact rfl
  isTree := fun t ht => by cases ht

def smallVol : BootVol Bool where
  store := smallStore
  dirs d :=
    if d = .core "duo".toList then
      place 16 2 (.dir true "duo".toList .A) (fresh 16 (.coreDir true "duo".toList))
    else if d = .slot "duo".toList .A then
      place 16 2 (.kept true (.slot "duo".toList .A .boot)) (fresh 16 (.dir true "duo".toList .A))
    else []

theorem content_small (p : Path Bool) : content smallStore p = none ↔
    p ≠ .kept false .secure ∧ p ≠ .kept false (.slot "duo".toList .A .vbmeta) ∧
      p ≠ .coreDir true "duo".toList ∧ p ≠ .dir true "duo".toList .A ∧
        p ≠ .kept true (.slot "duo".toList .A .boot) := by
  simp only [content, smallStore]
  split_ifs <;> simp_all

theorem folder_cases {q : Path Dev} {d : Folder} (h : folder card q = some d) :
    (∃ core, q = .coreDir card core ∧ d = .core core) ∨
      ∃ core s, q = .dir card core s ∧ d = .slot core s := by
  cases q with
  | coreDir dev core =>
      obtain ⟨rfl, rfl⟩ := (Option.ite_none_right_eq_some.mp h).imp_right Option.some.inj
      exact Or.inl ⟨core, rfl, rfl⟩
  | dir dev core s =>
      obtain ⟨rfl, rfl⟩ := (Option.ite_none_right_eq_some.mp h).imp_right Option.some.inj
      exact Or.inr ⟨core, s, rfl, rfl⟩
  | _ => cases h

theorem sound_small {n : ℕ} (hn : 3 ≤ n) : Sound (smallFat n) smallVol := by
  refine ⟨?_, fun q d hq hgone => ?_, fun p d m q hp hq hgone => ?_⟩
  · have hused : (smallFat 0).used smallVol = 3 := by decide
    have hsame : (smallFat n).used smallVol = (smallFat 0).used smallVol := rfl
    rw [hsame, hused]
    exact hn
  · obtain ⟨-, -, hcore, hdir, -⟩ := (content_small q).mp hgone
    obtain ⟨core, rfl, rfl⟩ | ⟨core, s, rfl, rfl⟩ := folder_cases hq
    · refine (if_neg fun heq => hcore ?_).trans (if_neg (by simp))
      rw [Folder.core.inj heq]
    · refine if_neg fun heq => hdir ?_
      rw [(Folder.slot.inj heq).1, (Folder.slot.inj heq).2]
  · obtain ⟨-, -, hcore, hdir, -⟩ := (content_small q).mp hgone
    -- what is there is in a directory that is there
    refine (content_small p).mpr ⟨?_, ?_, ?_, ?_, ?_⟩
    · rintro rfl
      cases hp
    · rintro rfl
      cases hp
    · rintro rfl
      cases hp
      obtain ⟨core, -, hroot⟩ | ⟨core, s, -, hroot⟩ := folder_cases hq <;> cases hroot
    · rintro rfl
      cases hp
      obtain ⟨core, rfl, heq⟩ | ⟨core, s, -, heq⟩ := folder_cases hq
      · exact hcore (by rw [Folder.core.inj heq])
      · cases heq
    · rintro rfl
      cases hp
      obtain ⟨core, -, heq⟩ | ⟨core, s, rfl, heq⟩ := folder_cases hq
      · cases heq
      · exact hdir (by rw [(Folder.slot.inj heq).1, (Folder.slot.inj heq).2])

theorem small_listed (n : ℕ) : ∀ s, slotOf smallDeploy.cmdline = some s →
    smallDeploy.slotPaths true s ⊆ (smallFat n).files := by
  intro s hs
  have hA : slotOf smallDeploy.cmdline = some .A := by decide
  obtain rfl := Option.some.inj (hA.symm.trans hs)
  exact fun p hp => hp

/-- Two clusters are free. -/
theorem deploy_clean_small :
    RefusedClean smallDeploy ((smallFat 5).availKib smallVol) smallStore ∧
      (smallDeploy.onCard = true → CardFits smallDeploy (smallFat 5) smallVol) := by
  refine (deploy_clean_iff (v := smallVol) (F := smallFat 5) (sound_small (by decide))
    (fun dev h => (Option.some.inj h).symm) (small_listed 5)).mpr ⟨?_, fun _ => ?_⟩
  · intro boot s image hcard
    cases hcard
  · intro boot s image hchecked himage _
    obtain ⟨-, hslot⟩ := checked_card (k := smallDeploy) rfl hchecked
    have hA : slotOf smallDeploy.cmdline = some .A := by decide
    obtain rfl := Option.some.inj (hA.symm.trans hslot)
    obtain rfl := Option.some.inj himage
    decide

/-- A cluster is free, and two are needed. -/
theorem deploy_fills_card :
    ¬ ∀ (k : Deploy Bool) (F : BootFat true) (v : BootVol Bool), Sound F v →
      (∀ dev, k.bootCard = some dev → dev = true) →
      (∀ s, slotOf k.cmdline = some s → k.slotPaths true s ⊆ F.files) →
        RefusedClean k (F.availKib v) v.store ∧ (k.onCard = true → CardFits k F v) := by
  intro hclaim
  have hboot : ∀ dev, smallDeploy.bootCard = some dev → dev = true :=
    fun dev h => (Option.some.inj h).symm
  have hsound := sound_small (n := 4) (by decide)
  have hfits := (hclaim smallDeploy (smallFat 4) smallVol hsound hboot (small_listed 4)).2 rfl
  have hpeak := (cardFits_iff hsound rfl hboot (small_listed 4)).mp hfits
  have hfull : smallDeploy.full ((smallFat 4).availKib smallVol) [1] true .A smallVol.store =
      false := by decide
  have hle := hpeak false .A [1] rfl rfl hfull
  exact absurd hle (by decide)

end BadgeOS.BootFiles
