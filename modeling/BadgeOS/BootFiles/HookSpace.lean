import BadgeOS.BootFiles.BootFat
import BadgeOS.BootFiles.BundleSize
import BadgeOS.Lib.FatCosts
import Mathlib

/-!
# The room for a RAUC install

The margin of 16 MiB that `slot-install` adds to the sizes of the files covers the clusters that
are not full, the directories and their names, for up to a hundred cores, and 3 MiB of `secure`,
whose size is not counted.

* `Hook.costs_slotFiles`, `Hook.costs_secure`, `Hook.costs_fip` — what the parts of
  `slot-post-install` add at most;
* `Hook.nameClusters_le` — the clusters of directories that the names need;
* `accepted_fits` — what is accepted keeps inside the FAT at every moment.
-/

namespace BadgeOS.BootFiles

open Crash Files Function Fat
open Stage0 (Slot Text)

variable {Dev : Type} [DecidableEq Dev] {dev : Dev} {F : BootFat dev} {t : Tar} {s : Slot}
  {h : Hook Dev} {v : BootVol Dev} {core : Text} {f : File}

/-! ### Names -/

theorem nameCost_eq {p : Path Dev} {d : Folder} {n : ℕ} (hp : seatOf dev p = some (d, n)) :
    nameCost F.toGeometry p = Pi.single d (nameSlots n) := by
  rw [nameCost, F.name_eq, entry, hp]
  rfl

theorem nameCost_kept : nameCost F.toGeometry (.kept dev f) =
    Pi.single f.seat.1 (nameSlots f.seat.2) := nameCost_eq (if_pos rfl)

theorem nameCost_new : nameCost F.toGeometry (.new dev f) =
    Pi.single f.seat.1 (nameSlots (f.seat.2 + 4)) := nameCost_eq (if_pos rfl)

theorem dirCost_coreDir : dirCost F.toGeometry (.coreDir dev core) =
    Pi.single .root (nameSlots core.length) + Pi.single (.core core) 2 := by
  have hopens : F.opens (.coreDir dev core) = some (.core core) := by
    rw [F.opens_eq]
    exact if_pos rfl
  have hname : nameCost F.toGeometry (.coreDir dev core) =
      Pi.single .root (nameSlots core.length) := nameCost_eq (if_pos rfl)
  rw [dirCost, hname, hopens]

theorem dirCost_dir : dirCost F.toGeometry (.dir dev core s) =
    Pi.single (.core core) 2 + Pi.single (.slot core s) 2 := by
  have hopens : F.opens (.dir dev core s) = some (.slot core s) := by
    rw [F.opens_eq]
    exact if_pos rfl
  have hname : nameCost F.toGeometry (.dir dev core s) =
      Pi.single (.core core) (nameSlots 6) := nameCost_eq (if_pos rfl)
  rw [dirCost, hname, hopens]
  rfl

theorem tree_ne {p : Path Dev} (hp : ¬ IsTree dev p) : ∀ t ∈ F.trees, t.1 ≠ p := by
  rintro t ht rfl
  exact hp (F.isTree t ht)

theorem two_le_per : 2 ≤ F.toGeometry.per := F.two_le_per

/-! ### The parts -/

/-- A file that is replaced. -/
theorem costs_replace (bytes : Bytes) : Costs F.toGeometry (replace dev f bytes)
    (clustersOf F.clusterSize bytes.length)
    (Pi.single f.seat.1 (nameSlots (f.seat.2 + 4) + nameSlots f.seat.2)) := by
  rw [Pi.single_add, ← nameCost_new (F := F), ← nameCost_kept (F := F)]
  exact Costs.replace two_le_per F.files_nodup (tree_ne id) (tree_ne id)

theorem costs_mkdirs : Costs F.toGeometry (mkdirs dev core s) 0
    (Pi.single .root (nameSlots core.length) + Pi.single (.core core) 4 +
      Pi.single (.slot core s) 2) := by
  have hcore : Adds F.toGeometry (.mkdir (.coreDir dev core) : Cmd (Path Dev) UInt8) 0 _ :=
    Adds.mkdir two_le_per (tree_ne id)
  have hslot : Adds F.toGeometry (.mkdir (.dir dev core s) : Cmd (Path Dev) UInt8) 0 _ :=
    Adds.mkdir two_le_per (tree_ne id)
  refine (Costs.cons hcore (Costs.cons hslot .nil)).mono (Nat.le_refl _) (le_of_eq ?_)
  rw [dirCost_coreDir, dirCost_dir, add_zero, show (4 : ℕ) = 2 + 2 from rfl, Pi.single_add]
  simp only [add_assoc]

namespace Hook

theorem boot_slots : nameSlots ((File.slot core s .boot).seat.2 + 4) +
    nameSlots (File.slot core s .boot).seat.2 = 4 := by
  show nameSlots (8 + 4) + nameSlots 8 = 4
  decide

theorem vbmeta_slots : nameSlots ((File.slot core s .vbmeta).seat.2 + 4) +
    nameSlots (File.slot core s .vbmeta).seat.2 = 5 := by
  show nameSlots (10 + 4) + nameSlots 10 = 5
  decide

/-- The clusters of a core's files, -/
def coreLoad (F : BootFat dev) (t : Tar) (core : Text) : ℕ :=
  clustersOf F.clusterSize (t.boot core).length + clustersOf F.clusterSize (t.vbmeta core).length

/-- ... and the slots of its names. -/
def coreNames (s : Slot) (core : Text) : Folder → ℕ :=
  Pi.single .root 21 + Pi.single (.core core) 4 + Pi.single (.slot core s) 11

theorem costs_slotFiles : Costs F.toGeometry (slotFiles t dev s)
    (t.cores.map (coreLoad F t)).sum (t.cores.map (coreNames s)).sum := by
  refine Costs.forEach fun core _ => ?_
  split
  · exact (Costs.pure false).mono (Nat.zero_le _) zero_le
  rename_i hlength
  have hname : nameSlots core.length ≤ 21 := by
    rw [nameSlots]
    omega
  refine (costs_mkdirs.andThen ((costs_replace _).andThen (costs_replace _))).mono
    (le_of_eq (Nat.zero_add _)) ?_
  have hslot : (Pi.single (.slot core s) 11 : Folder → ℕ) =
      Pi.single (.slot core s) 2 + (Pi.single (.slot core s) 4 + Pi.single (.slot core s) 5) := by
    rw [← Pi.single_add, ← Pi.single_add]
    rfl
  have hroot : (Pi.single .root (nameSlots core.length) : Folder → ℕ) ≤ Pi.single .root 21 :=
    Pi.single_mono _ hname
  rw [coreNames, hslot, boot_slots, vbmeta_slots]
  refine le_trans ?_ (le_of_eq (add_assoc _ _ _))
  exact add_le_add (add_le_add (add_le_add hroot (le_refl _)) (le_refl _)) (le_refl _)

theorem costs_secure : Costs F.toGeometry (secure t dev)
    (clustersOf F.clusterSize t.secure.length) (Pi.single .root 4) := by
  refine Costs.see fun there => ?_
  split
  · exact (Costs.pure true).mono (Nat.zero_le _) zero_le
  · exact costs_replace _

theorem costs_fip : Costs F.toGeometry (h.fip t dev)
    (if t.hasFip = true then clustersOf F.clusterSize t.fip.length else 0) (Pi.single .root 4) := by
  rw [fip]
  split
  · refine Costs.see fun same => ?_
    split
    · exact (Costs.pure true).mono (Nat.zero_le _) zero_le
    · exact costs_replace _
  · exact (Costs.pure true).mono (Nat.zero_le _) zero_le

theorem costs_clearExtlinux : Costs F.toGeometry (clearExtlinux t dev s) 0 0 := by
  have hnixos (core : Text) : Adds F.toGeometry
      (.rmTree (.nixos dev core s) : Cmd (Path Dev) UInt8) 0 0 := by
    refine Adds.rmTree ?_
    rw [F.opens_eq]
    rfl
  have hfiles (core : Text) : Costs F.toGeometry (Script.forEach
      (fun f => .seq [.rm [.extlinux dev core s f]])
      [.conf, .verityAppend, .desktopConf, .videoConf] : Install Dev Bool) 0 0 :=
    (Costs.forEach fun f _ => Costs.cons (Adds.rm _) .nil).mono (by simp) (by simp)
  have hcores : Costs F.toGeometry (Script.forEach (fun core =>
      (Script.seq [.rmTree (.nixos dev core s)]).andThen <|
      Script.forEach (fun f => .seq [.rm [.extlinux dev core s f]])
        [.conf, .verityAppend, .desktopConf, .videoConf]) t.cores : Install Dev Bool) 0 0 :=
    (Costs.forEach fun core _ => (Costs.cons (hnixos core) .nil).andThen (hfiles core)).mono
      (by simp) (by simp)
  exact hcores.andThen (Costs.cons .sync .nil)

/-! ### Directories -/

/-- The slots of all names. -/
def names (t : Tar) (s : Slot) : Folder → ℕ :=
  (t.cores.map (coreNames s)).sum + Pi.single .root 8

/-- The directories in which they are. -/
def folders (t : Tar) (s : Slot) : List Folder :=
  .root :: (t.cores.map .core ++ t.cores.map (.slot · s))

theorem names_apply (d : Folder) : names t s d =
    (t.cores.map fun core => coreNames s core d).sum + (Pi.single .root 8 : Folder → ℕ) d := by
  rw [names, Pi.add_apply, Pi.list_sum_apply, List.map_map]
  rfl

theorem names_root : names t s .root = 21 * t.cores.length + 8 := by
  have hcore (core : Text) : coreNames s core .root = 21 := by simp [coreNames]
  rw [names_apply, Pi.single_eq_same, funext hcore, List.map_const', List.sum_replicate,
    smul_eq_mul, Nat.mul_comm]

/-- A directory is one core's. -/
theorem names_own_le (hcores : t.cores.Nodup) {d : Folder} {n : ℕ}
    (hd : ∀ core, coreNames s core d ≤ n) {own : Text}
    (hown : ∀ core, core ≠ own → coreNames s core d = 0) (hroot : d ≠ .root) :
    names t s d ≤ n := by
  have hle : (t.cores.map fun core => coreNames s core d).sum ≤
      (t.cores.map fun core => if own = core then n else 0).sum := by
    refine List.sum_le_sum fun core _ => ?_
    split
    · exact hd core
    · rename_i hne
      exact le_of_eq (hown core (Ne.symm hne))
  rw [names_apply, Pi.single_eq_of_ne hroot, Nat.add_zero]
  exact Nat.le_trans hle (Tar.sum_single_le hcores injective_id own n)

theorem names_core_le (hcores : t.cores.Nodup) (core : Text) : names t s (.core core) ≤ 4 := by
  have hle (core' : Text) : coreNames s core' (.core core) ≤ 4 := by
    by_cases heq : core = core'
    · simp [coreNames, heq]
    · simp [coreNames, heq]
  have hown : ∀ core', core' ≠ core → coreNames s core' (.core core) = 0 := by
    intro core' hne
    simp [coreNames, Ne.symm hne]
  exact names_own_le hcores hle hown (by simp)

theorem names_slot_le (hcores : t.cores.Nodup) (core : Text) : names t s (.slot core s) ≤ 11 := by
  have hle (core' : Text) : coreNames s core' (.slot core s) ≤ 11 := by
    by_cases heq : core = core'
    · simp [coreNames, heq]
    · simp [coreNames, heq]
  have hown : ∀ core', core' ≠ core → coreNames s core' (.slot core s) = 0 := by
    intro core' hne
    simp [coreNames, Ne.symm hne]
  exact names_own_le hcores hle hown (by simp)

theorem mem_folders {d : Folder} (hd : names t s d ≠ 0) : d ∈ folders t s := by
  by_contra hout
  simp only [folders, List.mem_cons, List.mem_append, List.mem_map, not_or, not_exists,
    not_and] at hout
  obtain ⟨hroot, hcore, hslot⟩ := hout
  apply hd
  rw [names_apply, Pi.single_eq_of_ne hroot, Nat.add_zero]
  refine List.sum_eq_zero fun n hn => ?_
  obtain ⟨core, hmem, rfl⟩ := List.mem_map.mp hn
  simp [coreNames, hroot, Ne.symm (hcore core hmem), Ne.symm (hslot core hmem)]

theorem nodup_folders (hcores : t.cores.Nodup) : (folders t s).Nodup := by
  have hcore : (t.cores.map Folder.core).Nodup := hcores.map fun _ _ h => Folder.core.inj h
  have hslot : (t.cores.map (Folder.slot · s)).Nodup :=
    hcores.map fun _ _ h => (Folder.slot.inj h).1
  rw [folders, List.nodup_cons, List.nodup_append']
  refine ⟨by simp, hcore, hslot, fun d hd hd' => ?_⟩
  obtain ⟨core, -, rfl⟩ := List.mem_map.mp hd
  obtain ⟨core', -, heq⟩ := List.mem_map.mp hd'
  cases heq

end Hook

/-- **The clusters that the names need.** -/
theorem Hook.nameClusters_le (hcores : t.cores.Nodup) :
    (F.dirs.map fun d => (names t s d + F.per - 1) / F.per).sum ≤
      (21 * t.cores.length + 8 + F.per - 1) / F.per +
        (t.cores.length * ((4 + F.per - 1) / F.per) +
          t.cores.length * ((11 + F.per - 1) / F.per)) := by
  have hper := two_le_per (F := F)
  have hsupport : ∀ d ∈ F.dirs, (names t s d + F.per - 1) / F.per ≠ 0 → d ∈ folders t s := by
    intro d _ hd
    refine mem_folders fun hzero => hd ?_
    rw [hzero]
    exact Nat.div_eq_of_lt (by omega)
  refine Nat.le_trans (sum_le_of_support F.dirs_nodup (nodup_folders hcores) hsupport) ?_
  rw [folders, List.map_cons, List.map_append, List.map_map, List.map_map, List.sum_cons,
    List.sum_append, names_root]
  have hsum {k : ℕ} {g : Text → Folder} (hg : ∀ core, names t s (g core) ≤ k) :
      (t.cores.map fun core => (names t s (g core) + F.per - 1) / F.per).sum ≤
        t.cores.length * ((k + F.per - 1) / F.per) := by
    have hle := List.sum_le_card_nsmul
      (t.cores.map fun core => (names t s (g core) + F.per - 1) / F.per)
      ((k + F.per - 1) / F.per) fun n hn => by
        obtain ⟨core, -, rfl⟩ := List.mem_map.mp hn
        exact Nat.div_le_div_right (Nat.sub_le_sub_right (Nat.add_le_add_right (hg core) _) 1)
    rwa [List.length_map, smul_eq_mul] at hle
  refine Nat.add_le_add_left (Nat.add_le_add ?_ ?_) _
  · exact hsum fun core => names_core_le hcores core
  · exact hsum fun core => names_slot_le hcores core

/-! ### What fits -/

namespace Hook

/-- The clusters of all files. -/
def filesLoad (F : BootFat dev) (t : Tar) : ℕ :=
  (t.cores.map (coreLoad F t)).sum + (clustersOf F.clusterSize t.secure.length +
    if t.hasFip = true then clustersOf F.clusterSize t.fip.length else 0)

/-- Behind the slot's leftovers. -/
theorem costs_rest : Costs F.toGeometry
    ((slotFiles t dev s).andThen <| (clearExtlinux t dev s).andThen <|
      (secure t dev).andThen (h.fip t dev)) (filesLoad F t) (names t s) := by
  refine (costs_slotFiles.andThen (costs_clearExtlinux.andThen
    (costs_secure.andThen costs_fip))).mono (le_of_eq ?_) (le_of_eq ?_)
  · rw [filesLoad, Nat.zero_add]
  · rw [names, zero_add, ← Pi.single_add]

/-- The slot's leftovers, behind `.incoming`. -/
def clearSlot (t : Tar) (dev : Dev) (s : Slot) : Install Dev Bool :=
  (Script.forEach (fun core => .seq [.rm [.kept dev (.slot core s .prev),
    .new dev (.slot core s .prev), .new dev (.slot core s .boot),
    .new dev (.slot core s .vbmeta)]]) t.cores).andThen <|
  (if t.hasFip = true then Script.seq [.rm [.new dev (.fip fipBin)]] else pure true).andThen <|
  .seq [.sync]

theorem costs_clearSlot : Costs F.toGeometry (clearSlot t dev s) 0 0 := by
  have hcores : Costs F.toGeometry (Script.forEach (fun core =>
      .seq [.rm [.kept dev (.slot core s .prev), .new dev (.slot core s .prev),
        .new dev (.slot core s .boot), .new dev (.slot core s .vbmeta)]]) t.cores :
      Install Dev Bool) 0 0 :=
    (Costs.forEach fun core _ => Costs.cons (Adds.rm _) .nil).mono (by simp) (by simp)
  have hfip : Costs F.toGeometry (if t.hasFip = true then Script.seq [.rm [.new dev (.fip fipBin)]]
      else pure true : Install Dev Bool) 0 0 := by
    split
    · exact Costs.cons (Adds.rm _) .nil
    · exact .pure true
  exact hcores.andThen (hfip.andThen (Costs.cons .sync .nil))

theorem adds_rmIncoming :
    Adds F.toGeometry (.rmTree (.incoming dev) : Cmd (Path Dev) UInt8) 0 0 := by
  refine Adds.rmTree ?_
  rw [F.opens_eq]
  rfl

theorem costs_clear : Costs F.toGeometry (clear t dev s) 0 0 :=
  (Costs.cons adds_rmIncoming .nil).andThen costs_clearSlot

/-- `.incoming` goes first. -/
theorem spent_clear (hwhole : ∀ d, F.per ∣ (v.dirs d).length) :
    Spent F.toGeometry v.dirs (F.load (update (content v.store) (.incoming dev) none)) 0
      (((clear t dev s).comap Vol.store).exec (Fat.disk F.toGeometry) v).2 := by
  have hsplit : clear t dev s =
      (Script.seq [.rmTree (.incoming dev)]).andThen (clearSlot t dev s) := rfl
  have hstart : Spent F.toGeometry v.dirs (F.load (content v.store)) 0 v :=
    ⟨Nat.le_refl _, fun d => Grown.refl (hwhole d)⟩
  have hgone : Spent F.toGeometry v.dirs
      (F.load (update (content v.store) (.incoming dev) none)) 0
      (Fat.exec F.toGeometry v (.rmTree (.incoming dev))).2 := by
    refine ⟨?_, (adds_rmIncoming _ _ _ _ hstart).1.grown⟩
    rw [content_rmTree]
  have hexec : ((clear t dev s).comap Vol.store).exec (Fat.disk F.toGeometry) v =
      ((clearSlot t dev s).comap Vol.store).exec (Fat.disk F.toGeometry)
        (Fat.exec F.toGeometry v (.rmTree (.incoming dev))).2 := by
    rw [hsplit, Script.comap_andThen, Script.exec_andThen]
    rfl
  rw [hexec]
  exact (costs_clearSlot _ _ _ _ hgone).finish

theorem used_le_of_spent {D₀ : Folder → Slots (Path Dev)} {L : ℕ} {k : Folder → ℕ} {w : BootVol Dev}
    (hwhole : ∀ d, F.per ∣ (D₀ d).length) (hw : Spent F.toGeometry D₀ L k w) :
    F.used w ≤ F.base + F.dirLoad D₀ + L + (F.dirs.map fun d => (k d + F.per - 1) / F.per).sum :=
  hw.used_le (Nat.lt_of_lt_of_le Nat.two_pos two_le_per) hwhole

/-- The install fits where its files and names fit beside what was there, without `.incoming`. -/
theorem within_install (hsound : Sound F v) (hwhole : ∀ d, F.per ∣ (v.dirs d).length)
    (hroom : F.used v + filesLoad F t +
        (F.dirs.map fun d => (names t s d + F.per - 1) / F.per).sum ≤
      F.clusters + F.treeLoad (content v.store) (.incoming dev)) :
    Within (Fat.disk F.toGeometry) (fun w => F.used w ≤ F.clusters)
      ((h.install t dev s).comap Vol.store) v := by
  have hfits := hsound.fits
  have hfreed := load_rmTree (F := F.toGeometry) (p := .incoming dev) (C := content v.store)
  rw [Geometry.used, Geometry.total] at hfits hroom
  rw [install, Script.comap_andThen, within_andThen]
  constructor
  · intro o w hruns
    have hstart : Spent F.toGeometry v.dirs (F.load (content v.store)) 0 v :=
      ⟨Nat.le_refl _, fun d => Grown.refl (hwhole d)⟩
    have hle := used_le_of_spent hwhole (costs_clear (t := t) (s := s) _ _ _ _ hstart o w hruns)
    have hnone : (F.dirs.map fun d => ((0 + 0 : Folder → ℕ) d + F.per - 1) / F.per).sum = 0 := by
      have hper := two_le_per (F := F)
      refine List.sum_eq_zero fun n hn => ?_
      obtain ⟨d, -, rfl⟩ := List.mem_map.mp hn
      exact Nat.div_eq_of_lt (show 0 + F.per - 1 < F.per by omega)
    omega
  · intro _ o w hruns
    have hle := used_le_of_spent hwhole (costs_rest _ _ _ _ (spent_clear hwhole) o w hruns)
    rw [zero_add] at hle
    omega

/-! ### In bytes -/

omit [DecidableEq Dev] in
theorem mul_clustersOf_le (c bytes : ℕ) : c * clustersOf c bytes ≤ bytes + c :=
  Nat.le_trans (Nat.mul_div_le _ _) (by omega)

/-- The files, each with a cluster that is not full. -/
theorem mul_coreLoads_le (cores : List Text) :
    F.clusterSize * (cores.map (coreLoad F t)).sum ≤
      (cores.map fun core => (t.boot core).length).sum +
        (cores.map fun core => (t.vbmeta core).length).sum +
          2 * (cores.length * F.clusterSize) := by
  induction cores with
  | nil => simp
  | cons core cores ih =>
      have hboot := mul_clustersOf_le F.clusterSize (t.boot core).length
      have hvbmeta := mul_clustersOf_le F.clusterSize (t.vbmeta core).length
      rw [List.map_cons, List.map_cons, List.map_cons, List.sum_cons, List.sum_cons,
        List.sum_cons, List.length_cons, Nat.mul_add, coreLoad, Nat.mul_add, Nat.add_mul,
        Nat.one_mul]
      omega

theorem mul_filesLoad_le (hplain : t.Plain) (hcomplete : t.complete = true)
    (hsecure : t.secure.length ≤ 3 * 1024 * 1024) :
    F.clusterSize * filesLoad F t + 13 * 1024 * 1024 ≤
      t.need + 2 * (t.cores.length * F.clusterSize) + 2 * F.clusterSize := by
  have hcores := mul_coreLoads_le (F := F) (t := t) t.cores
  have hboot := hplain.boot_le
  have hvbmeta := hplain.vbmeta_le hcomplete
  have hmarker := mul_clustersOf_le F.clusterSize t.secure.length
  have hfip : F.clusterSize *
      (if t.hasFip = true then clustersOf F.clusterSize t.fip.length else 0) ≤
        t.fipSize + F.clusterSize := by
    split
    · rename_i hfip
      exact Nat.le_trans (mul_clustersOf_le _ _) (Nat.add_le_add_right (hplain.fip_le hfip) _)
    · exact Nat.zero_le _
  rw [filesLoad, Nat.mul_add, Nat.mul_add, Tar.need]
  omega

/-- The names, each directory with a cluster that is not full. -/
theorem mul_nameClusters_le (hcores : t.cores.Nodup) (hsector : 512 ∣ F.clusterSize) :
    F.clusterSize * (F.dirs.map fun d => (names t s d + F.per - 1) / F.per).sum ≤
      2 * (t.cores.length * F.clusterSize) + F.clusterSize + 32 * (36 * t.cores.length + 8) := by
  have hslots : F.clusterSize = 32 * F.per :=
    (Nat.mul_div_cancel' (Nat.dvd_trans (by decide) hsector)).symm
  have hdir (k : ℕ) : F.clusterSize * ((k + F.per - 1) / F.per) ≤ 32 * k + F.clusterSize := by
    have hle := Nat.mul_div_le (k + F.per - 1) F.per
    rw [hslots, Nat.mul_assoc]
    omega
  have hdirs (k : ℕ) : F.clusterSize * (t.cores.length * ((k + F.per - 1) / F.per)) ≤
      32 * (k * t.cores.length) + t.cores.length * F.clusterSize := by
    have hle := Nat.mul_le_mul_left t.cores.length (hdir k)
    calc F.clusterSize * (t.cores.length * ((k + F.per - 1) / F.per))
        = t.cores.length * (F.clusterSize * ((k + F.per - 1) / F.per)) := Nat.mul_left_comm ..
      _ ≤ t.cores.length * (32 * k + F.clusterSize) := hle
      _ = 32 * (k * t.cores.length) + t.cores.length * F.clusterSize := by ring
  have hle := Nat.mul_le_mul_left F.clusterSize (nameClusters_le (F := F) (s := s) hcores)
  have hroot := hdir (21 * t.cores.length + 8)
  have hcore := hdirs 4
  have hslot := hdirs 11
  rw [Nat.mul_add, Nat.mul_add] at hle
  omega

end Hook

/-- What is accepted leaves the room, with the clusters that `.incoming` frees. -/
theorem SlotInstall.room {i : SlotInstall Dev} {F : BootFat i.device} {v : BootVol Dev}
    (hsector : 512 ∣ F.clusterSize) (hcluster : F.clusterSize ≤ 32 * 1024)
    (htar : i.tarball = some t) (hdf : i.availKib = F.availKib v) (hfits : F.used v ≤ F.clusters)
    (hdu : i.staleKib * 1024 ≤
      F.treeLoad (content v.store) (.incoming i.device) * F.clusterSize + 1023)
    (hplain : t.Plain) (hsecure : t.secure.length ≤ 3 * 1024 * 1024)
    (hcores : t.cores.length ≤ 100) (haccepts : i.accepts v.store = true) :
    F.used v + Hook.filesLoad F t +
        (F.dirs.map fun d => (Hook.names t s d + F.per - 1) / F.per).sum ≤
      F.clusters + F.treeLoad (content v.store) (.incoming i.device) := by
  simp only [SlotInstall.accepts, htar, Bool.and_eq_true, decide_eq_true_eq] at haccepts
  obtain ⟨⟨⟨⟨-, hcomplete⟩, -⟩, -⟩, hneed⟩ := haccepts
  have hfiles := Hook.mul_filesLoad_le (F := F) hplain hcomplete hsecure
  have hnames := Hook.mul_nameClusters_le (F := F) (s := s) hplain.nodup_cores hsector
  have htotal : t.cores.length * F.clusterSize ≤ 100 * (32 * 1024) := Nat.mul_le_mul hcores hcluster
  -- both figures are rounded up to KiB
  have havail : t.need ≤ (F.clusters - F.used v) * F.clusterSize +
      F.treeLoad (content v.store) (.incoming i.device) * F.clusterSize + 2 * 1023 := by
    have hkib : i.availKib * 1024 ≤ (F.clusters - F.used v) * F.clusterSize + 1023 := by
      rw [hdf, Geometry.availKib]
      exact Nat.div_mul_le_self _ _
    split at hneed <;> omega
  have hbytes : F.clusterSize * (Hook.filesLoad F t +
      (F.dirs.map fun d => (Hook.names t s d + F.per - 1) / F.per).sum) ≤
      F.clusterSize * (F.clusters - F.used v +
        F.treeLoad (content v.store) (.incoming i.device)) := by
    rw [Nat.mul_add, Nat.mul_add, Nat.mul_comm F.clusterSize (F.clusters - F.used v),
      Nat.mul_comm F.clusterSize (F.treeLoad _ _)]
    omega
  have hpos : 0 < F.clusterSize := by
    have htwo := F.two_le_per
    omega
  have hle := Nat.le_of_mul_le_mul_left hbytes hpos
  omega

/-- **A bundle that is accepted fits**, at every moment of the install. -/
theorem accepted_fits {i : SlotInstall Dev} {h : Hook Dev} {t : Tar} {F : BootFat i.device}
    {v : BootVol Dev} (hsound : Sound F v) (hwhole : ∀ d, F.per ∣ (v.dirs d).length)
    (hsector : 512 ∣ F.clusterSize) (hcluster : F.clusterSize ≤ 32 * 1024)
    (htar : i.tarball = some t) (hsame : h.tarball = some t) (hdev : h.bootdev = some i.device)
    (hdf : i.availKib = F.availKib v)
    (hdu : i.staleKib * 1024 ≤
      F.treeLoad (content v.store) (.incoming i.device) * F.clusterSize + 1023)
    (hplain : t.Plain) (hsecure : t.secure.length ≤ 3 * 1024 * 1024)
    (hcores : t.cores.length ≤ 100) (haccepts : i.accepts v.store = true) :
    Within (Fat.disk F.toGeometry) (fun w => F.used w ≤ F.clusters)
      (h.script.comap Vol.store) v := by
  have hidle : Within (Fat.disk F.toGeometry) (fun w => F.used w ≤ F.clusters)
      ((pure false : Install Dev Bool).comap Vol.store) v := within_done.mpr hsound.fits
  rw [Hook.script, hsame, hdev]
  cases hslot : h.slot with
  | none => exact hidle
  | some s =>
      show Within _ _ ((Script.see (t.allowed i.device) >>= _).comap Vol.store) v
      rw [Script.comap_bind, Script.comap_see, within_see]
      split
      · exact Hook.within_install hsound hwhole (SlotInstall.room hsector hcluster htar hdf
          hsound.fits hdu hplain hsecure hcores haccepts)
      · exact hidle

/-! ### An empty card -/

/-- An empty FAT of 32768 clusters of 512 bytes behind its root, ... -/
def emptyFat : BootFat () where
  clusterSize := 512
  clusters := 32769
  name := entry ()
  opens := folder ()
  dirs := [.root]
  files := [.kept () .secure, .kept () (.slot ['a'] .A .boot), .kept () (.fip fipBin)]
  trees := []
  base := 0
  name_eq := rfl
  opens_eq := rfl
  two_le_per := by decide
  dirs_nodup := by decide
  files_nodup := by decide
  isFile := by
    intro p hp
    simp only [List.mem_cons, List.not_mem_nil, or_false] at hp
    obtain rfl | rfl | rfl := hp <;> exact rfl
  isTree := fun t ht => by cases ht

def emptyVol : BootVol Unit where
  store _ := none
  dirs d := if d = .root then List.replicate 16 none else []

/-- ... its check, -/
def emptyInstall (t : Tar) : SlotInstall Unit where
  boot := true
  tarball := some t
  device := ()
  availKib := emptyFat.availKib emptyVol
  staleKib := 0

/-- ... and its install. -/
def emptyHook (t : Tar) : Hook Unit where
  nix := true
  slot := some .A
  tarball := some t
  bootdev := some ()
  digest := []
  fipRead := 0
  sha256sum := id

theorem sound_empty : Sound emptyFat emptyVol := by
  refine ⟨by decide, fun p d hp _ => if_neg ?_, fun _ _ _ _ _ _ _ => rfl⟩
  rintro rfl
  cases p <;> simp [folder] at hp

theorem whole_empty (d : Folder) : emptyFat.per ∣ (emptyVol.dirs d).length := by
  by_cases hd : d = .root
  · rw [hd]
    decide
  · rw [show emptyVol.dirs d = [] from if_neg hd]
    exact Nat.dvd_zero _

theorem stale_empty (t : Tar) : (emptyInstall t).staleKib * 1024 ≤
    emptyFat.treeLoad (content emptyVol.store) (.incoming ()) * emptyFat.clusterSize + 1023 := by
  have hstale : (emptyInstall t).staleKib = 0 := rfl
  rw [hstale, Nat.zero_mul]
  exact Nat.zero_le _

/-- It takes a tar with nothing to count. -/
theorem accepts_empty {t : Tar} (hcomplete : t.complete = true)
    (hallowed : t.allowed () emptyVol.store = true)
    (hsized : t.sized = 2 * t.cores.length + t.hasFip.toNat) (hboot : t.sizes Tar.isBoot = 0)
    (hvbmeta : t.sizes Tar.isVbmeta = 0) (hfip : t.fipSize = 0) :
    (emptyInstall t).accepts emptyVol.store = true := by
  have hroom : t.need ≤ (emptyInstall t).availKib * 1024 +
      if (emptyVol.store (.incoming ())).isSome then (emptyInstall t).staleKib * 1024 else 0 := by
    have hfree : (emptyInstall t).availKib = 16384 := by
      show emptyFat.availKib emptyVol = 16384
      decide
    rw [Tar.need, hboot, hvbmeta, hfip, hfree]
    exact Nat.le_trans (by decide) (Nat.le_add_right (16384 * 1024) _)
  have htar : (emptyInstall t).tarball = some t := rfl
  simp only [SlotInstall.accepts, htar, Bool.and_eq_true]
  exact ⟨⟨⟨⟨rfl, hcomplete⟩, hallowed⟩, beq_iff_eq.mpr hsized⟩, decide_eq_true hroom⟩

/-- A file that is longer than the FAT does not fit. -/
theorem overflows {t : Tar} (hcomplete : t.complete = true)
    (hallowed : t.allowed () emptyVol.store = true)
    (hdigest : catBytes (t.extract Tar.storeSha256) = [])
    {p : Path Unit} (hp : p ∈ emptyFat.files) {x : Bytes}
    (hend : content ((((emptyHook t).install t () .A).comap Vol.store).exec
      (Fat.disk emptyFat.toGeometry) emptyVol).2.store p = some x)
    (hlong : 32769 * 512 < x.length) :
    ¬ Within (Fat.disk emptyFat.toGeometry) (fun w => emptyFat.used w ≤ emptyFat.clusters)
      ((emptyHook t).script.comap Vol.store) emptyVol := by
  intro hfits
  change Within _ _ ((Script.see (t.allowed ()) >>= _).comap Vol.store) _ at hfits
  rw [Script.comap_bind, Script.comap_see, within_see, comp_apply, hallowed,
    if_pos ⟨rfl, hcomplete, rfl, hdigest⟩] at hfits
  have hused := hfits.finish
  generalize (Script.exec _ _ emptyVol).2 = w at hused hend
  have hsize := size_le_load (C := content w.store) hp
  rw [Geometry.size, hend] at hsize
  change clustersOf 512 x.length ≤ _ at hsize
  change emptyFat.used w ≤ 32769 at hused
  rw [clustersOf] at hsize
  rw [Geometry.used, Geometry.total] at hused
  omega

/-- A tar of one core whose files are empty. -/
def plainTar (secure : Bytes) : Tar :=
  [⟨['a'] ++ Tar.bootItb, .file []⟩, ⟨['a'] ++ Tar.vbmetaItb, .file []⟩,
    ⟨Tar.secureName, .file secure⟩, ⟨Tar.storeSha256, .file []⟩]

theorem plain_plainTar (secure : Bytes) : (plainTar secure).Plain := by
  have hnames : (plainTar secure).map Member.name =
      [['a'] ++ Tar.bootItb, ['a'] ++ Tar.vbmetaItb, Tar.secureName, Tar.storeSha256] := rfl
  refine ⟨?_, fun m hm n hn => ?_, fun m hm => ?_⟩
  · rw [hnames]
    decide
  · have hm := List.mem_map_of_mem (f := Member.name) hm
    have hn := List.mem_map_of_mem (f := Member.name) hn
    rw [hnames] at hm hn
    generalize m.name = a at hm ⊢
    generalize n.name = b at hn ⊢
    revert a b
    decide
  · have hshown : m.shown = Text.trim isBlank m.name := by
      simp only [plainTar, List.mem_cons, List.not_mem_nil, or_false] at hm
      obtain rfl | rfl | rfl | rfl := hm <;> rfl
    have hm := List.mem_map_of_mem (f := Member.name) hm
    rw [hnames] at hm
    rw [hshown]
    generalize m.name = a at hm ⊢
    revert a
    decide

theorem secure_plainTar (secure : Bytes) : (plainTar secure).secure = secure := by
  show [] ++ ([] ++ (secure ++ ([] ++ []))) = secure
  simp

theorem allowed_plainTar {secure : Bytes} (hsecure : catBytes secure = unsigned) :
    (plainTar secure).allowed () emptyVol.store = true := by
  rw [Tar.allowed, secure_plainTar, hsecure]
  rfl

/-- A cluster for each file. -/
theorem accepted_fits_plain : Within (Fat.disk emptyFat.toGeometry)
    (fun w => emptyFat.used w ≤ emptyFat.clusters)
    ((emptyHook (plainTar unsigned)).script.comap Vol.store) emptyVol :=
  accepted_fits (i := emptyInstall (plainTar unsigned)) (F := emptyFat) (t := plainTar unsigned)
    sound_empty whole_empty (by decide) (by decide) rfl rfl rfl rfl (stale_empty _)
    (plain_plainTar unsigned) (by decide) (by decide)
    (accepts_empty rfl (allowed_plainTar (by decide)) rfl rfl rfl rfl)

theorem catBytes_newlines (n : ℕ) : catBytes (unsigned ++ List.replicate n 10) = unsigned := by
  have hfilter : (unsigned ++ List.replicate n 10).filter (· ≠ 0) =
      unsigned ++ List.replicate n 10 := by
    have hword : unsigned.filter (· ≠ 0) = unsigned := by decide
    rw [List.filter_append, hword, List.filter_replicate]
    rfl
  rw [catBytes, hfilter]
  clear hfilter
  induction n with
  | zero => decide
  | succ n ih =>
      rw [List.replicate_succ', ← List.append_assoc, List.rdropWhile_concat_pos _ _ _ (by decide)]
      exact ih

/-- `secure`, whose size is not counted, with 16 MiB of newlines. -/
theorem accepted_overflows : ¬ ∀ (i : SlotInstall Unit) (h : Hook Unit) (t : Tar)
    (F : BootFat i.device) (v : BootVol Unit), Sound F v → (∀ d, F.per ∣ (v.dirs d).length) →
      512 ∣ F.clusterSize → F.clusterSize ≤ 32 * 1024 → i.tarball = some t → h.tarball = some t →
      h.bootdev = some i.device → i.availKib = F.availKib v →
      i.staleKib * 1024 ≤
        F.treeLoad (content v.store) (.incoming i.device) * F.clusterSize + 1023 →
      (t.map Member.name).Nodup → t.cores.length ≤ 100 → i.accepts v.store = true →
      Within (Fat.disk F.toGeometry) (fun w => F.used w ≤ F.clusters)
        (h.script.comap Vol.store) v := by
  intro hclaim
  obtain ⟨x, hx⟩ : ∃ x, x = unsigned ++ List.replicate (32769 * 512) 10 := ⟨_, rfl⟩
  have hword : catBytes x = unsigned := by
    rw [hx]
    exact catBytes_newlines _
  have hlong : 32769 * 512 < (plainTar x).secure.length := by
    rw [secure_plainTar, hx, List.length_append, List.length_replicate]
    exact Nat.lt_add_of_pos_left (by decide)
  have hallowed := allowed_plainTar hword
  refine overflows rfl hallowed rfl (p := .kept () .secure) (by decide) rfl hlong ?_
  exact hclaim (emptyInstall (plainTar x)) (emptyHook (plainTar x)) (plainTar x) emptyFat emptyVol
    sound_empty whole_empty (show 512 ∣ 512 from Nat.dvd_refl _) (show 512 ≤ 32 * 1024 by decide)
    rfl rfl rfl rfl (stale_empty _) (plain_plainTar x).nodup (Nat.le_of_lt (by decide : 1 < 100))
    (accepts_empty rfl hallowed rfl rfl rfl rfl)

/-- With a file below `a/boot.itb`, which `tar` extracts with it. -/
def nestedTar (below : Bytes) : Tar :=
  plainTar unsigned ++ [⟨['a'] ++ Tar.bootItb ++ ['/', 'b'], .file below⟩]

theorem nested_overflows : ∃ t : Tar, (t.map Member.name).Nodup ∧
    (∀ m ∈ t, m.shown = fipBin → m.name = fipBin) ∧ t.secure.length ≤ 3 * 1024 * 1024 ∧
      (emptyInstall t).accepts emptyVol.store = true ∧
      ¬ Within (Fat.disk emptyFat.toGeometry) (fun w => emptyFat.used w ≤ emptyFat.clusters)
        ((emptyHook t).script.comap Vol.store) emptyVol := by
  obtain ⟨x, hx⟩ : ∃ x : Bytes, x.length = 32769 * 512 + 1 := ⟨_, List.length_replicate (a := 0)⟩
  have hallowed : (nestedTar x).allowed () emptyVol.store = true := rfl
  have hlong : 32769 * 512 < ((nestedTar x).boot ['a']).length := by
    have hboot : (nestedTar x).boot ['a'] = x ++ [] := rfl
    rw [hboot, List.append_nil, hx]
    exact Nat.lt_succ_self _
  refine ⟨nestedTar x, ?_, fun m hm hfip => ?_, show 8 ≤ 3 * 1024 * 1024 by decide, ?_, ?_⟩
  · show [['a'] ++ Tar.bootItb, ['a'] ++ Tar.vbmetaItb, Tar.secureName, Tar.storeSha256,
      ['a'] ++ Tar.bootItb ++ ['/', 'b']].Nodup
    decide
  · simp only [nestedTar, plainTar, List.cons_append, List.nil_append, List.mem_cons,
      List.not_mem_nil, or_false] at hm
    obtain rfl | rfl | rfl | rfl | rfl := hm <;> exact hfip
  · exact accepts_empty rfl hallowed rfl rfl rfl rfl
  · exact overflows rfl hallowed rfl (p := .kept () (.slot ['a'] .A .boot)) (by decide) rfl hlong

/-- With a link for `a/boot.itb`, and an empty file that is read as another `fip.bin`. -/
def blankTar (fip : Bytes) : Tar :=
  [⟨['a'] ++ Tar.bootItb, .link [' ', '-', '>', ' ', 'b']⟩, ⟨['a'] ++ Tar.vbmetaItb, .file []⟩,
    ⟨Tar.secureName, .file unsigned⟩, ⟨Tar.storeSha256, .file []⟩, ⟨fipBin, .file fip⟩,
    ⟨fipBin ++ [' '], .file []⟩]

theorem blank_overflows : ∃ t : Tar, (t.map Member.name).Nodup ∧
    (∀ m ∈ t, ∀ n ∈ t, Tar.isSized n.name = true → ¬n.name ++ ['/'] <+: m.name) ∧
      t.secure.length ≤ 3 * 1024 * 1024 ∧ (emptyInstall t).accepts emptyVol.store = true ∧
        ¬ Within (Fat.disk emptyFat.toGeometry) (fun w => emptyFat.used w ≤ emptyFat.clusters)
          ((emptyHook t).script.comap Vol.store) emptyVol := by
  obtain ⟨x, hx⟩ : ∃ x : Bytes, x.length = 32769 * 512 + 1 := ⟨_, List.length_replicate (a := 0)⟩
  have hnames : (blankTar x).map Member.name = [['a'] ++ Tar.bootItb, ['a'] ++ Tar.vbmetaItb,
      Tar.secureName, Tar.storeSha256, fipBin, fipBin ++ [' ']] := rfl
  have hallowed : (blankTar x).allowed () emptyVol.store = true := rfl
  have hlong : 32769 * 512 < (blankTar x).fip.length := by
    have hfip : (blankTar x).fip = x ++ [] := rfl
    rw [hfip, List.append_nil, hx]
    exact Nat.lt_succ_self _
  refine ⟨blankTar x, ?_, fun m hm n hn => ?_, show 8 ≤ 3 * 1024 * 1024 by decide, ?_, ?_⟩
  · rw [hnames]
    decide
  · have hm := List.mem_map_of_mem (f := Member.name) hm
    have hn := List.mem_map_of_mem (f := Member.name) hn
    rw [hnames] at hm hn
    generalize m.name = a at hm ⊢
    generalize n.name = b at hn ⊢
    revert a b
    decide
  · exact accepts_empty rfl hallowed rfl rfl rfl rfl
  · exact overflows rfl hallowed rfl (p := .kept () (.fip fipBin)) (by decide) rfl hlong

end BadgeOS.BootFiles
