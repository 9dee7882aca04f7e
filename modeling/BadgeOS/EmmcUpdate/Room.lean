import BadgeOS.EmmcUpdate.PowerCuts
import Mathlib

/-!
# Room for an update

The space check asks for room for one slot's new files and 16 MiB, wherever the update before it
was cut.  How much the BOOT partition has to have for that is counted in clusters: what a slot
can come to take is a bound on what it holds now, and no command passes it.

* `reserve` — the clusters that an update can come to use;
* `Room` — the check's bytes beside them;
* `Fits` — an eMMC that is within the reserve of another, which every command keeps;
* `checkRoom_ok` — the space check passes there.
-/

namespace BadgeOS.EmmcUpdate

open Crash Script

variable {src : Source} {fat t : Fat} {core : Core} {s x : Slot} {f : BootFile} {name : Name}
  {content : Option Bytes}

/-! ### Clusters -/

namespace Fat

def size (fat : Fat) (core : Core) (s : Slot) (name : Name) : ℕ :=
  fat.clustersOf (fat.file core s name)

/-- The clusters of a slot's `.new` files. -/
def newSize (fat : Fat) (s : Slot) : ℕ := (slotFiles.map fun p => fat.size p.1 s (.new p.2)).sum

theorem clustersOf_none (fat : Fat) : fat.clustersOf none = 0 := by
  show (0 + fat.clusterSize - 1) / fat.clusterSize = 0
  rw [Nat.zero_add, Nat.div_eq_zero_iff]
  omega

theorem clustersOf_congr (h : t.clusterSize = fat.clusterSize) (content : Option Bytes) :
    t.clustersOf content = fat.clustersOf content := by
  rw [clustersOf, clustersOf, h]

theorem clustersOf_mono {a b : Bytes} (h : a.length ≤ b.length) :
    fat.clustersOf (some a) ≤ fat.clustersOf (some b) := by
  refine Nat.div_le_div_right ?_
  show a.length + fat.clusterSize - 1 ≤ b.length + fat.clusterSize - 1
  omega

theorem size_setFile (core' : Core) (s' : Slot) (name' : Name) :
    (fat.setFile core s name content).size core' s' name' =
      if core' = core ∧ s' = s ∧ name' = name then fat.clustersOf content
      else fat.size core' s' name' := by
  show fat.clustersOf (if core' = core ∧ s' = s ∧ name' = name then content
    else fat.file core' s' name') = _
  split
  · rfl
  · rfl

theorem newSize_setFile (h : x ≠ s ∨ ∀ f, name ≠ .new f) :
    (fat.setFile core x name content).newSize s = fat.newSize s := by
  have hsize (p : Core × BootFile) :
      (fat.setFile core x name content).size p.1 s (.new p.2) = fat.size p.1 s (.new p.2) := by
    rw [size_setFile, if_neg]
    intro ⟨_, hs, hname⟩
    rcases h with hx | hnew
    · exact hx hs.symm
    · exact hnew p.2 hname.symm
  simp only [newSize, hsize]

theorem newSize_le_setFile_none : (fat.setFile core x name none).newSize s ≤ fat.newSize s := by
  apply List.sum_le_sum
  intro p _
  rw [size_setFile]
  split
  · rw [clustersOf_none]
    exact Nat.zero_le _
  · exact Nat.le_refl _

end Fat

/-! ### The reserve -/

/-- The clusters of the SD's file. -/
def sdSize (src : Source) (fat : Fat) (p : Core × BootFile) : ℕ :=
  fat.clustersOf (some (src.system.file p.1 p.2))

/-- The clusters that a name can come to take: its own, or those of the SD's file. -/
def limit (src : Source) (fat : Fat) (core : Core) (s : Slot) : Name → ℕ
  | .file f => max (fat.size core s (.file f)) (sdSize src fat (core, f))
  | name => fat.size core s name

/-- ... and the `.new` files of a slot: the ones left over, or one at a time. -/
def newLimit (src : Source) (fat : Fat) (s : Slot) : ℕ :=
  max (fat.newSize s) ((slotFiles.map (sdSize src fat)).foldr max 0)

/-- ... and a core's directory of a slot, but for its `.new` files. -/
def dirLimit (src : Source) (fat : Fat) (core : Core) (s : Slot) : ℕ :=
  1 + fat.nixos core s + fat.extlinux core s +
    ([Name.file .boot, .file .vbmeta, .prev, .prevNew].map (limit src fat core s)).sum

/-- The clusters that an update can come to use. -/
def reserve (src : Source) (fat : Fat) : ℕ :=
  fat.other + (slots.map fun s =>
    newLimit src fat s + (cores.map fun core => dirLimit src fat core s).sum).sum

/-- There is room for the reserve, and beside it for what the space check asks.  1023 bytes are
what `df` can round off. -/
def Room (src : Source) (fat : Fat) : Prop :=
  0 < fat.clusterSize ∧
    reserve src fat * fat.clusterSize + need src + 1023 ≤ fat.clusters * fat.clusterSize

/-- `t` is within the reserve of `fat`. -/
structure Fits (src : Source) (fat t : Fat) : Prop where
  clusters : t.clusters = fat.clusters
  clusterSize : t.clusterSize = fat.clusterSize
  other : t.other = fat.other
  nixos : ∀ core s, t.nixos core s ≤ fat.nixos core s
  extlinux : ∀ core s, t.extlinux core s ≤ fat.extlinux core s
  files : ∀ core s name, (∀ f, name ≠ .new f) → t.size core s name ≤ limit src fat core s name
  news : ∀ s, t.newSize s ≤ newLimit src fat s

theorem Fits.refl (src : Source) (fat : Fat) : Fits src fat fat where
  clusters := rfl
  clusterSize := rfl
  other := rfl
  nixos _ _ := Nat.le_refl _
  extlinux _ _ := Nat.le_refl _
  files core s name _ := by
    cases name with
    | file f => exact Nat.le_max_left ..
    | _ => exact Nat.le_refl _
  news s := Nat.le_max_left ..

theorem sdSize_le_newLimit (p : Core × BootFile) : sdSize src fat p ≤ newLimit src fat s := by
  refine Nat.le_trans ?_ (Nat.le_max_right ..)
  obtain ⟨core, f⟩ := p
  simp only [slotFiles, cores, bootFiles, List.flatMap_cons, List.flatMap_nil, List.map_cons,
    List.map_nil, List.cons_append, List.nil_append, List.append_nil, List.foldr_cons,
    List.foldr_nil]
  cases core <;> cases f <;> omega

/-- **The reserve** bounds what is in use. -/
theorem Fits.used_le (h : Fits src fat t) : t.used ≤ reserve src fat := by
  have hdir (core : Core) (s : Slot) : t.usedAt core s ≤
      dirLimit src fat core s + (t.size core s (.new .boot) + t.size core s (.new .vbmeta)) := by
    have hone : (if t.dir core s then 1 else 0) ≤ 1 := by
      split <;> omega
    have hnixos := h.nixos core s
    have hextlinux := h.extlinux core s
    have hboot := h.files core s (.file .boot) nofun
    have hvbmeta := h.files core s (.file .vbmeta) nofun
    have hprev := h.files core s .prev nofun
    have hprevNew := h.files core s .prevNew nofun
    show _ + (List.map (t.size core s) Fat.names).sum ≤ _
    simp only [dirLimit, Fat.names, List.map_cons, List.map_nil, List.sum_cons, List.sum_nil]
    omega
  have hnews (s : Slot) : (cores.map fun core => t.usedAt core s).sum ≤
      newLimit src fat s + (cores.map fun core => dirLimit src fat core s).sum := by
    have harm := hdir .arm s
    have hriscv := hdir .riscv s
    have hnew := h.news s
    simp only [Fat.newSize, slotFiles, cores, bootFiles, List.flatMap_cons, List.flatMap_nil,
      List.map_cons, List.map_nil, List.cons_append, List.nil_append, List.append_nil,
      List.sum_cons, List.sum_nil] at hnew ⊢
    omega
  have hA := hnews .A
  have hB := hnews .B
  have hother := h.other
  simp only [Fat.used, reserve, slots, cores, List.map_cons, List.map_nil, List.sum_cons,
    List.sum_nil] at hA hB ⊢
  omega

theorem Fits.used_le_clusters (h : Fits src fat t) (hroom : Room src fat) :
    t.used ≤ t.clusters := by
  obtain ⟨hpos, hbytes⟩ := hroom
  have hle : reserve src fat * fat.clusterSize ≤ fat.clusters * fat.clusterSize := by omega
  have hres : reserve src fat ≤ fat.clusters := Nat.le_of_mul_le_mul_right hle hpos
  have hused := h.used_le
  have hclusters := h.clusters
  omega

/-- **The space check** passes. -/
theorem Fits.checkRoom_ok (h : Fits src fat t) (hroom : Room src fat) :
    checkRoom src t = .ok () := by
  obtain ⟨hpos, hbytes⟩ := hroom
  have hmul : t.used * fat.clusterSize ≤ reserve src fat * fat.clusterSize :=
    Nat.mul_le_mul_right _ h.used_le
  have hsub : (t.clusters - t.used) * t.clusterSize =
      fat.clusters * fat.clusterSize - t.used * fat.clusterSize := by
    rw [h.clusters, h.clusterSize, Nat.sub_mul]
  have havail : need src ≤ t.availKib * 1024 := by
    show need src ≤ (t.clusters - t.used) * t.clusterSize / 1024 * 1024
    rw [hsub]
    omega
  rw [checkRoom, check_ok]
  exact decide_eq_true (Nat.le_trans havail (Nat.le_add_right ..))

/-! ### What fits -/

/-- The slot has no `.new` files. -/
def NoNew (s : Slot) (fat : Fat) : Prop := ∀ core f, fat.file core s (.new f) = none

/-- Directories may come, and the clusters in them go. -/
theorem Fits.sweep (h : Fits src fat t) {dir : Core → Slot → Bool}
    {nixos extlinux : Core → Slot → ℕ}
    (hnixos : ∀ core s, nixos core s ≤ t.nixos core s)
    (hextlinux : ∀ core s, extlinux core s ≤ t.extlinux core s) :
    Fits src fat { t with dir, nixos, extlinux } where
  clusters := h.clusters
  clusterSize := h.clusterSize
  other := h.other
  nixos core s := Nat.le_trans (hnixos core s) (h.nixos core s)
  extlinux core s := Nat.le_trans (hextlinux core s) (h.extlinux core s)
  files := h.files
  news := h.news

theorem Fits.remove (h : Fits src fat t) : Fits src fat (t.setFile core s name none) where
  clusters := h.clusters
  clusterSize := h.clusterSize
  other := h.other
  nixos := h.nixos
  extlinux := h.extlinux
  files core' s' name' hname := by
    rw [Fat.size_setFile]
    split
    · rw [Fat.clustersOf_none]
      exact Nat.zero_le _
    · exact h.files core' s' name' hname
  news s' := Nat.le_trans Fat.newSize_le_setFile_none (h.news s')

/-- One `.new` file, of at most the SD's bytes. -/
theorem Fits.create {a : Bytes} (h : Fits src fat t) (hnone : NoNew s t)
    (ha : a.length ≤ (src.system.file core f).length) :
    Fits src fat (t.setFile core s (.new f) (some a)) where
  clusters := h.clusters
  clusterSize := h.clusterSize
  other := h.other
  nixos := h.nixos
  extlinux := h.extlinux
  files core' s' name' hname := by
    rw [Fat.size_setFile, if_neg fun ⟨_, _, heq⟩ => hname f heq]
    exact h.files core' s' name' hname
  news s' := by
    by_cases hs : s' = s
    · subst hs
      have hsize (core' : Core) (f' : BootFile) :
          (t.setFile core s' (.new f) (some a)).size core' s' (.new f') =
            if core' = core ∧ f' = f then t.clustersOf (some a) else 0 := by
        rw [Fat.size_setFile]
        have hzero : t.size core' s' (.new f') = 0 := by
          rw [Fat.size, hnone, Fat.clustersOf_none]
        simp [hzero]
      have hnew : (t.setFile core s' (.new f) (some a)).newSize s' = t.clustersOf (some a) := by
        simp only [Fat.newSize, hsize]
        cases core <;> cases f <;> simp [slotFiles, cores, bootFiles]
      rw [hnew, Fat.clustersOf_congr h.clusterSize]
      exact Nat.le_trans (Fat.clustersOf_mono ha) (sdSize_le_newLimit (core, f))
    · rw [Fat.newSize_setFile (.inl (Ne.symm hs))]
      exact h.news s'

theorem Fits.replace (h : Fits src fat t) :
    Fits src fat (t.setFile core s (.file f) (some (src.system.file core f))) where
  clusters := h.clusters
  clusterSize := h.clusterSize
  other := h.other
  nixos := h.nixos
  extlinux := h.extlinux
  files core' s' name' hname := by
    rw [Fat.size_setFile]
    split
    · rename_i heq
      obtain ⟨rfl, rfl, rfl⟩ := heq
      rw [Fat.clustersOf_congr h.clusterSize]
      exact Nat.le_max_right ..
    · exact h.files core' s' name' hname
  news s' := by
    have hname (g : BootFile) : Name.file f ≠ .new g := nofun
    rw [Fat.newSize_setFile (.inr hname)]
    exact h.news s'

end BadgeOS.EmmcUpdate
