import BadgeOS.EmmcInit.Init
import Mathlib

/-!
# Refused before erased

Every check but one comes before the first write.  The size of the fip is looked at behind it, and
so a fip that is too large, or missing, ends a run that has erased the eMMC; and some of what is
copied is not looked at before.

* `RefusesFirst` — no refusal of an eMMC that was written, and no other end but by a failure;
* `Machine.Ready` — what the checks leave open;
* `refuses_first_iff` — the script refuses first exactly where it is ready when the checks pass.
-/

namespace BadgeOS.EmmcInit

open Crash EmmcUpdate Function

/-- A device or a tool may fail; the power stays. -/
def Faults (i : Incident Cmd) : Prop := ¬ i.IsCut

/-- A refusal has written nothing, and without a failure a run that writes comes to its end. -/
structure RefusesFirst (m : Machine) : Prop where
  refused : ∀ r e, Runs (disk m) Faults (emmcInit m) before (.done (.refused r)) e → e.ran = []
  checked : ((emmcInit m).exec (disk m) before).2.ran ≠ [] →
    ((emmcInit m).exec (disk m) before).1 = .finished

/-- A tree in which slot B of the core has the files `fs` of slot A. -/
def Machine.copied (m : Machine) (tree : Tree) (core : Core) (fs : List BootFile) : Tree :=
  fs.foldl (fun t f => update t (.file core .B f) (m.boot (.file core .A f))) (tree.rmSlotB core)

/-- The trees that the new BOOT has to hold, one after the other. -/
def Machine.trees (m : Machine) : List Tree :=
  let arm := m.copied m.boot .arm bootFiles
  [m.boot, m.copied m.boot .arm [.boot], arm, m.copied arm .riscv [.boot],
    m.copied arm .riscv bootFiles]

/-- What is not checked before the first write. -/
structure Machine.Ready (m : Machine) (bytes : ℤ) : Prop where
  large : m.large = true
  fip : ∃ fip, m.boot .fip = some fip ∧ fip.length ≤ 1048576
  env : m.uboot1.isSome = true
  files : ∀ core f, (m.boot (.file core .A f)).isSome = true
  room : ∀ tree ∈ m.trees, m.room tree = true
  count : 0 ≤ bytes

variable {m : Machine} {e e' : Emmc} {c : Cmd} {cs : List Cmd} {bytes : ℤ}

/-! ### Commands that leave the new BOOT as it is -/

def Cmd.Quiet : Cmd → Prop
  | .mkfsVfat | .cpBoot | .rmSlotB _ | .cpSlotB _ _ => False
  | _ => True

theorem exec_congr (h : e'.fat = e.fat) : (c.exec m e').1 = (c.exec m e).1 ∧
    (c.exec m e').2.fat = (c.exec m e).2.fat := by
  cases c <;> simp [Cmd.exec, h]

theorem exec_fat (h : c.Quiet) : (c.exec m e).2.fat = e.fat := by
  cases c <;> first | rfl | exact h.elim

/-- All of the commands succeed. -/
def Completes (m : Machine) (cs : List Cmd) (e t : Emmc) : Prop :=
  (Script.seq cs).exec (disk m) e = (true, t)

variable {t : Emmc} {ds : List Cmd}

theorem completes_cons : Completes m (c :: cs) e t ↔
    (c.exec m e).1 = true ∧ Completes m cs (c.exec m e).2 t := by
  rw [Completes, Script.exec_seq_cons]
  show (if (c.exec m e).1 = true then _ else _) = _ ↔ _
  split
  · rename_i hok
    exact ⟨fun h => ⟨hok, h⟩, fun h => h.2⟩
  · rename_i hfail
    exact ⟨fun h => absurd (congrArg Prod.fst h) Bool.false_ne_true, fun h => absurd h.1 hfail⟩

theorem completes_nil : Completes m [] e t ↔ t = e := by
  constructor
  · intro h
    cases h
    rfl
  · rintro rfl
    rfl

theorem completes_iff : (∃ t, Completes m cs e t) ↔
    ((Script.seq cs).exec (disk m) e).1 = true := by
  constructor
  · rintro ⟨t, h⟩
    exact congrArg Prod.fst h
  · intro h
    exact ⟨((Script.seq cs).exec (disk m) e).2, Prod.ext h rfl⟩

theorem completes_append : Completes m (cs ++ ds) e t ↔
    ∃ u, Completes m cs e u ∧ Completes m ds u t := by
  induction cs generalizing e with
  | nil => simp [completes_nil]
  | cons c cs ih =>
      simp only [List.cons_append, completes_cons, ih]
      exact ⟨fun ⟨hok, u, hu, ht⟩ => ⟨u, ⟨hok, hu⟩, ht⟩, fun ⟨u, ⟨hok, hu⟩, ht⟩ => ⟨hok, u, hu, ht⟩⟩

theorem completes_quiet (h : ∀ c ∈ cs, c.Quiet) :
    ((∃ t, Completes m cs e t) ↔ ∀ c ∈ cs, (c.exec m e).1 = true) ∧
      ∀ t, Completes m cs e t → t.fat = e.fat := by
  induction cs generalizing e with
  | nil => simp [completes_nil]
  | cons c cs ih =>
      have hfat : (c.exec m e).2.fat = e.fat := exec_fat (h c (by simp))
      obtain ⟨hiff, hsame⟩ := ih (e := (c.exec m e).2) fun d hd => h d (by simp [hd])
      have hcongr : (∀ d ∈ cs, (d.exec m (c.exec m e).2).1 = true) ↔
          ∀ d ∈ cs, (d.exec m e).1 = true :=
        forall₂_congr fun d _ => by rw [(exec_congr hfat).1]
      simp only [completes_cons, List.forall_mem_cons, ← hcongr, ← hiff]
      exact ⟨by simp, fun t ht => (hsame t ht.2).trans hfat⟩

/-- One part behind another one that decides the new BOOT. -/
theorem completes_behind {p q : Prop} {fat : Tree} (h : (∃ u, Completes m cs e u) ↔ p)
    (hfat : ∀ u, Completes m cs e u → u.fat = fat)
    (hrest : ∀ u : Emmc, u.fat = fat → ((∃ t, Completes m ds u t) ↔ q)) :
    (∃ t, Completes m (cs ++ ds) e t) ↔ p ∧ q := by
  simp only [completes_append]
  constructor
  · rintro ⟨t, u, hu, ht⟩
    exact ⟨h.mp ⟨u, hu⟩, (hrest u (hfat u hu)).mp ⟨t, ht⟩⟩
  · rintro ⟨hp, hq⟩
    obtain ⟨u, hu⟩ := h.mpr hp
    obtain ⟨t, ht⟩ := (hrest u (hfat u hu)).mpr hq
    exact ⟨t, u, hu, ht⟩

/-! ### BOOT -/

theorem forall_files {p : BootFile → Prop} : (∀ f, p f) ↔ p .boot ∧ p .vbmeta :=
  ⟨fun h => ⟨h .boot, h .vbmeta⟩, fun h f => by cases f; exacts [h.1, h.2]⟩

theorem completes_slotB (core : Core) {tree : Tree} (hfat : e.fat = tree) :
    ((∃ t, Completes m (slotB core) e t) ↔
      (∀ f, (m.boot (.file core .A f)).isSome = true) ∧
        m.room (m.copied tree core [.boot]) = true ∧
          m.room (m.copied tree core bootFiles) = true) ∧
      ∀ t, Completes m (slotB core) e t → t.fat = m.copied tree core bootFiles := by
  subst hfat
  rw [forall_files]
  simp only [slotB, bootFiles, List.map_cons, List.map_nil, List.cons_append, List.nil_append,
    completes_cons, completes_nil, Cmd.exec, Bool.and_eq_true, true_and, Machine.copied,
    List.foldl_cons, List.foldl_nil]
  refine ⟨⟨?_, ?_⟩, ?_⟩
  · rintro ⟨t, ⟨hboot, hroom⟩, ⟨hvbmeta, hroom'⟩, -⟩
    exact ⟨⟨hboot, hvbmeta⟩, hroom, hroom'⟩
  · rintro ⟨⟨hboot, hvbmeta⟩, hroom, hroom'⟩
    exact ⟨_, ⟨hboot, hroom⟩, ⟨hvbmeta, hroom'⟩, rfl⟩
  · rintro t ⟨-, -, rfl⟩
    rfl

theorem completes_fresh : ((∃ t, Completes m [.mkfsVfat, .mount, .cpBoot] e t) ↔
      m.room m.boot = true) ∧
    ∀ t, Completes m [.mkfsVfat, .mount, .cpBoot] e t → t.fat = m.boot := by
  simp only [completes_cons, completes_nil, Cmd.exec, true_and]
  refine ⟨by simp, ?_⟩
  rintro t ⟨-, rfl⟩
  rfl

/-- What is read back is what was copied. -/
theorem completes_readBack (hfat : e.fat =
    m.copied (m.copied m.boot .arm bootFiles) .riscv bootFiles) :
    ∃ t, Completes m (readBack ++ [.umount]) e t := by
  have hquiet : ∀ c ∈ readBack ++ [Cmd.umount], c.Quiet := by
    intro c hc
    simp only [readBack, cores, bootFiles, List.flatMap_cons, List.flatMap_nil, List.cons_append,
      List.nil_append, List.append_nil, List.mem_cons, List.not_mem_nil, or_false] at hc
    obtain rfl | rfl | rfl | rfl | rfl | rfl | rfl | rfl | rfl | rfl := hc <;> trivial
  rw [(completes_quiet hquiet).1]
  simp [readBack, cores, bootFiles, Cmd.exec, hfat, Machine.copied, Tree.rmSlotB, update_apply]

/-- **BOOT** comes to its end when there is room, and slot A's files. -/
theorem completes_bootPart : (∃ t, Completes m bootPart e t) ↔
    (∀ core f, (m.boot (.file core .A f)).isSome = true) ∧
      ∀ tree ∈ m.trees, m.room tree = true := by
  have hparts : bootPart = [.mkfsVfat, .mount, .cpBoot] ++
      (slotB .arm ++ (slotB .riscv ++ (readBack ++ [.umount]))) := by
    simp [bootPart, cores]
  have hriscv (u : Emmc) (hu : u.fat = m.copied m.boot .arm bootFiles) :=
    completes_behind (completes_slotB .riscv hu).1 (completes_slotB .riscv hu).2 fun v hv =>
      iff_true_intro (completes_readBack hv)
  have harm (u : Emmc) (hu : u.fat = m.boot) :=
    completes_behind (completes_slotB .arm hu).1 (completes_slotB .arm hu).2 hriscv
  have hall := completes_behind (completes_fresh (m := m) (e := e)).1 completes_fresh.2 harm
  have hcores : (∀ core f, (m.boot (.file core .A f)).isSome = true) ↔
      (∀ f, (m.boot (.file .arm .A f)).isSome = true) ∧
        ∀ f, (m.boot (.file .riscv .A f)).isSome = true :=
    ⟨fun h => ⟨h .arm, h .riscv⟩, fun h core => by cases core; exacts [h.1, h.2]⟩
  rw [hparts, hall, hcores]
  simp only [Machine.trees, List.forall_mem_cons, List.not_mem_nil, false_implies, implies_true,
    and_true]
  tauto

/-! ### The run -/

/-- **Behind the refusals**: what the rest of the run needs. -/
theorem completes_rest (e : Emmc) (bytes : ℤ) : (∃ t, Completes m (bootAreas ++ bootPart ++ stores bytes) e t) ↔
    ((m.boot .fip).isSome = true ∧ m.uboot1.isSome = true) ∧
      ((∀ core f, (m.boot (.file core .A f)).isSome = true) ∧
        ∀ tree ∈ m.trees, m.room tree = true) ∧ 0 ≤ bytes := by
  have hareas : ∀ c ∈ bootAreas, c.Quiet := by
    intro c hc
    simp only [bootAreas, List.mem_cons, List.not_mem_nil, or_false] at hc
    obtain rfl | rfl | rfl | rfl | rfl | rfl := hc <;> trivial
  have hstores : ∀ c ∈ stores bytes, c.Quiet := by
    intro c hc
    simp only [stores, List.mem_cons, List.not_mem_nil, or_false] at hc
    obtain rfl | rfl | rfl | rfl := hc <;> trivial
  simp only [List.append_assoc, completes_append]
  have hlast (u : Emmc) : (∃ t, Completes m (stores bytes) u t) ↔ 0 ≤ bytes := by
    rw [(completes_quiet hstores).1]
    simp [stores, Cmd.exec]
  have hfirst : (∃ t, Completes m bootAreas e t) ↔
      (m.boot .fip).isSome = true ∧ m.uboot1.isSome = true := by
    rw [(completes_quiet hareas).1]
    simp [bootAreas, Cmd.exec]
  constructor
  · rintro ⟨t, u, hu, v, hv, ht⟩
    exact ⟨hfirst.mp ⟨u, hu⟩, completes_bootPart.mp ⟨v, hv⟩, (hlast v).mp ⟨t, ht⟩⟩
  · rintro ⟨hareas, hpart, hcount⟩
    obtain ⟨u, hu⟩ := hfirst.mpr hareas
    obtain ⟨v, hv⟩ := (completes_bootPart (e := u)).mpr hpart
    obtain ⟨t, ht⟩ := (hlast v).mpr hcount
    exact ⟨t, u, hu, v, hv, ht⟩

theorem exec_table : ((Script.seq table).exec (disk m) before).1 = m.large := by
  simp only [table, Script.exec_seq_cons, disk, Cmd.exec, if_true]
  cases m.large <;> rfl

theorem exec_copyAll : ((copyAll m bytes).exec (disk m) e).1 = .finished ↔
    (∃ fip, m.boot .fip = some fip ∧ fip.length ≤ 1048576) ∧ m.uboot1.isSome = true ∧
      (∀ core f, (m.boot (.file core .A f)).isSome = true) ∧
        (∀ tree ∈ m.trees, m.room tree = true) ∧ 0 ≤ bytes := by
  rw [copyAll]
  cases hfip : m.boot .fip with
  | none => simp [pure, Script.exec]
  | some fip =>
      simp only [Option.some.injEq, exists_eq_left']
      by_cases hlarge : 1048576 < fip.length
      · rw [if_pos hlarge]
        simp [pure, Script.exec, hlarge]
      · have hrest := completes_rest (m := m) e bytes
        rw [completes_iff] at hrest
        rw [if_neg hlarge, Script.exec_bind]
        cases hok : ((Script.seq (bootAreas ++ bootPart ++ stores bytes)).exec (disk m) e).1 with
        | false =>
            rw [hok, hfip] at hrest
            simp only [Bool.false_eq_true, Option.isSome_some, false_iff] at hrest
            simp only [pure, Script.exec, Bool.false_eq_true, if_false, reduceCtorEq, false_iff]
            tauto
        | true =>
            rw [hok, hfip] at hrest
            simp only [Option.isSome_some, true_iff] at hrest
            simp only [pure, Script.exec, if_true, true_iff]
            exact ⟨not_lt.mp hlarge, hrest.1.2, hrest.2.1.1, hrest.2.1.2, hrest.2.2⟩

theorem emmcInit_eq (h : m.checks = .ok (false, bytes)) : emmcInit m = install m bytes := by
  rw [emmcInit, h]
  rfl

/-- **The run that nothing disturbs** comes to its end when it is ready. -/
theorem finished_iff (h : m.checks = .ok (false, bytes)) :
    ((emmcInit m).exec (disk m) before).1 = .finished ↔ m.Ready bytes := by
  rw [emmcInit_eq h, install, Script.exec_bind, exec_table]
  cases hlarge : m.large with
  | false =>
      simp only [Bool.false_eq_true, if_false, pure, Script.exec, reduceCtorEq, false_iff]
      intro hready
      rw [hready.large] at hlarge
      cases hlarge
  | true =>
      rw [if_pos rfl, exec_copyAll]
      exact ⟨fun ⟨hfip, henv, hfiles, hroom, hcount⟩ =>
          ⟨hlarge, hfip, henv, hfiles, hroom, hcount⟩,
        fun hready => ⟨hready.fip, hready.env, hready.files, hready.room, hready.count⟩⟩

/-- Commands have run. -/
def Wrote (e : Emmc) : Prop := e.ran ≠ []

theorem wrote_exec (m : Machine) (c : Cmd) (e : Emmc) : Wrote (c.exec m e).2 :=
  List.append_ne_nil_of_right_ne_nil _ (List.cons_ne_nil _ _)

theorem Wrote.exec {α : Type} (s : Script Cmd Emmc α) (he : Wrote e) :
    Wrote (s.exec (disk m) e).2 := by
  induction s generalizing e with
  | done a => exact he
  | look k ih => exact ih e he
  | cmd c k ih => exact ih _ (wrote_exec m c e)

/-- A run behind the checks writes. -/
theorem install_wrote : Wrote ((install m bytes).exec (disk m) before).2 := by
  rw [install, Script.exec_bind]
  refine Wrote.exec _ ?_
  have hzap : Wrote ((disk m).exec .zap before).2 := wrote_exec m .zap before
  rw [table, Script.exec_seq_cons]
  exact Wrote.exec (Script.seq [.partition, .waitParts]) hzap

/-- A fip that is there and fits is not refused. -/
theorem copyAll_refuses (hfip : ∃ fip, m.boot .fip = some fip ∧ fip.length ≤ 1048576) :
    wp (disk m) Faults (copyAll m bytes) (fun a _ => ∀ r, a ≠ .refused r) (fun _ _ => True) e := by
  obtain ⟨fip, hfip, hle⟩ := hfip
  simp only [copyAll, hfip, if_neg (not_lt.mpr hle)]
  rw [wp_bind]
  refine wp_mono (fun ok t _ r => ?_) (fun _ _ _ => trivial)
    (wp_all (P := fun _ => True) (.seq fun _ _ => trivial))
  cases ok <;> simp

theorem install_refuses (hready : m.Ready bytes) :
    wp (disk m) Faults (install m bytes) (fun a _ => ∀ r, a ≠ .refused r) (fun _ _ => True)
      before := by
  rw [install, wp_bind]
  refine wp_mono (fun ok t _ => ?_) (fun _ _ _ => trivial)
    (wp_all (P := fun _ => True) (.seq fun _ _ => trivial))
  cases ok with
  | true => exact copyAll_refuses hready.fip
  | false => exact fun r hr => by cases hr

/-- **The script refuses first** exactly where it is ready when its checks pass: the partitions and
the files fit, what is copied is there, and the fip is no larger than the gap before its copy. -/
theorem refuses_first_iff (m : Machine) : RefusesFirst m ↔
    ∀ bytes, m.checks = .ok (false, bytes) → m.Ready bytes := by
  constructor
  · intro h bytes hchecks
    rw [← finished_iff hchecks]
    refine h.checked ?_
    rw [emmcInit_eq hchecks]
    exact install_wrote
  · intro h
    cases hchecks : m.checks with
    | error r =>
        have hscript : emmcInit m = .done (.refused r) := by
          rw [emmcInit, hchecks]
          rfl
        constructor
        · intro r' e hrun
          rw [hscript] at hrun
          cases hrun
          rfl
        · rw [hscript]
          exact fun hran => absurd rfl hran
    | ok p =>
        obtain ⟨plan, bytes⟩ := p
        cases plan with
        | true =>
            have hscript : emmcInit m = .done .finished := by
              rw [emmcInit, hchecks]
              rfl
            constructor
            · intro r e hrun
              rw [hscript] at hrun
              cases hrun
            · rw [hscript]
              exact fun _ => rfl
        | false =>
            have hready := h bytes hchecks
            constructor
            · intro r e hrun
              rw [emmcInit_eq hchecks] at hrun
              exact absurd rfl (wp_sound hrun (install_refuses hready) r)
            · exact fun _ => (finished_iff hchecks).mpr hready

/-- A card with a fip that is one byte too large, which every check passes. -/
def largeFip : Machine where
  args := ["--yes".toList]
  cmdline := "nixbadge.bootmedium=1".toList
  dev := none
  present := true
  type := some "MMC".toList
  boot1 := true
  sdDisk := "mmcblk0".toList
  boot
    | .fip => some (List.replicate 1048577 0)
    | .file _ .A _ => some [1]
    | .secure => some ("unsigned".toList.map fun ch => UInt8.ofNat ch.toNat)
    | _ => none
  bootdir := none
  generation _ := some (some (some [1]))
  nixa := some [0x68, 0x73, 0x71, 0x73]
  uboot1 := some []
  boot0Bytes := 4194304
  boot1Bytes := 4194304
  large := true
  room _ := true
  sha256sum := id

/-- It is refused when the eMMC has a new partition table. -/
theorem large_fip_erases : ∃ e, Runs (disk largeFip) Faults (emmcInit largeFip) before
    (.done (.refused .largeFip)) e ∧ e.ran = [.zap, .partition, .waitParts] := by
  have hstore : storeImageBytes [0x68, 0x73, 0x71, 0x73] = some 0 := by
    have htree : treeBlocks 0 = 0 := by
      rw [treeBlocks]
      rfl
    show some (wrap ((0 + treeBlocks 0) * 4096)) = some 0
    rw [htree]
    rfl
  have hchecks : largeFip.checks = .ok (false, 0) := by
    have hnixa : largeFip.nixa = some [0x68, 0x73, 0x71, 0x73] := rfl
    have hsize : largeFip.checkStore false = .ok 0 := by
      simp only [Machine.checkStore, hnixa, hstore]
      rfl
    have hflags : Machine.flags largeFip.args = .ok (false, true) := rfl
    have hdisk : largeFip.checkDisk false true = .ok () := by decide
    have htree : largeFip.checkTree largeFip.checkedTree = .ok () := by decide
    have hareas : largeFip.checkAreas = .ok () := by decide
    simp only [Machine.checks, hflags, hdisk, htree, hsize, hareas, bind, Except.bind,
      Bool.false_and, if_true]
  have htable : (Script.seq table).exec (disk largeFip) before =
      (true, ⟨fun _ => none, [.zap, .partition, .waitParts]⟩) := rfl
  have hlong : 1048576 < (List.replicate 1048577 (0 : UInt8)).length := by
    rw [List.length_replicate]
    decide
  have hfip : largeFip.boot .fip = some (List.replicate 1048577 0) := rfl
  have hexec : (emmcInit largeFip).exec (disk largeFip) before =
      (.refused .largeFip, ⟨fun _ => none, [.zap, .partition, .waitParts]⟩) := by
    rw [emmcInit_eq hchecks, install, Script.exec_bind, htable]
    simp only [if_true, copyAll, hfip, if_pos hlong]
    rfl
  have hrun := Runs.of_exec (D := disk largeFip) (G := Faults) (emmcInit largeFip) before
  rw [hexec] at hrun
  exact ⟨_, hrun, rfl⟩

end BadgeOS.EmmcInit
