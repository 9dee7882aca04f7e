import BadgeOS.EmmcUpdate.Emmc

/-!
# The update

`nix-badge-emmc-update --yes`: the checks, then the inactive slot, the boot loader, the switch,
the slot that was active, and the environment of a fresh card.  `set -e` ends a run at the
first command that fails.  What the script prints is left out, but for which check refuses.

* `checks` — every refusal, in the script's order;
* `writeSlot`, `update`, `emmcUpdate` — the run;
* `checks_ok` — what the checks say of the parts of the eMMC that an update changes.
-/

namespace BadgeOS.EmmcUpdate

open Crash Script

/-- The refusals of the script, `not_installed` ones included. -/
inductive Refusal
  | notBootedFromSd
  | notMmcblk
  | noEmmc
  | notAnEmmc
  | noBoot1
  | ownDisk
  | notUboot0
  | notLabelled (n : ℕ)
  | badCrc
  | noOrder
  | namedTwice (s : Slot)
  | notASlot (word : Text)
  | notANumber (s : Slot)
  | nothingLeft
  | noFat
  | noMarker
  | noNixa
  | notSquashfs
  | largerThanAnyLayout
  | largerThanSlots
  | bootFileMissing (core : Core) (f : BootFile)
  | noSdMarker
  | badSdMarker
  | otherMarker
  | noGeneration (core : Core)
  | noBootImage (core : Core)
  | notTheGeneration (core : Core)
  | noFip
  | largeFip
  | noRoom (free need : ℕ)
  deriving DecidableEq

/-- The board and the booted SD, which an update only reads. -/
structure Machine where
  /-- `nixbadge.bootmedium=1` -/
  bootedFromSd : Bool
  mmcblk : Bool
  present : Bool
  isMmc : Bool
  boot1 : Bool
  /-- The eMMC holds the booted SD's own BOOT. -/
  ownDisk : Bool
  /-- `/dev/uboot0` is the eMMC's boot area 2. -/
  uboot0 : Bool
  /-- The names of the eMMC's partitions. -/
  labels : List Text
  /-- The CRC of the eMMC's environment is good. -/
  crc : Bool
  /-- The eMMC's BOOT mounts as FAT. -/
  mounts : Bool
  nixa : Bool
  squashfs : Bool
  /-- `$bootdir/secure` -/
  secure : Option Text
  /-- The boot.itb of the NIX_A generation, past its two links. -/
  generation : Core → Option (Option Bytes)
  source : Source

/-! ### Checks -/

def check (ok : Bool) (r : Refusal) : Except Refusal Unit := if ok then .ok () else .error r

def partitionLabels : List Text :=
  ["BOOT".toList, "UBOOT".toList, "NIX_A".toList, "NIX_B".toList, "USERDATA".toList]

/-- Partition `n` and the ones after it. -/
def checkLabels : ℕ → List Text → List Text → Except Refusal Unit
  | _, [], _ => .ok ()
  | n, label :: labels, parts =>
      if parts.head? = some label then checkLabels (n + 1) labels parts.tail
      else .error (.notLabelled n)

/-- The checks before the environment is read. -/
def checkBoard (m : Machine) : Except Refusal Unit := do
  check m.bootedFromSd .notBootedFromSd
  check m.mmcblk .notMmcblk
  check m.present .noEmmc
  check m.isMmc .notAnEmmc
  check m.boot1 .noBoot1
  check (!m.ownDisk) .ownDisk
  check m.uboot0 .notUboot0
  checkLabels 1 partitionLabels m.labels
  check m.crc .badCrc

/-- The loop over `BOOT_ORDER`, with `$seen` and `$active`. -/
def selectLoop (env : Env) : List Text → List Slot → Option Slot → Except Refusal (Option Slot)
  | [], _, active => .ok active
  | w :: ws, seen, active =>
      match slotOf w with
      | none => .error (.notASlot w)
      | some s =>
          if s ∈ seen then .error (.namedTwice s)
          else
            match env.getLeft s with
            | none => .error (.notANumber s)
            | some n =>
                selectLoop env ws (s :: seen) (if active = none ∧ n ≠ 0 then some s else active)

/-- `$active` -/
def selectActive (env : Env) : Except Refusal Slot := do
  check (env.order.getD [] ≠ []) .noOrder
  let active ← selectLoop env env.orderWords [] none
  match active with
  | none => .error .nothingLeft
  | some s => .ok s

def signed : Text := "signed".toList
def unsigned : Text := "unsigned".toList

/-- The eMMC's marker and the size of its slots. -/
def checkEmmc (m : Machine) (e : Emmc) : Except Refusal Unit := do
  check m.mounts .noFat
  check (e.fat.secure = some signed || e.fat.secure = some unsigned) .noMarker
  check m.nixa .noNixa
  check m.squashfs .notSquashfs
  let bytes := m.source.system.store.length
  let slot := min (e.sectors .A * 512) (e.sectors .B * 512)
  if slot < bytes then
    check (bytes ≤ 3 * 1024 * 1024 * 1024) .largerThanAnyLayout
    .error .largerThanSlots

/-- The boot files of one core. -/
def checkBootFiles (m : Machine) (core : Core) : Except Refusal Unit := do
  check (m.source.system.file core .boot ≠ []) (.bootFileMissing core .boot)
  check (m.source.system.file core .vbmeta ≠ []) (.bootFileMissing core .vbmeta)

/-- The SD's slot-A images are the ones of its NIX_A generation. -/
def checkGeneration (m : Machine) (core : Core) : Except Refusal Unit :=
  match m.generation core with
  | none => .error (.noGeneration core)
  | some none => .error (.noBootImage core)
  | some (some boot) => check (m.source.system.file core .boot = boot) (.notTheGeneration core)

/-- The checks of the SD's boot tree, against the eMMC's marker. -/
def checkSd (m : Machine) (marker : Option Text) : Except Refusal Unit := do
  checkBootFiles m .arm
  checkBootFiles m .riscv
  check m.secure.isSome .noSdMarker
  check (m.secure = some signed || m.secure = some unsigned) .badSdMarker
  check (m.secure = marker) .otherMarker
  checkGeneration m .arm
  checkGeneration m .riscv
  check (m.source.fip ≠ []) .noFip
  check (m.source.fip.length ≤ 1048576) .largeFip

/-- `$need` -/
def need (src : Source) : ℕ :=
  16 * 1024 * 1024 +
    (cores.map fun core => (bootFiles.map fun f => (src.system.file core f).length).sum).sum

/-- The room for the new files beside the old ones. -/
def checkRoom (src : Source) (fat : Fat) : Except Refusal Unit :=
  check (need src ≤ fat.availKib * 1024 + fat.freed)
    (.noRoom (fat.availKib * 1024 + fat.freed) (need src))

/-- Every check, with the slot that U-Boot boots. -/
def checks (m : Machine) (e : Emmc) : Except Refusal Slot := do
  checkBoard m
  let active ← selectActive e.env
  checkEmmc m e
  checkSd m e.fat.secure
  checkRoom m.source e.fat
  return active

/-! ### The run -/

/-- One boot file of `write_slot`. -/
def copyFile (s : Slot) (core : Core) (f : BootFile) : List Cmd :=
  [.cp core s f, .sync, .mv core s f, .sync, .verifyCopy core s f]

/-- `write_slot` between the store image and the boot files. -/
def clearDirs (s : Slot) : List Cmd :=
  cores.flatMap (fun core => stale.map (.rmStale core s) ++ [.mkdir core s]) ++ [.sync]

/-- `write_slot` after the boot files. -/
def sweepSlot (s : Slot) : List Cmd :=
  cores.flatMap (fun core => [.rmNixos core s, .rmExtlinux core s]) ++ [.sync]

/-- The boot files of a slot, core by core. -/
def slotFiles : List (Core × BootFile) := cores.flatMap fun core => bootFiles.map (core, ·)

/-- `write_slot` -/
def writeSlot (s : Slot) : List Cmd :=
  [.clearLeft s, .ddStore s] ++ clearDirs s ++
    slotFiles.flatMap (fun p => copyFile s p.1 p.2) ++ sweepSlot s

/-- The commands of an update. -/
def update (active : Slot) : List Cmd :=
  writeSlot active.other ++ [.ddFip, .setPrimary active.other active] ++ writeSlot active ++
    [.umount, .setBoth, .envMirror, .sync]

/-- `emmc-update --yes`. -/
def emmcUpdate (m : Machine) : Script Cmd Emmc (Except Refusal Bool) := do
  let checked ← see (checks m)
  match checked with
  | .error r => pure (.error r)
  | .ok active => do
      let ok ← seq (update active)
      pure (.ok ok)

/-! ### What the checks say -/

section Checks

variable {env : Env} {a s : Slot}

/-- A `BOOT_ORDER` that names slots, none twice, each with a number of attempts left. -/
def EnvOk (env : Env) (order : List Slot) : Prop :=
  env.orderWords = order.map Slot.text ∧ order.Nodup ∧ ∀ s ∈ order, ∃ n, env.getLeft s = some n

/-- The slot has boot attempts left. -/
def Env.bootable (env : Env) (s : Slot) : Bool := (env.getLeft s).any (0 < ·)

theorem slotOf_text (s : Slot) : slotOf s.text = some s := by
  cases s <;> rfl

theorem text_of_slotOf {w : Text} (h : slotOf w = some s) : w = s.text := by
  unfold slotOf at h
  split at h
  · cases h
    rfl
  · cases h
    rfl
  · cases h

/-- The first slot of an order with attempts left. -/
theorem EnvOk.uBootSlot {order : List Slot} (h : EnvOk env order) :
    env.uBootSlot = order.find? env.bootable := by
  have hslots : env.orderWords.filterMap slotOf = order := by
    rw [h.1, List.filterMap_map]
    simp [slotOf_text]
  rw [Env.uBootSlot, hslots]
  rfl

theorem selectLoop_ok {ws : List Text} {seen : List Slot} {active r : Option Slot}
    (h : selectLoop env ws seen active = .ok r) :
    ∃ order : List Slot, ws = order.map Slot.text ∧ order.Nodup ∧ (∀ s ∈ order, s ∉ seen) ∧
      (∀ s ∈ order, ∃ n, env.getLeft s = some n) ∧ r = active.or (order.find? env.bootable) := by
  induction ws generalizing seen active with
  | nil =>
      cases h
      exact ⟨[], rfl, .nil, nofun, nofun, by simp⟩
  | cons w ws ih =>
      simp only [selectLoop] at h
      split at h
      · cases h
      rename_i s hs
      split at h
      · cases h
      rename_i hseen
      split at h
      · cases h
      rename_i n hn
      obtain ⟨order, hws, hnodup, hnotin, hleft, hr⟩ := ih h
      have hs' : s ∉ order := fun hmem => hnotin s hmem List.mem_cons_self
      refine ⟨s :: order, ?_, List.nodup_cons.2 ⟨hs', hnodup⟩, ?_, ?_, ?_⟩
      · rw [List.map_cons, ← hws, text_of_slotOf hs]
      · intro x hx
        rcases List.mem_cons.1 hx with rfl | hx
        · exact hseen
        · exact fun hmem => hnotin x hx (List.mem_cons_of_mem _ hmem)
      · intro x hx
        rcases List.mem_cons.1 hx with rfl | hx
        · exact ⟨n, hn⟩
        · exact hleft x hx
      · rw [hr, List.find?_cons]
        cases active with
        | some a => simp
        | none =>
            by_cases hzero : n = 0
            · simp [Env.bootable, hn, hzero]
            · simp [Env.bootable, hn, hzero, Nat.pos_iff_ne_zero]

theorem selectLoop_order {order seen : List Slot} {active : Option Slot} (hnodup : order.Nodup)
    (hnotin : ∀ s ∈ order, s ∉ seen) (hleft : ∀ s ∈ order, ∃ n, env.getLeft s = some n) :
    selectLoop env (order.map Slot.text) seen active =
      .ok (active.or (order.find? env.bootable)) := by
  induction order generalizing seen active with
  | nil => simp [selectLoop]
  | cons s order ih =>
      obtain ⟨n, hn⟩ := hleft s List.mem_cons_self
      obtain ⟨hs, hnodup⟩ := List.nodup_cons.1 hnodup
      have hseen : ∀ x ∈ order, x ∉ s :: seen := by
        intro x hx hmem
        rcases List.mem_cons.1 hmem with rfl | hmem
        · exact hs hx
        · exact hnotin x (List.mem_cons_of_mem _ hx) hmem
      rw [List.map_cons]
      simp only [selectLoop, slotOf_text, hnotin s List.mem_cons_self, if_false, hn]
      rw [ih hnodup hseen fun x hx => hleft x (List.mem_cons_of_mem _ hx), List.find?_cons]
      cases active with
      | some a => simp
      | none =>
          by_cases hzero : n = 0
          · simp [Env.bootable, hn, hzero]
          · simp [Env.bootable, hn, hzero, Nat.pos_iff_ne_zero]

theorem bind_ok {ε α β : Type} {x : Except ε α} {f : α → Except ε β} {b : β} :
    (x >>= f) = .ok b ↔ ∃ a, x = .ok a ∧ f a = .ok b := by
  cases x with
  | error r => exact ⟨nofun, nofun⟩
  | ok a => exact ⟨fun h => ⟨a, rfl, h⟩, fun ⟨_, h, hf⟩ => by cases h; exact hf⟩

theorem check_ok {ok : Bool} {r : Refusal} : check ok r = .ok () ↔ ok = true := by
  cases ok <;> simp [check]

/-- **The script's active slot is U-Boot's.** -/
theorem selectActive_ok : selectActive env = .ok a ↔
    (∃ order, EnvOk env order) ∧ env.uBootSlot = some a := by
  unfold selectActive
  simp only [bind_ok]
  constructor
  · intro hpassed
    obtain ⟨-, -, active, hloop, hactive⟩ := hpassed
    obtain ⟨order, hwords, hnodup, -, hleft, hr⟩ := selectLoop_ok hloop
    have hok : EnvOk env order := ⟨hwords, hnodup, hleft⟩
    refine ⟨⟨order, hok⟩, ?_⟩
    rw [hok.uBootSlot]
    rw [Option.none_or] at hr
    rw [← hr]
    cases active with
    | none => cases hactive
    | some s =>
        cases hactive
        rfl
  · intro hpassed
    obtain ⟨⟨order, hok⟩, ha⟩ := hpassed
    have horder : env.order.getD [] ≠ [] := by
      intro hnil
      have hnone : env.uBootSlot = none := by
        rw [Env.uBootSlot, Env.orderWords, hnil]
        rfl
      rw [hnone] at ha
      cases ha
    refine ⟨(), check_ok.2 (by simpa using horder), some a, ?_, rfl⟩
    rw [hok.1, selectLoop_order hok.2.1 (fun _ _ => List.not_mem_nil) hok.2.2, ← hok.uBootSlot, ha]
    rfl

/-- **The checks**, part by part. -/
theorem checks_ok {m : Machine} {e : Emmc} : checks m e = .ok a ↔
    checkBoard m = .ok () ∧ selectActive e.env = .ok a ∧ checkEmmc m e = .ok () ∧
      checkSd m e.fat.secure = .ok () ∧ checkRoom m.source e.fat = .ok () := by
  unfold checks
  simp only [bind_ok]
  constructor
  · intro hpassed
    obtain ⟨⟨⟩, hboard, s, hselect, ⟨⟩, hemmc, ⟨⟩, hsd, ⟨⟩, hroom, hret⟩ := hpassed
    cases hret
    exact ⟨hboard, hselect, hemmc, hsd, hroom⟩
  · intro hpassed
    obtain ⟨hboard, hselect, hemmc, hsd, hroom⟩ := hpassed
    exact ⟨(), hboard, a, hselect, (), hemmc, (), hsd, (), hroom, rfl⟩

end Checks

end BadgeOS.EmmcUpdate
