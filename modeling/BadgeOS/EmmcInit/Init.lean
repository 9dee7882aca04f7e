import BadgeOS.EmmcUpdate.Update
import Mathlib

/-!
# The first installation

`nix-badge-emmc-init`: the checks, then the eMMC's partitions, its boot areas, the boot tree and
the store image of the booted SD.  `set -e` ends a run at the first command that fails.  What the
script prints is left out, but for which check refuses.

* `Machine` — what the script reads;
* `checks` — the refusals before the first write, in the script's order;
* `Cmd` — the commands that write to the eMMC;
* `emmcInit` — the run.
-/

namespace BadgeOS.EmmcInit

open Crash EmmcUpdate Function

/-- A file of a boot tree. -/
inductive Path
  /-- `<core>/slot-<slot>/<file>` -/
  | file (core : Core) (s : Slot) (f : BootFile)
  /-- Another file in `<core>/slot-<slot>`. -/
  | rest (core : Core) (s : Slot) (name : Text)
  | secure
  /-- `fip.bin` -/
  | fip
  | other (name : Text)
  deriving DecidableEq, Repr

abbrev Tree := Path → Option Bytes

/-- What the script reads: its arguments and environment, the booted SD and the board. -/
structure Machine where
  args : List Text
  /-- The file `$EMMC_INIT_CMDLINE`. -/
  cmdline : Text
  /-- `$EMMC_INIT_DEV`, unless it is empty. -/
  dev : Option Text
  /-- The device is in sysfs. -/
  present : Bool
  /-- Its `device/type`. -/
  type : Option Text
  /-- `[ -e /dev/boot1 ]` -/
  boot1 : Bool
  /-- The disk of the booted SD. -/
  sdDisk : Text
  /-- `/boot` -/
  boot : Tree
  /-- `$EMMC_INIT_BOOTDIR`, unless it is empty. -/
  bootdir : Option Tree
  /-- The `boot.itb` of the NIX_A generation, past its two links. -/
  generation : Core → Option (Option (Option Bytes))
  /-- `$nixa`, if it is there. -/
  nixa : Option Bytes
  /-- `/dev/uboot1`, if it is there. -/
  uboot1 : Option Bytes
  /-- The sizes of the eMMC's boot areas. -/
  boot0Bytes : ℕ
  boot1Bytes : ℕ
  /-- The eMMC has room for the partitions. -/
  large : Bool
  /-- A fresh BOOT partition has room for the tree. -/
  room : Tree → Bool
  sha256sum : Bytes → Bytes

/-- The refusals, and the wrong uses. -/
inductive Refusal
  | usage
  | notBootedFromSd
  | notMmcblk
  | noEmmc
  | notAnEmmc
  | notYes
  | noBoot1
  | ownDisk
  | bootFileMissing (core : Core) (f : BootFile)
  | noMarker
  | badMarker
  | noGeneration (core : Core)
  | noBootImage (core : Core)
  | notTheGeneration (core : Core)
  | notSquashfs
  | largeStore
  | noNixa
  | smallBoot0
  | smallBoot1
  | largeFip
  deriving DecidableEq, Repr

def check (ok : Bool) (r : Refusal) : Except Refusal Unit := if ok then .ok () else .error r

/-! ### Arithmetic of the shell -/

/-- `$(( ))`: 64 bits. -/
def wrap (x : ℤ) : ℤ := x.bmod (2 ^ 64)

/-- `od -tu8 --endian=little` -/
def littleEndian (bytes : Bytes) : ℕ := bytes.foldr (fun b n => b.toNat + 256 * n) 0

/-- The hash blocks above `n` blocks. -/
def treeBlocks (n : ℕ) : ℕ :=
  if 1 < n then (n + 127) / 128 + treeBlocks ((n + 127) / 128) else 0
  termination_by n
  decreasing_by omega

/-- `store_image_bytes` -/
def storeImageBytes (slot : Bytes) : Option ℤ :=
  if slot.take 4 = [0x68, 0x73, 0x71, 0x73] then
    let used := wrap (littleEndian ((slot.drop 40).take 8))
    let data := (wrap (used + 4095)).tdiv 4096
    some (wrap ((data + treeBlocks data.toNat) * 4096))
  else none

/-! ### The checks -/

namespace Machine

variable (m : Machine)

/-- `$plan` and `$yes`. -/
def flags : List Text → Except Refusal (Bool × Bool)
  | [] => .ok (false, false)
  | a :: as => do
      let (plan, yes) ← flags as
      if a = "--plan".toList then .ok (true, yes)
      else if a = "--yes".toList then .ok (plan, true)
      else .error .usage

/-- `basename "$E"` -/
def name : Text :=
  ((m.dev.getD "/dev/mmcblk1".toList).rdropWhile (· = '/')).rtakeWhile (· ≠ '/')

/-- The disk is an eMMC, and not the booted SD. -/
def checkDisk (plan yes : Bool) : Except Refusal Unit := do
  let content := m.cmdline.rdropWhile (· = '\n')
  check (" nixbadge.bootmedium=1 ".toList <:+: ' ' :: content ++ [' ']) .notBootedFromSd
  check ("mmcblk".toList <+: m.name) .notMmcblk
  check m.present .noEmmc
  check ((m.type.getD []).rdropWhile (· = '\n') = "MMC".toList) .notAnEmmc
  check (plan || yes) .notYes
  if (plan && m.dev.isSome) = false then
    check m.boot1 .noBoot1
    check (m.name ≠ m.sdDisk) .ownDisk

/-- `[ -s "$bootdir/$core/slot-A/$f" ]` for each file. -/
def checkFiles (tree : Tree) : Except Refusal Unit :=
  cores.forM fun core => bootFiles.forM fun f =>
    check ((tree (.file core .A f)).any (· ≠ [])) (.bootFileMissing core f)

/-- `$(cat "$bootdir/secure")` -/
def marker (secure : Bytes) : Text := (secure.map fun b => Char.ofNat b.toNat).rdropWhile (· = '\n')

/-- The image of slot A is the one of the generation. -/
def checkGeneration (tree : Tree) (core : Core) : Except Refusal Unit :=
  match m.generation core with
  | none => .error (.noGeneration core)
  | some none => .error (.noBootImage core)
  | some (some boot) => check
      ((tree (.file core .A .boot)).map m.sha256sum = boot.map m.sha256sum) (.notTheGeneration core)

/-- The boot tree. -/
def checkTree (tree : Tree) : Except Refusal Unit := do
  checkFiles tree
  match tree .secure with
  | none => .error .noMarker
  | some secure =>
      check (marker secure = signed || marker secure = unsigned) .badMarker
      cores.forM (m.checkGeneration tree)

/-- `$bytes`, which no plan needs. -/
def checkStore (plan : Bool) : Except Refusal ℤ :=
  match m.nixa with
  | none => if plan then .ok 0 else .error .noNixa
  | some slot =>
      match storeImageBytes slot with
      | none => .error .notSquashfs
      | some bytes => do
          check (bytes ≤ 3 * 1024 * 1024 * 1024) .largeStore
          .ok bytes

/-- The boot areas. -/
def checkAreas : Except Refusal Unit := do
  check (2 * 1024 * 1024 ≤ m.boot0Bytes) .smallBoot0
  check (256 * 1024 ≤ m.boot1Bytes) .smallBoot1

/-- `$bootdir` -/
def checkedTree : Tree := m.bootdir.getD m.boot

/-- Before the first write: `$plan` and `$bytes`. -/
def checks : Except Refusal (Bool × ℤ) := do
  let (plan, yes) ← flags m.args
  m.checkDisk plan yes
  if (plan && m.bootdir.isNone) = false then m.checkTree m.checkedTree
  let bytes ← m.checkStore plan
  if plan = false then m.checkAreas
  .ok (plan, bytes)

end Machine

/-! ### Commands -/

inductive BootArea
  | boot0
  | boot1
  deriving DecidableEq, Repr

/-- The commands that write to the eMMC, or wait for it. -/
inductive Cmd
  /-- `sgdisk --zap-all "$E"` -/
  | zap
  /-- `sgdisk -a 2048 ... "$E"` -/
  | partition
  /-- `wait_parts` -/
  | waitParts
  /-- `echo 0 > ".../${area}/force_ro"` -/
  | forceRo (area : BootArea)
  /-- `dd if=/boot/fip.bin of="${E}boot0" bs=512 seek=<seek>` -/
  | ddFip (seek : ℕ)
  /-- `dd if=/dev/uboot1 of="${E}boot1"` -/
  | ddEnvBoot1
  /-- `dd if=/dev/uboot1 of="${E}p2"` -/
  | ddEnvP2
  /-- `mkfs.vfat -F 32 -n EBOOT "${E}p1"` -/
  | mkfsVfat
  /-- `mount -o umask=0077 "${E}p1" "$mnt"` -/
  | mount
  /-- `cp -r --no-preserve=all /boot/. "$mnt"/` -/
  | cpBoot
  /-- `rm -rf "$mnt/$core/slot-B"` -/
  | rmSlotB (core : Core)
  /-- `mkdir -p "$mnt/$core/slot-B"` -/
  | mkdirSlotB (core : Core)
  /-- `cp "/boot/$core/slot-A/$f" "$mnt/$core/slot-B/$f"` -/
  | cpSlotB (core : Core) (f : BootFile)
  /-- `verify_copy` -/
  | verifyCopy (src dst : Path)
  | umount
  /-- `dd if="$nixa" of="${E}p<part>" ... count="$bytes"` -/
  | ddStore (part : ℕ) (bytes : ℤ)
  /-- `mkfs.ext4 -F -q -L USERDATA "${E}p5"` -/
  | mkfsExt4
  | sync
  deriving DecidableEq, Repr

/-- The eMMC's new BOOT, and the commands that have run. -/
structure Emmc where
  fat : Tree
  ran : List Cmd

/-- `rm -rf` of the directory. -/
def Tree.rmSlotB (tree : Tree) (core : Core) : Tree
  | .file c s f => if c = core ∧ s = .B then none else tree (.file c s f)
  | .rest c s name => if c = core ∧ s = .B then none else tree (.rest c s name)
  | p => tree p

/-- What a command does, with its success, on devices and with tools that do not fail.  It can lack
what it reads, or room. -/
def Cmd.exec (m : Machine) (e : Emmc) (c : Cmd) : Bool × Emmc :=
  let (ok, fat) : Bool × Tree :=
    match c with
    | .partition => (m.large, e.fat)
    | .ddFip _ => ((m.boot .fip).isSome, e.fat)
    | .ddEnvBoot1 | .ddEnvP2 => (m.uboot1.isSome, e.fat)
    | .mkfsVfat => (true, fun _ => none)
    | .cpBoot => (m.room m.boot, m.boot)
    | .rmSlotB core => (true, Tree.rmSlotB e.fat core)
    | .cpSlotB core f =>
        let fat := update e.fat (.file core .B f) (m.boot (.file core .A f))
        ((m.boot (.file core .A f)).isSome && m.room fat, fat)
    | .verifyCopy src dst =>
        (decide ((m.boot src).map m.sha256sum = (e.fat dst).map m.sha256sum), e.fat)
    -- dd refuses a negative count
    | .ddStore _ bytes => (decide (0 ≤ bytes), e.fat)
    | _ => (true, e.fat)
  (ok, ⟨fat, e.ran ++ [c]⟩)

/-- The eMMC.  A command that is cut or fails of itself leaves anything. -/
def disk (m : Machine) : Disk Cmd Emmc where
  exec c e := c.exec m e
  torn c e t := t.ran = e.ran ++ [c]
  fail c e t := t.ran = e.ran ++ [c]

/-! ### The run -/

inductive End
  | refused (r : Refusal)
  | failed
  | finished
  deriving DecidableEq, Repr

/-- The boot areas, and the partition UBOOT. -/
def bootAreas : List Cmd :=
  [.forceRo .boot0, .forceRo .boot1, .ddFip 0, .ddFip 2048, .ddEnvBoot1, .ddEnvP2]

/-- Slot B of a core gets the files of slot A. -/
def slotB (core : Core) : List Cmd :=
  [.rmSlotB core, .mkdirSlotB core] ++ bootFiles.map (.cpSlotB core)

/-- The files that are read back. -/
def readBack : List Cmd :=
  cores.flatMap (fun core => bootFiles.flatMap fun f =>
    [.verifyCopy (.file core .A f) (.file core .A f),
      .verifyCopy (.file core .A f) (.file core .B f)]) ++ [.verifyCopy .secure .secure]

/-- BOOT. -/
def bootPart : List Cmd :=
  [.mkfsVfat, .mount, .cpBoot] ++ cores.flatMap slotB ++ readBack ++ [.umount]

/-- The stores, and USERDATA. -/
def stores (bytes : ℤ) : List Cmd := [.ddStore 3 bytes, .ddStore 4 bytes, .mkfsExt4, .sync]

/-- The new partition table. -/
def table : List Cmd := [.zap, .partition, .waitParts]

/-- Behind the partition table: the size of the fip, and the copies. -/
def copyAll (m : Machine) (bytes : ℤ) : Script Cmd Emmc End :=
  match m.boot .fip with
  | none => pure .failed
  | some fip =>
      if 1048576 < fip.length then pure (.refused .largeFip)
      else do
        let ok ← Script.seq (bootAreas ++ bootPart ++ stores bytes)
        pure (if ok then .finished else .failed)

/-- Behind the checks. -/
def install (m : Machine) (bytes : ℤ) : Script Cmd Emmc End := do
  let ok ← Script.seq table
  if ok then copyAll m bytes else pure .failed

/-- `emmc-init`. -/
def emmcInit (m : Machine) : Script Cmd Emmc End :=
  match m.checks with
  | .error r => pure (.refused r)
  | .ok (plan, bytes) => if plan then pure .finished else install m bytes

/-- The eMMC before the run. -/
def before : Emmc := ⟨fun _ => none, []⟩

end BadgeOS.EmmcInit
