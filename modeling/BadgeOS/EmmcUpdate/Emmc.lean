import BadgeOS.Lib.Crash
import Mathlib

/-!
# The eMMC that an update writes

What `emmc-update.sh` reads and writes: the U-Boot environment, the two store partitions and
the FAT of the BOOT partition, with the clusters its files take.  `fw_setenv` and a rename are
atomic; every other command can be torn.

* `Env`, `Fat`, `Emmc` — the state;
* `uBootSlot` — the slot that U-Boot boots;
* `Cmd`, `disk` — the commands of an update, and what they leave when they are cut or fail.
-/

namespace BadgeOS.EmmcUpdate

open Crash Function

abbrev Text := List Char
abbrev Bytes := List UInt8

inductive Slot
  | A
  | B
  deriving DecidableEq, Repr

inductive Core
  | arm
  | riscv
  deriving DecidableEq, Repr

/-- The boot files of a core's slot. -/
inductive BootFile
  /-- `boot.itb` -/
  | boot
  /-- `vbmeta.itb` -/
  | vbmeta
  deriving DecidableEq, Repr

/-- The names in a slot's directory. -/
inductive Name
  | file (f : BootFile)
  /-- `<f>.new` -/
  | new (f : BootFile)
  /-- `boot.itb.prev` -/
  | prev
  /-- `boot.itb.prev.new` -/
  | prevNew
  deriving DecidableEq, Repr

def cores : List Core := [.arm, .riscv]

def slots : List Slot := [.A, .B]

def bootFiles : List BootFile := [.boot, .vbmeta]

/-- The names that an update removes before it writes a slot. -/
def stale : List Name := [.prev, .prevNew, .new .boot, .new .vbmeta]

def Slot.other : Slot → Slot
  | .A => .B
  | .B => .A

/-- What a slot holds when it is one system's: the store image of its partition, and the boot
files of its directories. -/
structure System where
  store : Bytes
  file : Core → BootFile → Bytes

/-- The U-Boot environment. -/
structure Env where
  /-- `BOOT_ORDER` -/
  order : Option Text
  /-- `BOOT_<slot>_LEFT` -/
  left : Slot → Option Text

/-- The BOOT partition's FAT. -/
structure Fat where
  /-- There is a directory `<core>/slot-<slot>`. -/
  dir : Core → Slot → Bool
  file : Core → Slot → Name → Option Bytes
  /-- The clusters of `<core>/slot-<slot>/nixos` -/
  nixos : Core → Slot → ℕ
  /-- ... and of the slot's files in `<core>/extlinux`. -/
  extlinux : Core → Slot → ℕ
  /-- The clusters of everything else. -/
  other : ℕ
  /-- `secure` -/
  secure : Option Text
  clusters : ℕ
  clusterSize : ℕ

structure Emmc where
  env : Env
  store : Slot → Bytes
  fat : Fat
  /-- Boot area 1, from offset 0. -/
  fip : Bytes
  /-- The sizes of NIX_A and NIX_B, in sectors of 512 bytes. -/
  sectors : Slot → ℕ

/-! ### The environment -/

/-- The value of digits; `none` for a text with anything else in it, and for the empty one. -/
def number (t : Text) : Option ℕ :=
  if t ≠ [] ∧ t.all Char.isDigit then some (t.foldl (fun n c => 10 * n + (c.toNat - 48)) 0)
  else none

/-- A word of `BOOT_ORDER`, when it names a slot. -/
def slotOf : Text → Option Slot
  | ['A'] => some .A
  | ['B'] => some .B
  | _ => none

def Slot.text : Slot → Text
  | .A => ['A']
  | .B => ['B']

/-- `BOOT_ORDER <a> <b>` -/
def orderText (a b : Slot) : Text := a.text ++ ' ' :: b.text

/-- A text split on spaces. -/
def words (t : Text) : List Text := (t.splitOn ' ').filter (· ≠ [])

namespace Env

/-- `getenv`: empty when not defined. -/
def getLeft (env : Env) (s : Slot) : Option ℕ := number ((env.left s).getD [])

/-- The words of `BOOT_ORDER`. -/
def orderWords (env : Env) : List Text := words (env.order.getD [])

/-- U-Boot's rule: the first slot in `BOOT_ORDER` whose `BOOT_x_LEFT` is above 0. -/
def uBootSlot (env : Env) : Option Slot :=
  (env.orderWords.filterMap slotOf).find? fun s => env.getLeft s |>.any (0 < ·)

/-- `fw_setenv "BOOT_<s>_LEFT" <value>` -/
def setLeft (env : Env) (s : Slot) (value : Text) : Env :=
  { env with left := update env.left s (some value) }

/-- `fw_setenv -s -` of `BOOT_ORDER $new $active` and `BOOT_${new}_LEFT 3` -/
def setPrimary (env : Env) (new active : Slot) : Env :=
  { env.setLeft new ['3'] with order := some (orderText new active) }

/-- The environment of a fresh card. -/
def fresh : Env := { order := some (orderText .A .B), left := fun _ => some ['3'] }

end Env

/-! ### The FAT -/

namespace Fat

def setFile (fat : Fat) (core : Core) (s : Slot) (name : Name) (content : Option Bytes) : Fat :=
  { fat with file := fun c t n => if c = core ∧ t = s ∧ n = name then content else fat.file c t n }

/-- The clusters of a file. -/
def clustersOf (fat : Fat) (content : Option Bytes) : ℕ :=
  ((content.getD []).length + fat.clusterSize - 1) / fat.clusterSize

def names : List Name := [.file .boot, .file .vbmeta, .new .boot, .new .vbmeta, .prev, .prevNew]

/-- The clusters of a slot's files. -/
def usedAt (fat : Fat) (core : Core) (s : Slot) : ℕ :=
  (if fat.dir core s then 1 else 0) + fat.nixos core s + fat.extlinux core s +
    (names.map fun name => fat.clustersOf (fat.file core s name)).sum

/-- The clusters in use. -/
def used (fat : Fat) : ℕ :=
  fat.other + (cores.map fun core => (slots.map fun s => fat.usedAt core s).sum).sum

/-- `df -k --output=avail` -/
def availKib (fat : Fat) : ℕ := (fat.clusters - fat.used) * fat.clusterSize / 1024

/-- The bytes of the files that an update removes. -/
def freed (fat : Fat) : ℕ :=
  (cores.map fun core => (slots.map fun s =>
    (stale.map fun name => ((fat.file core s name).getD []).length).sum).sum).sum

end Fat

/-! ### Commands -/

/-- The commands of an update; the SD's system and fip are the disk's. -/
inductive Cmd
  /-- `fw_setenv "BOOT_$1_LEFT" 0` -/
  | clearLeft (s : Slot)
  /-- `dd if="$nixa" of="$2" ...` -/
  | ddStore (s : Slot)
  /-- `rm -f` of one name -/
  | rmStale (core : Core) (s : Slot) (name : Name)
  /-- `mkdir -p "$d"` -/
  | mkdir (core : Core) (s : Slot)
  | sync
  /-- `cp "$bootdir/$core/slot-A/$f" "$d/$f.new"` -/
  | cp (core : Core) (s : Slot) (f : BootFile)
  /-- `mv -f "$d/$f.new" "$d/$f"` -/
  | mv (core : Core) (s : Slot) (f : BootFile)
  /-- `verify_copy` -/
  | verifyCopy (core : Core) (s : Slot) (f : BootFile)
  /-- `rm -rf "$eb/$core/slot-$1/nixos"` -/
  | rmNixos (core : Core) (s : Slot)
  /-- `rm -f "$x/extlinux-$1.conf" ...` -/
  | rmExtlinux (core : Core) (s : Slot)
  /-- `dd if="$bootdir/fip.bin" of="${E}boot0" ...` -/
  | ddFip
  /-- `fw_setenv -s -` of `BOOT_ORDER $new $active` and `BOOT_${new}_LEFT 3` -/
  | setPrimary (new active : Slot)
  | umount
  /-- `fw_setenv -s -` of `BOOT_ORDER A B` and both counters -/
  | setBoth
  /-- `nix-badge-env-mirror || ...` -/
  | envMirror
  deriving DecidableEq

/-- The slot that a command of `write_slot` writes. -/
def Cmd.slot : Cmd → Option Slot
  | .clearLeft s | .ddStore s | .rmStale _ s _ | .mkdir _ s | .cp _ s _ | .mv _ s _
  | .verifyCopy _ s _ | .rmNixos _ s | .rmExtlinux _ s => some s
  | _ => none

/-- What an update takes from the SD. -/
structure Source where
  system : System
  fip : Bytes

namespace Emmc

/-- A change of the FAT, if there are the clusters for it. -/
def grow (e : Emmc) (fat torn : Fat) : Bool × Emmc :=
  if fat.used ≤ fat.clusters then (true, { e with fat }) else (false, { e with fat := torn })

def setFile (e : Emmc) (core : Core) (s : Slot) (name : Name) (content : Option Bytes) : Emmc :=
  { e with fat := e.fat.setFile core s name content }

end Emmc

/-- What a command does, with its success. -/
def Cmd.exec (src : Source) (e : Emmc) : Cmd → Bool × Emmc
  | .clearLeft s => (true, { e with env := e.env.setLeft s ['0'] })
  | .ddStore s =>
      let content := src.system.store ++ (e.store s).drop src.system.store.length
      (true, { e with store := update e.store s content })
  | .rmStale core s name => (true, e.setFile core s name none)
  | .mkdir core s =>
      e.grow { e.fat with dir := fun c t => if c = core ∧ t = s then true else e.fat.dir c t } e.fat
  | .cp core s f =>
      let content := src.system.file core f
      let empty := e.fat.setFile core s (.new f) none
      -- out of clusters, it leaves what fitted
      e.grow (empty.setFile core s (.new f) (some content)) (empty.setFile core s (.new f)
        (some (content.take ((empty.clusters - empty.used) * empty.clusterSize))))
  | .mv core s f =>
      match e.fat.file core s (.new f) with
      | none => (false, e)
      | some content =>
          (true, (e.setFile core s (.new f) none).setFile core s (.file f) (some content))
  | .verifyCopy core s f =>
      (decide (e.fat.file core s (.file f) = some (src.system.file core f)), e)
  | .rmNixos core s =>
      (true, { e with fat := { e.fat with
        nixos := fun c t => if c = core ∧ t = s then 0 else e.fat.nixos c t } })
  | .rmExtlinux core s =>
      (true, { e with fat := { e.fat with
        extlinux := fun c t => if c = core ∧ t = s then 0 else e.fat.extlinux c t } })
  | .ddFip => (true, { e with fip := src.fip ++ e.fip.drop src.fip.length })
  | .setPrimary new active => (true, { e with env := e.env.setPrimary new active })
  | .setBoth => (true, { e with env := .fresh })
  | .sync | .umount | .envMirror => (true, e)

/-- What a cut inside a command can leave. -/
def Cmd.torn (src : Source) (e : Emmc) : Cmd → Emmc → Prop
  | .ddStore s, t => ∃ content, t = { e with store := update e.store s content }
  | .cp core s f, t => ∃ content, content.length ≤ (src.system.file core f).length ∧
      t = e.setFile core s (.new f) (some content)
  | .rmNixos core s, t => ∃ n ≤ e.fat.nixos core s, t = { e with fat := { e.fat with
      nixos := fun c t => if c = core ∧ t = s then n else e.fat.nixos c t } }
  | .rmExtlinux core s, t => ∃ n ≤ e.fat.extlinux core s, t = { e with fat := { e.fat with
      extlinux := fun c t => if c = core ∧ t = s then n else e.fat.extlinux c t } }
  | .ddFip, t => ∃ content, t = { e with fip := content }
  | _, _ => False

/-- The eMMC.  A command that fails has done nothing, or what a cut can leave. -/
def disk (src : Source) : Disk Cmd Emmc where
  exec c e := c.exec src e
  torn c e := c.torn src e
  fail c e t := t = e ∨ c.torn src e t

/-- The slot holds the system. -/
def Holds (s : Slot) (sys : System) (e : Emmc) : Prop :=
  sys.store <+: e.store s ∧ ∀ core f, e.fat.file core s (.file f) = some (sys.file core f)

end BadgeOS.EmmcUpdate
