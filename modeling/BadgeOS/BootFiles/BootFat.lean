import BadgeOS.BootFiles.Installers
import BadgeOS.Lib.Fat
import Mathlib

/-!
# A boot FAT

Where the names of the boot files stand on a FAT, and what holds of its directories as long as
nothing but the installers writes to it.

* `Folder`, `entry`, `folder` — the directories, and the names in them;
* `BootFat` — the FAT of a device;
* `Sound` — directories and files as a file system has them.
-/

namespace BadgeOS.BootFiles

open Crash Files Function Fat
open Stage0 (Slot Text)

inductive Folder
  | root
  /-- `<core>` -/
  | core (core : Text)
  /-- `<core>/slot-<slot>` -/
  | slot (core : Text) (s : Slot)
  /-- `<core>/extlinux` -/
  | extlinux (core : Text)
  deriving DecidableEq, Repr

/-- The characters of the name. -/
def SlotFile.chars : SlotFile → ℕ
  | boot => 8
  | vbmeta => 10
  | prev => 13

/-- Its directory, and the characters of its name. -/
def File.seat : File → Folder × ℕ
  | slot core s f => (.slot core s, f.chars)
  | secure => (.root, 6)
  | fip name => (.root, name.length)

def Extlinux.chars : Extlinux → ℕ
  | conf => 15
  | verityAppend => 15
  | desktopConf => 23
  | videoConf => 21

variable {Dev : Type} [DecidableEq Dev]

/-- The name on the FAT `dev`: its directory, and its characters. -/
def seatOf (dev : Dev) : Path Dev → Option (Folder × ℕ)
  | .kept d f => if d = dev then some f.seat else none
  | .new d f => if d = dev then some (f.seat.1, f.seat.2 + 4) else none
  | .coreDir d core => if d = dev then some (.root, core.length) else none
  | .dir d core _ => if d = dev then some (.core core, 6) else none
  | .incoming d => if d = dev then some (.root, 9) else none
  | .nixos d core s => if d = dev then some (.slot core s, 5) else none
  | .extlinux d core _ f => if d = dev then some (.extlinux core, f.chars) else none
  | _ => none

/-- ... and its slots. -/
def entry (dev : Dev) (p : Path Dev) : Option (Folder × ℕ) :=
  (seatOf dev p).map fun seat => (seat.1, nameSlots seat.2)

/-- The directories that an installer makes. -/
def folder (dev : Dev) : Path Dev → Option Folder
  | .coreDir d core => if d = dev then some (.core core) else none
  | .dir d core s => if d = dev then some (.slot core s) else none
  | _ => none

/-- What is a file, on the FAT. -/
def IsFile (dev : Dev) : Path Dev → Prop
  | .kept d _ | .new d _ | .extlinux d _ _ _ => d = dev
  | _ => False

def IsTree (dev : Dev) : Path Dev → Prop
  | .incoming d | .nixos d _ _ => d = dev
  | _ => False

/-- The FAT of a device. -/
structure BootFat (dev : Dev) extends Geometry (Path Dev) Folder where
  name_eq : name = entry dev
  opens_eq : opens = folder dev
  two_le_per : 2 ≤ clusterSize / 32
  dirs_nodup : dirs.Nodup
  files_nodup : files.Nodup
  isFile : ∀ p ∈ files, IsFile dev p
  isTree : ∀ t ∈ trees, IsTree dev t.1

abbrev BootVol (Dev : Type) := Vol (Path Dev) Folder UInt8

/-- Directories and files as a file system has them. -/
structure Sound {dev : Dev} (F : BootFat dev) (v : BootVol Dev) : Prop where
  fits : F.used v ≤ F.clusters
  /-- A directory that is not there has no slots. -/
  absent : ∀ p d, folder dev p = some d → content v.store p = none → v.dirs d = []
  /-- A file is in a directory that is there. -/
  inside : ∀ p d n q, entry dev p = some (d, n) → folder dev q = some d →
    content v.store q = none → content v.store p = none

end BadgeOS.BootFiles
