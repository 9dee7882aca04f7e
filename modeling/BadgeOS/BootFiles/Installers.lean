import BadgeOS.Lib.Files
import BadgeOS.Stage0.Userdata
import Mathlib

/-!
# The installers of boot files

A deploy's bootloader installer (`install-bootloader.nix`) and the bundle hook of a RAUC install
(`hook.sh`) write the boot files of a slot, each under `set -e`, over any number of FATs: the one at
`/boot`, a data card's at `/boot-card`, the one that RAUC installs to.  What they say is left out.

* `Path` — the files;
* `Deploy.script` — the installer, and how it ends;
* `Tar` — `boot.tar`, with what `tar` lists and extracts of it;
* `Hook.script` — `slot-post-install`;
* `Event.Installs` — the images that they bring.
-/

namespace BadgeOS.BootFiles

open Crash Files Stage0

abbrev Bytes := List UInt8

/-- The boot files of a core's slot. -/
inductive SlotFile
  /-- `boot.itb` -/
  | boot
  /-- `vbmeta.itb` -/
  | vbmeta
  /-- `boot.itb.prev` -/
  | prev
  deriving DecidableEq, Repr

/-- What the installers keep whole on a FAT. -/
inductive File
  /-- In `<core>/slot-<slot>` -/
  | slot (core : Text) (s : Slot) (f : SlotFile)
  | secure
  | fip (name : Text)
  deriving DecidableEq, Repr

/-- A slot's leftovers in `<core>/extlinux`. -/
inductive Extlinux
  | conf
  | verityAppend
  | desktopConf
  | videoConf
  deriving DecidableEq, Repr

inductive Path (Dev : Type)
  | kept (dev : Dev) (f : File)
  /-- `<f>.new` -/
  | new (dev : Dev) (f : File)
  /-- `<core>` -/
  | coreDir (dev : Dev) (core : Text)
  /-- `<core>/slot-<slot>` -/
  | dir (dev : Dev) (core : Text) (s : Slot)
  /-- `.incoming` -/
  | incoming (dev : Dev)
  /-- `<core>/slot-<slot>/nixos` -/
  | nixos (dev : Dev) (core : Text) (s : Slot)
  | extlinux (dev : Dev) (core : Text) (s : Slot) (f : Extlinux)
  /-- `/dev/fip` -/
  | fipDevice
  /-- `.nixbadge-cardfit-<slot>` on the card's EXT_USERDATA -/
  | cardfit (s : Slot)
  | cardfitNew (s : Slot)
  deriving DecidableEq, Repr

/-- `fip.bin` -/
def fipBin : Text := ['f', 'i', 'p', '.', 'b', 'i', 'n']

/-- `fip-<core>.bin` -/
def fipCore (core : Text) : Text := ['f', 'i', 'p', '-'] ++ core ++ ['.', 'b', 'i', 'n']

/-- `signed` -/
def signed : Bytes := [115, 105, 103, 110, 101, 100]

/-- `unsigned` -/
def unsigned : Bytes := [117, 110] ++ signed

/-- `$(cat file)`: without the NULs, and the newlines at the end. -/
def catBytes (bytes : Bytes) : Bytes := (bytes.filter (· ≠ 0)).rdropWhile (· = 10)

/-- `signed|unsigned) ;;` -/
def isMarker (word : Bytes) : Bool := word == signed || word == unsigned

variable {Dev : Type} [DecidableEq Dev]

abbrev Disks (Dev : Type) := Store (Path Dev) UInt8

abbrev Install (Dev : Type) := Script (Cmd (Path Dev) UInt8) (Disks Dev)

/-- The content is there under `.new`, synced, and renamed. -/
def replace (dev : Dev) (f : File) (bytes : Bytes) : Install Dev Bool :=
  .seq [.write (.new dev f) bytes, .sync, .mv (.new dev f) (.kept dev f), .sync]

/-- `mkdir -p` of a slot. -/
def mkdirs (dev : Dev) (core : Text) (s : Slot) : Install Dev Bool :=
  .seq [.mkdir (.coreDir dev core), .mkdir (.dir dev core s)]

/-! ### A deploy -/

/-- The refusals, in the order in which they can come. -/
inductive Refusal
  | notSquashfs
  | notMounted
  | noCardBoot
  | noSlot
  | noVbmeta
  | badMarker
  | badGeneration
  | otherMode
  | noRoom
  | largeFip
  deriving DecidableEq, Repr

/-- How a deploy ends. -/
inductive End
  /-- `exit 1`, by its own choice. -/
  | refused (r : Refusal)
  /-- A command failed. -/
  | failed
  | finished
  deriving DecidableEq, Repr

/-- The second script, unless a command of the first failed. -/
def orFailed (m : Install Dev Bool) (n : Install Dev End) : Install Dev End := do
  let ok ← m
  if ok = true then n else pure .failed

/-- `tr ' ' '\n'` -/
def words (cmdline : Text) : List Text := cmdline.splitOnP fun c => c == ' ' || c == '\n'

/-- The first `rauc.slot=`, when it says A or B. -/
def slotOf (cmdline : Text) : Option Slot :=
  match (words cmdline).find? ("rauc.slot=".toList.isPrefixOf ·) with
  | none => none
  | some word =>
      match word.drop "rauc.slot=".length with
      | ['A'] => some .A
      | ['B'] => some .B
      | _ => none

/-- What the installer was built with, and what it finds. -/
structure Deploy (Dev : Type) where
  core : Text
  recoveryFip : Option Bytes
  activeFip : Bytes
  /-- `fipPath`, below `/boot`. -/
  fipPath : Text
  emmc : Bool
  externalStorage : Bool
  /-- `/` is a squashfs. -/
  squashfs : Bool
  /-- The FAT at `/boot`. -/
  boot : Option Dev
  /-- `mountpoint -q /.lower-userdata`: a data card is in use. -/
  lower : Bool
  /-- The FAT at `/boot-card`. -/
  bootCard : Option Dev
  /-- `/proc/cmdline` -/
  cmdline : Text
  /-- `$toplevel` -/
  toplevel : Bytes
  /-- Its `boot-image/boot.itb` -/
  image : Option Bytes
  /-- ... and `boot-image/.secure`. -/
  genSecure : Option Bytes
  /-- `[ -b /dev/fip ]` -/
  fipBlock : Bool

namespace Deploy

variable (k : Deploy Dev)

/-- `[ "$fitdir" != "$dir" ]` -/
def onCard : Bool := k.externalStorage && k.lower

/-- The FAT that the FIT goes to. -/
def fitdev (boot : Dev) : Option Dev := if k.onCard then k.bootCard else some boot

/-- The checks on a slot of `/boot` and the two markers. -/
def refusal (boot : Dev) (s : Slot) (S : Disks Dev) : Option Refusal :=
  let secureMarker := ((content S (.kept boot .secure)).map catBytes).getD []
  let genMarker := (k.genSecure.map catBytes).getD []
  if (S (.kept boot (.slot k.core s .vbmeta))).isNone then some .noVbmeta
  else if isMarker secureMarker = false then some .badMarker
  else if isMarker genMarker = false then some .badGeneration
  else if secureMarker != genMarker then some .otherMode
  else none

/-- The checks before the one for room, with the FAT at `/boot`, that for the FIT, and the slot. -/
def checked (S : Disks Dev) : Except Refusal (Dev × Dev × Slot) :=
  if k.squashfs = false then .error .notSquashfs
  else
    match k.boot with
    | none => .error .notMounted
    | some boot =>
        match k.fitdev boot with
        | none => .error .noCardBoot
        | some dev =>
            match slotOf k.cmdline with
            | none => .error .noSlot
            | some s =>
                match k.refusal boot s S with
                | some r => .error r
                | none => .ok (boot, dev, s)

def sizeOf (S : Disks Dev) (p : Path Dev) : ℕ := ((content S p).getD []).length

/-- The card's BOOT has no room for the FIT and a copy of the old one. -/
def full (availKib : ℕ) (image : Bytes) (dev : Dev) (s : Slot) (S : Disks Dev) : Bool :=
  let at' := Path.kept dev ∘ File.slot k.core s
  let new' := Path.new dev ∘ File.slot k.core s
  let need := image.length + sizeOf S (at' .boot)
  let freed := sizeOf S (at' .prev) + sizeOf S (new' .prev) + sizeOf S (new' .boot)
  decide (availKib * 1024 + freed < need)

/-- The FIT, with the old one kept as `.prev`. -/
def installFit (dev : Dev) (s : Slot) : Install Dev Bool :=
  let boot := File.slot k.core s .boot
  let prev := File.slot k.core s .prev
  (Script.seq [.rm [.kept dev prev, .new dev prev, .new dev boot], .sync]).andThen <|
  match k.image with
  | none => pure false
  | some image =>
      (Script.seq [.write (.new dev boot) image, .sync]).andThen <|
      Script.andThen (do
        let there ← Script.see fun S => (S (.kept dev boot)).isSome
        if there = true then
          .seq [.copy (.kept dev boot) (.new dev prev), .sync, .mv (.new dev prev) (.kept dev prev)]
        else pure true) <|
      .seq [.mv (.new dev boot) (.kept dev boot), .sync]

/-- The marker by which U-Boot boots the card's FIT. -/
def writeMarker (s : Slot) : Install Dev Bool :=
  .seq [.write (.cardfitNew s) (k.toplevel ++ [10]), .sync, .mv (.cardfitNew s) (.cardfit s), .sync]

/-- A fip on `/boot`, if it is another one. -/
def refresh (boot : Dev) (name : Text) (bytes : Bytes) : Install Dev Bool := do
  let same ← Script.see fun S => content S (.kept boot (.fip name)) == some bytes
  if same = true then pure true else replace boot (.fip name) bytes

def recovery (boot : Dev) : Install Dev Bool :=
  match k.recoveryFip with
  | none => pure true
  | some fip => refresh boot (fipCore k.core) fip

/-- The FIT and the fips on `/boot`. -/
def installFiles (boot dev : Dev) (s : Slot) : Install Dev Bool :=
  (k.installFit dev s).andThen <| (k.recovery boot).andThen (refresh boot k.fipPath k.activeFip)

/-- The deploy writes boot area 1 of the eMMC that was booted from. -/
def ownsFip : Prop :=
  k.emmc = true ∧ "nixbadge.bootmedium=0".toList ∈ words k.cmdline ∧ k.fipPath = fipBin

instance : Decidable k.ownsFip := inferInstanceAs (Decidable (_ ∧ _ ∧ _))

/-- Boot area 1; the factory copy is at 1 MiB. -/
def writeFip : Install Dev End :=
  if k.ownsFip then
    if k.activeFip.length > 1048576 then pure (.refused .largeFip)
    else if k.fipBlock = false then pure .finished
    else do
      let same ← Script.see fun S =>
        ((content S .fipDevice).getD []).take k.activeFip.length == k.activeFip
      if same = true then pure .finished
      else orFailed (.seq [.dd .fipDevice k.activeFip]) (pure .finished)
  else pure .finished

/-- The slot of the card, and the marker. -/
def installCard (card : Dev) (s : Slot) : Install Dev Bool :=
  (mkdirs card k.core s).andThen <| (k.installFit card s).andThen (k.writeMarker s)

/-- Behind the first checks; `availKib` is what `df` says of `/boot-card`. -/
def install (availKib : ℕ) (boot dev : Dev) (s : Slot) : Install Dev End :=
  if k.onCard = true then
    match k.image with
    | none => pure .failed
    | some image => do
        let full ← Script.see (k.full availKib image dev s)
        if full = true then pure (.refused .noRoom)
        else orFailed (k.installCard dev s) (pure .finished)
  else orFailed (k.installFiles boot dev s) k.writeFip

/-- **The installer.** -/
def script (availKib : ℕ) : Install Dev End := do
  let checked ← Script.see k.checked
  match checked with
  | .error r => pure (.refused r)
  | .ok (boot, dev, s) => k.install availKib boot dev s

end Deploy

/-! ### A RAUC install -/

/-- What a member of a tar is. -/
inductive Body
  | file (bytes : Bytes)
  /-- A link, with what `tar -tvf` shows behind its name. -/
  | link (shown : Text)
  | dir
  deriving DecidableEq

structure Member where
  name : Text
  body : Body
  deriving DecidableEq

/-- `boot.tar` -/
abbrev Tar := List Member

namespace Tar

variable (t : Tar)

/-- `tar -tf` -/
def listing : List Text := t.map Member.name

/-- `tar -xO`: the files at the name, and below it. -/
def extract (name : Text) : Bytes :=
  t.flatMap fun m =>
    match m.body with
    | .file bytes => if m.name = name ∨ name ++ ['/'] <+: m.name then bytes else []
    | _ => []

def bootItb : Text := "/boot.itb".toList

def vbmetaItb : Text := "/vbmeta.itb".toList

/-- `[a-z0-9]` -/
def isCoreChar (c : Char) : Bool := ('a' ≤ c && c ≤ 'z') || ('0' ≤ c && c ≤ '9')

/-- `s|^\([a-z0-9]*\)/boot\.itb$|\1|p` -/
def coreOf (name : Text) : Option Text :=
  let core := name.takeWhile isCoreChar
  if name = core ++ bootItb then some core else none

/-- `$cores`; an empty one is no word. -/
def cores : List Text := (t.listing.filterMap coreOf).filter (· ≠ [])

def boot (core : Text) : Bytes := t.extract (core ++ bootItb)

def vbmeta (core : Text) : Bytes := t.extract (core ++ vbmetaItb)

def secureName : Text := "secure".toList

def secure : Bytes := t.extract secureName

def storeSha256 : Text := "store.sha256".toList

/-- `$has_fip` -/
def hasFip : Bool := decide (fipBin ∈ t.listing)

def fip : Bytes := t.extract fipBin

/-- `check_payload` -/
def complete : Bool :=
  !(t.listing.filterMap coreOf).isEmpty && t.cores.all (fun core => core ++ vbmetaItb ∈ t.listing) &&
    decide (secureName ∈ t.listing) && decide (storeSha256 ∈ t.listing)

/-- `check_secure` -/
def allowed (dev : Dev) (S : Disks Dev) : Bool :=
  isMarker (catBytes t.secure) &&
    match content S (.kept dev .secure) with
    | some card => isMarker (catBytes card) && catBytes t.secure == catBytes card
    | none => catBytes t.secure == unsigned

end Tar

/-- What the hook is given. -/
structure Hook (Dev : Type) where
  /-- `RAUC_SLOT_CLASS` is nix. -/
  nix : Bool
  /-- `RAUC_SLOT_BOOTNAME`, when it is A or B. -/
  slot : Option Slot
  tarball : Option Tar
  /-- The device that `mount_boot` mounts. -/
  bootdev : Option Dev
  /-- `RAUC_IMAGE_DIGEST` -/
  digest : Bytes
  /-- What `sha256sum` reads of `fip.bin`: the pipe hides a tar that fails. -/
  fipRead : ℕ
  sha256sum : Bytes → Bytes

namespace Hook

variable (h : Hook Dev)

/-- The leftovers of the slot. -/
def clear (t : Tar) (dev : Dev) (s : Slot) : Install Dev Bool :=
  (Script.seq [.rmTree (.incoming dev)]).andThen <|
  (Script.forEach (fun core => .seq [.rm [.kept dev (.slot core s .prev),
    .new dev (.slot core s .prev), .new dev (.slot core s .boot),
    .new dev (.slot core s .vbmeta)]]) t.cores).andThen <|
  (if t.hasFip = true then Script.seq [.rm [.new dev (.fip fipBin)]] else pure true).andThen <|
  .seq [.sync]

/-- The slot's files, core by core; a FAT has no longer names. -/
def slotFiles (t : Tar) (dev : Dev) (s : Slot) : Install Dev Bool :=
  Script.forEach (fun core =>
    if 255 < core.length then pure false
    else (mkdirs dev core s).andThen <|
      (replace dev (.slot core s .boot) (t.boot core)).andThen <|
      replace dev (.slot core s .vbmeta) (t.vbmeta core)) t.cores

/-- The slot's leftover extlinux files. -/
def clearExtlinux (t : Tar) (dev : Dev) (s : Slot) : Install Dev Bool :=
  (Script.forEach (fun core =>
    (Script.seq [.rmTree (.nixos dev core s)]).andThen <|
    Script.forEach (fun f => .seq [.rm [.extlinux dev core s f]])
      [.conf, .verityAppend, .desktopConf, .videoConf]) t.cores).andThen <|
  .seq [.sync]

/-- A card without `/secure` gets it now. -/
def secure (t : Tar) (dev : Dev) : Install Dev Bool := do
  let there ← Script.see fun S => (S (.kept dev .secure)).isSome
  if there = true then pure true else replace dev .secure t.secure

/-- `fip.bin`, if it is another one. -/
def fip (t : Tar) (dev : Dev) : Install Dev Bool :=
  if t.hasFip = true then do
    let same ← Script.see fun S =>
      (content S (.kept dev (.fip fipBin))).map h.sha256sum ==
        some (h.sha256sum (t.fip.take h.fipRead))
    if same = true then pure true else replace dev (.fip fipBin) t.fip
  else pure true

/-- Behind the checks. -/
def install (t : Tar) (dev : Dev) (s : Slot) : Install Dev Bool :=
  (clear t dev s).andThen <| (slotFiles t dev s).andThen <|
    (clearExtlinux t dev s).andThen <| (secure t dev).andThen (h.fip t dev)

/-- **`slot-post-install`** -/
def script : Install Dev Bool :=
  match h.slot, h.tarball, h.bootdev with
  | some s, some t, some dev => do
      let allowed ← Script.see (t.allowed dev)
      if h.nix = true ∧ t.complete = true ∧ allowed = true ∧
          catBytes (t.extract Tar.storeSha256) = h.digest then
        h.install t dev s
      else pure false
  | _, _, _ => pure false

end Hook

/-! ### Any of the two -/

inductive Event (Dev : Type)
  | deploy (k : Deploy Dev) (availKib : ℕ)
  | install (h : Hook Dev)

namespace Event

/-- With its success. -/
def script : Event Dev → Install Dev Bool
  | .deploy k availKib => do
      let ended ← k.script availKib
      pure (ended == .finished)
  | .install h => h.script

/-- The slot whose files it writes. -/
def slot : Event Dev → Option Slot
  | .deploy k _ => slotOf k.cmdline
  | .install h => h.slot

/-- The images it brings, with the files they become. -/
def Installs (dev : Dev) (f : File) (bytes : Bytes) : Event Dev → Prop
  | .deploy k _ => ∃ boot, k.boot = some boot ∧
      ((∃ s, slotOf k.cmdline = some s ∧ k.fitdev boot = some dev ∧ f = .slot k.core s .boot ∧
        k.image = some bytes) ∨
      dev = boot ∧ f = .fip (fipCore k.core) ∧ k.recoveryFip = some bytes ∨
      dev = boot ∧ f = .fip k.fipPath ∧ bytes = k.activeFip)
  | .install h => h.bootdev = some dev ∧ ∃ t, h.tarball = some t ∧
      ((∃ s, ∃ core ∈ t.cores, h.slot = some s ∧
        (f = .slot core s .boot ∧ bytes = t.boot core ∨
          f = .slot core s .vbmeta ∧ bytes = t.vbmeta core)) ∨
      f = .secure ∧ bytes = t.secure ∨ f = .fip fipBin ∧ t.hasFip = true ∧ bytes = t.fip)

end Event

end BadgeOS.BootFiles
