import BadgeOS.BootFiles.Refusals
import Mathlib

/-!
# Boot files that are always whole

Deploys and RAUC installs share the slot directories and the temporary names in them.  Each can be
cut at any command, or ended by one that fails, and the power takes what was not synced: a file
that is kept is at every moment one that was there, or one that was brought whole.

* `History` — installs one after another, each as far as it came;
* `Known` — the images of a file;
* `Event.Uses` — every command that an install can come to;
* `preserves_script` — the files stay whole, `Event.Careful` — what else holds of one install;
* `boot_files_whole` — over every history.
-/

namespace BadgeOS.BootFiles

open Crash Files Function
open Stage0 (Slot Text)

variable {Dev : Type} [DecidableEq Dev]

/-- Installs, each to its end or as far as it came, and losses of power.  A moment of an install is
what it leaves when it is cut there. -/
inductive History (S₀ : Disks Dev) : List (Event Dev) → Disks Dev → Prop
  | start : History S₀ [] S₀
  | run {es : List (Event Dev)} {e : Event Dev} {S T : Disks Dev}
      {o : Outcome (Cmd (Path Dev) UInt8) Bool} :
      History S₀ es S → Runs disk (fun _ => True) e.script S o T → History S₀ (e :: es) T
  | settle {es : List (Event Dev)} {S T : Disks Dev} :
      History S₀ es S → Settles S T → History S₀ es T

def IsKept : Path Dev → Prop
  | .kept _ _ => True
  | _ => False

/-- The files whose images a file can have: `boot.itb.prev` is a copy of `boot.itb`. -/
def File.sources : File → List File
  | .slot core s .prev => [.slot core s .prev, .slot core s .boot]
  | f => [f]

/-- An image that was there at the start, or that an install brings. -/
def Known (S₀ : Disks Dev) (es : List (Event Dev)) (dev : Dev) (f : File) (bytes : Bytes) : Prop :=
  ∃ g ∈ f.sources, content S₀ (.kept dev g) = some bytes ∨ ∃ e ∈ es, e.Installs dev g bytes

/-- What a file of the disk can be. -/
def pool (S₀ : Disks Dev) (es : List (Event Dev)) : Path Dev → Bytes → Prop
  | .kept dev f, bytes => Known S₀ es dev f bytes
  | _, _ => True

variable {k : Deploy Dev} {h : Hook Dev} {t : Tar} {dev boot : Dev} {s : Slot} {core name : Text}
  {f : File} {bytes image : Bytes} {availKib : ℕ} {S S₀ T : Disks Dev} {e : Event Dev}
  {es : List (Event Dev)} {images : Path Dev → Bytes → Prop}
  {G : Incident (Cmd (Path Dev) UInt8) → Prop}

/-! ### Whole at every moment -/

theorem preserves_mild {cs : List (Cmd (Path Dev) UInt8)} (hcs : ∀ c ∈ cs, c.Mild IsKept) :
    Preserves disk G (Whole IsKept images) (.seq cs) :=
  .of_all (.seq hcs) fun _ hc => keeps_whole hc

theorem preserves_replace (hbytes : images (.kept dev f) bytes) :
    Preserves disk G (Whole IsKept images) (replace dev f bytes) := by
  intro S hS
  have hnew : ¬ IsKept (Path.new dev f) := id
  exact wp_mono (fun _ _ hT => hT.1) (fun _ _ hT => hT) (wp_replace hnew hbytes hS)

/-- The new FIT is on the disk, under its other name. -/
def Ready (images : Path Dev → Bytes → Prop) (dev : Dev) (f : File) (image : Bytes)
    (S : Disks Dev) : Prop :=
  Whole IsKept images S ∧ S (.new dev f) = some ⟨image, true⟩

theorem keeps_ready {c : Cmd (Path Dev) UInt8} (hmild : c.Mild IsKept)
    (hc : ¬ c.Touches (.new dev f)) : disk.Keeps (Ready images dev f image) c := by
  intro S hS
  obtain ⟨hexec, htorn, hfail⟩ := keeps_whole hmild S hS.1
  obtain ⟨hexec', htorn', hfail'⟩ := keeps_synced hc S hS.2
  exact ⟨⟨hexec, hexec'⟩, fun T hT => ⟨htorn T hT, htorn' T hT⟩,
    fun T hT => ⟨hfail T hT, hfail' T hT⟩⟩

/-- The old FIT becomes `.prev`. -/
theorem preserves_keepOld
    (hprev : ∀ bytes, images (.kept dev (.slot core s .boot)) bytes →
      images (.kept dev (.slot core s .prev)) bytes) :
    Preserves disk G (Ready images dev (.slot core s .boot) image)
      (.seq [.copy (.kept dev (.slot core s .boot)) (.new dev (.slot core s .prev)), .sync,
        .mv (.new dev (.slot core s .prev)) (.kept dev (.slot core s .prev))]) := by
  intro S hS
  have hcopy : disk.Keeps (Ready images dev (.slot core s .boot) image)
      (.copy (.kept dev (.slot core s .boot)) (.new dev (.slot core s .prev))) :=
    keeps_ready id (by simp [Cmd.Touches])
  have hsync : disk.Keeps (Ready images dev (.slot core s .boot) image) .sync :=
    keeps_ready trivial id
  refine wp_seq_keeps hcopy hS (fun _ hT => hT) (fun _ hT => hT) fun hok hcopied => ?_
  cases hold : S (.kept dev (.slot core s .boot)) with
  | none =>
      have hnone : (disk.exec (.copy (.kept dev (.slot core s .boot))
          (.new dev (.slot core s .prev))) S).1 = false := by
        simp only [disk, Cmd.exec, hold]
      rw [hnone] at hok
      cases hok
  | some x =>
      obtain ⟨-, himage⟩ := hS.1 (.kept dev (.slot core s .boot)) trivial x hold
      refine wp_seq_keeps hsync hcopied (fun _ hT => hT) (fun _ hT => hT) fun _ hsynced => ?_
      refine wp_seq_mv hsynced hsynced fun y hy => ?_
      -- what is renamed is a copy of the old FIT, on the disk
      obtain rfl : y = ⟨x.content, true⟩ := by
        have hthere : (disk.exec .sync (disk.exec (.copy (.kept dev (.slot core s .boot))
            (.new dev (.slot core s .prev))) S).2).2 (.new dev (.slot core s .prev)) =
            some ⟨x.content, true⟩ := by
          simp [disk, Cmd.exec, hold]
        exact Option.some.inj (hy.symm.trans hthere)
      refine ⟨hsynced.1.mv ⟨rfl, hprev _ himage⟩, ?_⟩
      rw [update_of_ne (by simp), update_of_ne (by simp)]
      exact hsynced.2

/-- The new FIT is brought. -/
theorem wp_bring (hS : Whole IsKept images S) :
    wp disk G (.seq [.write (.new dev f) bytes, .sync])
      (fun ok T => Whole IsKept images T ∧ (ok = true → Ready images dev f bytes T))
      (fun _ => Whole IsKept images) S := by
  have hfalse (T : Disks Dev) (hT : Whole IsKept images T) :
      Whole IsKept images T ∧ (false = true → Ready images dev f bytes T) :=
    ⟨hT, Bool.noConfusion⟩
  have hwrite : (Cmd.write (Path.new dev f) bytes).Mild IsKept := id
  refine wp_seq_keeps (keeps_whole hwrite) hS (fun _ hT => hT) hfalse fun _ hwritten => ?_
  refine wp_seq_keeps (keeps_whole trivial) hwritten (fun _ hT => hT) hfalse fun _ hsynced => ?_
  refine ⟨hsynced, fun _ => ⟨hsynced, ?_⟩⟩
  simp [disk, Cmd.exec]

/-- The new FIT becomes the slot's. -/
theorem wp_take (himage : images (.kept dev f) bytes) (hS : Ready images dev f bytes S) :
    wp disk G (.seq [.mv (.new dev f) (.kept dev f), .sync]) (fun _ => Whole IsKept images)
      (fun _ => Whole IsKept images) S := by
  refine wp_seq_mv hS.1 hS.1 fun x hx => ?_
  obtain rfl : x = ⟨bytes, true⟩ := Option.some.inj (hx.symm.trans hS.2)
  exact preserves_mild (by simp [Cmd.Mild]) _ (hS.1.mv ⟨rfl, himage⟩)

theorem preserves_installFit
    (himage : ∀ image, k.image = some image → images (.kept dev (.slot k.core s .boot)) image)
    (hprev : ∀ bytes, images (.kept dev (.slot k.core s .boot)) bytes →
      images (.kept dev (.slot k.core s .prev)) bytes) :
    Preserves disk G (Whole IsKept images) (k.installFit dev s) := by
  refine .andThen (preserves_mild (by simp [Cmd.Mild])) ?_
  cases hk : k.image with
  | none => exact .done
  | some image =>
      intro S hS
      rw [wp_andThen]
      refine wp_mono (fun ok T hT => ?_) (fun _ _ hT => hT) (wp_bring hS)
      cases ok with
      | false => exact hT.1
      | true =>
          have hkeep : Preserves disk G (Ready images dev (.slot k.core s .boot) image) (do
              let there ← Script.see fun S => (S (.kept dev (.slot k.core s .boot))).isSome
              if there = true then
                .seq [.copy (.kept dev (.slot k.core s .boot)) (.new dev (.slot k.core s .prev)),
                  .sync, .mv (.new dev (.slot k.core s .prev)) (.kept dev (.slot k.core s .prev))]
              else pure true) := by
            refine .look fun there => ?_
            split
            · exact preserves_keepOld hprev
            · exact .done
          show wp disk G (Script.andThen _ _) _ _ T
          rw [wp_andThen]
          refine wp_mono (fun ok U hU => ?_) (fun _ _ hU => hU.1) (hkeep T (hT.2 rfl))
          cases ok with
          | false => exact hU.1
          | true => exact wp_take (himage image hk) hU

theorem preserves_refresh (hbytes : images (.kept boot (.fip name)) bytes) :
    Preserves disk G (Whole IsKept images) (Deploy.refresh boot name bytes) := by
  refine .look fun S => ?_
  split
  · exact .done
  · exact preserves_replace hbytes

theorem preserves_orFailed {m : Install Dev Bool} {n : Install Dev End}
    (hm : Preserves disk G (Whole IsKept images) m)
    (hn : Preserves disk G (Whole IsKept images) n) :
    Preserves disk G (Whole IsKept images) (orFailed m n) := by
  refine hm.bind fun ok => ?_
  split
  · exact hn
  · exact .done

theorem preserves_writeFip : Preserves disk G (Whole IsKept images) k.writeFip := by
  rw [Deploy.writeFip]
  split
  · split
    · exact .done
    · split
      · exact .done
      · refine .look fun S => ?_
        split
        · exact .done
        · exact preserves_orFailed (preserves_mild (by simp [Cmd.Mild, IsKept])) .done
  · exact .done

omit [DecidableEq Dev] in
/-- Where a deploy that passed the checks writes. -/
theorem checked_ok (hok : k.checked S = .ok (boot, dev, s)) :
    k.boot = some boot ∧ k.fitdev boot = some dev ∧ slotOf k.cmdline = some s := by
  rw [Deploy.checked] at hok
  split at hok
  · cases hok
  · cases hboot : k.boot with
    | none =>
        rw [hboot] at hok
        cases hok
    | some boot' =>
        cases hdev : k.fitdev boot' with
        | none =>
            simp only [hboot, hdev] at hok
            cases hok
        | some dev' =>
            cases hslot : slotOf k.cmdline with
            | none =>
                simp only [hboot, hdev, hslot] at hok
                cases hok
            | some s' =>
                simp only [hboot, hdev, hslot] at hok
                split at hok
                · cases hok
                · cases hok
                  exact ⟨rfl, hdev, rfl⟩

theorem preserves_deploy
    (himages : ∀ dev f bytes, (Event.deploy k availKib).Installs dev f bytes →
      images (.kept dev f) bytes)
    (hprev : ∀ dev core s bytes, images (.kept dev (.slot core s .boot)) bytes →
      images (.kept dev (.slot core s .prev)) bytes) :
    Preserves disk G (Whole IsKept images) (k.script availKib) := by
  refine .look fun S => ?_
  cases hchecked : k.checked S with
  | error r => exact .done
  | ok where' =>
      obtain ⟨boot, dev, s⟩ := where'
      obtain ⟨hboot, hdev, hslot⟩ := checked_ok hchecked
      have hfit : Preserves disk G (Whole IsKept images) (k.installFit dev s) := by
        refine preserves_installFit (fun image himage => ?_) (hprev dev k.core s)
        exact himages _ _ _ ⟨boot, hboot, Or.inl ⟨s, hslot, hdev, rfl, himage⟩⟩
      show Preserves disk G (Whole IsKept images) (k.install availKib boot dev s)
      rw [Deploy.install]
      split
      · cases k.image with
        | none => exact .done
        | some image =>
            refine .look fun S => ?_
            split
            · exact .done
            · refine preserves_orFailed (.andThen ?_ (hfit.andThen ?_)) .done
              · exact preserves_mild (by simp [Cmd.Mild, IsKept])
              · exact preserves_mild (by simp [Cmd.Mild, IsKept])
      · refine preserves_orFailed (hfit.andThen (.andThen ?_ ?_)) preserves_writeFip
        · rw [Deploy.recovery]
          cases hrec : k.recoveryFip with
          | none => exact .done
          | some fip =>
              refine preserves_refresh (himages _ _ _ ⟨boot, hboot, Or.inr (Or.inl ?_)⟩)
              exact ⟨rfl, rfl, hrec⟩
        · exact preserves_refresh (himages _ _ _ ⟨boot, hboot, Or.inr (Or.inr ⟨rfl, rfl, rfl⟩)⟩)

theorem preserves_hook
    (himages : ∀ dev f bytes, (Event.install h).Installs dev f bytes →
      images (.kept dev f) bytes) :
    Preserves disk G (Whole IsKept images) h.script := by
  rw [Hook.script]
  split
  case h_2 => exact .done
  case h_1 s t dev hslot htar hdev =>
    refine .look fun S => ?_
    split
    case isFalse => exact .done
    have hclear : Preserves disk G (Whole IsKept images) (Hook.clear t dev s) := by
      refine .andThen (preserves_mild (by simp [Cmd.Mild, IsKept])) (.andThen ?_ (.andThen ?_ ?_))
      · exact .forEach fun core _ => preserves_mild (by simp [Cmd.Mild])
      · split
        · exact preserves_mild (by simp [Cmd.Mild])
        · exact .done
      · exact preserves_mild (by simp [Cmd.Mild])
    have hfiles : Preserves disk G (Whole IsKept images) (Hook.slotFiles t dev s) := by
      refine .forEach fun core hcore => ?_
      split
      · exact .done
      · refine .andThen (preserves_mild (by simp [Cmd.Mild, IsKept])) (.andThen ?_ ?_)
        · exact preserves_replace (himages _ _ _ ⟨hdev, t, htar,
            Or.inl ⟨s, core, hcore, hslot, Or.inl ⟨rfl, rfl⟩⟩⟩)
        · exact preserves_replace (himages _ _ _ ⟨hdev, t, htar,
            Or.inl ⟨s, core, hcore, hslot, Or.inr ⟨rfl, rfl⟩⟩⟩)
    have hextlinux : Preserves disk G (Whole IsKept images) (Hook.clearExtlinux t dev s) := by
      refine .andThen (.forEach fun core _ => .andThen ?_ ?_) (preserves_mild (by simp [Cmd.Mild]))
      · exact preserves_mild (by simp [Cmd.Mild, IsKept])
      · exact .forEach fun f _ => preserves_mild (by simp [Cmd.Mild])
    have hsecure : Preserves disk G (Whole IsKept images) (Hook.secure t dev) := by
      refine .look fun S => ?_
      split
      · exact .done
      · exact preserves_replace (himages _ _ _ ⟨hdev, t, htar, Or.inr (Or.inl ⟨rfl, rfl⟩)⟩)
    have hfip : Preserves disk G (Whole IsKept images) (h.fip t dev) := by
      rw [Hook.fip]
      split
      case isFalse => exact .done
      case isTrue hhas =>
        refine .look fun S => ?_
        split
        · exact .done
        · exact preserves_replace (himages _ _ _ ⟨hdev, t, htar,
            Or.inr (Or.inr ⟨rfl, hhas, rfl⟩)⟩)
    exact hclear.andThen (hfiles.andThen (hextlinux.andThen (hsecure.andThen hfip)))

/-- **Every kept file is whole**, wherever an install stops. -/
theorem preserves_script
    (himages : ∀ dev f bytes, e.Installs dev f bytes → images (.kept dev f) bytes)
    (hprev : ∀ dev core s bytes, images (.kept dev (.slot core s .boot)) bytes →
      images (.kept dev (.slot core s .prev)) bytes) :
    Preserves disk G (Whole IsKept images) e.script := by
  cases e with
  | deploy k availKib => exact (preserves_deploy himages hprev).bind fun _ => .done
  | install h => exact preserves_hook himages

/-! ### The commands of an install -/

/-- The commands that a deploy can come to, for the FAT at `/boot`, that of the FIT and a slot. -/
inductive Deploy.Uses (k : Deploy Dev) (boot dev : Dev) (s : Slot) : Cmd (Path Dev) UInt8 → Prop
  | sync : Uses k boot dev s .sync
  | clear : Uses k boot dev s (.rm [.kept dev (.slot k.core s .prev),
      .new dev (.slot k.core s .prev), .new dev (.slot k.core s .boot)])
  | bring {image : Bytes} : Uses k boot dev s (.write (.new dev (.slot k.core s .boot)) image)
  | copyOld : Uses k boot dev s
      (.copy (.kept dev (.slot k.core s .boot)) (.new dev (.slot k.core s .prev)))
  | take {f : SlotFile} : Uses k boot dev s
      (.mv (.new dev (.slot k.core s f)) (.kept dev (.slot k.core s f)))
  | mkCore : Uses k boot dev s (.mkdir (.coreDir dev k.core))
  | mkDir : Uses k boot dev s (.mkdir (.dir dev k.core s))
  | mark {bytes : Bytes} : k.onCard = true → Uses k boot dev s (.write (.cardfitNew s) bytes)
  | marked : k.onCard = true → Uses k boot dev s (.mv (.cardfitNew s) (.cardfit s))
  | bringFip {name : Text} {bytes : Bytes} : k.onCard = false →
      Uses k boot dev s (.write (.new boot (.fip name)) bytes)
  | takeFip {name : Text} : k.onCard = false →
      Uses k boot dev s (.mv (.new boot (.fip name)) (.kept boot (.fip name)))
  | dd {bytes : Bytes} : k.onCard = false → bytes.length ≤ 1048576 →
      Uses k boot dev s (.dd .fipDevice bytes)

/-- The commands that `slot-post-install` can come to. -/
inductive Hook.Uses (dev : Dev) (s : Slot) : Cmd (Path Dev) UInt8 → Prop
  | sync : Uses dev s .sync
  | clearIncoming : Uses dev s (.rmTree (.incoming dev))
  | clear {core : Text} : Uses dev s (.rm [.kept dev (.slot core s .prev),
      .new dev (.slot core s .prev), .new dev (.slot core s .boot),
      .new dev (.slot core s .vbmeta)])
  | clearFip : Uses dev s (.rm [.new dev (.fip fipBin)])
  | mkCore {core : Text} : Uses dev s (.mkdir (.coreDir dev core))
  | mkDir {core : Text} : Uses dev s (.mkdir (.dir dev core s))
  | bring {core : Text} {f : SlotFile} {bytes : Bytes} :
      Uses dev s (.write (.new dev (.slot core s f)) bytes)
  | take {core : Text} {f : SlotFile} :
      Uses dev s (.mv (.new dev (.slot core s f)) (.kept dev (.slot core s f)))
  | clearNixos {core : Text} : Uses dev s (.rmTree (.nixos dev core s))
  | clearExtlinux {core : Text} {f : Extlinux} : Uses dev s (.rm [.extlinux dev core s f])
  | bringSecure {bytes : Bytes} : Uses dev s (.write (.new dev .secure) bytes)
  | takeSecure : Uses dev s (.mv (.new dev .secure) (.kept dev .secure))
  | bringFip {bytes : Bytes} : Uses dev s (.write (.new dev (.fip fipBin)) bytes)
  | takeFip : Uses dev s (.mv (.new dev (.fip fipBin)) (.kept dev (.fip fipBin)))

/-- The commands of an install; one that is refused comes to none. -/
def Event.Uses (e : Event Dev) (c : Cmd (Path Dev) UInt8) : Prop :=
  match e with
  | .deploy k _ => ∃ boot dev s, k.boot = some boot ∧ k.fitdev boot = some dev ∧
      slotOf k.cmdline = some s ∧ k.Uses boot dev s c
  | .install h => ∃ dev s, h.bootdev = some dev ∧ h.slot = some s ∧ Hook.Uses dev s c

omit [DecidableEq Dev] in
theorem all_orFailed {P : Cmd (Path Dev) UInt8 → Prop} {m : Install Dev Bool}
    {n : Install Dev End} (hm : m.All P) (hn : n.All P) : (orFailed m n).All P :=
  hm.bind fun _ => .ite hn trivial

omit [DecidableEq Dev] in
theorem all_installFit : (k.installFit dev s).All (k.Uses boot dev s) := by
  refine .andThen (.seq ?_) ?_
  · simp [Deploy.Uses.sync, Deploy.Uses.clear]
  · cases k.image with
    | none => trivial
    | some image =>
        refine .andThen (.seq ?_) (.andThen (fun S => .ite (.seq ?_) trivial) (.seq ?_))
        · simp [Deploy.Uses.sync, Deploy.Uses.bring]
        · simp [Deploy.Uses.sync, Deploy.Uses.copyOld, Deploy.Uses.take]
        · simp [Deploy.Uses.sync, Deploy.Uses.take]

omit [DecidableEq Dev] in
theorem all_refresh (hcard : k.onCard = false) :
    (Deploy.refresh boot name bytes).All (k.Uses boot dev s) := by
  refine .look fun S => .ite trivial (.seq ?_)
  simp [Deploy.Uses.sync, Deploy.Uses.bringFip, Deploy.Uses.takeFip, hcard]

omit [DecidableEq Dev] in
theorem all_writeFip {P : Cmd (Path Dev) UInt8 → Prop}
    (hdd : k.activeFip.length ≤ 1048576 → P (.dd .fipDevice k.activeFip)) : k.writeFip.All P := by
  rw [Deploy.writeFip]
  split
  case isFalse => trivial
  split
  case isTrue => trivial
  case isFalse hsmall =>
    refine .ite trivial (.look fun S => .ite trivial (all_orFailed (.seq ?_) trivial))
    simp [hdd (not_lt.mp hsmall)]

omit [DecidableEq Dev] in
theorem all_deploy : (k.script availKib).All (Event.deploy k availKib).Uses := by
  refine .look fun S => ?_
  cases hchecked : k.checked S with
  | error r => trivial
  | ok where' =>
      obtain ⟨boot, dev, s⟩ := where'
      obtain ⟨hboot, hdev, hslot⟩ := checked_ok hchecked
      have hall : (k.install availKib boot dev s).All (k.Uses boot dev s) := by
        rw [Deploy.install]
        by_cases hcard : k.onCard = true
        · rw [if_pos hcard]
          cases k.image with
          | none => trivial
          | some image =>
              refine .look fun S => .ite trivial (all_orFailed (.andThen (.seq ?_)
                (.andThen all_installFit (.seq ?_))) trivial)
              · simp [Deploy.Uses.mkCore, Deploy.Uses.mkDir]
              · simp [Deploy.Uses.sync, Deploy.Uses.mark hcard, Deploy.Uses.marked hcard]
        · rw [if_neg hcard]
          have hcard : k.onCard = false := by simpa using hcard
          refine all_orFailed (.andThen all_installFit (.andThen ?_ (all_refresh hcard)))
            (all_writeFip (.dd hcard))
          rw [Deploy.recovery]
          cases k.recoveryFip with
          | none => trivial
          | some fip => exact all_refresh hcard
      exact hall.mono fun c hc => ⟨boot, dev, s, hboot, hdev, hslot, hc⟩

omit [DecidableEq Dev] in
theorem all_replace {P : Cmd (Path Dev) UInt8 → Prop} (hsync : P .sync)
    (hwrite : P (.write (.new dev f) bytes)) (hmv : P (.mv (.new dev f) (.kept dev f))) :
    (replace dev f bytes).All P := by
  refine .seq ?_
  simp [hsync, hwrite, hmv]

omit [DecidableEq Dev] in
theorem all_hook : h.script.All (Event.install h).Uses := by
  rw [Hook.script]
  split
  case h_2 => trivial
  case h_1 s t dev hslot htar hdev =>
    refine .look fun S => .ite ?_ trivial
    have hclear : (Hook.clear t dev s).All (Hook.Uses dev s) := by
      refine .andThen (.seq ?_) (.andThen (.forEach fun core _ => .seq ?_)
        (.andThen (.ite (.seq ?_) trivial) (.seq ?_)))
      · simp [Hook.Uses.clearIncoming]
      · simp [Hook.Uses.clear]
      · simp [Hook.Uses.clearFip]
      · simp [Hook.Uses.sync]
    have hfiles : (Hook.slotFiles t dev s).All (Hook.Uses dev s) := by
      refine .forEach fun core _ => .ite trivial (.andThen (.seq ?_) (.andThen ?_ ?_))
      · simp [Hook.Uses.mkCore, Hook.Uses.mkDir]
      · exact all_replace .sync .bring .take
      · exact all_replace .sync .bring .take
    have hextlinux : (Hook.clearExtlinux t dev s).All (Hook.Uses dev s) := by
      refine .andThen (.forEach fun core _ => .andThen (.seq ?_)
        (.forEach fun f _ => .seq ?_)) (.seq ?_)
      · simp [Hook.Uses.clearNixos]
      · simp [Hook.Uses.clearExtlinux]
      · simp [Hook.Uses.sync]
    have hsecure : (Hook.secure t dev).All (Hook.Uses dev s) :=
      .look fun S => .ite trivial (all_replace .sync .bringSecure .takeSecure)
    have hfip : (h.fip t dev).All (Hook.Uses dev s) :=
      .ite (.look fun S => .ite trivial (all_replace .sync .bringFip .takeFip)) trivial
    have hall : (h.install t dev s).All (Hook.Uses dev s) :=
      hclear.andThen (hfiles.andThen (hextlinux.andThen (hsecure.andThen hfip)))
    exact hall.mono fun c hc => ⟨dev, s, hdev, hslot, hc⟩

omit [DecidableEq Dev] in
/-- **What an install can do**, whatever fails. -/
theorem all_script : e.script.All e.Uses := by
  cases e with
  | deploy k availKib => exact .bind all_deploy fun _ => trivial
  | install h => exact all_hook

/-! ### What an install leaves alone -/

/-- The slot that a path belongs to. -/
def Path.slot : Path Dev → Option Slot
  | .kept _ (.slot _ s _) | .new _ (.slot _ s _) => some s
  | .dir _ _ s | .nixos _ _ s | .extlinux _ _ s _ => some s
  | .cardfit s | .cardfitNew s => some s
  | _ => none

/-- The path is on the card, whose BOOT is `card`. -/
def Path.OfCard (card : Dev) : Path Dev → Prop
  | .kept dev _ | .new dev _ | .coreDir dev _ | .dir dev _ _ => dev = card
  | .incoming dev | .nixos dev _ _ | .extlinux dev _ _ _ => dev = card
  | .cardfit _ | .cardfitNew _ => True
  | .fipDevice => False

variable {c : Cmd (Path Dev) UInt8} {p : Path Dev}

omit [DecidableEq Dev] in
/-- No install removes a `boot.itb`. -/
theorem uses_spares (hc : e.Uses c) : c.Spares (.kept dev (.slot core s .boot)) := by
  cases e with
  | deploy k availKib =>
      obtain ⟨boot, dev, s, -, -, -, huses⟩ := hc
      cases huses <;> simp [Cmd.Spares]
  | install h =>
      obtain ⟨dev, s, -, -, huses⟩ := hc
      cases huses <;> simp [Cmd.Spares]

omit [DecidableEq Dev] in
/-- The other slot's files are not touched. -/
theorem uses_slot (hc : e.Uses c) (hp : p.slot = some s) (he : e.slot ≠ some s) :
    ¬ c.Touches p := by
  intro htouch
  cases e with
  | deploy k availKib =>
      obtain ⟨boot, dev, s', -, -, hslot, huses⟩ := hc
      have hne : s' ≠ s := fun heq => he (heq ▸ hslot)
      cases huses <;> grind [Cmd.Touches, Path.slot]
  | install h =>
      obtain ⟨dev, s', -, hslot, huses⟩ := hc
      have hne : s' ≠ s := fun heq => he (heq ▸ hslot)
      cases huses <;> grind [Cmd.Touches, Path.slot]

omit [DecidableEq Dev] in
/-- With a card in use only the card's files are touched. -/
theorem uses_card (hc : (Event.deploy k availKib).Uses c) (hcard : k.onCard = true)
    (hp : ∀ card, k.bootCard = some card → ¬ p.OfCard card) : ¬ c.Touches p := by
  intro htouch
  obtain ⟨boot, dev, s, -, hdev, -, huses⟩ := hc
  rw [Deploy.fitdev, if_pos hcard] at hdev
  have hout := hp dev hdev
  cases huses <;> grind [Cmd.Touches, Path.OfCard]

/-- The factory copy of the fip. -/
def factory (S : Disks Dev) : Bytes := ((content S .fipDevice).getD []).drop 1048576

theorem factory_overwrite (hsmall : bytes.length ≤ 1048576) :
    factory (overwrite S .fipDevice bytes) = factory S := by
  rw [factory, factory, overwrite, content_update, update_self]
  show (bytes ++ ((content S .fipDevice).getD []).drop bytes.length).drop 1048576 = _
  rw [List.drop_append, List.drop_eq_nil_of_le hsmall, List.nil_append, List.drop_drop,
    Nat.add_sub_cancel' hsmall]

/-- **The factory copy** is behind all that a deploy writes. -/
theorem keeps_factory {x : Bytes} (hc : (Event.deploy k availKib).Uses c) :
    disk.Keeps (fun S => factory S = x) c := by
  apply keeps_of_leaves
  intro S T hS hleaves
  by_cases htouch : c.Touches .fipDevice
  · obtain ⟨bytes, rfl, hsmall⟩ : ∃ bytes, c = .dd .fipDevice bytes ∧ bytes.length ≤ 1048576 := by
      obtain ⟨boot, dev, s, -, -, -, huses⟩ := hc
      cases huses <;> grind [Cmd.Touches]
    obtain rfl | rfl | ⟨n, rfl⟩ := hleaves
    · exact hS
    · exact (factory_overwrite hsmall).trans hS
    · exact (factory_overwrite ((List.length_take_le' _ _).trans hsmall)).trans hS
  · rw [← hS, factory, factory, content_frame hleaves htouch]

/-! ### A completed deploy -/

/-- What the slot's two images are after the FIT was installed. -/
theorem fitted_slot (C : Path Dev → Option Bytes) :
    fitted core dev s image C (.kept dev (.slot core s .boot)) = some image ∧
      fitted core dev s image C (.kept dev (.slot core s .prev)) =
        C (.kept dev (.slot core s .boot)) := by
  simp [fitted]

theorem yields_installCard (dev : Dev) (s : Slot) (himage : k.image = some image)
    (C : Path Dev → Option Bytes) :
    ∃ C', Yields (k.installCard dev s) C C' ∧
      C' (.kept dev (.slot k.core s .boot)) = some image ∧
      C' (.kept dev (.slot k.core s .prev)) = C (.kept dev (.slot k.core s .boot)) := by
  have hmarker (C : Path Dev → Option Bytes) : Yields (k.writeMarker s) C
      (update (update C (.cardfitNew s) none) (.cardfit s) (some (k.toplevel ++ [10]))) := .replace
  refine ⟨_, (Yields.cons .mkdir (.cons .mkdir .nil)).andThen
    ((yields_installFit himage).andThen (hmarker _)), ?_, ?_⟩
  · rw [update_of_ne (by simp), update_of_ne (by simp), (fitted_slot _).1]
  · rw [update_of_ne (by simp), update_of_ne (by simp), (fitted_slot _).2,
      update_of_ne (by simp), update_of_ne (by simp)]

/-- `/dev/fip` aside, the fip's part leaves everything as it was. -/
theorem content_writeFip (hp : p ≠ .fipDevice) :
    content (k.writeFip.exec disk S).2 p = content S p := by
  have hall : k.writeFip.All fun c => ¬ c.Touches p := all_writeFip fun _ => hp
  have hkeeps : Preserves disk (fun _ => False) (fun T => content T p = content S p) k.writeFip :=
    .of_all hall fun _ hc => keeps_content hc
  exact hkeeps.sound (Runs.of_exec _ S) rfl

theorem exec_install_card (hcard : k.onCard = true) (himage : k.image = some image) :
    (k.install availKib boot dev s).exec disk S =
      if k.full availKib image dev s S = true then (.refused .noRoom, S)
      else (orFailed (k.installCard dev s) (pure .finished)).exec disk S := by
  rw [Deploy.install, if_pos hcard, himage]
  show (Script.see (k.full availKib image dev s) >>= _).exec disk S = _
  rw [Script.exec_bind, Script.exec_see]
  split
  · rfl
  · rfl

/-- Without a generation's FIT no deploy comes to its end. -/
theorem exec_install_none (himage : k.image = none) :
    ((k.install availKib boot dev s).exec disk S).1 = .failed := by
  rw [Deploy.install, himage]
  split
  · rfl
  · rw [exec_orFailed, Deploy.installFiles, Script.exec_andThen, exec_installFit_none himage]
    rfl

/-- **A completed deploy**: the slot's FIT is the generation's, and its `.prev` the FIT that it
replaced. -/
theorem finished_deploy
    (hruns : Runs disk G (Event.deploy k availKib).script S (.done true) T) :
    ∃ boot dev s image, k.boot = some boot ∧ k.fitdev boot = some dev ∧
      slotOf k.cmdline = some s ∧ k.image = some image ∧
      content T (.kept dev (.slot k.core s .boot)) = some image ∧
      content T (.kept dev (.slot k.core s .prev)) =
        content S (.kept dev (.slot k.core s .boot)) := by
  have hstrict : (Event.deploy k availKib).script.Strict (· = true) := by
    refine Script.Strict.bind strict_script (fun _ => trivial) fun a hbad => ⟨false, ?_, by simp⟩
    obtain rfl : a = .failed := by simpa [End.Chosen] using hbad
    rfl
  have hexec := hstrict.exec_eq hruns rfl
  rw [Event.script, Script.exec_bind] at hexec
  obtain ⟨hended, rfl⟩ := Prod.mk.inj hexec
  have hended : ((k.script availKib).exec disk S).1 = .finished := by
    exact eq_of_beq hended
  show ∃ boot dev s image, _ ∧ _ ∧ _ ∧ _ ∧
    content ((k.script availKib).exec disk S).2 _ = _ ∧
    content ((k.script availKib).exec disk S).2 _ = _
  cases hchecked : k.checked S with
  | error r =>
      rw [exec_script_error hchecked] at hended
      cases hended
  | ok where' =>
      obtain ⟨boot, dev, s⟩ := where'
      obtain ⟨hboot, hdev, hslot⟩ := checked_ok hchecked
      rw [exec_script_ok hchecked] at hended ⊢
      cases himage : k.image with
      | none =>
          rw [exec_install_none himage] at hended
          cases hended
      | some image =>
          refine ⟨boot, dev, s, image, hboot, hdev, hslot, rfl, ?_⟩
          by_cases hcard : k.onCard = true
          · obtain ⟨C', hyields, hfit, hprev⟩ := yields_installCard dev s himage (content S)
            obtain ⟨hok, hC⟩ := hyields S rfl
            rw [exec_install_card hcard himage] at hended ⊢
            split at hended
            · cases hended
            · rename_i hroom
              rw [if_neg hroom, exec_orFailed, if_pos hok]
              show content ((k.installCard dev s).exec disk S).2 _ = _ ∧
                content ((k.installCard dev s).exec disk S).2 _ = _
              rw [hC]
              exact ⟨hfit, hprev⟩
          · have hyields : Yields (k.installFiles boot dev s) (content S) _ :=
              yields_installFiles himage
            obtain ⟨hok, hC⟩ := hyields S rfl
            rw [Deploy.install, if_neg hcard, exec_orFailed, if_pos hok]
            rw [content_writeFip (by simp), content_writeFip (by simp), hC,
              installed_slot (by simp) (by simp), installed_slot (by simp) (by simp)]
            exact fitted_slot _

/-! ### Histories -/

/-- What holds of one install, from `S` to `T`, that ended as `o`. -/
structure Event.Careful (e : Event Dev) (S : Disks Dev)
    (o : Outcome (Cmd (Path Dev) UInt8) Bool) (T : Disks Dev) : Prop where
  /-- A FIT that was there is not absent. -/
  present : ∀ dev core s, content S (.kept dev (.slot core s .boot)) ≠ none →
    content T (.kept dev (.slot core s .boot)) ≠ none
  /-- The other slot's files are as they were. -/
  slot : ∀ p s, p.slot = some s → e.slot ≠ some s → content T p = content S p
  /-- With a card in use nothing off the card is changed. -/
  card : ∀ k availKib, e = .deploy k availKib → k.onCard = true →
    ∀ p, (∀ card, k.bootCard = some card → ¬ p.OfCard card) → content T p = content S p
  /-- No deploy changes `/dev/fip` from 1 MiB on. -/
  factory : ∀ k availKib, e = .deploy k availKib → factory T = factory S
  /-- A completed deploy has installed the generation's FIT, and kept the one it replaced. -/
  finished : ∀ k availKib, e = .deploy k availKib → o = .done true →
    ∃ boot dev s image, k.boot = some boot ∧ k.fitdev boot = some dev ∧
      slotOf k.cmdline = some s ∧ k.image = some image ∧
      content T (.kept dev (.slot k.core s .boot)) = some image ∧
      content T (.kept dev (.slot k.core s .prev)) =
        content S (.kept dev (.slot k.core s .boot))

omit [DecidableEq Dev] in
theorem content_eq_none {p : Path Dev} : content S p = none ↔ S p = none :=
  Option.map_eq_none_iff

theorem careful {o : Outcome (Cmd (Path Dev) UInt8) Bool} (hruns : Runs disk G e.script S o T) :
    e.Careful S o T where
  present dev core s hS := by
    have hkeeps : Preserves disk G (fun S => S (.kept dev (.slot core s .boot)) ≠ none) e.script :=
      .of_all all_script fun c hc => keeps_present (uses_spares hc)
    rw [ne_eq, content_eq_none] at hS ⊢
    exact hkeeps.sound hruns hS
  slot p s hp he := by
    have hkeeps : Preserves disk G (fun T => content T p = content S p) e.script :=
      .of_all all_script fun c hc => keeps_content (uses_slot hc hp he)
    exact hkeeps.sound hruns rfl
  card k availKib he hcard p hp := by
    subst he
    have hkeeps : Preserves disk G (fun T => content T p = content S p)
        (Event.deploy k availKib).script :=
      .of_all all_script fun c hc => keeps_content (uses_card hc hcard hp)
    exact hkeeps.sound hruns rfl
  factory k availKib he := by
    subst he
    have hkeeps : Preserves disk G (fun T => BootFiles.factory T = BootFiles.factory S)
        (Event.deploy k availKib).script :=
      .of_all all_script fun c hc => keeps_factory hc
    exact hkeeps.sound hruns rfl
  finished k availKib he ho := by
    subst he ho
    exact finished_deploy hruns

omit [DecidableEq Dev] in
/-- More installs, more images. -/
theorem Known.cons (h : Known S₀ es dev f bytes) : Known S₀ (e :: es) dev f bytes := by
  obtain ⟨g, hg, hstart | ⟨e', he', hinst⟩⟩ := h
  · exact ⟨g, hg, Or.inl hstart⟩
  · exact ⟨g, hg, Or.inr ⟨e', List.mem_cons_of_mem _ he', hinst⟩⟩

omit [DecidableEq Dev] in
theorem File.mem_sources (f : File) : f ∈ f.sources := by
  cases f with
  | slot core s f => cases f <;> simp [File.sources]
  | _ => simp [File.sources]

omit [DecidableEq Dev] in
/-- A new `.prev` is an old FIT. -/
theorem Known.prev (h : Known S₀ es dev (.slot core s .boot) bytes) :
    Known S₀ es dev (.slot core s .prev) bytes := by
  obtain ⟨g, hg, himage⟩ := h
  obtain rfl : g = .slot core s .boot := List.mem_singleton.mp hg
  exact ⟨_, by simp [File.sources], himage⟩

/-- **Whole over every history.** -/
theorem History.whole (h : History S₀ es S) (hS₀ : Whole IsKept (pool S₀ []) S₀) :
    Whole IsKept (pool S₀ es) S := by
  induction h with
  | start => exact hS₀
  | @run es e S T o hist hruns ih =>
      have hpool : Whole IsKept (pool S₀ (e :: es)) S := by
        refine ih.mono fun p bytes hp => ?_
        cases p with
        | kept dev f => exact hp.cons
        | _ => trivial
      have hpreserves : Preserves disk (fun _ => True) (Whole IsKept (pool S₀ (e :: es)))
          e.script := by
        refine preserves_script (fun dev f bytes hinst => ?_) fun dev core s bytes => Known.prev
        exact ⟨f, f.mem_sources, Or.inr ⟨e, List.mem_cons_self, hinst⟩⟩
      exact hpreserves.sound hruns hpool
  | settle _ hsettles ih => exact ih.of_settles hsettles

theorem History.present (h : History S₀ es S)
    (hS₀ : content S₀ (.kept dev (.slot core s .boot)) ≠ none) :
    content S (.kept dev (.slot core s .boot)) ≠ none := by
  induction h with
  | start => exact hS₀
  | run _ hruns ih => exact (careful hruns).present dev core s ih
  | settle _ hsettles ih =>
      rw [ne_eq, content_eq_none] at ih ⊢
      exact hsettles.present ih

/-- **The boot files of a slot are always whole**: after every history of deploys and installs,
each cut, failed or completed, from files that are on the disk. -/
theorem boot_files_whole (hS₀ : ∀ dev f x, S₀ (.kept dev f) = some x → x.synced = true)
    (h : History S₀ es S) :
    (∀ dev f bytes, content S (.kept dev f) = some bytes → Known S₀ es dev f bytes) ∧
      (∀ dev core s, content S₀ (.kept dev (.slot core s .boot)) ≠ none →
        content S (.kept dev (.slot core s .boot)) ≠ none) ∧
      ∀ (e : Event Dev) o T, Runs disk (fun _ => True) e.script S o T → e.Careful S o T := by
  have hwhole : Whole IsKept (pool S₀ es) S := by
    refine h.whole fun p hp x hx => ?_
    cases p with
    | kept dev f =>
        exact ⟨hS₀ dev f x hx, f, f.mem_sources, Or.inl (by rw [content, hx, Option.map_some])⟩
    | _ => exact hp.elim
  refine ⟨fun dev f bytes hbytes => ?_, fun dev core s => h.present, fun e o T => careful⟩
  obtain ⟨x, hx, rfl⟩ := content_eq_some hbytes
  exact (hwhole (.kept dev f) trivial x hx).2

/-- A deploy to the eMMC's FAT, which is the device `false`. -/
def emmcDeploy : Deploy Bool where
  core := "duo".toList
  recoveryFip := none
  activeFip := [3]
  fipPath := fipBin
  emmc := true
  externalStorage := true
  squashfs := true
  boot := some false
  lower := false
  bootCard := none
  cmdline := "rauc.slot=A".toList
  toplevel := []
  image := some [1]
  genSecure := some unsigned
  fipBlock := true

/-- The slot has a FIT of one byte. -/
def emmcStore : Disks Bool := fun p =>
  if p = .kept false .secure then some ⟨unsigned, true⟩
  else if p = .kept false (.slot "duo".toList .A .vbmeta) then some ⟨[], true⟩
  else if p = .kept false (.slot "duo".toList .A .boot) then some ⟨[2], true⟩
  else none

theorem emmcStore_synced (dev : Bool) (f : File) (x : Data UInt8)
    (h : emmcStore (.kept dev f) = some x) : x.synced = true := by
  simp only [emmcStore] at h
  split_ifs at h <;> cases h <;> rfl

def emmcAfter : Disks Bool := ((Event.deploy emmcDeploy 0).script.exec disk emmcStore).2

/-- After a deploy the old FIT is `.prev`, and it was there at the start. -/
theorem boot_files_whole_deploy :
    content emmcAfter (.kept false (.slot "duo".toList .A .prev)) = some [2] ∧
      Known emmcStore [.deploy emmcDeploy 0] false (.slot "duo".toList .A .prev) [2] := by
  have hprev : content emmcAfter (.kept false (.slot "duo".toList .A .prev)) = some [2] := by
    decide
  exact ⟨hprev, (boot_files_whole emmcStore_synced (.run .start (Runs.of_exec _ _))).1 _ _ _ hprev⟩

end BadgeOS.BootFiles
