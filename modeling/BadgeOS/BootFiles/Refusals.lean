import BadgeOS.BootFiles.Installers
import Mathlib

/-!
# What a refused deploy has written

Every refusal but one comes before the first write.  The size of the fip is looked at behind the
writes to `/boot`, and so a fip that is too large ends a deploy that has installed the FIT and the
fips there.

* `RefusedClean` — no deploy that ends with a refusal has written anything;
* `Deploy.UpToDate` — the FIT and the fips are on `/boot` already;
* `refusedClean_iff` — when the one holds by the other.
-/

namespace BadgeOS.BootFiles

open Crash Files Function
open Stage0 (Slot Text)

variable {Dev : Type} [DecidableEq Dev] {k : Deploy Dev} {dev boot : Dev} {s : Slot}
  {S T : Disks Dev} {C C' : Path Dev → Option Bytes} {image bytes : Bytes} {name : Text}
  {availKib : ℕ}

/-- A refusal leaves every file, and `/dev/fip`, as they were, whatever can happen to a run. -/
def RefusedClean (k : Deploy Dev) (availKib : ℕ) (S : Disks Dev) : Prop :=
  ∀ G r T, Runs disk G (k.script availKib) S (.done (.refused r)) T → content T = content S

/-- The deploy would not change what programs read on `/boot`. -/
structure Deploy.UpToDate (k : Deploy Dev) (boot : Dev) (s : Slot) (image : Bytes)
    (C : Path Dev → Option Bytes) : Prop where
  fit : C (.kept boot (.slot k.core s .boot)) = some image
  prev : C (.kept boot (.slot k.core s .prev)) = some image
  prevNew : C (.new boot (.slot k.core s .prev)) = none
  bootNew : C (.new boot (.slot k.core s .boot)) = none
  recovery : ∀ fip, k.recoveryFip = some fip → C (.kept boot (.fip (fipCore k.core))) = some fip
  active : C (.kept boot (.fip k.fipPath)) = some k.activeFip

/-! ### What the deploy leaves -/

/-- What programs read after the FIT was installed, -/
def fitted (core : Text) (dev : Dev) (s : Slot) (image : Bytes) (C : Path Dev → Option Bytes) :
    Path Dev → Option Bytes :=
  let kept := Path.kept dev ∘ File.slot core s
  let new := Path.new dev ∘ File.slot core s
  update (update (update (update C (kept .prev) (C (kept .boot))) (new .prev) none)
    (new .boot) none) (kept .boot) (some image)

/-- ... and after a fip. -/
def refreshed (boot : Dev) (name : Text) (bytes : Bytes) (C : Path Dev → Option Bytes) :
    Path Dev → Option Bytes :=
  if C (.kept boot (.fip name)) = some bytes then C
  else update (update C (.new boot (.fip name)) none) (.kept boot (.fip name)) (some bytes)

/-- What programs read after the FIT and the fips. -/
def Deploy.installed (k : Deploy Dev) (boot dev : Dev) (s : Slot) (image : Bytes)
    (C : Path Dev → Option Bytes) : Path Dev → Option Bytes :=
  let C := fitted k.core dev s image C
  let C := (k.recoveryFip.map fun fip => refreshed boot (fipCore k.core) fip C).getD C
  refreshed boot k.fipPath k.activeFip C

omit [DecidableEq Dev] in
theorem isSome_eq (h : content S = C) (p : Path Dev) : (S p).isSome = (C p).isSome := by
  subst h
  exact (Option.isSome_map ..).symm

theorem yields_installFit (himage : k.image = some image) :
    Yields (k.installFit dev s) C (fitted k.core dev s image C) := by
  let kept := Path.kept dev ∘ File.slot k.core s
  let new := Path.new dev ∘ File.slot k.core s
  let cleared : Path Dev → Option Bytes := fun p =>
    if p ∈ [kept .prev, new .prev, new .boot] then none else C p
  have hcleared : cleared (kept .boot) = C (kept .boot) := by
    simp [cleared, kept, new]
  rw [Deploy.installFit, himage]
  refine (Yields.cons .rm (.cons .sync .nil)).andThen
    ((Yields.cons .write (.cons .sync .nil)).andThen ?_)
  have hboot : update cleared (new .boot) (some image) (kept .boot) = C (kept .boot) := by
    rw [update_of_ne (by simp [kept, new]), hcleared]
  cases hold : C (kept .boot) with
  | none =>
      rw [hold] at hboot
      refine (Yields.see (a := false) (fun S hS => ?_) .pure).andThen ?_
      · rw [isSome_eq hS]
        exact congrArg Option.isSome hboot
      · refine .cons (.mv (update_self ..)) (.cons .sync (.of_eq .nil ?_))
        funext p
        have hkept : C (.kept dev (.slot k.core s .boot)) = none := hold
        simp only [fitted, update_apply, Function.comp_apply, hkept]
        grind
  | some old =>
      rw [hold] at hboot
      have hthere (S : Disks Dev) (hS : content S = update cleared (new .boot) (some image)) :
          (S (kept .boot)).isSome = true := by
        rw [isSome_eq hS]
        exact congrArg Option.isSome hboot
      have hkeep : Yields (.seq [.copy (kept .boot) (new .prev), .sync,
          .mv (new .prev) (kept .prev)]) (update cleared (new .boot) (some image)) _ :=
        .cons (.copy hboot) (.cons .sync (.cons (.mv (update_self ..)) .nil))
      have hnew : update (update (update (update cleared (new .boot) (some image)) (new .prev)
          (some old)) (new .prev) none) (kept .prev) (some old) (new .boot) = some image := by
        simp [kept, new]
      refine (Yields.see hthere hkeep).andThen (.cons (.mv hnew) (.cons .sync (.of_eq .nil ?_)))
      funext p
      have hkept : C (.kept dev (.slot k.core s .boot)) = some old := hold
      simp only [fitted, update_apply, Function.comp_apply, hkept]
      grind

theorem yields_refresh : Yields (Deploy.refresh boot name bytes) C (refreshed boot name bytes C) := by
  by_cases hsame : C (.kept boot (.fip name)) = some bytes
  · have hlook (S : Disks Dev) (hS : content S = C) :
        (content S (.kept boot (.fip name)) == some bytes) = true := by
      rw [hS, hsame]
      exact beq_self_eq_true _
    rw [refreshed, if_pos hsame]
    exact .see hlook .pure
  · have hlook (S : Disks Dev) (hS : content S = C) :
        (content S (.kept boot (.fip name)) == some bytes) = false := by
      rw [hS]
      exact beq_false_of_ne hsame
    rw [refreshed, if_neg hsame]
    exact .see hlook .replace

theorem yields_installFiles (himage : k.image = some image) :
    Yields (k.installFiles boot dev s) C (k.installed boot dev s image C) := by
  refine (yields_installFit himage).andThen ?_
  rw [Deploy.installed, Deploy.recovery]
  cases k.recoveryFip with
  | none => exact Yields.pure.andThen yields_refresh
  | some fip => exact yields_refresh.andThen yields_refresh

/-! ### ... is what was there -/

theorem refreshed_kept : refreshed boot name bytes C (.kept boot (.fip name)) = some bytes := by
  rw [refreshed]
  split
  · assumption
  · exact update_self ..

theorem refreshed_of_ne {p : Path Dev} (hkept : p ≠ .kept boot (.fip name))
    (hnew : p ≠ .new boot (.fip name)) : refreshed boot name bytes C p = C p := by
  rw [refreshed]
  split
  · rfl
  · rw [update_of_ne hkept, update_of_ne hnew]

theorem fipCore_ne (core : Text) : fipCore core ≠ fipBin := by
  intro h
  have hget := congrArg (fun name => name[3]?) h
  simp [fipCore, fipBin] at hget

theorem installed_slot {p : Path Dev} (hkept : ∀ name, p ≠ .kept boot (.fip name))
    (hnew : ∀ name, p ≠ .new boot (.fip name)) :
    k.installed boot dev s image C p = fitted k.core dev s image C p := by
  rw [Deploy.installed, refreshed_of_ne (hkept _) (hnew _)]
  cases k.recoveryFip with
  | none => rfl
  | some fip => exact refreshed_of_ne (hkept _) (hnew _)

theorem fitted_of_upToDate (h : k.UpToDate boot s image C) : fitted k.core boot s image C = C := by
  funext p
  have hfit := h.fit
  have hprev := h.prev
  have hprevNew := h.prevNew
  have hbootNew := h.bootNew
  simp only [fitted, update_apply, Function.comp_apply]
  grind

/-- **What the deploy leaves** is what was there, for one that finds all of it. -/
theorem installed_eq_iff (hfip : k.fipPath = fipBin) :
    k.installed boot boot s image C = C ↔ k.UpToDate boot s image C := by
  constructor
  · intro h
    have hslot (p : Path Dev) (hkept : ∀ name, p ≠ .kept boot (.fip name))
        (hnew : ∀ name, p ≠ .new boot (.fip name)) : C p = fitted k.core boot s image C p := by
      rw [← installed_slot hkept hnew, h]
    have hfit := hslot (.kept boot (.slot k.core s .boot)) (by simp) (by simp)
    have hprev := hslot (.kept boot (.slot k.core s .prev)) (by simp) (by simp)
    have hprevNew := hslot (.new boot (.slot k.core s .prev)) (by simp) (by simp)
    have hbootNew := hslot (.new boot (.slot k.core s .boot)) (by simp) (by simp)
    refine ⟨?_, ?_, ?_, ?_, fun fip hrec => ?_, ?_⟩
    · rw [hfit]
      simp [fitted]
    · rw [hprev, ← hfit.trans (show _ = some image by simp [fitted])]
      simp [fitted]
    · rw [hprevNew]
      simp [fitted]
    · rw [hbootNew]
      simp [fitted]
    · have hne : Path.kept boot (.fip (fipCore k.core)) ≠ .kept boot (.fip k.fipPath) := by
        simp [hfip, fipCore_ne]
      rw [← h, Deploy.installed, refreshed_of_ne hne (by simp), hrec]
      exact refreshed_kept
    · rw [← h]
      exact refreshed_kept
  · intro h
    rw [Deploy.installed, fitted_of_upToDate h]
    have hactive : refreshed boot k.fipPath k.activeFip C = C := if_pos h.active
    cases hrec : k.recoveryFip with
    | none => exact hactive
    | some fip =>
        have hrefreshed : refreshed boot (fipCore k.core) fip C = C := if_pos (h.recovery fip hrec)
        show refreshed boot k.fipPath k.activeFip (refreshed boot (fipCore k.core) fip C) = C
        rw [hrefreshed, hactive]

/-! ### Runs that end with a refusal -/

/-- No command failed that ends the deploy. -/
def End.Chosen (e : End) : Prop := e ≠ .failed

omit [DecidableEq Dev] in
theorem strict_orFailed {m : Install Dev Bool} {n : Install Dev End} (hm : m.Strict (· = true))
    (hn : n.Strict End.Chosen) : (orFailed m n).Strict End.Chosen := by
  refine hm.bind (fun ok => ?_) fun ok hok => ⟨.failed, if_neg hok, fun h => h rfl⟩
  split
  · exact hn
  · trivial

omit [DecidableEq Dev] in
theorem strict_installFit : (k.installFit dev s).Strict (· = true) := by
  refine Script.Strict.seq.andThen ?_
  cases k.image with
  | none => trivial
  | some image =>
      refine Script.Strict.seq.andThen (Script.Strict.andThen (.see fun there => ?_) .seq)
      split
      · exact .seq
      · trivial

omit [DecidableEq Dev] in
theorem strict_refresh : (Deploy.refresh boot name bytes).Strict (· = true) := by
  refine .see fun same => ?_
  split
  · trivial
  · exact .seq

omit [DecidableEq Dev] in
theorem strict_installFiles : (k.installFiles boot dev s).Strict (· = true) := by
  refine strict_installFit.andThen (Script.Strict.andThen ?_ strict_refresh)
  rw [Deploy.recovery]
  cases k.recoveryFip with
  | none => trivial
  | some fip => exact strict_refresh

omit [DecidableEq Dev] in
theorem strict_script : (k.script availKib).Strict End.Chosen := by
  refine .see fun checked => ?_
  match checked with
  | .error r => trivial
  | .ok (boot, dev, s) =>
      show (k.install availKib boot dev s).Strict _
      rw [Deploy.install]
      split
      · cases k.image with
        | none => trivial
        | some image =>
            refine .see fun full => ?_
            split
            · trivial
            · exact strict_orFailed (Script.Strict.seq.andThen (strict_installFit.andThen .seq))
                trivial
      · refine strict_orFailed strict_installFiles ?_
        rw [Deploy.writeFip]
        split
        · split
          · trivial
          · split
            · trivial
            · refine .see fun same => ?_
              split
              · trivial
              · exact strict_orFailed .seq trivial
        · trivial

theorem exec_orFailed {m : Install Dev Bool} {n : Install Dev End} :
    (orFailed m n).exec disk S = if (m.exec disk S).1 = true then n.exec disk (m.exec disk S).2
      else (.failed, (m.exec disk S).2) := by
  rw [orFailed, Script.exec_bind]
  split
  · rfl
  · rfl

theorem exec_script_ok (h : k.checked S = .ok (boot, dev, s)) :
    (k.script availKib).exec disk S = (k.install availKib boot dev s).exec disk S := by
  rw [Deploy.script, Script.exec_bind, Script.exec_see, h]

theorem exec_script_error {r : Refusal} (h : k.checked S = .error r) :
    (k.script availKib).exec disk S = (.refused r, S) := by
  rw [Deploy.script, Script.exec_bind, Script.exec_see, h]
  rfl

/-- Without a generation's FIT nothing comes behind the first `rm`. -/
theorem exec_installFit_none (himage : k.image = none) :
    ((k.installFit dev s).exec disk S).1 = false := by
  rw [Deploy.installFit, himage, Script.exec_andThen]
  split
  · rfl
  · rfl

theorem writeFip_refused {r : Refusal} (h : k.writeFip.exec disk S = (.refused r, T)) :
    k.ownsFip ∧ 1048576 < k.activeFip.length ∧ T = S := by
  rw [Deploy.writeFip] at h
  split at h
  · rename_i howns
    split at h
    · rename_i hlarge
      cases h
      exact ⟨howns, hlarge, rfl⟩
    · split at h
      · cases h
      · rw [Script.exec_bind] at h
        split at h
        · cases h
        · rw [exec_orFailed] at h
          split at h
          · cases h
          · cases h
  · cases h

omit [DecidableEq Dev] in
theorem checked_dev (hcard : k.onCard = false) (h : k.checked S = .ok (boot, dev, s)) :
    dev = boot := by
  rw [Deploy.checked] at h
  split at h
  · cases h
  · cases hboot : k.boot with
    | none =>
        rw [hboot] at h
        cases h
    | some boot' =>
        simp only [hboot, Deploy.fitdev, hcard, Bool.false_eq_true, if_false] at h
        split at h
        · cases h
        · split at h
          · cases h
          · cases h
            rfl

/-- **A refusal leaves everything as it was** exactly where a fip that is too large finds nothing
to do. -/
theorem refusedClean_iff :
    RefusedClean k availKib S ↔ ∀ boot s image, k.onCard = false →
      k.checked S = .ok (boot, boot, s) → k.image = some image → k.ownsFip →
      1048576 < k.activeFip.length → k.UpToDate boot s image (content S) := by
  constructor
  · intro hclean boot s image hcard hchecked himage howns hlarge
    rw [← installed_eq_iff howns.2.2]
    have hyields : Yields (k.installFiles boot boot s) (content S) _ := yields_installFiles himage
    obtain ⟨hok, hC⟩ := hyields S rfl
    rw [← hC]
    refine hclean (fun _ => False) .largeFip _ ?_
    have hruns := Runs.of_exec (D := disk) (G := fun _ => False) (k.script availKib) S
    have hexec : (k.script availKib).exec disk S =
        (.refused .largeFip, ((k.installFiles boot boot s).exec disk S).2) := by
      rw [exec_script_ok hchecked, Deploy.install, if_neg (by simp [hcard]), exec_orFailed,
        if_pos hok, Deploy.writeFip, if_pos howns, if_pos hlarge]
      rfl
    rw [hexec] at hruns
    exact hruns
  · intro hready G r T hruns
    have hexec := strict_script.exec_eq hruns (by simp [End.Chosen])
    cases hchecked : k.checked S with
    | error r' =>
        rw [exec_script_error hchecked] at hexec
        cases hexec
        rfl
    | ok where' =>
        obtain ⟨boot, dev, s⟩ := where'
        rw [exec_script_ok hchecked, Deploy.install] at hexec
        split at hexec
        · split at hexec
          · cases hexec
          · rw [Script.exec_bind] at hexec
            split at hexec
            · cases hexec
              rfl
            · rw [exec_orFailed] at hexec
              split at hexec
              · cases hexec
              · cases hexec
        · rename_i hcard
          have hcard : k.onCard = false := by simpa using hcard
          obtain rfl := checked_dev hcard hchecked
          rw [exec_orFailed] at hexec
          split at hexec
          · rename_i hok
            obtain ⟨howns, hlarge, rfl⟩ := writeFip_refused hexec
            cases himage : k.image with
            | none =>
                rw [Deploy.installFiles, Script.exec_andThen, exec_installFit_none himage] at hok
                cases hok
            | some image =>
                rw [(yields_installFiles himage S rfl).2, installed_eq_iff howns.2.2]
                exact hready dev s image hcard hchecked himage howns hlarge
          · cases hexec

end BadgeOS.BootFiles
