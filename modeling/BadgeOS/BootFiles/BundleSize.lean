import BadgeOS.BootFiles.Installers
import BadgeOS.Lib.Text
import Mathlib

/-!
# What a bundle's files are counted as

`slot-install` of the bundle hook adds up the sizes that `tar` lists and compares them with what
`df` and `du` say, while `slot-post-install` writes what `tar` extracts.

* `Tar.need`, `SlotInstall.accepts` — the checks;
* `Tar.Plain` — a `boot.tar` of which `tar` extracts what it lists;
* `Plain.sizes_le`, `Plain.length_fip` — no less is counted than extracted.
-/

namespace BadgeOS.BootFiles

open Crash Files
open Stage0 (Slot Text)

/-! ### The checks -/

/-- One of `" \t"`. -/
def isBlank (c : Char) : Bool := c == ' ' || c == '\t'

/-- The name that `read` takes from the line of `tar -tvf`. -/
def Member.shown (m : Member) : Text :=
  Text.trim isBlank <|
    match m.body with
    | .link shown => m.name ++ shown
    | _ => m.name

/-- The size in that line. -/
def Member.size (m : Member) : ℕ :=
  match m.body with
  | .file bytes => bytes.length
  | _ => 0

namespace Tar

variable (t : Tar)

/-- The lines whose name the pattern matches, -/
def listed (pattern : Text → Bool) : List Member := t.filter fun m => pattern m.shown

/-- ... and their sizes. -/
def sizes (pattern : Text → Bool) : ℕ := ((t.listed pattern).map Member.size).sum

/-- `*/boot.itb` -/
def isBoot (name : Text) : Bool := bootItb <:+ name

/-- `*/vbmeta.itb` -/
def isVbmeta (name : Text) : Bool := vbmetaItb <:+ name

/-- `$fip_size`: each line with the name sets it. -/
def fipSize : ℕ := ((t.listed (· = fipBin)).getLast?.map Member.size).getD 0

/-- `*/boot.itb|*/vbmeta.itb|fip.bin` -/
def isSized (name : Text) : Bool := isBoot name || isVbmeta name || decide (name = fipBin)

/-- `$sized` -/
def sized : ℕ := (t.listed isSized).length

/-- `$need` -/
def need : ℕ := t.sizes isBoot + t.sizes isVbmeta + t.fipSize + 16 * 1024 * 1024

end Tar

/-- What `slot-install` is given. -/
structure SlotInstall (Dev : Type) where
  /-- `RAUC_SLOT_CLASS` is boot. -/
  boot : Bool
  tarball : Option Tar
  /-- `RAUC_SLOT_DEVICE` -/
  device : Dev
  /-- `df -k --output=avail` -/
  availKib : ℕ
  /-- `du -sk --apparent-size` of `.incoming` -/
  staleKib : ℕ

variable {Dev : Type} [DecidableEq Dev]

/-- **`slot-install`**, which only checks. -/
def SlotInstall.accepts (i : SlotInstall Dev) (S : Disks Dev) : Bool :=
  match i.tarball with
  | none => false
  | some t =>
      i.boot && t.complete && t.allowed i.device S &&
        t.sized == 2 * t.cores.length + t.hasFip.toNat &&
          decide (t.need ≤ i.availKib * 1024 +
            if (S (.incoming i.device)).isSome then i.staleKib * 1024 else 0)

/-! ### What is extracted -/

/-- A tar that names each member once, has nothing below a file that is counted, and shows nothing
else as the fip. -/
structure Tar.Plain (t : Tar) : Prop where
  nodup : (t.map Member.name).Nodup
  below : ∀ m ∈ t, ∀ n ∈ t, Tar.isSized n.name = true → ¬n.name ++ ['/'] <+: m.name
  fip : ∀ m ∈ t, m.shown = fipBin → m.name = fipBin

theorem Member.shown_eq {m : Member} (hsize : m.size ≠ 0)
    (hname : ∀ c ∈ m.name, isBlank c = false) : m.shown = m.name := by
  rw [Member.size] at hsize
  rw [Member.shown]
  cases hbody : m.body with
  | file bytes => exact Text.trim_eq_self hname
  | link shown => simp [hbody] at hsize
  | dir => simp [hbody] at hsize

namespace Tar

variable {t : Tar} {name core : Text}

/-- `tar` extracts the member that it lists. -/
theorem Plain.length_extract (h : t.Plain) (hname : name ∈ t.listing) (hsized : isSized name) :
    (t.extract name).length = (t.map fun m => if m.name = name then m.size else 0).sum := by
  obtain ⟨n, hn, rfl⟩ := List.mem_map.mp hname
  rw [extract, List.length_flatMap]
  refine congrArg List.sum (List.map_congr_left fun m hm => ?_)
  have hbelow := h.below m hm n hn hsized
  rw [Member.size]
  cases m.body with
  | file bytes =>
      show (if m.name = n.name ∨ n.name ++ ['/'] <+: m.name then bytes else []).length = _
      by_cases heq : m.name = n.name
      · rw [if_pos (Or.inl heq), if_pos heq]
      · rw [if_neg (not_or.mpr ⟨heq, hbelow⟩), if_neg heq]
        rfl
  | link shown => simp
  | dir => simp

theorem coreOf_eq (h : coreOf name = some core) : name = core ++ bootItb := by
  rw [coreOf] at h
  split at h
  · rename_i heq
    obtain rfl := Option.some.inj h
    exact heq
  · cases h

theorem isBlank_coreOf (h : coreOf name = some core) : ∀ c ∈ core, isBlank c = false := by
  rw [coreOf] at h
  split at h
  · obtain rfl := Option.some.inj h
    intro c hc
    have hcore := List.mem_takeWhile_imp hc
    rw [isBlank, Bool.or_eq_false_iff, beq_eq_false_iff_ne, beq_eq_false_iff_ne]
    constructor
    · rintro rfl
      exact absurd hcore (by decide)
    · rintro rfl
      exact absurd hcore (by decide)
  · cases h

theorem Plain.nodup_cores (h : t.Plain) : t.cores.Nodup := by
  refine List.Nodup.filter _ (h.nodup.filterMap fun a a' b hb hb' => ?_)
  rw [coreOf_eq hb, coreOf_eq hb']

theorem isBlank_cores (h : core ∈ t.cores) : ∀ c ∈ core, isBlank c = false := by
  obtain ⟨name, -, hcore⟩ := List.mem_filterMap.mp (List.mem_of_mem_filter h)
  exact isBlank_coreOf hcore

theorem boot_mem_listing (h : core ∈ t.cores) : core ++ bootItb ∈ t.listing := by
  obtain ⟨name, hname, hcore⟩ := List.mem_filterMap.mp (List.mem_of_mem_filter h)
  rw [← coreOf_eq hcore]
  exact hname

theorem vbmeta_mem_listing (hcomplete : t.complete = true) (h : core ∈ t.cores) :
    core ++ vbmetaItb ∈ t.listing := by
  rw [complete, Bool.and_eq_true, Bool.and_eq_true, Bool.and_eq_true] at hcomplete
  exact of_decide_eq_true (List.all_eq_true.mp hcomplete.1.1.2 core h)

/-- One of them at most is `a`. -/
theorem sum_single_le {ι κ : Type} [DecidableEq κ] {xs : List ι} (hxs : xs.Nodup) {g : ι → κ}
    (hg : Function.Injective g) (a : κ) (n : ℕ) :
    (xs.map fun x => if a = g x then n else 0).sum ≤ n := by
  induction xs with
  | nil => exact Nat.zero_le _
  | cons x xs ih =>
      obtain ⟨hnew, hrest⟩ := List.nodup_cons.mp hxs
      rw [List.map_cons, List.sum_cons]
      by_cases hx : a = g x
      · have hzero : (xs.map fun x => if a = g x then n else 0).sum = 0 := by
          refine List.sum_eq_zero fun k hk => ?_
          obtain ⟨y, hy, rfl⟩ := List.mem_map.mp hk
          refine if_neg fun hay => hnew ?_
          rw [hg (hx.symm.trans hay)]
          exact hy
        rw [if_pos hx, hzero, Nat.add_zero]
      · rw [if_neg hx, Nat.zero_add]
        exact ih hrest

/-- What has the names of files of cores is among what the pattern matches. -/
theorem sum_named_le {cores : List Text} (hcores : cores.Nodup)
    (hblank : ∀ core ∈ cores, ∀ c ∈ core, isBlank c = false) {pattern : Text → Bool} {file : Text}
    (hfile : ∀ core, pattern (core ++ file) = true) (hend : ∀ c ∈ file, isBlank c = false)
    (l : List Member) :
    (cores.map fun core => (l.map fun m => if m.name = core ++ file then m.size else 0).sum).sum ≤
      ((l.filter fun m => pattern m.shown).map Member.size).sum := by
  induction l with
  | nil => simp
  | cons m l ih =>
      simp only [List.map_cons, List.sum_cons, List.sum_map_add]
      rw [List.filter_cons]
      by_cases hpattern : pattern m.shown = true
      · rw [if_pos hpattern, List.map_cons, List.sum_cons]
        exact Nat.add_le_add
          (sum_single_le hcores (List.append_left_injective file) m.name m.size) ih
      · have hzero :
            (cores.map fun core => if m.name = core ++ file then m.size else 0).sum = 0 := by
          refine List.sum_eq_zero fun n hn => ?_
          obtain ⟨core, hcore, rfl⟩ := List.mem_map.mp hn
          refine ite_eq_right_iff.mpr fun hname => ?_
          by_contra hsize
          have hshown : m.shown = m.name := by
            refine Member.shown_eq hsize fun c hc => ?_
            rw [hname] at hc
            exact (List.mem_append.mp hc).elim (hblank core hcore c) (hend c)
          rw [hshown, hname] at hpattern
          exact hpattern (hfile core)
        rw [if_neg hpattern, hzero, Nat.zero_add]
        exact ih

/-- The files of the cores are counted, -/
theorem Plain.sizes_le (h : t.Plain) {pattern : Text → Bool} {file : Text}
    (hfile : ∀ core, pattern (core ++ file) = true)
    (hsized : ∀ name, pattern name = true → isSized name = true)
    (hend : ∀ c ∈ file, isBlank c = false) (hlisted : ∀ core ∈ t.cores, core ++ file ∈ t.listing) :
    (t.cores.map fun core => (t.extract (core ++ file)).length).sum ≤ t.sizes pattern := by
  have hextract : (t.cores.map fun core => (t.extract (core ++ file)).length) =
      t.cores.map fun core => (t.map fun m => if m.name = core ++ file then m.size else 0).sum :=
    List.map_congr_left fun core hcore =>
      h.length_extract (hlisted core hcore) (hsized _ (hfile core))
  rw [hextract]
  exact sum_named_le h.nodup_cores (fun core => isBlank_cores) hfile hend t

theorem isBlank_bootItb : ∀ c ∈ bootItb, isBlank c = false := by
  have hletters : bootItb = ['/', 'b', 'o', 'o', 't', '.', 'i', 't', 'b'] := rfl
  rw [hletters]
  simp [isBlank]

theorem isBlank_vbmetaItb : ∀ c ∈ vbmetaItb, isBlank c = false := by
  have hletters : vbmetaItb = ['/', 'v', 'b', 'm', 'e', 't', 'a', '.', 'i', 't', 'b'] := rfl
  rw [hletters]
  simp [isBlank]

theorem Plain.boot_le (h : t.Plain) :
    (t.cores.map fun core => (t.boot core).length).sum ≤ t.sizes isBoot := by
  have hfile (core : Text) : isBoot (core ++ bootItb) = true :=
    decide_eq_true (List.suffix_append core bootItb)
  have hsized (name : Text) (hname : isBoot name = true) : isSized name = true := by
    rw [isSized, hname]
    rfl
  exact h.sizes_le hfile hsized isBlank_bootItb fun core => boot_mem_listing

theorem Plain.vbmeta_le (h : t.Plain) (hcomplete : t.complete = true) :
    (t.cores.map fun core => (t.vbmeta core).length).sum ≤ t.sizes isVbmeta := by
  have hfile (core : Text) : isVbmeta (core ++ vbmetaItb) = true :=
    decide_eq_true (List.suffix_append core vbmetaItb)
  have hsized (name : Text) (hname : isVbmeta name = true) : isSized name = true := by
    rw [isSized, hname, Bool.or_true]
    rfl
  exact h.sizes_le hfile hsized isBlank_vbmetaItb fun core => vbmeta_mem_listing hcomplete

/-- The one member of a name. -/
theorem filter_name {l : List Member} (hl : (l.map Member.name).Nodup) {n : Member} (hn : n ∈ l) :
    (l.filter fun m => m.name = n.name) = [n] := by
  induction l with
  | nil => cases hn
  | cons m l ih =>
      obtain ⟨hnew, hrest⟩ := List.nodup_cons.mp hl
      rw [List.filter_cons]
      obtain rfl | hn := List.mem_cons.mp hn
      · have hnone : (l.filter fun m => m.name = n.name) = [] := by
          refine List.filter_eq_nil_iff.mpr fun m hm hname => hnew ?_
          rw [← of_decide_eq_true hname]
          exact List.mem_map_of_mem hm
        rw [if_pos (decide_eq_true rfl), hnone]
      · have hne : m.name ≠ n.name := fun hname => hnew (hname ▸ List.mem_map_of_mem hn)
        rw [if_neg (by simpa using hne)]
        exact ih hrest hn

theorem sum_ite_filter {l : List Member} (name : Text) :
    (l.map fun m => if m.name = name then m.size else 0).sum =
      ((l.filter fun m => m.name = name).map Member.size).sum := by
  induction l with
  | nil => rfl
  | cons m l ih =>
      rw [List.map_cons, List.sum_cons, ih, List.filter_cons]
      by_cases hname : m.name = name
      · rw [if_pos hname, if_pos (decide_eq_true hname)]
        rfl
      · rw [if_neg hname, if_neg (by simpa using hname), Nat.zero_add]

/-- ... and so is the fip. -/
theorem Plain.fip_le (h : t.Plain) (hfip : t.hasFip = true) : (Tar.fip t).length ≤ t.fipSize := by
  have hmem : fipBin ∈ t.listing := of_decide_eq_true hfip
  obtain ⟨n, hn, hname⟩ := List.mem_map.mp hmem
  have hone : t.filter (fun m => m.name = fipBin) = [n] := by
    rw [← hname]
    exact filter_name h.nodup hn
  have hlength : (Tar.fip t).length = n.size := by
    rw [Tar.fip, h.length_extract hmem (by decide), sum_ite_filter, hone]
    exact Nat.add_zero _
  rw [hlength]
  by_cases hsize : n.size = 0
  · rw [hsize]
    exact Nat.zero_le _
  have hshown : n.shown = fipBin := by
    rw [← hname]
    refine Member.shown_eq hsize ?_
    rw [hname]
    simp [fipBin, isBlank]
  have hlisted : t.listed (· = fipBin) = [n] := by
    rw [← hone]
    refine List.filter_congr fun m hm => decide_eq_decide.mpr ⟨h.fip m hm, fun hm' => ?_⟩
    have hmn : m ∈ t.filter fun m => m.name = fipBin :=
      List.mem_filter.mpr ⟨hm, decide_eq_true hm'⟩
    rw [hone, List.mem_singleton] at hmn
    rw [hmn]
    exact hshown
  rw [fipSize, hlisted]
  exact Nat.le_refl _

end Tar

end BadgeOS.BootFiles
