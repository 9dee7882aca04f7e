import BadgeOS.Lib.Crash
import Mathlib

/-!
# USERDATA, as stage 0 sees it

What `stage0.sh` reads and writes under `$UD`, on an eMMC or on a data card, and the commands
it does it with.  A rename, an unlink of one file and the creation of one directory are atomic.
`echo ... > file` is two commands, the truncation and the write.

* `Tree`, `NixDir`, `Userdata` — the files;
* `Cmd`, `disk` — the commands, and what a power cut inside one can leave;
* `Cmd.Of` — the commands that stay with one slot, and `Cmd.Of.frame` for what they leave.
-/

namespace BadgeOS.Stage0

open Crash Function

/-- The contents of a text file. -/
abbrev Text := List Char

inductive Entry
  | dir
  | file (content : Text)
  | link (target : Text)
  deriving DecidableEq

/-- A directory's contents, by relative path. -/
abbrev Tree := List String → Option Entry

namespace Tree

/-- An empty directory. -/
def empty : Tree := fun path => if path = [] then some .dir else none

/-- `mkdir -p`. -/
def mkdirP (path : List String) (t : Tree) : Tree :=
  fun p => if p <+: path then (t p).or (some .dir) else t p

/-- `cp -a src/. dst/`. -/
def cpInto (src : Tree) (dst : List String) (t : Tree) : Tree :=
  fun p => if dst <+: p then (src (p.drop dst.length)).or (t p) else t p

/-- `t` is part of `whole`. -/
def Sub (t whole : Tree) : Prop := ∀ p e, t p = some e → whole p = some e

end Tree

/-- `rauc.slot=`. -/
inductive Slot
  | A
  | B
  deriving DecidableEq, Repr

/-- The parts of a slot's Nix layer. -/
inductive Part
  | upper
  | work
  | var
  deriving DecidableEq, Repr

/-- A `nix-A`, a `nix-B`, or the `nix` of a single-slot card. -/
structure NixDir where
  part : Part → Option Tree := fun _ => none
  /-- `.slot-stamp` -/
  slotStamp : Option Text := none
  /-- `.nixbadge-lower` -/
  nixbadgeLower : Option Text := none
  /-- There is something else in it. -/
  other : Bool := false

/-- `[ -n "$(ls -A ...)" ]`. -/
def NixDir.nonempty (d : NixDir) : Bool :=
  (d.part .upper).isSome || (d.part .work).isSome || (d.part .var).isSome || d.slotStamp.isSome ||
    d.nixbadgeLower.isSome || d.other

structure Userdata where
  nix : Option NixDir := none
  /-- `.slot-stamp`, of a single-slot card -/
  slotStamp : Option Text := none
  /-- `nix-A` and `nix-B` -/
  slot : Slot → Option NixDir := fun _ => none
  /-- `.nixbadge-lower` -/
  nixbadgeLower : Option Text := none
  /-- `.lower-state/nix-<slot>` -/
  lowerState : Slot → Option Tree := fun _ => none
  /-- `.nixbadge-cardfit-<slot>` -/
  cardfit : Slot → Bool := fun _ => false
  /-- `.nixbadge-card-boot-reset` -/
  cardBootReset : Option Text := none

namespace Userdata

/-- Change `nix-<slot>`, if it is there. -/
def modify (ud : Userdata) (s : Slot) (f : NixDir → NixDir) : Userdata :=
  { ud with slot := update ud.slot s ((ud.slot s).map f) }

/-- A part of `nix-<slot>`. -/
def part (ud : Userdata) (s : Slot) (p : Part) : Option Tree := (ud.slot s).bind fun d => d.part p

/-- `$UD/nix` holds a single-slot card's state. -/
def shared (ud : Userdata) : Bool := (ud.slot .A).isNone && ud.nix.any NixDir.nonempty

end Userdata

def NixDir.setPart (p : Part) (t : Option Tree) (d : NixDir) : NixDir :=
  { d with part := update d.part p t }

/-- `$(cat file)`: without the newlines at the end. -/
def cat (t : Text) : Text := t.rdropWhile (· = '\n')

/-- `$(cat "$d/.slot-stamp" 2>/dev/null || echo none)`. -/
def catStamp : Option Text → Text
  | some t => cat t
  | none => ['n', 'o', 'n', 'e']

/-! ### Commands -/

inductive Cmd
  /-- `mv "$UD/nix" "$UD/nix-A"` -/
  | mvNix
  /-- `mv "$UD/.slot-stamp" "$UD/nix-A/.slot-stamp"` -/
  | mvStamp
  /-- `mkdir -p "$UD/nix"` -/
  | mkdirNix
  /-- `mkdir -p "$UD/nix-$s"` -/
  | mkdirSlot (s : Slot)
  /-- `mkdir -p` of a part -/
  | mkdir (s : Slot) (p : Part)
  /-- `rm -rf` of a part -/
  | rm (s : Slot) (p : Part)
  /-- `mkdir -p "$d/var/nix/db" ...` -/
  | mkdirVar (s : Slot)
  /-- `cp -a "$profiles/." "$d/var/nix/profiles/"` -/
  | cpProfiles (s : Slot) (profiles : Tree)
  /-- The truncation of `> "$d/.slot-stamp"` -/
  | truncStamp (s : Slot)
  /-- ... and the write. -/
  | writeStamp (s : Slot) (text : Text)
  /-- `rm -rf "$UD/nix-$s"` -/
  | rmSlot (s : Slot)
  /-- `rm -rf "$UD/nix-$s/.nixbadge-lower"` -/
  | rmNixLower (s : Slot)
  /-- `rm -rf "$UD/.lower-state/nix-$s"` -/
  | rmLowerState (s : Slot)
  /-- `rm -rf "$UD/.nixbadge-cardfit-$s"` -/
  | rmCardfit (s : Slot)
  /-- `echo "$s" >> "$UD/.nixbadge-card-boot-reset"` -/
  | appendReset (s : Slot)
  /-- The truncation of `> "$UD/.nixbadge-lower"` -/
  | truncLower
  /-- ... and the write. -/
  | writeLower (text : Text)
  /-- The truncation of `> "$UD/nix-$slot/.nixbadge-lower"` -/
  | truncNixLower (s : Slot)
  /-- ... and the write. -/
  | writeNixLower (s : Slot) (text : Text)

/-- `var` after the `mkdir -p`s of a seeding. -/
def varSkeleton : Tree :=
  (((Tree.empty.mkdirP ["nix", "db"]).mkdirP ["nix", "gcroots", "per-user"]).mkdirP
    ["nix", "temproots"]).mkdirP ["nix", "profiles", "per-user"]

/-- Where a `var` has its profiles. -/
def profilesAt : List String := ["nix", "profiles"]

/-- The line `echo "$s"` writes. -/
def Slot.line : Slot → Text
  | .A => ['A', '\n']
  | .B => ['B', '\n']

/-- What a command does. -/
def Cmd.apply (ud : Userdata) : Cmd → Userdata
  | .mvNix => { ud with nix := none, slot := update ud.slot .A ud.nix }
  | .mvStamp =>
      { ud.modify .A fun d => { d with slotStamp := ud.slotStamp } with slotStamp := none }
  | .mkdirNix => { ud with nix := some (ud.nix.getD {}) }
  | .mkdirSlot s => { ud with slot := update ud.slot s (some ((ud.slot s).getD {})) }
  | .mkdir s p => ud.modify s fun d => d.setPart p (some ((d.part p).getD .empty))
  | .rm s p => ud.modify s (.setPart p none)
  | .mkdirVar s => ud.modify s (.setPart .var (some varSkeleton))
  | .cpProfiles s profiles =>
      ud.modify s fun d => d.setPart .var ((d.part .var).map (profiles.cpInto profilesAt))
  | .truncStamp s => ud.modify s fun d => { d with slotStamp := some [] }
  | .writeStamp s text => ud.modify s fun d => { d with slotStamp := some text }
  | .rmSlot s => { ud with slot := update ud.slot s none }
  | .rmNixLower s => ud.modify s fun d => { d with nixbadgeLower := none }
  | .rmLowerState s => { ud with lowerState := update ud.lowerState s none }
  | .rmCardfit s => { ud with cardfit := update ud.cardfit s false }
  | .appendReset s => { ud with cardBootReset := some (ud.cardBootReset.getD [] ++ s.line) }
  | .truncLower => { ud with nixbadgeLower := some [] }
  | .writeLower text => { ud with nixbadgeLower := some text }
  | .truncNixLower s => ud.modify s fun d => { d with nixbadgeLower := some [] }
  | .writeNixLower s text => ud.modify s fun d => { d with nixbadgeLower := some text }

/-- What a cut inside a command can leave. -/
def Cmd.torn (ud : Userdata) : Cmd → Userdata → Prop
  | .rm s p, t => ∃ whole left, ud.part s p = some whole ∧ Tree.Sub left whole ∧
      t = ud.modify s (.setPart p (some left))
  | .mkdirVar s, t => ∃ left, Tree.Sub left varSkeleton ∧
      t = ud.modify s (.setPart .var (some left))
  -- a file that is being copied can be short
  | .cpProfiles s profiles, t => ∃ v left, ud.part s .var = some v ∧
      (∀ p, profiles.cpInto profilesAt v p = none → left p = none) ∧
      t = ud.modify s (.setPart .var (some left))
  | .writeStamp s text, t => ∃ n, t = (writeStamp s (text.take n)).apply ud
  -- in whatever order the directory lists its entries
  | .rmSlot s, t => ∃ d left, ud.slot s = some d ∧
      (∀ p tree, left.part p = some tree → ∃ whole, d.part p = some whole ∧ Tree.Sub tree whole) ∧
      (left.slotStamp = d.slotStamp ∨ left.slotStamp = none) ∧
      (left.nixbadgeLower = d.nixbadgeLower ∨ left.nixbadgeLower = none) ∧
      t = ud.modify s fun _ => left
  | .rmLowerState s, t => ∃ whole left, ud.lowerState s = some whole ∧ Tree.Sub left whole ∧
      t = { ud with lowerState := update ud.lowerState s (some left) }
  | .appendReset s, t => ∃ n, t =
      { ud with cardBootReset := some (ud.cardBootReset.getD [] ++ s.line.take n) }
  | .writeLower text, t => ∃ n, t = (writeLower (text.take n)).apply ud
  | .writeNixLower s text, t => ∃ n, t = (writeNixLower s (text.take n)).apply ud
  | _, _ => False

/-- What a command leaves when it fails, for the four whose status a script reads. -/
def Cmd.fails (ud : Userdata) : Cmd → Userdata → Prop
  | .mvNix, t | .mvStamp, t => t = ud
  | .mkdirVar s, t => t = ud ∨ (mkdirVar s).torn ud t
  | .cpProfiles s profiles, t => t = ud ∨ (cpProfiles s profiles).torn ud t
  | _, _ => False

/-- The filesystem. -/
def disk : Disk Cmd Userdata where
  exec c ud := (true, c.apply ud)
  torn c ud := c.torn ud
  fail c ud := c.fails ud

/-- What can be there after a command, however it went. -/
def Cmd.Leaves (c : Cmd) (ud t : Userdata) : Prop := t = c.apply ud ∨ c.torn ud t ∨ c.fails ud t

theorem keeps_of_leaves {I : Userdata → Prop} {c : Cmd}
    (h : ∀ ud t, I ud → c.Leaves ud t → I t) : disk.Keeps I c :=
  fun ud hI => ⟨h ud _ hI (.inl rfl), fun t ht => h ud t hI (.inr (.inl ht)),
    fun t ht => h ud t hI (.inr (.inr ht))⟩

/-! ### Lookups -/

section Lookups

variable {ud : Userdata} {s x : Slot} {d : NixDir} {f : NixDir → NixDir}

theorem modify_slot (h : ud.slot s = some d) : (ud.modify s f).slot s = some (f d) := by
  simp [Userdata.modify, h]

theorem modify_other (h : x ≠ s) : (ud.modify s f).slot x = ud.slot x := by
  simp [Userdata.modify, h]

theorem part_eq (h : ud.slot s = some d) (p : Part) : ud.part s p = d.part p := by
  simp [Userdata.part, h]

@[simp]
theorem setPart_part (p : Part) (t : Option Tree) : (d.setPart p t).part p = t := by
  simp [NixDir.setPart]

theorem setPart_other {p q : Part} (h : q ≠ p) (t : Option Tree) :
    (d.setPart p t).part q = d.part q := by
  simp [NixDir.setPart, h]

end Lookups

/-- `cat` of a line that has no newline in it. -/
theorem cat_line {t : Text} (h : '\n' ∉ t) : cat (t ++ ['\n']) = t := by
  rw [cat, List.rdropWhile_concat_pos _ _ _ (by simp)]
  apply List.rdropWhile_eq_self_iff.2
  intro hne
  have hlast := List.getLast_mem hne
  simp only [decide_eq_true_eq]
  exact fun heq => h (heq ▸ hlast)

/-- Seeded profiles are there, every one. -/
theorem cpInto_complete (profiles v : Tree) {p : List String} {e : Entry}
    (h : profiles p = some e) : profiles.cpInto profilesAt v (profilesAt ++ p) = some e := by
  rw [Tree.cpInto, if_pos (List.prefix_append _ _), List.drop_left, h]
  rfl

/-! ### What a slot's directory has -/

/-- `nix-<z>` is there, and satisfies `Q`. -/
def Userdata.Has (ud : Userdata) (z : Slot) (Q : NixDir → Prop) : Prop :=
  ∃ d, ud.slot z = some d ∧ Q d

section Has

variable {ud : Userdata} {z : Slot} {Q Q' : NixDir → Prop}

theorem Userdata.Has.mono (h : ud.Has z Q) (hQ : ∀ d, Q d → Q' d) : ud.Has z Q' := by
  obtain ⟨d, hd, hq⟩ := h
  exact ⟨d, hd, hQ d hq⟩

theorem Userdata.Has.modify {f : NixDir → NixDir} (h : ud.Has z Q) (hf : ∀ d, Q d → Q' (f d)) :
    (ud.modify z f).Has z Q' := by
  obtain ⟨d, hd, hq⟩ := h
  exact ⟨f d, modify_slot hd, hf d hq⟩

/-- What only reads `nix-<z>` stays as long as `nix-<z>` does. -/
theorem Userdata.Has.congr {t : Userdata} (h : ud.Has z Q) (heq : t.slot z = ud.slot z) :
    t.Has z Q := by
  obtain ⟨d, hd, hq⟩ := h
  exact ⟨d, heq.trans hd, hq⟩

end Has

/-! ### One slot's commands -/

/-- The commands of `slot_state` after its migration, for slot `x`. -/
def Cmd.Of (x : Slot) : Cmd → Prop
  | .mkdirNix => True
  | .mkdirSlot s | .mkdir s _ | .rm s _ | .mkdirVar s | .cpProfiles s _ | .truncStamp s
  | .writeStamp s _ => s = x
  | _ => False

/-- They leave the other slot's directory and a single-slot card's stamp alone. -/
theorem Cmd.Of.frame {x : Slot} {c : Cmd} (hc : c.Of x) {ud t : Userdata} (h : c.Leaves ud t) :
    (∀ y, y ≠ x → t.slot y = ud.slot y) ∧ t.slotStamp = ud.slotStamp ∧
      (t.nix = ud.nix ∨ ud.nix = none ∧ t.nix = some {}) := by
  cases c with
  | mkdirNix =>
      obtain rfl : t = _ := h.resolve_right (by simp [torn, fails])
      refine ⟨fun y hy => rfl, rfl, ?_⟩
      cases hnix : ud.nix with
      | none => exact .inr ⟨rfl, by simp [apply, hnix]⟩
      | some d => exact .inl (by simp [apply, hnix])
  | mkdirSlot s =>
      obtain rfl : s = x := hc
      obtain rfl : t = _ := h.resolve_right (by simp [torn, fails])
      exact ⟨fun y hy => by simp [apply, hy], rfl, .inl rfl⟩
  | mkdir s p | truncStamp s =>
      obtain rfl : s = x := hc
      obtain rfl : t = _ := h.resolve_right (by simp [torn, fails])
      exact ⟨fun y hy => modify_other hy, rfl, .inl rfl⟩
  | rm s p =>
      obtain rfl : s = x := hc
      rcases h with rfl | ⟨-, left, -, -, rfl⟩ | h
      · exact ⟨fun y hy => modify_other hy, rfl, .inl rfl⟩
      · exact ⟨fun y hy => modify_other hy, rfl, .inl rfl⟩
      · exact h.elim
  | writeStamp s text =>
      obtain rfl : s = x := hc
      rcases h with rfl | ⟨n, rfl⟩ | h
      · exact ⟨fun y hy => modify_other hy, rfl, .inl rfl⟩
      · exact ⟨fun y hy => modify_other hy, rfl, .inl rfl⟩
      · exact h.elim
  | mkdirVar s =>
      obtain rfl : s = x := hc
      rcases h with rfl | ⟨left, -, rfl⟩ | rfl | ⟨left, -, rfl⟩
      · exact ⟨fun y hy => modify_other hy, rfl, .inl rfl⟩
      · exact ⟨fun y hy => modify_other hy, rfl, .inl rfl⟩
      · exact ⟨fun y hy => rfl, rfl, .inl rfl⟩
      · exact ⟨fun y hy => modify_other hy, rfl, .inl rfl⟩
  | cpProfiles s profiles =>
      obtain rfl : s = x := hc
      rcases h with rfl | ⟨_, left, -, -, rfl⟩ | rfl | ⟨_, left, -, -, rfl⟩
      · exact ⟨fun y hy => modify_other hy, rfl, .inl rfl⟩
      · exact ⟨fun y hy => modify_other hy, rfl, .inl rfl⟩
      · exact ⟨fun y hy => rfl, rfl, .inl rfl⟩
      · exact ⟨fun y hy => modify_other hy, rfl, .inl rfl⟩
  | _ => exact hc.elim

end BadgeOS.Stage0
