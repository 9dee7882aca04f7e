import BadgeOS.Stage0.Userdata

/-!
# The per-slot Nix state

`slot_state` makes `$UD/nix-<slot>` ready for a boot.  The root hash in `.slot-stamp` decides
whether the slot's layer is kept or reset, and the file is truncated and rewritten on every
boot.  What a boot says on the console is left out.

* `slotState` — the script;
* `Kept` — the slot's directory is as a completed boot with the stamp left it;
* `slot_state_survives` — which power cuts it survives.
-/

namespace BadgeOS.Stage0

open Crash Script

/-- What `slot_state` is given. -/
structure Boot where
  slot : Slot
  stamp : Text
  /-- `[ "$storage" = card ]` -/
  card : Bool := false
  /-- `$RO/nix/var/nix/profiles` -/
  ro : Tree
  /-- `$LOWER/nix-$slot/var/nix/profiles` -/
  lower : Option Tree := none

/-- The profiles a fresh `var` is seeded with. -/
def Boot.profiles (b : Boot) : Tree :=
  match b.card, b.lower with
  | true, some lower => lower
  | _, _ => b.ro

/-- The one-time migration of a single-slot card. -/
def migrate : Script Cmd Userdata Unit := do
  let shared ← see Userdata.shared
  if shared = true then
    let moved ← run .mvNix
    if moved = true then
      let stamped ← see fun ud => ud.slotStamp.isSome
      if stamped = true then
        let _ ← run .mvStamp

/-- `$old` -/
def Userdata.old (ud : Userdata) (s : Slot) : Text := catStamp ((ud.slot s).bind NixDir.slotStamp)

/-- The reset of a slot whose store changed. -/
def reset (b : Boot) (old : Text) : Script Cmd Userdata Unit :=
  if b.stamp ≠ [] ∧ old ≠ b.stamp then do
    step (.rm b.slot .upper)
    step (.rm b.slot .work)
    step (.rm b.slot .var)
  else pure ()

/-- `mkdir -p ... && cp -a ...` -/
def populate (b : Boot) : Script Cmd Userdata Bool := do
  let made ← run (.mkdirVar b.slot)
  if made = true then run (.cpProfiles b.slot b.profiles) else pure false

/-- The seeding of a missing `var`, with `seed_ok`. -/
def seed (b : Boot) : Script Cmd Userdata Bool := do
  let there ← see fun ud => (ud.part b.slot .var).isSome
  if there = true then pure true
  else do
    let seeded ← populate b
    if seeded = true then pure true
    else do
      step (.rm b.slot .var)
      pure false

/-- `echo "$stamp" > "$d/.slot-stamp"`, after a seeding that worked. -/
def stampSlot (b : Boot) (seedOk : Bool) : Script Cmd Userdata Unit :=
  if b.stamp ≠ [] ∧ seedOk = true then do
    step (.truncStamp b.slot)
    step (.writeStamp b.slot (b.stamp ++ ['\n']))
  else pure ()

/-- What `slot_state` does to a slot's layer, kept or reset. -/
def furnish (b : Boot) : Script Cmd Userdata Bool := do
  step (.mkdir b.slot .upper)
  step (.mkdir b.slot .work)
  let seedOk ← seed b
  stampSlot b seedOk
  pure seedOk

/-- `slot_state` after its migration. -/
def ready (b : Boot) : Script Cmd Userdata Bool := do
  step (.mkdirSlot b.slot)
  step .mkdirNix
  let old ← see fun ud => ud.old b.slot
  reset b old
  furnish b

/-- `slot_state`, with `seed_ok`. -/
def slotState (b : Boot) : Script Cmd Userdata Bool := do
  migrate
  ready b

/-! ### What a slot holds -/

/-- A verity root hash, as the command line has it. -/
structure RootHash where
  text : Text
  nonempty : text ≠ []
  hex : ∀ c ∈ text, c ∈ "0123456789abcdef".toList

/-- The slot's directory has the stamp, the upper layer and the `var`. -/
def Settled (z : Slot) (s : Text) (upper var : Tree) (ud : Userdata) : Prop :=
  ud.Has z fun d => catStamp d.slotStamp = s ∧ d.part .upper = some upper ∧
    d.part .var = some var

/-- The same of a single-slot card, whose state is slot A's to be. -/
def SingleSlot (s : Text) (upper var : Tree) (ud : Userdata) : Prop :=
  ud.slot .A = none ∧ catStamp ud.slotStamp = s ∧
    ∃ d, ud.nix = some d ∧ d.part .upper = some upper ∧ d.part .var = some var

/-- As a completed boot of slot `z` with the stamp left it. -/
def Kept (z : Slot) (s : Text) (upper var : Tree) (ud : Userdata) : Prop :=
  Settled z s upper var ud ∨ z = .A ∧ SingleSlot s upper var ud

/-- What a boot of `z` would take for the slot's stamp is `s`. -/
def Stamped (z : Slot) (s : Text) (ud : Userdata) : Prop :=
  match ud.slot z with
  | some d => catStamp d.slotStamp = s
  | none => z = .A ∧ (catStamp ud.slotStamp = s ∨ ∃ d, ud.nix = some d ∧ catStamp d.slotStamp = s)

/-- Every profile of the seed is in `var`. -/
def Seeded (profiles var : Tree) : Prop :=
  ∀ p e, profiles p = some e → var (profilesAt ++ p) = some e

/-- The incidents that leave slot `z`'s stamp to its state: not a power cut between the
truncation of its `.slot-stamp` and the end of the write, nor one between the two renames of
slot A's migration, nor a rename that fails. -/
def Careful (z : Slot) : Incident Cmd → Prop
  | .cut (.writeStamp x _) => x ≠ z
  | .cut .mvStamp | .fail .mvNix | .fail .mvStamp => z ≠ .A
  | _ => True

theorem RootHash.no_newline (s : RootHash) : '\n' ∉ s.text := fun h =>
  absurd (s.hex _ h) (by decide)

theorem RootHash.ne_none (s : RootHash) : catStamp none ≠ s.text := by
  intro h
  have hn : 'n' ∈ s.text := h ▸ by decide
  exact absurd (s.hex _ hn) (by decide)

theorem RootHash.cat_line (s : RootHash) : cat (s.text ++ ['\n']) = s.text :=
  Stage0.cat_line s.no_newline

/-! ### One segment at a time -/

section Segments

variable {z : Slot} {b : Boot} {ud : Userdata} {Q : NixDir → Prop}
  {G : Incident Cmd → Prop} {crash : Cmd → Userdata → Prop}

/-- The `mkdir -p`s find a slot's directory as it was, but for the parts that were missing. -/
theorem keeps_mkdir (hQ : ∀ d p, Q d → d.part p = none → p ≠ .var → Q (d.setPart p (some .empty)))
    {c : Cmd} (hc : c = .mkdirNix ∨ c = .mkdirSlot z ∨ c = .mkdir z .upper ∨ c = .mkdir z .work) :
    disk.Keeps (fun ud => ud.Has z Q) c := by
  have hmkdir (p : Part) (hp : p ≠ .var) (d : NixDir) (hq : Q d) :
      Q (d.setPart p (some ((d.part p).getD .empty))) := by
    cases hpart : d.part p with
    | none => exact hQ d p hq hpart hp
    | some t =>
        have hsame : d.setPart p (some t) = d := by
          rw [NixDir.setPart, ← hpart, Function.update_eq_self]
        rw [Option.getD_some, hsame]
        exact hq
  apply keeps_of_leaves
  intro ud t h hleaves
  rcases hc with rfl | rfl | rfl | rfl
  · obtain rfl : t = _ := hleaves.resolve_right (by simp [Cmd.torn, Cmd.fails])
    exact h.congr rfl
  · obtain rfl : t = _ := hleaves.resolve_right (by simp [Cmd.torn, Cmd.fails])
    obtain ⟨d, hd, hq⟩ := h
    exact ⟨d, by simp [Cmd.apply, hd], hq⟩
  · obtain rfl : t = _ := hleaves.resolve_right (by simp [Cmd.torn, Cmd.fails])
    exact h.modify (hmkdir .upper (by decide))
  · obtain rfl : t = _ := hleaves.resolve_right (by simp [Cmd.torn, Cmd.fails])
    exact h.modify (hmkdir .work (by decide))

/-- A removal, cut short or not, changes one part of the slot's layer. -/
theorem keeps_rm {p : Part} (hQ : ∀ d t, Q d → Q (d.setPart p t)) :
    disk.Keeps (fun ud => ud.Has z Q) (.rm z p) := by
  apply keeps_of_leaves
  intro ud t h hleaves
  rcases hleaves with rfl | ⟨_, left, -, -, rfl⟩ | hfail
  · exact h.modify fun d hd => hQ d _ hd
  · exact h.modify fun d hd => hQ d _ hd
  · exact hfail.elim

/-- A `var` that is there is left alone. -/
theorem seed_present (h : ud.Has b.slot fun d => Q d ∧ ∃ v, d.part .var = some v) :
    wp disk G (seed b) (fun ok t => ok = true ∧ t.Has b.slot Q) crash ud := by
  obtain ⟨d, hd, hq, v, hv⟩ := h
  have hthere : (ud.part b.slot .var).isSome = true := by
    rw [part_eq hd, hv]
    rfl
  unfold seed
  rw [wp_bind, wp_see, wp_ite]
  exact ⟨fun _ => ⟨rfl, d, hd, hq⟩, fun hnot => absurd hthere hnot⟩

/-- `nix-<slot>` satisfies `Q`, and its `var` is the seed if `ok`. -/
def SeededIf (b : Boot) (Q : NixDir → Prop) (ok : Bool) (ud : Userdata) : Prop :=
  ud.Has b.slot Q ∧
    (ok = true → ud.Has b.slot fun d => Q d ∧ ∃ v, d.part .var = some v ∧ Seeded b.profiles v)

theorem populate_seeds (hQ : ∀ d t, Q d → Q (d.setPart .var t)) (h : ud.Has b.slot Q) :
    wp disk G (populate b) (SeededIf b Q) (fun _ t => t.Has b.slot Q) ud := by
  have hset (t : Option Tree) {ud : Userdata} (hud : ud.Has b.slot Q) :
      (ud.modify b.slot (.setPart .var t)).Has b.slot Q := hud.modify fun d hd => hQ d t hd
  have hmkdir : ∀ t, (Cmd.mkdirVar b.slot).torn ud t → t.Has b.slot Q := by
    intro _ htorn
    obtain ⟨left, -, rfl⟩ := htorn
    exact hset _ h
  have hfail {t : Userdata} (ht : t.Has b.slot Q) : SeededIf b Q false t :=
    ⟨ht, fun hok => by cases hok⟩
  unfold populate
  rw [wp_bind, wp_run]
  refine ⟨fun _ => ⟨h, hmkdir⟩, ?_, fun _ t ht => ?_⟩
  · -- the directories are made, the copy is next
    have hmade : (Cmd.apply ud (.mkdirVar b.slot)).Has b.slot fun d =>
        Q d ∧ d.part .var = some varSkeleton :=
      h.modify fun d hd => ⟨hQ d _ hd, setPart_part _ _⟩
    have hmadeQ := hmade.mono fun _ hd => hd.1
    have hcp : ∀ t, (Cmd.cpProfiles b.slot b.profiles).torn (Cmd.apply ud (.mkdirVar b.slot)) t →
        t.Has b.slot Q := by
      intro _ htorn
      obtain ⟨_, left, -, -, rfl⟩ := htorn
      exact hset _ hmadeQ
    have hseeded : (Cmd.apply (Cmd.apply ud (.mkdirVar b.slot))
        (.cpProfiles b.slot b.profiles)).Has b.slot fun d =>
          Q d ∧ ∃ v, d.part .var = some v ∧ Seeded b.profiles v := by
      refine hmade.modify fun d hd =>
        ⟨hQ d _ hd.1, b.profiles.cpInto profilesAt varSkeleton, ?_, ?_⟩
      · rw [setPart_part, hd.2]
        rfl
      · exact fun p e hp => cpInto_complete _ _ hp
    simp only [disk, if_true]
    rw [wp_run]
    refine ⟨fun _ => ⟨hmadeQ, hcp⟩, ⟨hseeded.mono fun _ hd => hd.1, fun _ => hseeded⟩, ?_⟩
    rintro - t (rfl | ht)
    · exact hfail hmadeQ
    · exact hfail (hcp t ht)
  · rw [if_neg (show ¬(false = true) by decide), wp_pure]
    rcases ht with rfl | ht
    · exact hfail h
    · exact hfail (hmkdir t ht)

/-- A missing `var` is seeded, or `seed_ok` says that it was not. -/
theorem seed_absent (hQ : ∀ d t, Q d → Q (d.setPart .var t))
    (h : ud.Has b.slot fun d => Q d ∧ d.part .var = none) :
    wp disk G (seed b) (SeededIf b Q) (fun _ t => t.Has b.slot Q) ud := by
  obtain ⟨d, hd, hq, hv⟩ := h
  have hthere : ¬(ud.part b.slot .var).isSome = true := by
    rw [part_eq hd, hv]
    simp
  unfold seed
  rw [wp_bind, wp_see, if_neg hthere, wp_bind]
  refine wp_mono (fun ok t ht => ?_) (fun _ _ ht => ht) (populate_seeds hQ ⟨d, hd, hq⟩)
  rw [wp_ite]
  refine ⟨fun hok => ⟨ht.1, fun _ => ht.2 hok⟩, fun _ => ?_⟩
  -- what a failed seeding left is removed
  rw [wp_bind, wp_step]
  have hset (left : Option Tree) : (t.modify b.slot (.setPart .var left)).Has b.slot Q :=
    ht.1.modify fun d hd => hQ d left hd
  refine ⟨fun _ => ⟨ht.1, ?_⟩, ⟨hset none, fun hok => by cases hok⟩, fun _ u hu => hu.elim⟩
  intro _ htorn
  obtain ⟨_, left, -, -, rfl⟩ := htorn
  exact hset _

end Segments

end BadgeOS.Stage0
