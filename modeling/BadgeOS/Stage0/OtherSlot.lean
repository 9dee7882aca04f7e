import BadgeOS.Stage0.CardHistory
import BadgeOS.Stage0.PowerCuts

/-!
# The other slot

`slot_state` keeps to the booted slot but for its migration, which makes slot A's directory of a
single-slot card whatever slot is booted; and `card_state` keeps to it unless the card's own
fingerprint is missing or names another USERDATA.

* `Migrated`, `Left` — what a boot of one slot can leave of the other's directory;
* `Spares` — a command that cannot touch it;
* `other_slot_left` — every run of both, cut or not.
-/

namespace BadgeOS.Stage0

open Crash Script

variable {t : Slot} {b : Boot} {e : Card} {ud ud' u v : Userdata} {c : Cmd}

/-- Slot A's directory is the single-slot card's, with its stamp once that was moved too. -/
def Migrated (ud ud' : Userdata) : Prop :=
  ud.shared = true ∧ ∃ d, ud.nix = some d ∧ (ud'.slot .A = some d ∨
    ∃ stamp, ud.slotStamp = some stamp ∧ ud'.slot .A = some { d with slotStamp := some stamp })

/-- What is left of `nix-<t>`. -/
def Left (t : Slot) (ud ud' : Userdata) : Prop :=
  ud'.slot t = ud.slot t ∨ t = .A ∧ Migrated ud ud'

theorem Left.congr (h : Left t ud u) (heq : v.slot t = u.slot t) : Left t ud v := by
  obtain h | ⟨rfl, hshared, d, hd, hmoved⟩ := h
  · exact Or.inl (heq.trans h)
  · refine Or.inr ⟨rfl, hshared, d, hd, ?_⟩
    rw [heq]
    exact hmoved

/-- A command that leaves `nix-<t>` alone, cut or failed or not. -/
def Spares (t : Slot) (c : Cmd) : Prop := ∀ u v, c.Leaves u v → v.slot t = u.slot t

theorem Spares.keeps (hc : Spares t c) (d : Option NixDir) :
    disk.Keeps (fun u => u.slot t = d) c :=
  keeps_of_leaves fun u v h hleaves => (hc u v hleaves).trans h

theorem Cmd.Of.spares {x : Slot} (hc : c.Of x) (ht : t ≠ x) : Spares t c :=
  fun _ _ hleaves => (hc.frame hleaves).1 t ht

theorem Cmd.Resets.spares {x : Slot} (hc : c.Resets x) (ht : t ≠ x) : Spares t c :=
  fun _ _ hleaves => (hc.frame hleaves).1 t ht

/-! ### `slot_state` -/

theorem left_migrate {G : Incident Cmd → Prop} (ud : Userdata) :
    wp disk G migrate (fun _ => Left t ud) (fun _ => Left t ud) ud := by
  apply wp_migrate
  · intro _
    exact Or.inl rfl
  intro d hA hnix hne
  have hshared : ud.shared = true := by
    rw [Userdata.shared, hA, hnix]
    exact hne
  cases t with
  | A =>
      have hmoved : Left .A ud (Cmd.mvNix.apply ud) :=
        Or.inr ⟨rfl, hshared, d, hnix, Or.inl hnix⟩
      refine ⟨Or.inl rfl, fun _ => Or.inl rfl, fun _ => hmoved, fun _ => hmoved, fun _ => hmoved,
        fun hstamp => ?_⟩
      obtain ⟨stamp, hstamp⟩ := Option.ne_none_iff_exists'.1 hstamp
      refine Or.inr ⟨rfl, hshared, d, hnix, Or.inr ⟨stamp, hstamp, ?_⟩⟩
      have hslot : (Cmd.mvNix.apply ud).slot .A = some d := hnix
      rw [← hstamp]
      exact modify_slot hslot
  | B =>
      have hmoved : Left .B ud (Cmd.mvNix.apply ud) := Or.inl rfl
      have hstamped : Left .B ud (Cmd.mvStamp.apply (Cmd.mvNix.apply ud)) :=
        Or.inl rfl
      exact ⟨Or.inl rfl, fun _ => Or.inl rfl, fun _ => hmoved, fun _ => hmoved, fun _ => hmoved,
        fun _ => hstamped⟩

theorem left_slotState {G : Incident Cmd → Prop} (ht : t ≠ b.slot) (ud : Userdata) :
    wp disk G (slotState b) (fun _ => Left t ud) (fun _ => Left t ud) ud := by
  rw [slotState, wp_bind]
  refine wp_mono (fun _ u h => ?_) (fun _ _ h => h) (left_migrate ud)
  exact wp_mono (fun _ _ hsame => h.congr hsame) (fun _ _ hsame => h.congr hsame)
    (wp_frame (fun c hc => (hc.spares ht).keeps (u.slot t)) (ready_of b) rfl)

/-! ### `card_state` -/

theorem writeFingerprints_spares (ht : t ≠ e.slot) :
    (writeFingerprints e).All (Spares t) := by
  have hmodify {f : NixDir → NixDir} (u : Userdata) : (u.modify e.slot f).slot t = u.slot t :=
    modify_other ht
  have htrunc : Spares t .truncLower := by
    intro u v hleaves
    obtain rfl := hleaves.resolve_right (by simp [Cmd.torn, Cmd.fails])
    rfl
  have hwrite (text : Text) : Spares t (.writeLower text) := by
    intro u v hleaves
    obtain rfl | ⟨n, rfl⟩ | hfails := hleaves
    · rfl
    · rfl
    · exact hfails.elim
  have hmkdir : Spares t (.mkdirSlot e.slot) :=
    Cmd.Of.spares (c := .mkdirSlot e.slot) rfl ht
  have htruncNix : Spares t (.truncNixLower e.slot) := by
    intro u v hleaves
    obtain rfl := hleaves.resolve_right (by simp [Cmd.torn, Cmd.fails])
    exact hmodify u
  have hwriteNix (text : Text) : Spares t (.writeNixLower e.slot text) := by
    intro u v hleaves
    obtain rfl | ⟨n, rfl⟩ | hfails := hleaves
    · exact hmodify u
    · exact hmodify u
    · exact hfails.elim
  exact .bind (.step htrunc) fun _ => .bind (.step (hwrite _)) fun _ => .bind (.step hmkdir)
    fun _ => .bind (.step htruncNix) fun _ => .step (hwriteNix _)

theorem clearSlot_spares (ht : t ≠ e.slot) (cstate : CState) :
    (clearSlot e cstate).All (Spares t) := by
  have hreset : (cardResetNix e.cardboot e.slot).All (Spares t) :=
    Script.All.mono (cardResetNix_resets e.cardboot e.slot) fun c hc => hc.spares ht
  exact .bind (fun _ => trivial) fun _ => .ite (.bind hreset fun _ => trivial) trivial

/-- A fingerprint with this USERDATA, or another badge's. -/
theorem cardState_same {G : Incident Cmd → Prop} (ht : t ≠ e.slot) {f : Text}
    (hf : ud.nixbadgeLower = some f) (huuid : field keyFsuuid f = e.fsuuid) :
    wp disk G (cardState e) (fun _ u => u.slot t = ud.slot t) (fun _ u => u.slot t = ud.slot t)
      ud := by
  rw [cardState, wp_bind, wp_see, wp_ite]
  refine ⟨fun _ => rfl, fun hforeign => ?_⟩
  have hverdict : ud.verdict e = .same := by
    by_cases hcid : field keyCid f ≠ e.cid
    · exact absurd (by simp only [Userdata.verdict, hf, if_pos hcid]) hforeign
    · simp only [Userdata.verdict, hf, if_neg hcid]
      exact if_neg fun hne => hne huuid
  rw [hverdict]
  have hall : (clearSlot e .same >>= fun cstate => do
      writeFingerprints e
      pure cstate).All (Spares t) :=
    .bind (clearSlot_spares ht .same) fun _ => .bind (writeFingerprints_spares ht) fun _ => trivial
  exact wp_frame (fun c hc => hc.keeps (ud.slot t)) hall rfl

/-- **The other slot is left alone.**  A run of `slot_state`, cut or not, leaves the other slot's
directory as it was, or makes slot A's of a single-slot card; a run of `card_state` changes it only
when the card has no fingerprint, or one of another USERDATA. -/
theorem other_slot_left (t : Slot) :
    (∀ b ud o ud', b.slot ≠ t → Runs disk (fun _ => True) (slotState b) ud o ud' →
      Left t ud ud') ∧
    ∀ e ud o ud', e.slot ≠ t → Runs disk (fun _ => True) (cardState e) ud o ud' →
      ud'.slot t ≠ ud.slot t →
        ud.nixbadgeLower = none ∨
          ∃ f, ud.nixbadgeLower = some f ∧ field keyFsuuid f ≠ e.fsuuid := by
  refine ⟨fun b ud o ud' ht hrun => ?_, fun e ud o ud' ht hrun hchanged => ?_⟩
  · have hmeets := wp_sound hrun (left_slotState ht.symm ud)
    cases o with
    | done ok => exact hmeets
    | cut c => exact hmeets
  · cases hf : ud.nixbadgeLower with
    | none => exact Or.inl rfl
    | some f =>
        refine Or.inr ⟨f, rfl, fun huuid => hchanged ?_⟩
        have hmeets := wp_sound hrun (cardState_same ht.symm hf huuid)
        cases o with
        | done v => exact hmeets
        | cut c => exact hmeets

/-- A single-slot card. -/
def singleSlot : Userdata := { nix := some { other := true }, slotStamp := some ['1', '\n'] }

/-- A boot of slot B. -/
def bootB : Boot := { slot := .B, stamp := hashOne.text, ro := .empty }

/-- A boot of slot B over a settled slot A, and one over a single-slot card. -/
theorem other_slot_left_booted :
    Left .A deployed ((slotState bootB).exec disk deployed).2 ∧
      Left .A singleSlot ((slotState bootB).exec disk singleSlot).2 :=
  ⟨(other_slot_left .A).1 bootB deployed _ _ Slot.noConfusion (.of_exec _ _),
    (other_slot_left .A).1 bootB singleSlot _ _ Slot.noConfusion (.of_exec _ _)⟩

/-- The single-slot card's stamp goes into slot A's directory too. -/
theorem other_slot_stamped :
    ¬ ∀ (t : Slot) (b : Boot) (ud : Userdata) (o : Outcome Cmd Bool) (ud' : Userdata),
      b.slot ≠ t → Runs disk (fun _ => True) (slotState b) ud o ud' →
      ud'.slot t = ud.slot t ∨ t = .A ∧ ud.shared = true ∧ ud'.slot .A = ud.nix := by
  intro hall
  have hstamp : ∀ u : Userdata, u.slot .A = singleSlot.slot .A ∨ u.slot .A = singleSlot.nix →
      (u.slot .A).bind NixDir.slotStamp = none := by
    intro u hu
    obtain hu | hu := hu
    · rw [hu]
      rfl
    · rw [hu]
      rfl
  have hnone := hstamp _ ((hall .A bootB singleSlot _ _ Slot.noConfusion (.of_exec _ _)).imp_right
    fun h => h.2.2)
  have hsome : (((slotState bootB).exec disk singleSlot).2.slot .A).bind NixDir.slotStamp =
      some ['1', '\n'] := rfl
  rw [hsome] at hnone
  cases hnone

end BadgeOS.Stage0
