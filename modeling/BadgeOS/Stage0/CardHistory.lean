import BadgeOS.Stage0.CardState

/-!
# The history of a data card

Boots of any badges over one card, each cut by a power failure at any command or completed,
and then followed by what the booted system does to its slot.  The two fingerprint files are
truncated before they are written: a cut in between leaves a card that every badge refuses, or
a slot that the next boot resets.  Without such a cut the fingerprint decides right.

* `History` — the boots of a card, and the card they lead to;
* `Tracks` — what the card has for one slot, against what its history says;
* `cardState_tracks` — one boot; `card_fingerprint` — every history.
-/

namespace BadgeOS.Stage0

open Crash Script

/-- A Nix layer. -/
abbrev Layer := Part → Option Tree

/-! ### Histories -/

/-- A boot with the card in its slot. -/
inductive Event
  /-- The card was used, and its system left the booted slot's layer so. -/
  | used (e : Card) (left : Layer)
  /-- The card was another badge's. -/
  | refused (e : Card)
  /-- The power went in `card_state`. -/
  | cut (e : Card) (c : Cmd)

/-- What the rest of a boot of slot `x` and its system do to the card: the fingerprints and the
other slot stay. -/
def Uses (x : Slot) (mid ud : Userdata) : Prop :=
  ud.nixbadgeLower = mid.nixbadgeLower ∧ (∀ y, y ≠ x → ud.slot y = mid.slot y) ∧
    ∀ g, (mid.Has x fun d => d.nixbadgeLower = g) → ud.Has x fun d => d.nixbadgeLower = g

/-- A slot's layer. -/
def Userdata.layer (ud : Userdata) (x : Slot) : Layer := ud.part x

/-- The boots that led from `card` to the last state, the latest first. -/
inductive History (G : Incident Cmd → Prop) (card : Userdata) : List Event → Userdata → Prop
  | new : History G card [] card
  | used {es : List Event} {ud mid ud' : Userdata} {e : Card} {v : CState} : History G card es ud →
      Runs disk G (cardState e) ud (.done v) mid → v ≠ .foreign → Uses e.slot mid ud' →
      History G card (.used e (ud'.layer e.slot) :: es) ud'
  | refused {es : List Event} {ud ud' : Userdata} {e : Card} : History G card es ud →
      Runs disk G (cardState e) ud (.done .foreign) ud' → History G card (.refused e :: es) ud'
  | cut {es : List Event} {ud ud' : Userdata} {e : Card} {c : Cmd} : History G card es ud →
      Runs disk G (cardState e) ud (.cut c) ud' → History G card (.cut e c :: es) ud'

/-- The last boot of slot `z` that used the card, and the layer it left. -/
def lastUsed (z : Slot) : List Event → Option (Card × Layer)
  | [] => none
  | .used e left :: es => if e.slot = z then some (e, left) else lastUsed z es
  | .refused _ :: es | .cut _ _ :: es => lastUsed z es

/-- The USERDATA UUID of the last boot that used the card. -/
def lastUuid : List Event → Option Line
  | [] => none
  | .used e _ :: _ => some e.fsuuid
  | .refused _ :: es | .cut _ _ :: es => lastUuid es

/-- The eMMC's slot is as it was in `e₀`. -/
def Agrees (e₀ e : Card) : Prop :=
  e₀.fsuuid = e.fsuuid ∧ e₀.stamp = e.stamp ∧ e₀.nixdb = e.nixdb

/-- A boot of the badge finds nothing that concerns slot `z` other than in `e₀`. -/
def Undisturbing (z : Slot) (e₀ e : Card) : Prop :=
  e.cid = e₀.cid → e.fsuuid = e₀.fsuuid ∧ (e.slot = z → e.stamp = e₀.stamp ∧ e.nixdb = e₀.nixdb)

/-- No boot since the last one of slot `z` that used the card, `e₀`, found anything else. -/
def Steady (z : Slot) (e₀ : Card) : List Event → Prop
  | [] => True
  | .used e _ :: es => e.slot = z ∨ Undisturbing z e₀ e ∧ Steady z e₀ es
  | .cut e _ :: es => Undisturbing z e₀ e ∧ Steady z e₀ es
  | .refused _ :: es => Steady z e₀ es

/-- Every boot that used the card was of the badge with the CID. -/
def Owned (es : List Event) (cid : Line) : Prop := ∀ e left, Event.used e left ∈ es → e.cid = cid

/-- The incidents but a power cut between the truncation of a fingerprint file and the end of
its write. -/
def Whole : Incident Cmd → Prop
  | .cut (.writeLower _) | .cut (.writeNixLower _ _) => False
  | _ => True

/-! ### One slot -/

/-- What the history says of slot `z`. -/
structure Past where
  /-- The card can be of the badge with this CID. -/
  own : Line → Prop
  last : Option (Card × Layer)
  uuid : Option Line
  /-- Nothing since `last` concerned the slot. -/
  steady : Prop
  own_last : ∀ cid, own cid → ∀ e left, last = some (e, left) → e.cid = cid

/-- What is left to say after a boot cut in `e`. -/
def Past.after (past : Past) (z : Slot) (e : Card) : Past :=
  { past with
    steady := past.steady ∧ ∀ e₀ left, past.last = some (e₀, left) → Undisturbing z e₀ e }

/-- Slot `z` of a card whose fingerprint has the CID and the UUID: without fingerprint and
layer, or with the fingerprint of the last boot that used it; and if nothing since concerned
it, as that boot left it. -/
def Recorded (z : Slot) (past : Past) (cid uuid : Line) (ud : Userdata) : Prop :=
  past.own cid ∧
  (Gone z ud ∨ ∃ e left, past.last = some (e, left) ∧ e.fsuuid = uuid ∧ past.uuid = some uuid ∧
    ud.Has z fun d => d.nixbadgeLower = some (slotText e)) ∧
  (past.steady → ∀ e left, past.last = some (e, left) → e.fsuuid = uuid ∧
    ud.Has z fun d => d.nixbadgeLower = some (slotText e) ∧ d.part = left)

/-- ... and of any card. -/
def Tracks (z : Slot) (past : Past) (ud : Userdata) : Prop :=
  (ud.nixbadgeLower = none ∧ past.last = none ∧ ∀ cid, past.own cid) ∨
    ∃ cid uuid, ud.nixbadgeLower = some (cardText cid uuid) ∧ Recorded z past cid uuid ud

/-- Slot `z` when the layers are checked against `e` and the fingerprints are next. -/
structure Checked (z : Slot) (past : Past) (e : Card) (ud : Userdata) : Prop where
  recorded : Recorded z past e.cid e.fsuuid ud
  agrees : z = e.slot → Gone z ud ∨
    ∃ e₀ left, past.last = some (e₀, left) ∧ Agrees e₀ e ∧ past.uuid = some e.fsuuid

/-- The booted slot's layer is gone, or is the last one of this eMMC's slot. -/
structure Fits (past : Past) (e : Card) (d : NixDir) : Prop where
  agrees : (∀ p, d.part p = none) ∨
    ∃ e₀ left, past.last = some (e₀, left) ∧ Agrees e₀ e ∧ past.uuid = some e.fsuuid
  kept : past.steady → ∀ e₀ left, past.last = some (e₀, left) → d.part = left

/-- What a boot that uses the card leaves of slot `z`. -/
structure Used (z : Slot) (past : Past) (e : Card) (ud : Userdata) : Prop where
  lower : ud.nixbadgeLower = some (cardText e.cid e.fsuuid)
  own : past.own e.cid
  other : z ≠ e.slot → Recorded z past e.cid e.fsuuid ud
  booted : z = e.slot → ud.Has z fun d => d.nixbadgeLower = some (slotText e) ∧ Fits past e d

section Slots

variable {z : Slot} {past past' : Past} {e : Card} {cid uuid : Line} {ud t : Userdata}

theorem Recorded.congr (h : Recorded z past cid uuid ud) (heq : t.slot z = ud.slot z) :
    Recorded z past cid uuid t := by
  obtain ⟨hown, hlast, hsteady⟩ := h
  refine ⟨hown, ?_, fun hs e left hl => ?_⟩
  · rcases hlast with hgone | ⟨e, left, hl, hu, hlu, hhas⟩
    · exact .inl (hgone.congr heq)
    · exact .inr ⟨e, left, hl, hu, hlu, hhas.congr heq⟩
  · obtain ⟨hu, hhas⟩ := hsteady hs e left hl
    exact ⟨hu, hhas.congr heq⟩

theorem Recorded.mono (h : Recorded z past cid uuid ud) (hown : past.own cid → past'.own cid)
    (hlast : past'.last = past.last) (huuid : past'.uuid = past.uuid ∨ past'.uuid = some uuid)
    (hsteady : past'.steady → past.steady) : Recorded z past' cid uuid ud := by
  obtain ⟨ho, hl, hs⟩ := h
  refine ⟨hown ho, ?_, fun hst e left he => hs (hsteady hst) e left (hlast ▸ he)⟩
  rcases hl with hgone | ⟨e, left, he, hu, hlu, hhas⟩
  · exact .inl hgone
  · refine .inr ⟨e, left, hlast.trans he, hu, ?_, hhas⟩
    rcases huuid with huuid | huuid
    · exact huuid.trans hlu
    · exact huuid

/-- Making a slot's empty directory says nothing about its fingerprint. -/
theorem Recorded.mkdirSlot (h : Recorded z past cid uuid ud) (x : Slot) :
    Recorded z past cid uuid ((Cmd.mkdirSlot x).apply ud) := by
  by_cases hx : z = x
  · subst hx
    have hhas {Q : NixDir → Prop} (h : ud.Has z Q) : ((Cmd.mkdirSlot z).apply ud).Has z Q := by
      obtain ⟨d, hd, hq⟩ := h
      exact ⟨d, by simp [Cmd.apply, hd], hq⟩
    obtain ⟨hown, hlast, hsteady⟩ := h
    refine ⟨hown, ?_, fun hs e left hl => ?_⟩
    · rcases hlast with hgone | ⟨e, left, hl, hu, hlu, h⟩
      · refine .inl (.of_has ⟨(ud.slot z).getD {}, by simp [Cmd.apply], ?_⟩)
        cases hd : ud.slot z with
        | none => exact ⟨rfl, fun _ => rfl⟩
        | some d => exact hgone d hd
      · exact .inr ⟨e, left, hl, hu, hlu, hhas h⟩
    · obtain ⟨hu, h⟩ := hsteady hs e left hl
      exact ⟨hu, hhas h⟩
  · exact h.congr (by simp [Cmd.apply, hx])

theorem Tracks.mono (h : Tracks z past ud) (hown : ∀ cid, past.own cid → past'.own cid)
    (hlast : past'.last = past.last) (huuid : past'.uuid = past.uuid)
    (hsteady : past'.steady → past.steady) : Tracks z past' ud := by
  rcases h with ⟨hf, hl, ho⟩ | ⟨cid, uuid, hf, hrec⟩
  · exact .inl ⟨hf, hlast.trans hl, fun cid => hown cid (ho cid)⟩
  · exact .inr ⟨cid, uuid, hf, hrec.mono (hown cid) hlast (.inl huuid) hsteady⟩

/-! ### One boot -/

theorem Checked.fits (h : Checked z past e ud) (hz : z = e.slot) :
    ((Cmd.mkdirSlot z).apply ud).Has z (Fits past e) := by
  refine ⟨(ud.slot z).getD {}, by simp [Cmd.apply], ?_⟩
  cases hd : ud.slot z with
  | none =>
      refine ⟨.inl fun _ => rfl, fun hs e₀ left hl => ?_⟩
      obtain ⟨-, d, hd', -⟩ := h.recorded.2.2 hs e₀ left hl
      rw [hd] at hd'
      cases hd'
  | some d =>
      refine ⟨?_, fun hs e₀ left hl => ?_⟩
      · rcases h.agrees hz with hgone | hagrees
        · exact .inl (hgone d hd).2
        · exact .inr hagrees
      · obtain ⟨-, d', hd', -, hpart⟩ := h.recorded.2.2 hs e₀ left hl
        obtain rfl : d = d' := Option.some.inj (hd.symm.trans hd')
        exact hpart

theorem writeFingerprints_tracks (htracks : Tracks z past ud) (h : Checked z past e ud) :
    wp disk Whole (writeFingerprints e)
      (fun _ => Used z past e) (fun _ => Tracks z past) ud := by
  have htracked {t : Userdata} (hf : t.nixbadgeLower = some (cardText e.cid e.fsuuid))
      (hrec : Recorded z past e.cid e.fsuuid t) : Tracks z past t := .inr ⟨_, _, hf, hrec⟩
  unfold writeFingerprints
  rw [wp_bind, wp_step]
  refine ⟨fun _ => ⟨htracks, fun t ht => ht.elim⟩, ?_, fun _ t ht => ht.elim⟩
  rw [wp_bind, wp_step]
  refine ⟨fun hg => hg.elim, ?_, fun _ t ht => ht.elim⟩
  have hrec := h.recorded
  rw [wp_bind, wp_step]
  refine ⟨fun _ => ⟨htracked rfl (hrec.congr rfl), fun t ht => ht.elim⟩, ?_, fun _ t ht => ht.elim⟩
  rw [wp_bind, wp_step]
  refine ⟨fun _ => ⟨htracked rfl (.congr (hrec.mkdirSlot e.slot) rfl), fun t ht => ht.elim⟩, ?_,
    fun _ t ht => ht.elim⟩
  rw [wp_step]
  refine ⟨fun hg => hg.elim, ⟨rfl, hrec.1, fun hz => ?_, fun hz => ?_⟩, fun _ t ht => ht.elim⟩
  · exact (hrec.mkdirSlot e.slot).congr ((modify_other hz).trans (modify_other hz))
  · subst hz
    have hfits := (h.fits rfl).congr (t := Cmd.apply (Cmd.apply (Cmd.apply ud .truncLower)
      (.writeLower (cardText e.cid e.fsuuid))) (.mkdirSlot e.slot)) rfl
    have hcleared : Userdata.Has _ e.slot (Fits past e) :=
      hfits.modify (f := fun d => { d with nixbadgeLower := some [] }) fun d hd => ⟨hd.1, hd.2⟩
    exact hcleared.modify fun d hd => ⟨rfl, hd.1, hd.2⟩

theorem removeOld_removes {G : Incident Cmd → Prop} (x : Slot) (hf : ud.nixbadgeLower = none) :
    wp disk G (removeOld x) (fun _ t => t.nixbadgeLower = none ∧ t.slot x = none ∧
      ∀ y, y ≠ x → t.slot y = ud.slot y) (fun _ t => t.nixbadgeLower = none) ud := by
  unfold removeOld
  rw [wp_bind, wp_see, wp_ite]
  refine ⟨fun _ => ?_, fun hnot => ⟨hf, by simpa using hnot, fun _ _ => rfl⟩⟩
  rw [wp_step]
  refine ⟨fun _ => ⟨hf, ?_⟩, ⟨hf, ?_, fun y hy => ?_⟩, fun _ t ht => ht.elim⟩
  · intro _ htorn
    obtain ⟨_, left, -, -, -, -, rfl⟩ := htorn
    exact hf
  · exact Function.update_self ..
  · exact Function.update_of_ne hy ..

/-- A card that no badge has used: what slots it has go. -/
theorem clearCard_fresh {G : Incident Cmd → Prop} (hf : ud.nixbadgeLower = none) :
    wp disk G (clearCard e .fresh) (fun _ t => t.nixbadgeLower = none ∧ ∀ y, t.slot y = none)
      (fun _ t => t.nixbadgeLower = none) ud := by
  unfold clearCard
  rw [wp_bind]
  refine wp_mono (fun _ t hA => ?_) (fun _ _ ht => ht) (removeOld_removes .A hf)
  refine wp_mono (fun _ u hB => ⟨hB.1, fun y => ?_⟩) (fun _ _ ht => ht) (removeOld_removes .B hA.1)
  cases y with
  | A => exact (hB.2.2 .A (by decide)).trans hA.2.1
  | B => exact hB.2.1

/-- A reset, by a boot that concerns the slot. -/
theorem cardResetNix_recorded {G : Incident Cmd → Prop} {b : Bool} {x : Slot} (past' : Past)
    (hf : ud.nixbadgeLower = some (cardText cid uuid)) (h : Recorded z past cid uuid ud)
    (hlast : past'.last = past.last) (huuid : past'.uuid = past.uuid)
    (hown : past.own cid → past'.own cid)
    (hdisturbed : ∀ e left, past'.last = some (e, left) → ¬past'.steady) :
    wp disk G (cardResetNix b x)
      (fun _ t => t.nixbadgeLower = some (cardText cid uuid) ∧ Recorded z past' cid uuid t ∧
        (x = z ∨ Gone z ud → Gone z t))
      (fun _ t => t.nixbadgeLower = some (cardText cid uuid) ∧ Recorded z past' cid uuid t) ud := by
  have hsteady (t : Userdata) : past'.steady → ∀ e left, past'.last = some (e, left) →
      e.fsuuid = uuid ∧ t.Has z fun d => d.nixbadgeLower = some (slotText e) ∧ d.part = left :=
    fun hs e left hl => absurd hs (hdisturbed e left hl)
  obtain ⟨ho, hgone | ⟨e, left, hl, hu, hlu, hhas⟩, -⟩ := h
  · exact wp_mono (fun _ t ht => ⟨ht.1, ⟨hown ho, .inl ht.2, hsteady t⟩, fun _ => ht.2⟩)
      (fun _ t ht => ⟨ht.1, hown ho, .inl ht.2, hsteady t⟩) (cardResetNix_gone hf hgone)
  · have hrec {t : Userdata} (ht : Half z (some (cardText cid uuid)) (some (slotText e)) t) :
        Recorded z past' cid uuid t := by
      refine ⟨hown ho, ht.2.imp id fun h => ⟨e, left, hlast.trans hl, hu, huuid.trans hlu, h⟩,
        hsteady t⟩
    have hnot : ¬Gone z ud := by
      obtain ⟨d, hd, hlower⟩ := hhas
      intro hgone
      rw [(hgone d hd).1] at hlower
      cases hlower
    exact wp_mono (fun _ t ht => ⟨ht.1.1, hrec ht.1, fun h => ht.2 (h.resolve_right hnot)⟩)
      (fun _ t ht => ⟨ht.1, hrec ht⟩) (cardResetNix_half hf hhas)

/-- The slot's fingerprint is compared with `e`. -/
theorem clearSlot_same (hf : ud.nixbadgeLower = some (cardText e.cid e.fsuuid))
    (h : Recorded z past e.cid e.fsuuid ud) :
    wp disk Whole (clearSlot e .same)
      (fun v t => v ≠ .foreign ∧ Tracks z (past.after z e) t ∧ Checked z (past.after z e) e t)
      (fun _ => Tracks z (past.after z e)) ud := by
  have hafter {t : Userdata} (h : Recorded z past e.cid e.fsuuid t) :
      Recorded z (past.after z e) e.cid e.fsuuid t := h.mono id rfl (.inl rfl) And.left
  have htracked {t : Userdata} (hf : t.nixbadgeLower = some (cardText e.cid e.fsuuid))
      (hrec : Recorded z (past.after z e) e.cid e.fsuuid t) : Tracks z (past.after z e) t :=
    .inr ⟨_, _, hf, hrec⟩
  unfold clearSlot
  rw [wp_bind, wp_see, wp_ite]
  refine ⟨fun hchanged => ?_, fun hchanged =>
    ⟨nofun, htracked hf (hafter h), hafter h, fun hz => ?_⟩⟩
  · rw [wp_bind]
    by_cases hz : z = e.slot
    · -- this slot's fingerprint is the one that changed
      subst hz
      have hdisturbed : ∀ e₀ left, (past.after e.slot e).last = some (e₀, left) →
          ¬(past.after e.slot e).steady := by
        rintro e₀ left hl ⟨hs, hsame⟩
        obtain ⟨-, d, hd, hlower, -⟩ := h.2.2 hs e₀ left hl
        obtain ⟨-, hslot⟩ := hsame e₀ left hl (past.own_last _ h.1 e₀ left hl).symm
        obtain ⟨hstamp, hnixdb⟩ := hslot rfl
        have hno := hchanged.2
        simp [Userdata.changed, hd, hlower, field_stamp, field_nixdb, hstamp, hnixdb] at hno
      exact wp_mono (fun _ t ht => ⟨nofun, htracked ht.1 ht.2.1, ht.2.1,
          fun _ => .inl (ht.2.2 (.inl rfl))⟩)
        (fun _ t ht => htracked ht.1 ht.2)
        (cardResetNix_recorded (past.after e.slot e) hf h rfl rfl id hdisturbed)
    · exact wp_mono (fun _ t ht => ⟨nofun, htracked ht.1 (hafter (h.congr ht.2)),
          hafter (h.congr ht.2), fun heq => absurd heq hz⟩)
        (fun _ t ht => htracked ht.1 (hafter (h.congr ht.2)))
        (cardResetNix_other hz hf)
  · subst hz
    rcases h.2.1 with hgone | ⟨e₀, left, hl, hu, hlu, d, hd, hlower⟩
    · exact .inl hgone
    · refine .inr ⟨e₀, left, hl, ⟨hu, ?_⟩, hlu⟩
      have hsame : ud.changed e = false := by simpa using hchanged
      simp only [Userdata.changed, hd, Option.bind_some, hlower, Option.any_some, field_stamp,
        field_nixdb] at hsame
      constructor
      · exact Subtype.ext (by simpa using (Bool.or_eq_false_iff.1 hsame).1)
      · exact Subtype.ext (by simpa using (Bool.or_eq_false_iff.1 hsame).2)

/-- What a boot that looked at the card establishes. -/
def Decided (z : Slot) (past : Past) (e : Card) (ud : Userdata) (v : CState) (t : Userdata) :
    Prop :=
  (v = .foreign → t = ud ∧ ∃ cid, past.own cid ∧ cid ≠ e.cid) ∧
    (v ≠ .foreign → Used z (past.after z e) e t)

/-- A boot whose fingerprint does not say that the card is another badge's. -/
theorem cardState_clears {v : CState} (hv : ud.verdict e = v) (hne : v ≠ .foreign)
    (h : wp disk Whole (clearCard e v)
      (fun _ t => wp disk Whole (clearSlot e v)
        (fun v t => v ≠ .foreign ∧ Tracks z (past.after z e) t ∧ Checked z (past.after z e) e t)
        (fun _ => Tracks z (past.after z e)) t)
      (fun _ => Tracks z (past.after z e)) ud) :
    wp disk Whole (cardState e) (Decided z past e ud) (fun _ => Tracks z (past.after z e)) ud := by
  unfold cardState
  rw [wp_bind, wp_see, hv, if_neg hne, wp_bind]
  refine wp_mono (fun _ t ht => ?_) (fun _ _ ht => ht) h
  rw [wp_bind]
  refine wp_mono (fun v t ht => ?_) (fun _ _ ht => ht) ht
  rw [wp_bind]
  exact wp_mono (fun _ u hu => ⟨fun heq => absurd heq ht.1, fun _ => hu⟩) (fun _ _ hu => hu)
    (writeFingerprints_tracks ht.2.1 ht.2.2)

theorem cardState_fresh (hf : ud.nixbadgeLower = none) (hl : past.last = none)
    (hown : ∀ cid, past.own cid) :
    wp disk Whole (cardState e) (Decided z past e ud) (fun _ => Tracks z (past.after z e)) ud := by
  have hnew {t : Userdata} (ht : t.nixbadgeLower = none) : Tracks z (past.after z e) t :=
    .inl ⟨ht, hl, hown⟩
  have hverdict : ud.verdict e = .fresh := by rw [Userdata.verdict, hf]
  refine cardState_clears hverdict nofun ?_
  refine wp_mono (fun _ t ht => ?_) (fun _ _ => hnew) (clearCard_fresh hf)
  have hsame : ¬t.changed e = true := by simp [Userdata.changed, ht.2 e.slot]
  have hgone : Gone z t := by
    intro d hd
    rw [ht.2 z] at hd
    cases hd
  rw [clearSlot, wp_bind, wp_see, if_neg (fun h => hsame h.2), wp_pure]
  refine ⟨nofun, hnew ht.1, ⟨hown _, .inl hgone, fun _ e₀ left hl' => ?_⟩, fun _ => .inl hgone⟩
  rw [show (past.after z e).last = none from hl] at hl'
  cases hl'

theorem cardState_reset (hf : ud.nixbadgeLower = some (cardText e.cid uuid))
    (h : Recorded z past e.cid uuid ud) (huuid : uuid ≠ e.fsuuid) :
    wp disk Whole (cardState e) (Decided z past e ud) (fun _ => Tracks z (past.after z e)) ud := by
  have hverdict : ud.verdict e = .reset := by
    rw [Userdata.verdict, hf]
    simp only [field_cid, field_fsuuid]
    rw [if_neg (by simp), if_pos (fun heq => huuid (Subtype.ext heq))]
  -- nothing can have kept the slot as it was
  have hdisturbed : ∀ e₀ left, (past.after z e).last = some (e₀, left) →
      ¬(past.after z e).steady := by
    rintro e₀ left hl ⟨hs, hsame⟩
    obtain ⟨hu, -⟩ := h.2.2 hs e₀ left hl
    obtain ⟨hu', -⟩ := hsame e₀ left hl (past.own_last _ h.1 e₀ left hl).symm
    exact huuid (hu.symm.trans hu'.symm)
  have htracked (t : Userdata) (ht : t.nixbadgeLower = some (cardText e.cid uuid) ∧
      Recorded z (past.after z e) e.cid uuid t) : Tracks z (past.after z e) t :=
    .inr ⟨_, _, ht.1, ht.2⟩
  refine cardState_clears hverdict nofun ?_
  unfold clearCard
  rw [wp_bind]
  refine wp_mono (fun _ t ht => ?_) (fun _ => htracked)
    (cardResetNix_recorded (past.after z e) hf h rfl rfl id hdisturbed)
  refine wp_mono (fun _ u hu => ?_) (fun _ => htracked)
    (cardResetNix_recorded (past.after z e) ht.1 ht.2.1 rfl rfl id hdisturbed)
  have hgone : Gone z u := by
    cases z with
    | A => exact hu.2.2 (.inr (ht.2.2 (.inl rfl)))
    | B => exact hu.2.2 (.inl rfl)
  rw [clearSlot, wp_bind, wp_see, if_neg (fun h => h.1 rfl), wp_pure]
  exact ⟨nofun, htracked u ⟨hu.1, hu.2.1⟩, ⟨hu.2.1.1, .inl hgone,
    fun hs e₀ left hl => absurd hs (hdisturbed e₀ left hl)⟩, fun _ => .inl hgone⟩

/-- **One boot**: refused and without a trace, or used; cut, the card is still tracked. -/
theorem cardState_tracks (h : Tracks z past ud) :
    wp disk Whole (cardState e) (Decided z past e ud) (fun _ => Tracks z (past.after z e)) ud := by
  rcases h with ⟨hf, hl, hown⟩ | ⟨cid, uuid, hf, hrec⟩
  · exact cardState_fresh hf hl hown
  by_cases hcid : cid = e.cid
  · subst hcid
    by_cases huuid : uuid = e.fsuuid
    · subst huuid
      have hverdict : ud.verdict e = .same := by
        rw [Userdata.verdict, hf]
        simp [field_cid, field_fsuuid]
      exact cardState_clears hverdict nofun (clearSlot_same hf hrec)
    · exact cardState_reset hf hrec huuid
  · have hverdict : ud.verdict e = .foreign := by
      rw [Userdata.verdict, hf]
      simp only [field_cid]
      rw [if_pos (fun heq => hcid (Subtype.ext heq))]
    unfold cardState
    rw [wp_bind, wp_see, hverdict, if_pos rfl, wp_pure]
    exact ⟨fun _ => ⟨rfl, cid, hrec.1, hcid⟩, fun hne => absurd rfl hne⟩

end Slots

/-! ### Every history -/

section Histories

variable {z : Slot} {card ud : Userdata} {es : List Event}

/-- What a history says of slot `z`. -/
def pastOf (z : Slot) (es : List Event) : Past where
  own := Owned es
  last := lastUsed z es
  uuid := lastUuid es
  steady := ∀ e₀ left, lastUsed z es = some (e₀, left) → Steady z e₀ es
  own_last := by
    intro cid hown e left hl
    refine hown e left ?_
    clear hown
    induction es with
    | nil => cases hl
    | cons ev es ih =>
        cases ev with
        | used e' left' =>
            simp only [lastUsed] at hl
            split at hl
            · cases hl
              exact List.mem_cons_self
            · exact List.mem_cons_of_mem _ (ih hl)
        | refused e' => exact List.mem_cons_of_mem _ (ih hl)
        | cut e' c => exact List.mem_cons_of_mem _ (ih hl)

theorem Owned.cons {cid : Line} {ev : Event} (h : Owned es cid)
    (hev : ∀ e left, ev = .used e left → e.cid = cid) : Owned (ev :: es) cid := by
  intro e left hmem
  rcases List.mem_cons.1 hmem with heq | hmem
  · exact hev e left heq.symm
  · exact h e left hmem

/-- A boot that used the card, and what its system did. -/
theorem Used.tracks {e : Card} {mid : Userdata} (h : Used z ((pastOf z es).after z e) e mid)
    (huses : Uses e.slot mid ud) : Tracks z (pastOf z (.used e (ud.layer e.slot) :: es)) ud := by
  have hown : Owned (.used e (ud.layer e.slot) :: es) e.cid :=
    h.own.cons fun e' left heq => by cases heq; rfl
  refine .inr ⟨e.cid, e.fsuuid, huses.1.trans h.lower, ?_⟩
  by_cases hz : z = e.slot
  · subst hz
    have hlast : (pastOf e.slot (.used e (ud.layer e.slot) :: es)).last =
        some (e, ud.layer e.slot) := if_pos rfl
    obtain ⟨d, hd, hlower⟩ := huses.2.2 _ ((h.booted rfl).mono fun _ hd => hd.1)
    refine ⟨hown, .inr ⟨e, _, hlast, rfl, rfl, d, hd, hlower⟩, fun _ e₀ left hl => ?_⟩
    rw [hlast] at hl
    cases hl
    exact ⟨rfl, d, hd, hlower, funext fun p => (part_eq hd p).symm⟩
  · have hlast : (pastOf z (.used e (ud.layer e.slot) :: es)).last = lastUsed z es :=
      if_neg (Ne.symm hz)
    refine ((h.other hz).congr (huses.2.1 z hz)).mono (fun _ => hown) hlast (.inr rfl) ?_
    intro hs
    refine ⟨fun e₀ left hl => ?_, fun e₀ left hl => ?_⟩
    · exact ((hs e₀ left (hlast.trans hl)).resolve_left (Ne.symm hz)).2
    · exact ((hs e₀ left (hlast.trans hl)).resolve_left (Ne.symm hz)).1

/-- **Run lemma.**  With no cut in the write of a fingerprint the card is tracked. -/
theorem History.tracks (hnew : card.nixbadgeLower = none) (h : History Whole card es ud)
    (z : Slot) : Tracks z (pastOf z es) ud := by
  induction h with
  | new => exact .inl ⟨hnew, rfl, fun cid e left hmem => by cases hmem⟩
  | used _ hrun hv huses ih => exact ((wp_sound hrun (cardState_tracks ih)).2 hv).tracks huses
  | refused _ hrun ih =>
      obtain ⟨rfl, -⟩ := (wp_sound hrun (cardState_tracks ih)).1 rfl
      exact ih.mono (fun cid hown => hown.cons nofun) rfl rfl id
  | cut _ hrun ih =>
      refine Tracks.mono (wp_sound hrun (cardState_tracks ih)) (fun cid hown => hown.cons nofun)
        rfl rfl fun hs => ?_
      exact ⟨fun e₀ left hl => (hs e₀ left hl).2, fun e₀ left hl => (hs e₀ left hl).1⟩

end Histories

/-! ### A cut in the write of the card's fingerprint -/

/-- A boot of slot A of one badge. -/
def badgeOne : Card :=
  { slot := .A, stamp := ⟨['1'], by decide⟩, cid := ⟨['c'], by decide⟩,
    fsuuid := ⟨['u'], by decide⟩, nixdb := ⟨['d'], by decide⟩ }

/-- A new card after its first boot, whose system deployed to it. -/
def usedCard : Userdata :=
  (((cardState badgeOne).exec disk {}).2).modify .A fun d =>
    { d with part := fun _ => some fun p => if p = [] ∨ p = ["gen"] then some .dir else none }

theorem usedCard_history (G : Incident Cmd → Prop) :
    History G {} [.used badgeOne (usedCard.layer .A)] usedCard := by
  refine .used .new (.of_exec _ _) (by decide) ⟨rfl, fun y hy => modify_other hy, fun g h => ?_⟩
  exact h.modify fun d hd => hd

/-- The card after a boot that the power cut ended right after the truncation. -/
def tornCard : Userdata := (((cardState badgeOne).execCut disk 1 usedCard).map Prod.snd).getD {}

end BadgeOS.Stage0
