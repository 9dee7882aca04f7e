import BadgeOS.Stage0.SlotState

/-!
# Power cuts in `slot_state`

Which power cuts cost a slot its Nix state.  `.slot-stamp` is truncated and rewritten on every
boot, and a short one reads as another root hash, so a cut there makes the next boot reset the
slot; so does a cut between the two renames of the migration, which leaves the stamp behind.
Every other cut is survived.

* `Kept.slotState` — such a boot, of either slot, leaves a kept slot kept;
* `Vouched.slotState` — a boot cut anywhere leaves no stamp over a `var` that is not the seed;
* `slot_state_survives` — both, over any sequence of boots.
-/

namespace BadgeOS.Stage0

open Crash Script

variable {z : Slot} {s : RootHash} {b : Boot} {ud : Userdata} {Q : NixDir → Prop}
  {G : Incident Cmd → Prop} {crash : Cmd → Userdata → Prop}

/-! ### Segments -/

/-- The migration, and what its two renames have to establish. -/
theorem wp_migrate {post : Unit → Userdata → Prop} (hskip : ud.shared = false → post () ud)
    (hmove : ∀ d, ud.slot .A = none → ud.nix = some d → d.nonempty = true →
      crash .mvNix ud ∧ (G (.fail .mvNix) → post () ud) ∧
      (ud.slotStamp = none → post () (Cmd.mvNix.apply ud)) ∧
      (G (.cut .mvStamp) → crash .mvStamp (Cmd.mvNix.apply ud)) ∧
      (G (.fail .mvStamp) → post () (Cmd.mvNix.apply ud)) ∧
      (ud.slotStamp ≠ none → post () (Cmd.mvStamp.apply (Cmd.mvNix.apply ud)))) :
    wp disk G migrate post crash ud := by
  unfold migrate
  rw [wp_bind, wp_see, wp_ite]
  refine ⟨fun hshared => ?_, fun hshared => hskip (by simpa using hshared)⟩
  obtain ⟨d, hA, hnix, hne⟩ : ∃ d, ud.slot .A = none ∧ ud.nix = some d ∧ d.nonempty = true := by
    cases hnix : ud.nix <;> simp [Userdata.shared, hnix] at hshared ⊢
    exact hshared
  obtain ⟨hbefore, hfail, hplain, hgap, hstay, hdone⟩ := hmove d hA hnix hne
  rw [wp_bind, wp_run]
  refine ⟨fun _ => ⟨hbefore, fun t ht => ht.elim⟩, ?_, fun hg t ht => ?_⟩
  · rw [wp_ite]
    refine ⟨fun _ => ?_, fun h => absurd rfl h⟩
    rw [wp_bind, wp_see, wp_ite]
    refine ⟨fun hstamp => ?_, fun hstamp => hplain (by simpa [disk, Cmd.apply] using hstamp)⟩
    rw [wp_bind, wp_run]
    refine ⟨fun hg => ⟨hgap hg, fun t ht => ht.elim⟩, ?_, fun hg t ht => ?_⟩
    · exact hdone (by simpa [disk, Cmd.apply, Option.isSome_iff_ne_none] using hstamp)
    · obtain rfl : t = _ := ht
      exact hstay hg
  · obtain rfl : t = ud := ht
    rw [if_neg (show ¬(false = true) by decide)]
    exact hfail hg

/-- After its migration `slot_state` keeps to its own slot. -/
theorem ready_of (b : Boot) : (ready b).All (Cmd.Of b.slot) := by
  have hreset (old : Text) : (reset b old).All (Cmd.Of b.slot) :=
    .ite (.bind (.step rfl) fun _ => .bind (.step rfl) fun _ => .step rfl) trivial
  have hpopulate : (populate b).All (Cmd.Of b.slot) :=
    .bind (.run rfl) fun _ => .ite (.run rfl) trivial
  have hseed : (seed b).All (Cmd.Of b.slot) :=
    .bind (fun _ => trivial) fun _ => .ite trivial <| .bind hpopulate fun _ =>
      .ite trivial (.bind (.step rfl) fun _ => trivial)
  have hstamp (ok : Bool) : (stampSlot b ok).All (Cmd.Of b.slot) :=
    .ite (.bind (.step rfl) fun _ => .step rfl) trivial
  have hfurnish : (furnish b).All (Cmd.Of b.slot) :=
    .bind (.step rfl) fun _ => .bind (.step rfl) fun _ => .bind hseed fun _ =>
      .bind (hstamp _) fun _ => trivial
  exact .bind (.step rfl) fun _ => .bind (.step trivial) fun _ => .bind (fun _ => trivial) fun _ =>
    .bind (hreset _) fun _ => hfurnish

/-- A rewrite of the stamp, over a directory for whose state the stamp does not matter. -/
theorem stampSlot_stamps (hQ : ∀ d t, Q d → Q { d with slotStamp := t }) (hne : b.stamp ≠ [])
    (h : ud.Has b.slot Q) (htrunc : crash (.truncStamp b.slot) ud)
    (hwrite : G (.cut (.writeStamp b.slot (b.stamp ++ ['\n']))) → ∀ t, t.Has b.slot Q →
      crash (.writeStamp b.slot (b.stamp ++ ['\n'])) t) :
    wp disk G (stampSlot b true) (fun _ t => t.Has b.slot fun d =>
      Q d ∧ d.slotStamp = some (b.stamp ++ ['\n'])) crash ud := by
  have hset (text : Text) {ud : Userdata} (hud : ud.Has b.slot Q) :
      ((Cmd.writeStamp b.slot text).apply ud).Has b.slot fun d =>
        Q d ∧ d.slotStamp = some text :=
    hud.modify fun d hd => ⟨hQ d _ hd, rfl⟩
  have htruncated : ((Cmd.truncStamp b.slot).apply ud).Has b.slot Q :=
    h.modify fun d hd => hQ d _ hd
  unfold stampSlot
  rw [if_pos ⟨hne, rfl⟩, wp_bind, wp_step]
  refine ⟨fun _ => ⟨htrunc, fun t ht => ht.elim⟩, ?_, fun _ t ht => ht.elim⟩
  rw [wp_step]
  refine ⟨fun hg => ⟨hwrite hg _ htruncated, ?_⟩, hset _ htruncated, fun _ t ht => ht.elim⟩
  intro _ hn
  obtain ⟨n, rfl⟩ := hn
  exact hwrite hg _ ((hset _ htruncated).mono fun _ hd => hd.1)

/-! ### A kept slot -/

section Kept

variable {upper var : Tree}

/-- A boot of the other slot, or a step of it, leaves the slot's directory alone. -/
theorem Cmd.Of.keeps {x : Slot} {c : Cmd} (hc : c.Of x) (hx : z ≠ x) :
    disk.Keeps (fun ud => ud.Has z Q) c :=
  keeps_of_leaves fun _ _ h hleaves => h.congr ((hc.frame hleaves).1 z hx)

theorem Kept.migrate (h : Kept z s.text upper var ud) :
    wp disk (Careful z) migrate (fun _ => Settled z s.text upper var)
      (fun _ => Kept z s.text upper var) ud := by
  refine wp_migrate (fun hshared => ?_) fun d hA hnix hne => ?_
  · rcases h with h | ⟨-, hA, hstamp, d, hnix, hupper, hvar⟩
    · exact h
    · simp [Userdata.shared, hA, hnix, NixDir.nonempty, hupper] at hshared
  · rcases h with h | ⟨rfl, -, hstamp, d', hnix', hupper, hvar⟩
    · -- slot A has no directory, so it is slot B that is kept
      have hz : z ≠ .A := by
        intro heq
        subst heq
        obtain ⟨e, he, -⟩ := h
        rw [hA] at he
        cases he
      have hmoved : Settled z s.text upper var (Cmd.mvNix.apply ud) :=
        h.congr (by simp [Cmd.apply, hz])
      have hstamped : Settled z s.text upper var (Cmd.mvStamp.apply (Cmd.mvNix.apply ud)) :=
        hmoved.congr (modify_other hz)
      exact ⟨.inl h, fun _ => h, fun _ => hmoved, fun _ => .inl hmoved, fun _ => hmoved,
        fun _ => hstamped⟩
    · obtain rfl : d = d' := Option.some.inj (hnix.symm.trans hnix')
      refine ⟨.inr ⟨rfl, hA, hstamp, d, hnix, hupper, hvar⟩, fun hg => absurd rfl hg,
        fun hnone => ?_, fun hg => absurd rfl hg, fun hg => absurd rfl hg, fun _ => ?_⟩
      · rw [hnone] at hstamp
        exact absurd hstamp s.ne_none
      · have hmoved : (Cmd.mvNix.apply ud).Has .A fun d =>
            d.part .upper = some upper ∧ d.part .var = some var :=
          ⟨d, by simp [Cmd.apply, hnix], hupper, hvar⟩
        exact hmoved.modify fun d hd => ⟨hstamp, hd⟩

theorem Settled.ready (hslot : b.slot = z) (hstamp : b.stamp = s.text)
    (h : Settled z s.text upper var ud) :
    wp disk (Careful z) (ready b) (fun _ => Settled z s.text upper var)
      (fun _ => Settled z s.text upper var) ud := by
  subst hslot
  have hkeep : ∀ c, c = .mkdirNix ∨ c = .mkdirSlot b.slot ∨ c = .mkdir b.slot .upper ∨
      c = .mkdir b.slot .work → disk.Keeps (Settled b.slot s.text upper var) c := by
    refine fun c hc => keeps_mkdir (fun d p hd hnone hp => ?_) hc
    have hp' : Part.upper ≠ p := by
      intro heq
      subst heq
      rw [hd.2.1] at hnone
      cases hnone
    exact ⟨hd.1, (setPart_other hp' _).trans hd.2.1, (setPart_other hp.symm _).trans hd.2.2⟩
  unfold Stage0.ready
  rw [wp_bind]
  apply wp_keeps (hkeep _ (.inr (.inl rfl))) h (fun _ ht => ht)
  intro ud h
  rw [wp_bind]
  apply wp_keeps (hkeep _ (.inl rfl)) h (fun _ ht => ht)
  intro ud h
  -- the stamp is the one of this boot: no reset
  have hold : ud.old b.slot = b.stamp := by
    obtain ⟨d, hd, hd'⟩ := h
    rw [Userdata.old, hd, hstamp]
    exact hd'.1
  rw [wp_bind, wp_see, wp_bind, reset, if_neg (fun hreset => hreset.2 hold), wp_pure, furnish,
    wp_bind]
  apply wp_keeps (hkeep _ (.inr (.inr (.inl rfl)))) h (fun _ ht => ht)
  intro ud h
  rw [wp_bind]
  apply wp_keeps (hkeep _ (.inr (.inr (.inr rfl)))) h (fun _ ht => ht)
  intro ud h
  -- nor a seeding
  rw [wp_bind]
  have hvar : ud.Has b.slot fun d => (catStamp d.slotStamp = s.text ∧
      d.part .upper = some upper ∧ d.part .var = some var) ∧ ∃ v, d.part .var = some v :=
    h.mono fun d hd => ⟨hd, _, hd.2.2⟩
  refine wp_mono ?_ (fun _ _ ht => ht) (seed_present hvar)
  rintro ok ud ⟨rfl, h⟩
  rw [wp_bind]
  have hlayer := h.mono fun d hd => hd.2
  refine wp_mono (fun _ t ht => ?_) (fun _ _ ht => ht) (stampSlot_stamps (fun _ _ hd => hd)
    (hstamp ▸ s.nonempty) hlayer h fun hg => absurd rfl hg)
  refine Userdata.Has.mono ht fun d hd => ⟨?_, hd.1⟩
  rw [hd.2, hstamp]
  exact s.cat_line

/-- **A careful boot**, of either slot, leaves a kept slot kept, and settled when it ends. -/
theorem Kept.slotState (h : Kept z s.text upper var ud) (hb : b.slot = z → b.stamp = s.text) :
    wp disk (Careful z) (slotState b) (fun _ => Settled z s.text upper var)
      (fun _ => Kept z s.text upper var) ud := by
  unfold Stage0.slotState
  rw [wp_bind]
  refine wp_mono (fun _ ud h => ?_) (fun _ _ ht => ht) h.migrate
  by_cases hslot : b.slot = z
  · exact wp_mono (fun _ _ ht => ht) (fun _ _ ht => .inl ht) (h.ready hslot (hb hslot))
  · exact wp_mono (fun _ _ ht => ht) (fun _ _ ht => .inl ht)
      (wp_frame (fun c hc => hc.keeps (Ne.symm hslot)) (ready_of b) h)

end Kept

/-! ### A slot that is not the stamp's yet -/

section Vouched

variable {profiles : Tree}

/-- `var` is there and has the whole seed. -/
def HasSeed (profiles : Tree) (d : NixDir) : Prop :=
  ∃ v, d.part .var = some v ∧ Seeded profiles v

/-- The stamp is not the directory's, or vouches for the seed. -/
def Backed (s : Text) (profiles : Tree) (d : NixDir) : Prop :=
  catStamp d.slotStamp = s → HasSeed profiles d

/-- Nothing that a boot of `z` would take for the slot's state has the stamp without the seed. -/
def Vouched (z : Slot) (s : Text) (profiles : Tree) (ud : Userdata) : Prop :=
  (∀ d, ud.slot z = some d → Backed s profiles d) ∧
    (z = .A → ud.slot .A = none →
      catStamp ud.slotStamp ≠ s ∧ ∀ d, ud.nix = some d → catStamp d.slotStamp ≠ s)

theorem Vouched.of_not_stamped (h : ¬Stamped z s.text ud) : Vouched z s.text profiles ud := by
  unfold Stamped at h
  refine ⟨fun d hd hstamp => ?_, ?_⟩
  · rw [hd] at h
    exact absurd hstamp h
  · rintro rfl hA
    rw [hA] at h
    exact ⟨fun hstamp => h ⟨rfl, .inl hstamp⟩, fun d hd hstamp => h ⟨rfl, .inr ⟨d, hd, hstamp⟩⟩⟩

theorem Vouched.of_has {s : Text} (h : ud.Has z (Backed s profiles)) : Vouched z s profiles ud := by
  obtain ⟨d, hd, hbacked⟩ := h
  refine ⟨fun e he => ?_, ?_⟩
  · obtain rfl : d = e := Option.some.inj (hd.symm.trans he)
    exact hbacked
  · rintro rfl hnone
    rw [hd] at hnone
    cases hnone

theorem Vouched.of_slotB {s : Text} {t : Userdata} (h : Vouched .B s profiles ud)
    (heq : t.slot .B = ud.slot .B) : Vouched .B s profiles t :=
  ⟨fun d hd => h.1 d (heq ▸ hd), fun hz => by cases hz⟩

theorem Vouched.migrate (h : Vouched z s.text profiles ud) :
    wp disk G migrate (fun _ => Vouched z s.text profiles) (fun _ => Vouched z s.text profiles)
      ud := by
  apply wp_migrate (fun _ => h)
  intro d hA hnix _
  cases z with
  | A =>
      obtain ⟨hstamp, hnixStamp⟩ := h.2 rfl hA
      have hmoved : (Cmd.mvNix.apply ud).Has .A fun d => catStamp d.slotStamp ≠ s.text :=
        ⟨d, by simp [Cmd.apply, hnix], hnixStamp d hnix⟩
      have hstamped : (Cmd.mvStamp.apply (Cmd.mvNix.apply ud)).Has .A (Backed s.text profiles) :=
        hmoved.modify fun d _ heq => absurd heq hstamp
      have hv : Vouched .A s.text profiles (Cmd.mvNix.apply ud) :=
        .of_has (hmoved.mono fun d hd heq => absurd heq hd)
      exact ⟨h, fun _ => h, fun _ => hv, fun _ => hv, fun _ => hv, fun _ => .of_has hstamped⟩
  | B =>
      have hv : Vouched .B s.text profiles (Cmd.mvNix.apply ud) := h.of_slotB rfl
      exact ⟨h, fun _ => h, fun _ => hv, fun _ => hv, fun _ => hv, fun _ => hv.of_slotB rfl⟩

/-- Steps of the other slot's boot. -/
theorem Vouched.keeps {x : Slot} {c : Cmd} (hc : c.Of x) (hx : z ≠ x) :
    disk.Keeps (Vouched z s.text profiles) c := by
  apply keeps_of_leaves
  intro ud t h hleaves
  obtain ⟨hslot, hstamp, hnix⟩ := hc.frame hleaves
  refine ⟨fun d hd => h.1 d (hslot z hx ▸ hd), ?_⟩
  rintro rfl hA
  obtain ⟨hud, hnixStamp⟩ := h.2 rfl (hslot .A hx ▸ hA)
  refine ⟨hstamp ▸ hud, fun d hd => ?_⟩
  rcases hnix with hsame | ⟨-, hnew⟩
  · exact hnixStamp d (hsame ▸ hd)
  · obtain rfl : d = {} := Option.some.inj (hd.symm.trans hnew)
    exact s.ne_none

/-- What a completed boot of the stamp's slot leaves. -/
def Done (z : Slot) (s : Text) (profiles : Tree) (ud : Userdata) : Prop :=
  ud.Has z fun d => catStamp d.slotStamp = s ∧ HasSeed profiles d

theorem Backed.mkdir {s : Text} (d : NixDir) (p : Part) (h : Backed s profiles d)
    (_ : d.part p = none) (hp : p ≠ .var) : Backed s profiles (d.setPart p (some .empty)) := by
  intro hstamp
  obtain ⟨v, hv, hseeded⟩ := h hstamp
  exact ⟨v, (setPart_other hp.symm _).trans hv, hseeded⟩

/-- The seed is there: it stays there. -/
theorem furnish_seeded (hstamp : b.stamp = s.text) (h : ud.Has b.slot (HasSeed profiles)) :
    wp disk G (furnish b) (fun _ => Done b.slot s.text profiles)
      (fun _ => Vouched b.slot s.text profiles) ud := by
  have hvouched : ∀ t : Userdata, t.Has b.slot (HasSeed profiles) →
      Vouched b.slot s.text profiles t := fun t ht => .of_has (ht.mono fun _ hd _ => hd)
  have hkeep := fun c => keeps_mkdir (z := b.slot) (Q := HasSeed profiles) (c := c)
    fun d p ⟨v, hv, hseeded⟩ _ hp => ⟨v, (setPart_other hp.symm _).trans hv, hseeded⟩
  unfold furnish
  rw [wp_bind]
  apply wp_keeps (hkeep _ (.inr (.inr (.inl rfl)))) h hvouched
  intro ud h
  rw [wp_bind]
  apply wp_keeps (hkeep _ (.inr (.inr (.inr rfl)))) h hvouched
  intro ud h
  rw [wp_bind]
  have hvar : ud.Has b.slot fun d => HasSeed profiles d ∧ ∃ v, d.part .var = some v :=
    h.mono fun d hd => ⟨hd, hd.choose, hd.choose_spec.1⟩
  refine wp_mono ?_ (fun _ _ ht => ht) (seed_present hvar)
  rintro ok ud ⟨rfl, h⟩
  rw [wp_bind]
  refine wp_mono (fun _ t ht => ?_) (fun _ _ ht => ht) (stampSlot_stamps (fun _ _ hd => hd)
    (hstamp ▸ s.nonempty) h (hvouched _ h) fun _ => hvouched)
  refine Userdata.Has.mono ht fun d hd => ⟨?_, hd.1⟩
  rw [hd.2, hstamp]
  exact s.cat_line

/-- The slot has another stamp and no `var`: the boot seeds it before it stamps it. -/
theorem furnish_fresh (hstamp : b.stamp = s.text)
    (h : ud.Has b.slot fun d => catStamp d.slotStamp ≠ s.text ∧ d.part .var = none) :
    wp disk G (furnish b)
      (fun ok t => Vouched b.slot s.text b.profiles t ∧
        (ok = true → Done b.slot s.text b.profiles t))
      (fun _ => Vouched b.slot s.text b.profiles) ud := by
  have hvouched : ∀ t : Userdata, (t.Has b.slot fun d => catStamp d.slotStamp ≠ s.text) →
      Vouched b.slot s.text b.profiles t :=
    fun t ht => .of_has (ht.mono fun _ hd heq => absurd heq hd)
  have hkeep := fun c => keeps_mkdir (z := b.slot) (c := c)
    (Q := fun d => catStamp d.slotStamp ≠ s.text ∧ d.part .var = none)
    fun d p hd _ hp => ⟨hd.1, (setPart_other hp.symm _).trans hd.2⟩
  unfold furnish
  rw [wp_bind]
  refine wp_keeps (hkeep _ (.inr (.inr (.inl rfl)))) h
    (fun t ht => hvouched t (ht.mono fun _ hd => hd.1)) fun ud h => ?_
  rw [wp_bind]
  refine wp_keeps (hkeep _ (.inr (.inr (.inr rfl)))) h
    (fun t ht => hvouched t (ht.mono fun _ hd => hd.1)) fun ud h => ?_
  rw [wp_bind]
  refine wp_mono (fun ok ud hseed => ?_) (fun _ => hvouched) (seed_absent (fun _ _ hd => hd) h)
  rw [wp_bind]
  cases ok with
  | false =>
      rw [stampSlot, if_neg (by simp)]
      exact ⟨hvouched _ hseed.1, fun hok => by cases hok⟩
  | true =>
      have hseeded : ud.Has b.slot (HasSeed b.profiles) := (hseed.2 rfl).mono fun _ hd => hd.2
      refine wp_mono (fun _ t ht => ?_) (fun _ _ ht => ht) (stampSlot_stamps (fun _ _ hd => hd)
        (hstamp ▸ s.nonempty) hseeded (hvouched _ hseed.1)
        fun _ t ht => .of_has (ht.mono fun _ hd _ => hd))
      have hdone : Done b.slot s.text b.profiles t := by
        refine Userdata.Has.mono ht fun d hd => ⟨?_, hd.1⟩
        rw [hd.2, hstamp]
        exact s.cat_line
      exact ⟨.of_has (hdone.mono fun _ hd _ => hd.2), fun _ => hdone⟩

theorem Vouched.ready (hslot : b.slot = z) (hstamp : b.stamp = s.text)
    (h : Vouched z s.text b.profiles ud) :
    wp disk G (ready b)
      (fun ok t => Vouched z s.text b.profiles t ∧ (ok = true → Done z s.text b.profiles t))
      (fun _ => Vouched z s.text b.profiles) ud := by
  subst hslot
  have hmade : (Cmd.apply ud (.mkdirSlot b.slot)).Has b.slot (Backed s.text b.profiles) := by
    refine ⟨(ud.slot b.slot).getD {}, by simp [Cmd.apply], ?_⟩
    cases hd : ud.slot b.slot with
    | none => exact fun heq => absurd heq s.ne_none
    | some d => exact h.1 d hd
  unfold Stage0.ready
  rw [wp_bind, wp_step]
  refine ⟨fun _ => ⟨h, fun t ht => ht.elim⟩, ?_, fun _ t ht => ht.elim⟩
  rw [wp_bind]
  apply wp_keeps (keeps_mkdir Backed.mkdir (.inl rfl)) hmade (fun _ => .of_has)
  intro ud h
  rw [wp_bind, wp_see, wp_bind]
  obtain ⟨d, hd, hbacked⟩ := h
  have hold : ud.old b.slot = catStamp d.slotStamp := by
    rw [Userdata.old, hd]
    rfl
  by_cases hsame : catStamp d.slotStamp = s.text
  · rw [reset, if_neg (by rw [hold, hstamp]; exact fun hreset => hreset.2 hsame), wp_pure]
    refine wp_mono (fun _ t ht => ⟨?_, fun _ => ht⟩) (fun _ _ ht => ht)
      (furnish_seeded hstamp ⟨d, hd, hbacked hsame⟩)
    exact .of_has (Userdata.Has.mono ht fun _ hd _ => hd.2)
  · -- another stamp: the layer goes before anything else happens
    rw [reset, if_pos ⟨hstamp ▸ s.nonempty, by rw [hold, hstamp]; exact hsame⟩]
    have hcrash : ∀ t : Userdata, (t.Has b.slot fun d => catStamp d.slotStamp ≠ s.text) →
        Vouched b.slot s.text b.profiles t :=
      fun t ht => .of_has (ht.mono fun _ hd heq => absurd heq hd)
    have hrm (p : Part) : disk.Keeps
        (fun ud => ud.Has b.slot fun d => catStamp d.slotStamp ≠ s.text) (.rm b.slot p) :=
      keeps_rm fun _ _ hd => hd
    have h : ud.Has b.slot fun d => catStamp d.slotStamp ≠ s.text := ⟨d, hd, hsame⟩
    rw [wp_bind]
    apply wp_keeps (hrm .upper) h hcrash
    intro ud h
    rw [wp_bind]
    apply wp_keeps (hrm .work) h hcrash
    intro ud h
    rw [wp_step]
    refine ⟨fun _ => ⟨hcrash _ h, ?_⟩, furnish_fresh hstamp ?_, fun _ t ht => ht.elim⟩
    · exact fun t ht => hcrash t ((hrm .var ud h).2.1 t ht)
    · exact h.modify fun d hd => ⟨hd, setPart_part _ _⟩

/-- **A boot cut anywhere** puts no stamp over a `var` that is not the seed. -/
theorem Vouched.slotState (h : Vouched z s.text profiles ud)
    (hb : b.slot = z → b.stamp = s.text ∧ b.profiles = profiles) :
    wp disk G (slotState b)
      (fun ok t => Vouched z s.text profiles t ∧
        (b.slot = z → ok = true → Done z s.text profiles t))
      (fun _ => Vouched z s.text profiles) ud := by
  unfold Stage0.slotState
  rw [wp_bind]
  refine wp_mono (fun _ ud h => ?_) (fun _ _ ht => ht) h.migrate
  by_cases hslot : b.slot = z
  · obtain ⟨hstamp, rfl⟩ := hb hslot
    exact wp_mono (fun _ _ ht => ⟨ht.1, fun _ => ht.2⟩) (fun _ _ ht => ht)
      (h.ready hslot hstamp)
  · exact wp_mono (fun _ _ ht => ⟨ht, fun heq => absurd heq hslot⟩) (fun _ _ ht => ht)
      (wp_frame (fun c hc => Vouched.keeps hc (Ne.symm hslot)) (ready_of b) h)

end Vouched

/-! ### A completed boot -/

/-- A layer that lacks nothing but the stamp. -/
def Stampable (d : NixDir) : Prop := (∃ u, d.part .upper = some u) ∧ ∃ v, d.part .var = some v

/-- With a `var`, found or seeded, the stamp is all that is missing. -/
theorem stampSlot_settles (hstamp : b.stamp = s.text) (h : ud.Has b.slot Stampable) :
    wp disk G (stampSlot b true) (fun _ t => ∃ upper var, Settled b.slot s.text upper var t)
      (fun _ _ => True) ud := by
  refine wp_mono (fun _ t ht => ?_) (fun _ _ ht => ht) (stampSlot_stamps (fun _ _ hd => hd)
    (hstamp ▸ s.nonempty) h trivial fun _ _ _ => trivial)
  obtain ⟨d, hd, ⟨⟨u, hu⟩, v, hv⟩, hline⟩ := ht
  refine ⟨u, v, d, hd, ?_, hu, hv⟩
  rw [hline, hstamp]
  exact s.cat_line

/-- A seeding that worked leaves an upper and a `var`, found or seeded. -/
theorem seed_seeds (h : ud.Has b.slot fun d => ∃ u, d.part .upper = some u) :
    wp disk G (seed b) (fun ok t => ok = true → t.Has b.slot Stampable) (fun _ _ => True) ud := by
  obtain ⟨d, hd, u, hu⟩ := h
  cases hv : d.part .var with
  | some v =>
      have hthere : ud.Has b.slot fun d => Stampable d ∧ ∃ v, d.part .var = some v :=
        ⟨d, hd, ⟨⟨u, hu⟩, v, hv⟩, v, hv⟩
      exact wp_mono (fun _ _ ht _ => ht.2) (fun _ _ ht => ht) (seed_present hthere)
  | none =>
      refine wp_mono (fun ok t hseed hok => ?_) (fun _ _ _ => trivial)
        (seed_absent (Q := fun d => ∃ u, d.part .upper = some u)
          (fun d t hd => hd.imp fun u hu => (setPart_other (by decide) t).trans hu)
          ⟨d, hd, ⟨u, hu⟩, hv⟩)
      subst hok
      exact (hseed.2 rfl).mono fun d hd => ⟨hd.1, hd.2.choose, hd.2.choose_spec.1⟩

/-- Making its directories leaves a layer with an upper. -/
theorem keeps_mkdir_upper {c : Cmd}
    (h : c = .mkdirNix ∨ c = .mkdirSlot b.slot ∨ c = .mkdir b.slot .upper ∨
      c = .mkdir b.slot .work) :
    disk.Keeps (fun ud => ud.Has b.slot fun d => ∃ u, d.part .upper = some u) c := by
  refine keeps_mkdir ?_ h
  intro d p hupper hnone _
  obtain ⟨u, hu⟩ := hupper
  have hp : Part.upper ≠ p := by
    intro heq
    subst heq
    rw [hu] at hnone
    cases hnone
  exact ⟨u, (setPart_other hp _).trans hu⟩

/-- A slot's layer, kept or reset, is settled once it was seeded. -/
theorem furnish_settles (hstamp : b.stamp = s.text) (h : ud.Has b.slot fun _ => True) :
    wp disk G (furnish b)
      (fun ok t => ok = true → ∃ upper var, Settled b.slot s.text upper var t)
      (fun _ _ => True) ud := by
  unfold furnish
  rw [wp_bind, wp_step]
  refine ⟨fun _ => ⟨trivial, fun _ _ => trivial⟩, ?_, fun _ t ht => ht.elim⟩
  have hupper : (Cmd.apply ud (.mkdir b.slot .upper)).Has b.slot fun d =>
      ∃ u, d.part .upper = some u := Userdata.Has.modify h fun d _ => ⟨_, setPart_part _ _⟩
  rw [wp_bind]
  apply wp_keeps (keeps_mkdir_upper (.inr (.inr (.inr rfl)))) hupper (fun _ _ => trivial)
  intro ud hupper
  rw [wp_bind]
  refine wp_mono (fun ok ud hseed => ?_) (fun _ _ ht => ht) (seed_seeds hupper)
  rw [wp_bind]
  cases ok with
  | false =>
      rw [stampSlot, if_neg (by simp)]
      intro hok
      cases hok
  | true =>
      exact wp_mono (fun _ t ht _ => ht) (fun _ _ ht => ht)
        (stampSlot_settles hstamp (hseed rfl))

/-- A completed boot whose seeding worked leaves its slot settled, whatever it found. -/
theorem slotState_settles (hslot : b.slot = z) (hstamp : b.stamp = s.text) :
    wp disk G (slotState b) (fun ok t => ok = true → ∃ upper var, Settled z s.text upper var t)
      (fun _ _ => True) ud := by
  subst hslot
  unfold slotState ready
  rw [wp_bind]
  refine wp_mono (fun _ ud (_ : True) => ?_) (fun _ _ ht => ht) (wp_migrate (fun _ => trivial)
    fun _ _ _ _ => ⟨trivial, fun _ => trivial, fun _ => trivial, fun _ => trivial,
      fun _ => trivial, fun _ => trivial⟩)
  rw [wp_bind, wp_step]
  refine ⟨fun _ => ⟨trivial, fun _ _ => trivial⟩, ?_, fun _ t ht => ht.elim⟩
  have hmade : (Cmd.apply ud (.mkdirSlot b.slot)).Has b.slot fun _ => True :=
    ⟨(ud.slot b.slot).getD {}, by simp [Cmd.apply], trivial⟩
  rw [wp_bind]
  apply wp_keeps (keeps_mkdir (fun _ _ _ _ _ => trivial) (.inl rfl)) hmade (fun _ _ => trivial)
  intro ud h
  rw [wp_bind, wp_see, wp_bind]
  have hrm : ∀ c, (∃ p, c = Cmd.rm b.slot p) →
      disk.Keeps (fun ud => ud.Has b.slot fun _ => True) c := by
    intro c hp
    obtain ⟨p, rfl⟩ := hp
    exact keeps_rm fun _ _ hd => hd
  exact wp_mono (fun _ ud h => furnish_settles hstamp h) (fun _ _ _ => trivial) (wp_frame hrm
    (.ite (.bind (.step ⟨_, rfl⟩) fun _ => .bind (.step ⟨_, rfl⟩) fun _ => .step ⟨_, rfl⟩)
      trivial) h)

/-! ### Any sequence of boots -/

/-- Boots between two completed ones of slot `z`: cut ones of that slot that are `B`, boots of
the other slot, completed or not, and what their systems do to that slot's layer. -/
inductive Boots (G : Incident Cmd → Prop) (z : Slot) (B : Boot → Prop) (ud : Userdata) :
    Userdata → Prop
  | nil : Boots G z B ud ud
  | cut {t u : Userdata} {b : Boot} {c : Cmd} : Boots G z B ud t → b.slot = z → B b →
      Runs disk G (slotState b) t (.cut c) u → Boots G z B ud u
  | other {t u : Userdata} {b : Boot} {o : Outcome Cmd Bool} : Boots G z B ud t → b.slot ≠ z →
      Runs disk G (slotState b) t o u → Boots G z B ud u
  | use {t : Userdata} {x : Slot} (layer : Part → Option Tree) : Boots G z B ud t → x ≠ z →
      Boots G z B ud (t.modify x fun d => { d with part := layer })

/-- What every boot and every use of the other slot preserves, they do together. -/
theorem Boots.invariant {B : Boot → Prop} {I : Userdata → Prop} {t : Userdata}
    (hboot : ∀ b ud, (b.slot = z → B b) → I ud →
      wp disk G (slotState b) (fun _ => I) (fun _ => I) ud)
    (huse : ∀ ud x layer, x ≠ z → I ud → I (ud.modify x fun d => { d with part := layer }))
    (h : Boots G z B ud t) (hud : I ud) : I t := by
  induction h with
  | nil => exact hud
  | cut _ _ hB hrun ih => exact wp_sound hrun (hboot _ _ (fun _ => hB) ih)
  | @other t u b o _ hslot hrun ih =>
      have hmeets := wp_sound hrun (hboot b t (fun heq => absurd heq hslot) ih)
      cases o with
      | done ok => exact hmeets
      | cut c => exact hmeets
  | use layer _ hx ih => exact huse _ _ layer hx ih

/-- **`slot_state` and power cuts.**  A completed boot leaves its slot kept.  From there any
boots that are cut, and any of the other slot, with the power never going in the rewrite of
the slot's `.slot-stamp` or between the renames of its migration, leave the slot's upper layer
and `var` to the next completed boot as they were.  And when the slot is not the stamp's yet,
then after boots cut anywhere the first completed one has the whole seed, under the stamp. -/
theorem slot_state_survives (z : Slot) (s : RootHash) (profiles : Tree) :
    (∀ b ud ud', b.slot = z → b.stamp = s.text →
      Runs disk (fun _ => True) (slotState b) ud (.done true) ud' →
      ∃ upper var, Kept z s.text upper var ud') ∧
    (∀ upper var ud ud' ud'' b ok, Kept z s.text upper var ud →
      Boots (Careful z) z (fun b => b.stamp = s.text) ud ud' → b.slot = z → b.stamp = s.text →
      Runs disk (Careful z) (slotState b) ud' (.done ok) ud'' →
      Settled z s.text upper var ud'') ∧
    (∀ ud ud' ud'' b, ¬Stamped z s.text ud →
      Boots (fun _ => True) z (fun b => b.stamp = s.text ∧ b.profiles = profiles) ud ud' →
      b.slot = z → b.stamp = s.text → b.profiles = profiles →
      Runs disk (fun _ => True) (slotState b) ud' (.done true) ud'' →
      Done z s.text profiles ud'') := by
  refine ⟨?_, ?_, ?_⟩
  · intro b ud ud' hslot hstamp hrun
    obtain ⟨upper, var, h⟩ := wp_sound hrun (slotState_settles hslot hstamp) rfl
    exact ⟨upper, var, .inl h⟩
  · intro upper var ud ud' ud'' b ok h hboots _ hstamp hrun
    have hkept : Kept z s.text upper var ud' := by
      refine hboots.invariant (fun b ud hb h => ?_) (fun ud x layer hx h => ?_) h
      · exact wp_mono (fun _ _ ht => .inl ht) (fun _ _ ht => ht) (h.slotState hb)
      · rcases h with h | ⟨rfl, hA, h⟩
        · exact .inl (h.congr (modify_other (Ne.symm hx)))
        · exact .inr ⟨rfl, (modify_other (Ne.symm hx)).trans hA, h⟩
    exact wp_sound hrun (hkept.slotState fun _ => hstamp)
  · intro ud ud' ud'' b h hboots hslot hstamp hprofiles hrun
    have hvouched : Vouched z s.text profiles ud' := by
      refine hboots.invariant (fun b ud hb h => ?_) (fun ud x layer hx h => ?_)
        (.of_not_stamped h)
      · exact wp_mono (fun _ _ ht => ht.1) (fun _ _ ht => ht) (h.slotState hb)
      · refine ⟨fun d hd => h.1 d (modify_other (Ne.symm hx) ▸ hd), ?_⟩
        rintro rfl hA
        exact h.2 rfl (modify_other (Ne.symm hx) ▸ hA)
    exact (wp_sound hrun (hvouched.slotState fun _ => ⟨hstamp, hprofiles⟩)).2 hslot rfl

/-! ### A cut in the rewrite of the stamp -/

def hashOne : RootHash := ⟨['1'], by decide, by simp⟩

/-- A boot of slot A with that root hash. -/
def bootOne : Boot := { slot := .A, stamp := hashOne.text, ro := .empty }

/-- A layer with a deployed generation. -/
def deployedTree : Tree := fun p => if p = [] ∨ p = ["gen"] then some .dir else none

/-- USERDATA as a completed boot of slot A and a deploy left it. -/
def deployed : Userdata :=
  { nix := some {},
    slot := fun z => if z = .A then
      some { part := fun _ => some deployedTree, slotStamp := some ['1', '\n'] } else none }

/-- USERDATA after a boot that the power cut ended before its command `n`. -/
def cutAfter (n : ℕ) (ud : Userdata) : Userdata :=
  (((slotState bootOne).execCut disk n ud).map Prod.snd).getD ud

/-- ... and after one that ended. -/
def booted (ud : Userdata) : Userdata := ((slotState bootOne).exec disk ud).2

/-- A cut before the stamp is truncated, and one before the seed is copied. -/
theorem slot_state_survives_two_cuts :
    Settled .A hashOne.text deployedTree deployedTree (booted (cutAfter 4 deployed)) ∧
      Done .A hashOne.text .empty (booted (cutAfter 8 {})) := by
  obtain ⟨-, hkept, hseeded⟩ := slot_state_survives .A hashOne .empty
  have hcut : Runs disk (Careful .A) (slotState bootOne) deployed (.cut (.truncStamp .A))
      (cutAfter 4 deployed) := .of_execCut trivial (n := 4) rfl
  have hcopy : Runs disk (fun _ => True) (slotState bootOne) {} (.cut (.cpProfiles .A .empty))
      (cutAfter 8 {}) := .of_execCut trivial (n := 8) rfl
  have hnew : ¬Stamped .A hashOne.text {} := by
    rintro ⟨-, hstamp | ⟨d, hd, -⟩⟩
    · exact absurd hstamp hashOne.ne_none
    · cases hd
  refine ⟨?_, ?_⟩
  · exact hkept _ _ deployed (cutAfter 4 deployed) _ bootOne _ (.inl ⟨_, rfl, by decide, rfl, rfl⟩)
      (.cut .nil rfl rfl hcut) rfl rfl (.of_exec _ _)
  · exact hseeded {} (cutAfter 8 {}) _ bootOne hnew (.cut .nil rfl ⟨rfl, rfl⟩ hcopy) rfl rfl rfl
      (.of_exec _ _)

/-- **A cut right after the truncation** and the next boot, of the same slot with the same root
hash, resets the deployed generation. -/
theorem torn_stamp_resets :
    ¬ ∀ (z : Slot) (s : RootHash) (upper var : Tree) (ud ud' ud'' : Userdata) (b : Boot) (c : Cmd)
      (ok : Bool), Kept z s.text upper var ud → b.slot = z → b.stamp = s.text →
      Runs disk (fun _ => True) (slotState b) ud (.cut c) ud' →
      Runs disk (fun _ => True) (slotState b) ud' (.done ok) ud'' →
      Settled z s.text upper var ud'' := by
  intro h
  have hcut : Runs disk (fun _ => True) (slotState bootOne) deployed
      (.cut (.writeStamp .A (hashOne.text ++ ['\n']))) (cutAfter 5 deployed) :=
    .of_execCut trivial (n := 5) rfl
  have hkept : Kept .A hashOne.text deployedTree deployedTree deployed :=
    .inl ⟨_, rfl, by decide, rfl, rfl⟩
  obtain ⟨d, hd, -, hupper, -⟩ := h .A hashOne deployedTree deployedTree deployed _ _ bootOne _ _
    hkept rfl rfl hcut (Runs.of_exec _ _)
  have hreset : ((booted (cutAfter 5 deployed)).part .A .upper).bind (fun u => u ["gen"]) =
      none := by
    decide
  have hgen : ((booted (cutAfter 5 deployed)).part .A .upper).bind (fun u => u ["gen"]) =
      some .dir := by
    rw [booted, part_eq hd, hupper]
    rfl
  rw [hreset] at hgen
  cases hgen

end BadgeOS.Stage0
