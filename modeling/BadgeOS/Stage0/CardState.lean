import BadgeOS.Lib.Text
import BadgeOS.Stage0.Userdata

/-!
# A data card's fingerprint of the eMMC

In case 3 the card keeps a fingerprint of the eMMC it was used on: the eMMC's CID and USERDATA
UUID in `$UD/.nixbadge-lower`, the slot's stamp and Nix database hash in
`$UD/nix-<slot>/.nixbadge-lower`.  `card_state` compares them, removes the Nix layers that they
no longer fit, and writes both anew.  Console messages are left out.

* `cardState` — the script;
* `field_cid`, ... — what the script reads back from what it wrote;
* `cardResetNix_half` — a reset removes a layer before its fingerprint.
-/

namespace BadgeOS.Stage0

open Crash Script

/-- A text of one line. -/
abbrev Line := { t : Text // '\n' ∉ t }

/-- What `card_state` is given: the eMMC and its booted slot. -/
structure Card where
  slot : Slot
  stamp : Line
  cid : Line
  fsuuid : Line
  nixdb : Line
  /-- The card has a BOOT. -/
  cardboot : Bool := false

/-- `cstate` -/
inductive CState
  | same
  | fresh
  | foreign
  | reset
  deriving DecidableEq, Repr

/-- A line `<key>=...`, without the key. -/
def stripKey (key line : Text) : Option Text :=
  if key ++ ['='] <+: line then some (line.drop (key.length + 1)) else none

/-- `$(sed -n 's/^<key>=//p' file)` -/
def field (key file : Text) : Text :=
  cat (((file.splitOn '\n').filterMap (stripKey key)).flatMap (· ++ ['\n']))

def keyCid : Text := ['c', 'i', 'd']
def keyFsuuid : Text := ['f', 's', 'u', 'u', 'i', 'd']
def keySlot : Text := ['s', 'l', 'o', 't']
def keyStamp : Text := ['s', 't', 'a', 'm', 'p']
def keyNixdb : Text := ['n', 'i', 'x', 'd', 'b']

/-- `"$slot"` -/
def Slot.text : Slot → Text
  | .A => ['A']
  | .B => ['B']

/-- `<key>=<value>` -/
def entry (key value : Text) : Text := key ++ '=' :: value

/-- A file of such lines. -/
def fileText (entries : List (Text × Text)) : Text :=
  entries.flatMap fun kv => entry kv.1 kv.2 ++ ['\n']

/-- `printf 'cid=%s\nfsuuid=%s\n'` -/
def cardText (cid fsuuid : Line) : Text := fileText [(keyCid, cid), (keyFsuuid, fsuuid)]

/-- `printf 'slot=%s\nstamp=%s\nnixdb=%s\n'` -/
def slotText (e : Card) : Text :=
  fileText [(keySlot, e.slot.text), (keyStamp, e.stamp), (keyNixdb, e.nixdb)]

/-! ### The script -/

/-- What the card's own fingerprint says. -/
def Userdata.verdict (ud : Userdata) (e : Card) : CState :=
  match ud.nixbadgeLower with
  | none => .fresh
  | some f =>
      if field keyCid f ≠ e.cid then .foreign
      else if field keyFsuuid f ≠ e.fsuuid then .reset
      else .same

/-- The slot's fingerprint is there, and another one. -/
def Userdata.changed (ud : Userdata) (e : Card) : Bool :=
  ((ud.slot e.slot).bind NixDir.nixbadgeLower).any fun g =>
    field keyStamp g ≠ e.stamp || field keyNixdb g ≠ e.nixdb

/-- `card_reset_nix` -/
def cardResetNix (cardboot : Bool) (s : Slot) : Script Cmd Userdata Unit := do
  step (.rm s .upper)
  step (.rm s .work)
  step (.rm s .var)
  step (.rmNixLower s)
  step (.rmLowerState s)
  step (.rmCardfit s)
  if cardboot = true then step (.appendReset s) else pure ()

/-- The old system's Nix state of one slot, on a card that becomes a data card. -/
def removeOld (s : Slot) : Script Cmd Userdata Unit := do
  let there ← see fun ud => (ud.slot s).isSome
  if there = true then step (.rmSlot s) else pure ()

/-- What the card's fingerprint decides. -/
def clearCard (e : Card) : CState → Script Cmd Userdata Unit
  | .fresh => do
      removeOld .A
      removeOld .B
  | .reset => do
      cardResetNix e.cardboot .A
      cardResetNix e.cardboot .B
  | _ => pure ()

/-- What the slot's fingerprint decides, with the new `cstate`. -/
def clearSlot (e : Card) (cstate : CState) : Script Cmd Userdata CState := do
  let changed ← see fun ud => ud.changed e
  if cstate ≠ .reset ∧ changed = true then do
    cardResetNix e.cardboot e.slot
    pure .reset
  else pure cstate

/-- Both fingerprints, written anew. -/
def writeFingerprints (e : Card) : Script Cmd Userdata Unit := do
  step .truncLower
  step (.writeLower (cardText e.cid e.fsuuid))
  step (.mkdirSlot e.slot)
  step (.truncNixLower e.slot)
  step (.writeNixLower e.slot (slotText e))

/-- `card_state`, with `cstate`. -/
def cardState (e : Card) : Script Cmd Userdata CState := do
  let verdict ← see fun ud => ud.verdict e
  if verdict = .foreign then pure .foreign
  else do
    clearCard e verdict
    let cstate ← clearSlot e verdict
    writeFingerprints e
    pure cstate

/-! ### Fingerprints read back -/

theorem splitOn_fileText {entries : List (Text × Text)}
    (h : ∀ kv ∈ entries, '\n' ∉ entry kv.1 kv.2) :
    (fileText entries).splitOn '\n' = entries.map (fun kv => entry kv.1 kv.2) ++ [[]] := by
  have hlines : ∀ line ∈ entries.map fun kv => entry kv.1 kv.2, '\n' ∉ line := by
    intro line hline
    obtain ⟨kv, hkv, rfl⟩ := List.mem_map.1 hline
    exact h kv hkv
  have htext : fileText entries = Text.unlines '\n' (entries.map fun kv => entry kv.1 kv.2) := by
    rw [fileText, Text.unlines, List.flatMap_map]
  rw [htext, Text.splitOn_unlines hlines]

/-- A line gives its value to its own key, and nothing to another. -/
theorem stripKey_entry {key key' value : Text} (h : '=' ∉ key) (h' : '=' ∉ key') :
    stripKey key (entry key' value) = if key' = key then some value else none := by
  unfold stripKey entry
  by_cases heq : key' = key
  · subst heq
    have hprefix : key' ++ ['='] <+: key' ++ '=' :: value := ⟨value, by simp⟩
    rw [if_pos hprefix, if_pos rfl]
    simp [List.drop_append]
  · rw [if_neg heq, if_neg]
    intro hrest
    obtain ⟨rest, hrest⟩ := hrest
    have hsplit : key ++ '=' :: rest = key' ++ '=' :: value := by simpa using hrest
    have hheads := congrArg (List.splitOn '=') hsplit
    rw [List.splitOn_append_cons_self_of_not_mem h,
      List.splitOn_append_cons_self_of_not_mem h'] at hheads
    exact heq (List.cons.inj hheads).1.symm

/-- **Round trip.**  A key that one line of a file has reads back as its value. -/
theorem field_fileText {key : Text} {value : Line} {entries : List (Text × Text)} (hkey : '=' ∉ key)
    (hkeys : ∀ kv ∈ entries, '=' ∉ kv.1) (hlines : ∀ kv ∈ entries, '\n' ∉ entry kv.1 kv.2)
    (honce : entries.filter (fun kv => kv.1 = key) = [(key, value.1)]) :
    field key (fileText entries) = value := by
  have hstrip : (entries.map fun kv => entry kv.1 kv.2).filterMap (stripKey key) =
      (entries.filter fun kv => kv.1 = key).map Prod.snd := by
    clear honce hlines
    induction entries with
    | nil => rfl
    | cons kv entries ih =>
        have hrest := ih fun e he => hkeys e (List.mem_cons_of_mem _ he)
        have hkv := hkeys kv List.mem_cons_self
        rw [List.map_cons, List.filterMap_cons, stripKey_entry hkey hkv, hrest]
        by_cases heq : kv.1 = key
        · simp [heq]
        · simp [heq]
  have hempty : stripKey key [] = none := if_neg (by simp)
  rw [field, splitOn_fileText hlines, List.filterMap_append, hstrip, honce]
  simp only [List.map_cons, List.map_nil, List.filterMap_cons, List.filterMap_nil, hempty,
    List.append_nil, List.flatMap_cons, List.flatMap_nil]
  exact cat_line value.2

/-- The two lines of the card's fingerprint, each with its key. -/
theorem cardText_lines (cid fsuuid : Line) :
    (∀ kv ∈ [(keyCid, cid.1), (keyFsuuid, fsuuid.1)], '=' ∉ kv.1) ∧
      ∀ kv ∈ [(keyCid, cid.1), (keyFsuuid, fsuuid.1)], '\n' ∉ entry kv.1 kv.2 := by
  have hcid := cid.2
  have hfsuuid := fsuuid.2
  refine ⟨?_, ?_⟩
  · simp [keyCid, keyFsuuid]
  · simp [entry, keyCid, keyFsuuid, hcid, hfsuuid]

theorem field_cid (cid fsuuid : Line) : field keyCid (cardText cid fsuuid) = cid :=
  field_fileText (by decide) (cardText_lines cid fsuuid).1 (cardText_lines cid fsuuid).2 rfl

theorem field_fsuuid (cid fsuuid : Line) : field keyFsuuid (cardText cid fsuuid) = fsuuid :=
  field_fileText (by decide) (cardText_lines cid fsuuid).1 (cardText_lines cid fsuuid).2 rfl

/-- ... and the three lines of a slot's. -/
theorem slotText_lines (e : Card) :
    (∀ kv ∈ [(keySlot, e.slot.text), (keyStamp, e.stamp.1), (keyNixdb, e.nixdb.1)],
      '=' ∉ kv.1) ∧
      ∀ kv ∈ [(keySlot, e.slot.text), (keyStamp, e.stamp.1), (keyNixdb, e.nixdb.1)],
        '\n' ∉ entry kv.1 kv.2 := by
  have hslot : '\n' ∉ e.slot.text := by cases e.slot <;> decide
  have hstamp := e.stamp.2
  have hnixdb := e.nixdb.2
  refine ⟨?_, ?_⟩
  · simp [keySlot, keyStamp, keyNixdb]
  · simp [entry, keySlot, keyStamp, keyNixdb, hslot, hstamp, hnixdb]

theorem field_stamp (e : Card) : field keyStamp (slotText e) = e.stamp :=
  field_fileText (by decide) (slotText_lines e).1 (slotText_lines e).2 rfl

theorem field_nixdb (e : Card) : field keyNixdb (slotText e) = e.nixdb :=
  field_fileText (by decide) (slotText_lines e).1 (slotText_lines e).2 rfl

/-! ### A reset -/

section Reset

variable {z s : Slot} {f g : Option Text} {ud : Userdata} {G : Incident Cmd → Prop} {b : Bool}

/-- Slot `z` has neither a Nix layer nor a fingerprint. -/
def Gone (z : Slot) (ud : Userdata) : Prop :=
  ∀ d, ud.slot z = some d → d.nixbadgeLower = none ∧ ∀ p, d.part p = none

/-- Slot `z` still has its fingerprint, or neither it nor a layer; the card's is `f`. -/
def Half (z : Slot) (f g : Option Text) (ud : Userdata) : Prop :=
  ud.nixbadgeLower = f ∧ (Gone z ud ∨ ud.Has z fun d => d.nixbadgeLower = g)

theorem Gone.congr {t : Userdata} (h : Gone z ud) (heq : t.slot z = ud.slot z) : Gone z t :=
  fun d hd => h d (heq ▸ hd)

theorem Gone.part (h : Gone z ud) (p : Part) : ud.part z p = none := by
  cases hd : ud.slot z with
  | none => simp [Userdata.part, hd]
  | some d => exact (part_eq hd p).trans ((h d hd).2 p)

theorem Gone.of_has (h : ud.Has z fun d => d.nixbadgeLower = none ∧ ∀ p, d.part p = none) :
    Gone z ud := by
  obtain ⟨d, hd, hgone⟩ := h
  intro e he
  obtain rfl : d = e := Option.some.inj (hd.symm.trans he)
  exact hgone

theorem Gone.modify {h : NixDir → NixDir} (hgone : Gone z ud)
    (hh : ∀ d, d.nixbadgeLower = none → (∀ p, d.part p = none) →
      (h d).nixbadgeLower = none ∧ ∀ p, (h d).part p = none) : Gone z (ud.modify z h) := by
  intro d hd
  cases hslot : ud.slot z with
  | none => simp [Userdata.modify, hslot] at hd
  | some e =>
      obtain rfl : h e = d := Option.some.inj ((modify_slot hslot).symm.trans hd)
      exact hh e (hgone e hslot).1 (hgone e hslot).2

/-- The commands of `card_reset_nix`. -/
def Cmd.Resets (s : Slot) : Cmd → Prop
  | .rm x _ | .rmNixLower x | .rmLowerState x | .rmCardfit x | .appendReset x => x = s
  | _ => False

theorem Cmd.Resets.frame {c : Cmd} (hc : c.Resets s) {t : Userdata} (h : c.Leaves ud t) :
    (∀ y, y ≠ s → t.slot y = ud.slot y) ∧ t.nixbadgeLower = ud.nixbadgeLower := by
  cases c with
  | rm x p =>
      obtain rfl : x = s := hc
      rcases h with rfl | ⟨_, left, -, -, rfl⟩ | h
      · exact ⟨fun y hy => modify_other hy, rfl⟩
      · exact ⟨fun y hy => modify_other hy, rfl⟩
      · exact h.elim
  | rmNixLower x =>
      obtain rfl : x = s := hc
      obtain rfl : t = _ := h.resolve_right (by simp [torn, fails])
      exact ⟨fun y hy => modify_other hy, rfl⟩
  | rmLowerState x =>
      rcases h with rfl | ⟨_, left, -, -, rfl⟩ | h
      · exact ⟨fun y hy => rfl, rfl⟩
      · exact ⟨fun y hy => rfl, rfl⟩
      · exact h.elim
  | rmCardfit x =>
      obtain rfl : t = _ := h.resolve_right (by simp [torn, fails])
      exact ⟨fun y hy => rfl, rfl⟩
  | appendReset x =>
      rcases h with rfl | ⟨n, rfl⟩ | h
      · exact ⟨fun y hy => rfl, rfl⟩
      · exact ⟨fun y hy => rfl, rfl⟩
      · exact h.elim
  | _ => exact hc.elim

theorem cardResetNix_resets (b : Bool) (s : Slot) : (cardResetNix b s).All (Cmd.Resets s) :=
  .bind (.step rfl) fun _ => .bind (.step rfl) fun _ => .bind (.step rfl) fun _ =>
    .bind (.step rfl) fun _ => .bind (.step rfl) fun _ => .bind (.step rfl) fun _ =>
      .ite (.step rfl) trivial

/-- A reset of the other slot leaves the slot as it is. -/
theorem cardResetNix_other {b : Bool} (hz : z ≠ s) (hf : ud.nixbadgeLower = f) :
    wp disk G (cardResetNix b s) (fun _ t => t.nixbadgeLower = f ∧ t.slot z = ud.slot z)
      (fun _ t => t.nixbadgeLower = f ∧ t.slot z = ud.slot z) ud := by
  have hkeeps : ∀ c : Cmd, c.Resets s →
      disk.Keeps (fun t => t.nixbadgeLower = f ∧ t.slot z = ud.slot z) c := by
    intro c hc
    apply keeps_of_leaves
    intro u t h hleaves
    obtain ⟨hslot, hlower⟩ := hc.frame hleaves
    exact ⟨hlower.trans h.1, (hslot z hz).trans h.2⟩
  exact wp_frame hkeeps (cardResetNix_resets b s) ⟨hf, rfl⟩

/-- Nothing comes back. -/
theorem Gone.keeps {c : Cmd} (hc : c.Resets s) :
    disk.Keeps (fun ud => ud.nixbadgeLower = f ∧ Gone z ud) c := by
  apply keeps_of_leaves
  intro ud t h hleaves
  obtain ⟨hslot, hlower⟩ := hc.frame hleaves
  refine ⟨hlower.trans h.1, ?_⟩
  by_cases hs : z = s
  · subst hs
    cases c with
    | rm x p =>
        obtain rfl : x = z := hc
        rcases hleaves with rfl | ⟨whole, left, hwhole, -, rfl⟩ | hfail
        · refine h.2.modify fun d hl hp => ⟨hl, fun q => ?_⟩
          by_cases hq : q = p
          · rw [hq, setPart_part]
          · rw [setPart_other hq, hp]
        · rw [h.2.part p] at hwhole
          cases hwhole
        · exact hfail.elim
    | rmNixLower x =>
        obtain rfl : x = z := hc
        obtain rfl : t = _ := hleaves.resolve_right (by simp [Cmd.torn, Cmd.fails])
        exact h.2.modify fun d _ hp => ⟨rfl, hp⟩
    | rmLowerState x =>
        rcases hleaves with rfl | ⟨_, left, -, -, rfl⟩ | hfail
        · exact h.2
        · exact h.2
        · exact hfail.elim
    | rmCardfit x =>
        obtain rfl : t = _ := hleaves.resolve_right (by simp [Cmd.torn, Cmd.fails])
        exact h.2
    | appendReset x =>
        rcases hleaves with rfl | ⟨n, rfl⟩ | hfail
        · exact h.2
        · exact h.2
        · exact hfail.elim
    | _ => exact hc.elim
  · exact h.2.congr (hslot z hs)

theorem rm_removes {p : Part} {Q : NixDir → Prop} (hQ : ∀ d t, Q d → Q (d.setPart p t))
    (hf : ud.nixbadgeLower = f) (h : ud.Has s Q) :
    wp disk G (step (.rm s p)) (fun _ t => t.nixbadgeLower = f ∧
      t.Has s fun d => Q d ∧ d.part p = none) (fun _ t => t.nixbadgeLower = f ∧ t.Has s Q) ud := by
  rw [wp_step]
  refine ⟨fun _ => ⟨⟨hf, h⟩, ?_⟩, ⟨hf, h.modify fun d hd => ⟨hQ d _ hd, setPart_part _ _⟩⟩,
    fun _ t ht => ht.elim⟩
  intro _ htorn
  obtain ⟨_, left, -, -, rfl⟩ := htorn
  exact ⟨hf, h.modify fun d hd => hQ d _ hd⟩

/-- **A reset** removes the slot's layer before its fingerprint: cut anywhere, the fingerprint
is still there, or both are gone. -/
theorem cardResetNix_half (hf : ud.nixbadgeLower = f)
    (hhas : ud.Has z fun d => d.nixbadgeLower = g) :
    wp disk G (cardResetNix b s)
      (fun _ t => Half z f g t ∧ (s = z → Gone z t)) (fun _ => Half z f g) ud := by
  by_cases hs : s = z
  · subst hs
    have hhalf {Q : NixDir → Prop} {t : Userdata} (hQ : ∀ d, Q d → d.nixbadgeLower = g)
        (ht : t.nixbadgeLower = f ∧ t.Has s Q) : Half s f g t := ⟨ht.1, .inr (ht.2.mono hQ)⟩
    unfold cardResetNix
    rw [wp_bind]
    refine wp_mono (fun _ ud h => ?_) (fun _ _ => hhalf fun _ hd => hd)
      (rm_removes (p := .upper) (fun _ _ hd => hd) hf hhas)
    rw [wp_bind]
    refine wp_mono (fun _ ud h => ?_) (fun _ _ => hhalf fun _ hd => hd.1)
      (rm_removes (p := .work) (fun d t hd => ⟨hd.1, (setPart_other (by decide) t).trans hd.2⟩)
        h.1 h.2)
    rw [wp_bind]
    refine wp_mono (fun _ ud h => ?_) (fun _ _ => hhalf fun _ hd => hd.1.1)
      (rm_removes (p := .var) (fun d t hd => ⟨⟨hd.1.1, (setPart_other (by decide) t).trans hd.1.2⟩,
        (setPart_other (by decide) t).trans hd.2⟩) h.1 h.2)
    rw [wp_bind, wp_step]
    refine ⟨fun _ => ⟨hhalf (fun _ hd => hd.1.1.1) h, fun t ht => ht.elim⟩, ?_,
      fun _ t ht => ht.elim⟩
    -- with the fingerprint gone too, the rest has nothing of the slot to remove
    have hgone : Gone s (Cmd.apply ud (.rmNixLower s)) := .of_has <| h.2.modify fun d hd =>
      ⟨rfl, fun p => by cases p; exacts [hd.1.1.2, hd.1.2, hd.2]⟩
    have hall := (cardResetNix_resets b s).2 true |>.2 true |>.2 true |>.2 true
    exact wp_mono (fun _ t ht => ⟨⟨ht.1, .inl ht.2⟩, fun _ => ht.2⟩)
      (fun _ t ht => ⟨ht.1, .inl ht.2⟩) (wp_frame (fun c hc => Gone.keeps hc) hall ⟨h.1, hgone⟩)
  · have hhalf (t : Userdata) (ht : t.nixbadgeLower = f ∧ t.slot z = ud.slot z) :
        Half z f g t := ⟨ht.1, .inr (hhas.congr ht.2)⟩
    exact wp_mono (fun _ t ht => ⟨hhalf t ht, fun heq => absurd heq hs⟩) (fun _ => hhalf)
      (cardResetNix_other (Ne.symm hs) hf)

/-- Where there is nothing to remove. -/
theorem cardResetNix_gone (hf : ud.nixbadgeLower = f) (hgone : Gone z ud) :
    wp disk G (cardResetNix b s) (fun _ t => t.nixbadgeLower = f ∧ Gone z t)
      (fun _ t => t.nixbadgeLower = f ∧ Gone z t) ud :=
  wp_frame (fun _ hc => Gone.keeps hc) (cardResetNix_resets b s) ⟨hf, hgone⟩

end Reset

end BadgeOS.Stage0
