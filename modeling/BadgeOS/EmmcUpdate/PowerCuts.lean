import BadgeOS.EmmcUpdate.Update

/-!
# Power cuts in an update

The slot that U-Boot boots is complete wherever an update is cut, and never the slot that is
being written: the inactive slot is written while the active one boots, one atomic write of the
environment switches them, and then the other is written.

* `Bootable` — the slot that U-Boot boots, and the system that it holds;
* `writeSlot_holds` — a written slot holds the SD's system;
* `update_bootable` — the run, cut anywhere.
-/

namespace BadgeOS.EmmcUpdate

open Crash Script
open Function (update_of_ne update_self)

variable {a s x : Slot} {sys : System} {src : Source} {e t : Emmc} {env : Env}
  {G : Incident Cmd → Prop}

/-! ### The environment -/

theorem getLeft_setLeft (env : Env) (s : Slot) (value : Text) :
    (env.setLeft s value).getLeft s = number value := by
  simp [Env.getLeft, Env.setLeft]

theorem getLeft_setLeft_other (env : Env) (h : x ≠ s) (value : Text) :
    (env.setLeft s value).getLeft x = env.getLeft x := by
  simp [Env.getLeft, Env.setLeft, h]

/-- Fewer slots with attempts left, but still this one. -/
theorem find?_of_le {p q : Slot → Bool} {order : List Slot} (h : order.find? p = some a)
    (ha : q a = true) (hle : ∀ s, q s = true → p s = true) : order.find? q = some a := by
  induction order with
  | nil => cases h
  | cons s order ih =>
      rw [List.find?_cons] at h ⊢
      by_cases hp : p s = true
      · rw [hp] at h
        cases h
        rw [ha]
      · have hq : q s = false := by
          by_contra hne
          exact hp (hle s (by simpa using hne))
        rw [Bool.not_eq_true] at hp
        rw [hp] at h
        rw [hq]
        exact ih h

/-- The order is usable, and U-Boot boots slot `a`. -/
def Selects (env : Env) (a : Slot) : Prop :=
  (∃ order, EnvOk env order) ∧ env.uBootSlot = some a

theorem Selects.left (h : Selects env a) : ∃ n, env.getLeft a = some n := by
  obtain ⟨⟨order, hok⟩, ha⟩ := h
  rw [hok.uBootSlot] at ha
  exact hok.2.2 a (List.mem_of_find?_eq_some ha)

theorem Selects.clearLeft (h : Selects env a) (hx : a ≠ x) : Selects (env.setLeft x ['0']) a := by
  obtain ⟨⟨order, hok⟩, ha⟩ := h
  have hok' : EnvOk (env.setLeft x ['0']) order := by
    refine ⟨hok.1, hok.2.1, fun s hs => ?_⟩
    by_cases hsx : s = x
    · subst hsx
      exact ⟨0, getLeft_setLeft env s ['0']⟩
    · obtain ⟨n, hn⟩ := hok.2.2 s hs
      exact ⟨n, (getLeft_setLeft_other env hsx _).trans hn⟩
  rw [hok.uBootSlot] at ha
  refine ⟨⟨order, hok'⟩, ?_⟩
  rw [hok'.uBootSlot]
  refine find?_of_le ha ?_ fun s hs => ?_
  · have hboot : env.bootable a = true := List.find?_some ha
    rw [Env.bootable, getLeft_setLeft_other env hx]
    exact hboot
  · by_cases hsx : s = x
    · subst hsx
      rw [Env.bootable, getLeft_setLeft] at hs
      exact absurd hs (by decide)
    · rw [Env.bootable, getLeft_setLeft_other env hsx] at hs
      exact hs

theorem words_orderText (a b : Slot) : words (orderText a b) = [a.text, b.text] := by
  cases a <;> cases b <;> rfl

theorem Slot.other_ne (a : Slot) : a.other ≠ a := by
  cases a <;> decide

theorem Slot.other_other (a : Slot) : a.other.other = a := by
  cases a <;> rfl

theorem Slot.eq_other (h : x ≠ a) : x = a.other := by
  cases x <;> cases a <;> first | rfl | exact absurd rfl h

/-- The switch. -/
theorem Selects.setPrimary (h : Selects env a) :
    Selects (env.setPrimary a.other a) a.other := by
  obtain ⟨n, hn⟩ := h.left
  have hleft : (env.setPrimary a.other a).getLeft a.other = some 3 := getLeft_setLeft ..
  have hleft' : (env.setPrimary a.other a).getLeft a = some n :=
    (getLeft_setLeft_other env (Ne.symm a.other_ne) _).trans hn
  have hok : EnvOk (env.setPrimary a.other a) [a.other, a] := by
    refine ⟨words_orderText _ _, by simp [a.other_ne], fun s hs => ?_⟩
    rcases List.mem_cons.1 hs with rfl | hs
    · exact ⟨3, hleft⟩
    · obtain rfl := List.mem_singleton.1 hs
      exact ⟨n, hleft'⟩
  refine ⟨⟨_, hok⟩, ?_⟩
  have hbootable : (env.setPrimary a.other a).bootable a.other = true := by
    rw [Env.bootable, hleft]
    rfl
  rw [hok.uBootSlot, List.find?_cons, hbootable]

theorem selects_fresh : Selects .fresh .A := by
  have hok : EnvOk .fresh [.A, .B] := ⟨rfl, by decide, fun s _ => ⟨3, rfl⟩⟩
  exact ⟨⟨_, hok⟩, by rw [hok.uBootSlot]; rfl⟩

/-! ### The slot that boots -/

/-- U-Boot boots slot `a`, which holds the system. -/
def Bootable (a : Slot) (sys : System) (e : Emmc) : Prop := Selects e.env a ∧ Holds a sys e

/-- The commands that leave slot `a` and the order alone. -/
def Cmd.Spares (a : Slot) : Cmd → Prop
  | .setPrimary _ _ | .setBoth => False
  | c => c.slot ≠ some a

instance : DecidablePred (Cmd.Spares a)
  | .setPrimary _ _ | .setBoth => .isFalse id
  | .clearLeft x | .ddStore x | .rmStale _ x _ | .mkdir _ x | .cp _ x _ | .mv _ x _
  | .verifyCopy _ x _ | .rmNixos _ x | .rmExtlinux _ x =>
      inferInstanceAs (Decidable (some x ≠ some a))
  | .sync | .ddFip | .umount | .envMirror => .isTrue nofun

theorem setFile_other {core : Core} {name : Name} {content : Option Bytes} {fat : Fat}
    (h : a ≠ x) (core' : Core) (name' : Name) :
    (fat.setFile core x name content).file core' a name' = fat.file core' a name' := by
  simp [Fat.setFile, h]

/-- What a command can leave, done, cut or failed. -/
def Cmd.Leaves (src : Source) (c : Cmd) (e t : Emmc) : Prop :=
  t = (c.exec src e).2 ∨ t = e ∨ c.torn src e t

theorem keeps_of_leaves {I : Emmc → Prop} {c : Cmd}
    (h : ∀ e t, I e → c.Leaves src e t → I t) : (disk src).Keeps I c :=
  fun e hI => ⟨h e _ hI (.inl rfl), fun t ht => h e t hI (.inr (.inr ht)),
    fun t ht => h e t hI (.inr ht)⟩

/-- What the script leaves of the slot that it does not write. -/
theorem Cmd.Spares.frame {c : Cmd} (hc : c.Spares a) (h : c.Leaves src e t) :
    t.store a = e.store a ∧ (∀ core name, t.fat.file core a name = e.fat.file core a name) ∧
      (t.env = e.env ∨ ∃ x, a ≠ x ∧ t.env = e.env.setLeft x ['0']) := by
  have hne {x : Slot} (hx : some x ≠ some a) : a ≠ x := fun heq => hx (congrArg some heq.symm)
  rcases h with rfl | rfl | htorn
  · cases c with
    | clearLeft x => exact ⟨rfl, fun _ _ => rfl, .inr ⟨x, hne hc, rfl⟩⟩
    | ddStore x => exact ⟨update_of_ne (hne hc) .., fun _ _ => rfl, .inl rfl⟩
    | rmStale core x name => exact ⟨rfl, setFile_other (hne hc), .inl rfl⟩
    | mkdir core x =>
        simp only [exec, Emmc.grow]
        split
        · exact ⟨rfl, fun _ _ => rfl, .inl rfl⟩
        · exact ⟨rfl, fun _ _ => rfl, .inl rfl⟩
    | cp core x f =>
        simp only [exec, Emmc.grow]
        split
        · exact ⟨rfl, fun _ _ => (setFile_other (hne hc) _ _).trans (setFile_other (hne hc) _ _),
            .inl rfl⟩
        · exact ⟨rfl, fun _ _ => (setFile_other (hne hc) _ _).trans (setFile_other (hne hc) _ _),
            .inl rfl⟩
    | mv core x f =>
        simp only [exec]
        split
        · exact ⟨rfl, fun _ _ => rfl, .inl rfl⟩
        · exact ⟨rfl, fun _ _ => (setFile_other (hne hc) _ _).trans (setFile_other (hne hc) _ _),
            .inl rfl⟩
    | setPrimary new active => exact hc.elim
    | setBoth => exact hc.elim
    | _ => exact ⟨rfl, fun _ _ => rfl, .inl rfl⟩
  · exact ⟨rfl, fun _ _ => rfl, .inl rfl⟩
  · cases c with
    | ddStore x =>
        obtain ⟨content, rfl⟩ := htorn
        exact ⟨update_of_ne (hne hc) .., fun _ _ => rfl, .inl rfl⟩
    | cp core x f =>
        obtain ⟨content, -, rfl⟩ := htorn
        exact ⟨rfl, setFile_other (hne hc), .inl rfl⟩
    | rmNixos core x =>
        obtain ⟨n, -, rfl⟩ := htorn
        exact ⟨rfl, fun _ _ => rfl, .inl rfl⟩
    | rmExtlinux core x =>
        obtain ⟨n, -, rfl⟩ := htorn
        exact ⟨rfl, fun _ _ => rfl, .inl rfl⟩
    | ddFip =>
        obtain ⟨content, rfl⟩ := htorn
        exact ⟨rfl, fun _ _ => rfl, .inl rfl⟩
    | _ => exact htorn.elim

/-- **A command that spares the active slot** leaves it bootable. -/
theorem Bootable.keeps {c : Cmd} (hc : c.Spares a) : (disk src).Keeps (Bootable a sys) c := by
  apply keeps_of_leaves
  intro e t h hleaves
  obtain ⟨hselects, hstore, hfile⟩ := h
  obtain ⟨hs, hf, henv⟩ := hc.frame hleaves
  refine ⟨?_, hs ▸ hstore, fun core f => (hf core (.file f)).trans (hfile core f)⟩
  rcases henv with heq | ⟨x, hx, heq⟩
  · rw [heq]
    exact hselects
  · rw [heq]
    exact hselects.clearLeft hx

/-! ### A written slot -/

/-- The slot's partition has the SD's store image. -/
def StoreHolds (src : Source) (s : Slot) (e : Emmc) : Prop := src.system.store <+: e.store s

/-- ... and these boot files of its directories are the SD's. -/
def Copied (src : Source) (s : Slot) (done : List (Core × BootFile)) (e : Emmc) : Prop :=
  StoreHolds src s e ∧
    ∀ p ∈ done, e.fat.file p.1 s (.file p.2) = some (src.system.file p.1 p.2)

/-- The commands after a slot's store image, but for the renames. -/
def Cmd.SparesFiles (s : Slot) : Cmd → Prop
  | .ddStore x => x ≠ s
  | .mv _ x _ => x ≠ s
  | .rmStale _ _ name => name ∈ stale
  | _ => True

instance : DecidablePred (Cmd.SparesFiles s)
  | .ddStore x => inferInstanceAs (Decidable (x ≠ s))
  | .mv _ x _ => inferInstanceAs (Decidable (x ≠ s))
  | .rmStale _ _ name => inferInstanceAs (Decidable (name ∈ stale))
  | .clearLeft _ | .mkdir _ _ | .sync | .cp _ _ _ | .verifyCopy _ _ _ | .rmNixos _ _
  | .rmExtlinux _ _ | .ddFip | .setPrimary _ _ | .umount | .setBoth | .envMirror => .isTrue trivial

theorem setFile_file {fat : Fat} {core core' : Core} {x s : Slot} {name : Name}
    {content : Option Bytes} {f : BootFile} (h : name ≠ .file f) :
    (fat.setFile core x name content).file core' s (.file f) = fat.file core' s (.file f) := by
  simp [Fat.setFile, Ne.symm h]

theorem Cmd.SparesFiles.frame {c : Cmd} (hc : c.SparesFiles s) :
    (c.exec src e).2.store s = e.store s ∧
      ∀ core f, (c.exec src e).2.fat.file core s (.file f) = e.fat.file core s (.file f) := by
  cases c with
  | ddStore x => exact ⟨update_of_ne (Ne.symm hc) .., fun _ _ => rfl⟩
  | rmStale core x name =>
      refine ⟨rfl, fun core' f => setFile_file fun heq => ?_⟩
      subst heq
      simp [SparesFiles, stale] at hc
  | mkdir core x =>
      simp only [exec, Emmc.grow]
      split
      · exact ⟨rfl, fun _ _ => rfl⟩
      · exact ⟨rfl, fun _ _ => rfl⟩
  | cp core x g =>
      have hname (f : BootFile) : Name.new g ≠ .file f := nofun
      simp only [exec, Emmc.grow]
      split
      · exact ⟨rfl, fun _ f => (setFile_file (hname f)).trans (setFile_file (hname f))⟩
      · exact ⟨rfl, fun _ f => (setFile_file (hname f)).trans (setFile_file (hname f))⟩
  | mv core x f =>
      simp only [exec]
      split
      · exact ⟨rfl, fun _ _ => rfl⟩
      · exact ⟨rfl, fun _ _ => (setFile_other (Ne.symm hc) _ _).trans
          (setFile_other (Ne.symm hc) _ _)⟩
  | _ => exact ⟨rfl, fun _ _ => rfl⟩

theorem Copied.kept {c : Cmd} {done : List (Core × BootFile)} (hc : c.SparesFiles s)
    (h : Copied src s done e) : Copied src s done (c.exec src e).2 := by
  obtain ⟨hstore, hfile⟩ : (c.exec src e).2.store s = e.store s ∧ _ := hc.frame
  refine ⟨?_, fun p hp => (hfile _ _).trans (h.2 p hp)⟩
  show _ <+: _
  rw [hstore]
  exact h.1

/-- What the commands have done where all of them succeed, whatever else happens to the run. -/
abbrev Does (src : Source) (G : Incident Cmd → Prop) (cs : List Cmd) (Q : Emmc → Prop)
    (e : Emmc) : Prop :=
  wp (disk src) G (seq cs) (fun ok t => ok = true → Q t) (fun _ _ => True) e

theorem does_cons {c : Cmd} {cs : List Cmd} {Q : Emmc → Prop}
    (h : (c.exec src e).1 = true → Does src G cs Q (c.exec src e).2) :
    Does src G (c :: cs) Q e := by
  refine wp_seq_cons.2 ⟨fun _ => ⟨trivial, fun _ _ => trivial⟩, ?_, fun _ _ _ => nofun⟩
  by_cases hok : ((disk src).exec c e).1 = true
  · rw [if_pos hok]
    exact h hok
  · rw [if_neg hok]
    exact nofun

theorem does_append {cs ds : List Cmd} {P Q : Emmc → Prop} (h : Does src G cs P e)
    (hd : ∀ t, P t → Does src G ds Q t) : Does src G (cs ++ ds) Q e := by
  rw [Does, wp_seq_append]
  refine wp_mono (fun ok t ht => ?_) (fun _ _ h => h) h
  cases ok with
  | true => exact hd t (ht rfl)
  | false => exact nofun

theorem does_kept {cs : List Cmd} {done : List (Core × BootFile)}
    (hcs : ∀ c ∈ cs, c.SparesFiles s) (h : Copied src s done e) :
    Does src G cs (Copied src s done) e :=
  wp_seq_kept (fun c hc _ ht _ => ht.kept (hcs c hc)) h

theorem does_store : Does src G [.clearLeft s, .ddStore s] (Copied src s []) e := by
  refine does_cons fun _ => does_cons fun _ _ => ⟨?_, nofun⟩
  have hself : ((Cmd.ddStore s).exec src ((Cmd.clearLeft s).exec src e).2).2.store s =
      src.system.store ++ (e.store s).drop src.system.store.length := update_self ..
  show _ <+: _
  rw [hself]
  exact List.prefix_append ..

/-- The rename changes its own file only. -/
theorem Copied.mv {core : Core} {f : BootFile} {done : List (Core × BootFile)}
    (hdone : (core, f) ∉ done) (h : Copied src s done e) :
    Copied src s done ((Cmd.mv core s f).exec src e).2 := by
  refine ⟨?_, fun p hp => ?_⟩
  · simp only [Cmd.exec]
    split
    · exact h.1
    · exact h.1
  · have hne : ¬(p.1 = core ∧ p.2 = f) := fun ⟨hcore, hf⟩ => hdone (hcore ▸ hf ▸ hp)
    simp only [Cmd.exec]
    split
    · exact h.2 p hp
    · rw [← h.2 p hp]
      simp [Emmc.setFile, Fat.setFile, hne]

/-- `verify_copy` is what makes the copy sure. -/
theorem does_copyFile {core : Core} {f : BootFile} {done : List (Core × BootFile)}
    (hdone : (core, f) ∉ done) (h : Copied src s done e) :
    Does src G (copyFile s core f) (Copied src s (done ++ [(core, f)])) e := by
  have hcopy : Does src G [.cp core s f, .sync, .mv core s f, .sync] (Copied src s done) e := by
    refine wp_seq_kept (fun c hc t ht _ => ?_) h
    simp only [List.mem_cons, List.not_mem_nil, or_false] at hc
    rcases hc with rfl | rfl | rfl | rfl
    · exact ht.kept trivial
    · exact ht
    · exact ht.mv hdone
    · exact ht
  refine does_append hcopy fun t ht => does_cons fun hverify _ => ?_
  refine ⟨ht.1, fun p hp => ?_⟩
  rcases List.mem_append.1 hp with hp | hp
  · exact ht.2 p hp
  · obtain rfl := List.mem_singleton.1 hp
    exact of_decide_eq_true hverify

theorem does_files (h : Copied src s [] e) :
    Does src G (slotFiles.flatMap fun p => copyFile s p.1 p.2) (Copied src s slotFiles) e := by
  refine wp_seq_flatMap (List.nil_append _) (fun done p rest hp t ht => ?_) (fun _ ht _ => ht) h
  have hnodup : (done ++ p :: rest).Nodup := hp ▸ (by decide)
  have hdone : p ∉ done := fun hmem =>
    (List.nodup_append.1 hnodup).2.2 p hmem p List.mem_cons_self rfl
  refine wp_mono (fun ok u hu => ?_) (fun _ _ h => h) (does_copyFile hdone ht)
  cases ok with
  | true => exact hu rfl
  | false => exact nofun

/-- **A written slot** holds the SD's system. -/
theorem does_writeSlot : Does src G (writeSlot s) (Holds s src.system) e := by
  have hdirs : ∀ c ∈ clearDirs s, c.SparesFiles s := by
    cases s <;> decide
  have hsweep : ∀ c ∈ sweepSlot s, c.SparesFiles s := by
    cases s <;> decide
  refine does_append (does_append (does_append does_store fun t ht => does_kept hdirs ht) fun _ =>
    does_files)
    fun t ht => ?_
  refine wp_mono (fun ok u hu hok => ?_) (fun _ _ h => h) (does_kept hsweep ht)
  obtain ⟨hstore, hfile⟩ := hu hok
  refine ⟨hstore, fun core f => hfile (core, f) ?_⟩
  cases core <;> cases f <;> decide

/-! ### The run -/

/-- Some slot boots, and holds one of the systems. -/
def Booted (systems : System → Prop) (e : Emmc) : Prop := ∃ b sys, systems sys ∧ Bootable b sys e

/-- ... and it is not the slot that the command writes. -/
def Safe (systems : System → Prop) (c : Cmd) (e : Emmc) : Prop :=
  ∃ b sys, systems sys ∧ Bootable b sys e ∧ c.slot ≠ some b

/-- What an update ends with. -/
def Updated (src : Source) (e : Emmc) : Prop :=
  (∀ s, Holds s src.system e) ∧ e.env = .fresh

/-- Commands that a cut can end anywhere. -/
abbrev SafeRun (src : Source) (G : Incident Cmd → Prop) (systems : System → Prop)
    (cs : List Cmd) (Q : Emmc → Prop) (e : Emmc) : Prop :=
  wp (disk src) G (seq cs) (fun ok t => Booted systems t ∧ (ok = true → Q t)) (Safe systems) e

theorem safe_append {systems : System → Prop} {cs ds : List Cmd} {P Q : Emmc → Prop}
    (h : SafeRun src G systems cs P e) (hd : ∀ t, P t → SafeRun src G systems ds Q t) :
    SafeRun src G systems (cs ++ ds) Q e := by
  rw [SafeRun, wp_seq_append]
  refine wp_mono (fun ok t ht => ?_) (fun _ _ h => h) h
  cases ok with
  | true => exact hd t (ht.2 rfl)
  | false => exact ⟨ht.1, nofun⟩

theorem Cmd.Spares.slot_ne {c : Cmd} (hc : c.Spares a) : c.slot ≠ some a := by
  cases c with
  | setPrimary new active => exact hc.elim
  | setBoth => exact hc.elim
  | _ => exact hc

/-- A slot written while the other boots. -/
theorem safe_writeSlot {systems : System → Prop} (hsys : systems sys) (h : Bootable a sys e) :
    SafeRun src G systems (writeSlot a.other)
      (fun t => Bootable a sys t ∧ Holds a.other src.system t) e := by
  have hspares : ∀ c ∈ writeSlot a.other, c.Spares a := by
    cases a <;> decide
  have hframe := wp_and (wp_frame (D := disk src) (G := G) (fun c hc => Bootable.keeps hc)
    (Script.All.seq hspares) h) (wp_all (Script.All.seq hspares))
  refine wp_mono (fun ok t ht => ?_) (fun c t ht => ?_) (wp_and hframe does_writeSlot)
  · exact ⟨⟨a, sys, hsys, ht.1.1⟩, fun hok => ⟨ht.1.1, ht.2 hok⟩⟩
  · exact ⟨a, sys, hsys, ht.1.1, ht.1.2.slot_ne⟩

/-- A command that is done or not. -/
theorem safe_atomic {systems : System → Prop} {c : Cmd} {cs : List Cmd} {Q : Emmc → Prop}
    (htorn : ∀ t, ¬c.torn src e t) (hok : (c.exec src e).1 = true) (hslot : c.slot = none)
    (hsys : systems sys) (h : Bootable a sys e)
    (hcs : SafeRun src G systems cs Q (c.exec src e).2) : SafeRun src G systems (c :: cs) Q e := by
  have hsafe : Safe systems c e := ⟨a, sys, hsys, h, by simp [hslot]⟩
  refine wp_seq_cons.2 ⟨fun _ => ⟨hsafe, fun t ht => (htorn t ht).elim⟩, ?_, fun _ t ht => ?_⟩
  · rw [if_pos (show ((disk src).exec c e).1 = true from hok)]
    exact hcs
  · rcases ht with rfl | ht
    · exact ⟨⟨a, sys, hsys, h⟩, nofun⟩
    · exact (htorn t ht).elim

/-- The switch is one atomic write. -/
theorem safe_switch {systems : System → Prop} (hsys : systems sys) (hsrc : systems src.system)
    (h : Bootable a sys e) (hother : Holds a.other src.system e) :
    SafeRun src G systems [.ddFip, .setPrimary a.other a] (Bootable a.other src.system) e := by
  have hsafe (t : Emmc) (ht : Bootable a sys t) : Safe systems .ddFip t := ⟨a, sys, hsys, ht, nofun⟩
  have hkeeps : (disk src).Keeps (Bootable a sys) .ddFip := Bootable.keeps nofun
  obtain ⟨hexec, htorn, hfail⟩ := hkeeps e h
  have hswitched : Bootable a.other src.system
      ((Cmd.setPrimary a.other a).exec src (Cmd.ddFip.exec src e).2).2 :=
    ⟨hexec.1.setPrimary, hother⟩
  refine wp_seq_cons.2 ⟨fun _ => ⟨hsafe e h, fun t ht => hsafe t (htorn t ht)⟩, ?_,
    fun _ t ht => ⟨⟨a, sys, hsys, hfail t ht⟩, nofun⟩⟩
  exact safe_atomic (fun _ => id) rfl rfl hsys hexec ⟨⟨_, _, hsrc, hswitched⟩, fun _ => hswitched⟩

/-- The environment of a fresh card, and what follows it. -/
theorem safe_finish {systems : System → Prop} (hsrc : systems src.system)
    (h : Bootable a src.system e) (hother : Holds a.other src.system e) :
    SafeRun src G systems [.umount, .setBoth, .envMirror, .sync] (Updated src) e := by
  have hholds (s : Slot) : Holds s src.system e := by
    by_cases hs : s = a
    · exact hs ▸ h.2
    · exact (Slot.eq_other hs) ▸ hother
  have hdone : Bootable .A src.system (Cmd.setBoth.exec src e).2 := ⟨selects_fresh, hholds .A⟩
  refine safe_atomic (fun _ => id) rfl rfl hsrc h ?_
  refine safe_atomic (fun _ => id) rfl rfl hsrc h ?_
  refine safe_atomic (fun _ => id) rfl rfl hsrc hdone ?_
  refine safe_atomic (fun _ => id) rfl rfl hsrc hdone ?_
  exact ⟨⟨_, _, hsrc, hdone⟩, fun _ => ⟨hholds, rfl⟩⟩

/-- **The update**, cut or failing anywhere: a slot other than the one being written boots, and
holds a system. -/
theorem safe_update {systems : System → Prop} (hsys : systems sys) (hsrc : systems src.system)
    (h : Bootable a sys e) : SafeRun src G systems (update a) (Updated src) e := by
  have hswitch (t : Emmc) (ht : Bootable a sys t ∧ Holds a.other src.system t) :=
    safe_switch (G := G) hsys hsrc ht.1 ht.2
  have hback (t : Emmc) (ht : Bootable a.other src.system t) : SafeRun src G systems (writeSlot a)
      (fun u => Bootable a.other src.system u ∧ Holds a src.system u) t := by
    have hwrite : SafeRun src G systems _ _ t := safe_writeSlot hsrc ht
    rwa [Slot.other_other] at hwrite
  exact safe_append (safe_append (safe_append (safe_writeSlot hsys h) hswitch) hback)
    fun t ht => safe_finish hsrc ht.1 (a.other_other.symm ▸ ht.2)

end BadgeOS.EmmcUpdate
