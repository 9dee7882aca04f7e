import BadgeOS.Lib.Crash
import Mathlib

/-!
# Files replaced by rename

A store of files with the commands that shell scripts change them by.  A rename is atomic; a copy
that is cut or fails leaves a prefix, and what was not synced can be cut down to a prefix by a
later loss of power.  A file that is only ever written under another name, synced and renamed over
the old one is whole at every moment.

* `Store`, `Cmd`, `disk` — the files and the commands, and what a cut or a failure leaves;
* `Settles` — what a loss of power leaves of the files that were not synced;
* `Cmd.Touches`, `content_frame` — the files that a command can change;
* `Yields` — what a script does that nothing disturbs;
* `Whole`, `wp_mv`, `wp_replace` — the rule of write, sync and rename.
-/

namespace Files

open Crash Function

variable {π β : Type}

/-- A file, and whether it is on the disk as it is. -/
structure Data (β : Type) where
  content : List β
  synced : Bool
  deriving DecidableEq

abbrev Store (π β : Type) := π → Option (Data β)

/-- What the programs that run read. -/
def content (S : Store π β) (p : π) : Option (List β) := (S p).map Data.content

inductive Cmd (π β : Type)
  /-- `rm -f` -/
  | rm (ps : List π)
  /-- `rm -rf` of a directory -/
  | rmTree (p : π)
  /-- `mkdir -p` -/
  | mkdir (p : π)
  /-- A file from outside the store, copied into it. -/
  | write (p : π) (bytes : List β)
  /-- `cp` within the store -/
  | copy (src dst : π)
  /-- `mv -f` -/
  | mv (src dst : π)
  /-- `dd`: written over the start of the file, synced -/
  | dd (p : π) (bytes : List β)
  | sync
  deriving DecidableEq

section Commands

variable [DecidableEq π]

/-- `dd` of the first bytes. -/
def overwrite (S : Store π β) (p : π) (bytes : List β) : Store π β :=
  update S p (some ⟨bytes ++ ((content S p).getD []).drop bytes.length, true⟩)

/-- What a command does, with its success. -/
def Cmd.exec (S : Store π β) : Cmd π β → Bool × Store π β
  | .rm ps => (true, fun p => if p ∈ ps then none else S p)
  | .rmTree p => (true, update S p none)
  | .mkdir p => (true, update S p (some ((S p).getD ⟨[], true⟩)))
  | .write p bytes => (true, update S p (some ⟨bytes, false⟩))
  | .copy src dst =>
      match S src with
      | none => (false, S)
      | some x => (true, update S dst (some ⟨x.content, false⟩))
  | .mv src dst =>
      match S src with
      | none => (false, S)
      | some x => (true, update (update S src none) dst (some x))
  | .dd p bytes => (true, overwrite S p bytes)
  | .sync => (true, fun p => (S p).map fun x => { x with synced := true })

/-- What a cut inside a command can leave. -/
def Cmd.torn (S : Store π β) : Cmd π β → Store π β → Prop
  | .rm ps, T => ∃ qs ⊆ ps, T = fun p => if p ∈ qs then none else S p
  | .rmTree p, T => ∃ x, T = update S p (some x)
  | .write p bytes, T => ∃ n, T = update S p (some ⟨bytes.take n, false⟩)
  | .copy src dst, T => ∃ x n, S src = some x ∧ T = update S dst (some ⟨x.content.take n, false⟩)
  | .dd p bytes, T => ∃ n, T = overwrite S p (bytes.take n)
  | _, _ => False

/-- The store.  A command that fails has done nothing, or what a cut can leave. -/
def disk : Disk (Cmd π β) (Store π β) where
  exec c S := c.exec S
  torn c S T := c.torn S T
  fail c S T := T = S ∨ c.torn S T

/-- What can be there after a command, however it went. -/
def Cmd.Leaves (c : Cmd π β) (S T : Store π β) : Prop :=
  T = S ∨ T = (c.exec S).2 ∨ c.torn S T

theorem keeps_of_leaves {I : Store π β → Prop} {c : Cmd π β}
    (h : ∀ S T, I S → c.Leaves S T → I T) : disk.Keeps I c :=
  fun S hI => ⟨h S _ hI (Or.inr (Or.inl rfl)), fun T ht => h S T hI (Or.inr (Or.inr ht)),
    fun T ht => h S T hI (ht.imp_right fun ht => Or.inr ht)⟩

end Commands

/-- What a loss of power, or time, leaves of the store. -/
def Settles (S T : Store π β) : Prop :=
  ∀ p, T p = S p ∨ ∃ x n, S p = some x ∧ x.synced = false ∧ T p = some ⟨x.content.take n, true⟩

/-! ### What a command can change -/

/-- The files that a command can change. -/
def Cmd.Touches : Cmd π β → π → Prop
  | .rm ps, p => p ∈ ps
  | .rmTree q, p | .mkdir q, p | .write q _, p | .copy _ q, p | .dd q _, p => p = q
  | .mv src dst, p => p = src ∨ p = dst
  | .sync, _ => False

section Frame

variable [DecidableEq π] {S T : Store π β} {c : Cmd π β} {p q : π}

theorem content_update (S : Store π β) (p : π) (x : Option (Data β)) :
    content (update S p x) = update (content S) p (x.map Data.content) := by
  funext q
  by_cases hq : q = p
  · subst hq
    simp [content]
  · simp [content, hq]

theorem content_sync (S : Store π β) : content ((Cmd.sync : Cmd π β).exec S).2 = content S := by
  funext q
  simp only [content, Cmd.exec, Option.map_map]
  rfl

/-- **The frame rule.**  Another file is as it was, but for what `sync` says of it. -/
theorem frame (h : c.Leaves S T) (hp : ¬ c.Touches p) :
    T p = S p ∨ T p = (S p).map fun x => { x with synced := true } := by
  obtain rfl | rfl | htorn := h
  · exact Or.inl rfl
  · cases c with
    | rm ps => exact Or.inl (if_neg hp)
    | rmTree q | mkdir q | write q bytes | dd q bytes => exact Or.inl (update_of_ne hp _ _)
    | copy src dst =>
        simp only [Cmd.exec]
        cases S src with
        | none => exact Or.inl rfl
        | some x => exact Or.inl (update_of_ne hp _ _)
    | mv src dst =>
        simp only [Cmd.exec]
        cases S src with
        | none => exact Or.inl rfl
        | some x =>
            have hp' : ¬ (p = src ∨ p = dst) := hp
            left
            show update (update S src none) dst (some x) p = S p
            rw [update_of_ne (fun heq => hp' (Or.inr heq)),
              update_of_ne (fun heq => hp' (Or.inl heq))]
    | sync => exact Or.inr rfl
  · cases c with
    | rm ps =>
        obtain ⟨qs, hqs, rfl⟩ := htorn
        exact Or.inl (if_neg fun hmem => hp (hqs hmem))
    | rmTree q =>
        obtain ⟨x, rfl⟩ := htorn
        exact Or.inl (update_of_ne hp _ _)
    | write q bytes =>
        obtain ⟨n, rfl⟩ := htorn
        exact Or.inl (update_of_ne hp _ _)
    | copy src dst =>
        obtain ⟨x, n, -, rfl⟩ := htorn
        exact Or.inl (update_of_ne hp _ _)
    | dd q bytes =>
        obtain ⟨n, rfl⟩ := htorn
        exact Or.inl (update_of_ne hp _ _)
    | _ => exact htorn.elim

/-- The other files have the content they had. -/
theorem content_frame (h : c.Leaves S T) (hp : ¬ c.Touches p) : content T p = content S p := by
  rw [content, content]
  obtain heq | heq := frame h hp
  · rw [heq]
  · rw [heq, Option.map_map]
    rfl

/-- What is on the disk stays there. -/
theorem keeps_synced {bytes : List β} (hp : ¬ c.Touches p) :
    disk.Keeps (fun S => S p = some ⟨bytes, true⟩) c := by
  refine keeps_of_leaves fun S T h hleaves => ?_
  obtain heq | heq := frame hleaves hp
  · rw [heq, h]
  · rw [heq, h]
    rfl

/-- A command that does not touch a file keeps its content. -/
theorem keeps_content {x : Option (List β)} (hp : ¬ c.Touches p) :
    disk.Keeps (fun S => content S p = x) c :=
  keeps_of_leaves fun _ _ h hleaves => (content_frame hleaves hp).trans h

end Frame

/-! ### Runs that nothing disturbs -/

theorem content_eq_some {S : Store π β} {p : π} {bytes : List β} (h : content S p = some bytes) :
    ∃ x, S p = some x ∧ x.content = bytes := Option.map_eq_some_iff.mp h

section Yields

variable [DecidableEq π] {m n : Script (Cmd π β) (Store π β) Bool} {c : Cmd π β}
  {cs : List (Cmd π β)} {C C₁ C' : π → Option (List β)} {p src dst : π} {bytes : List β}

/-- The command succeeds, and takes what programs read from `C` to `C'`. -/
def Cmd.Takes (c : Cmd π β) (C C' : π → Option (List β)) : Prop :=
  ∀ S, content S = C → (c.exec S).1 = true ∧ content (c.exec S).2 = C'

theorem Cmd.Takes.rm {ps : List π} :
    (Cmd.rm ps).Takes C fun p => if p ∈ ps then none else C p := by
  refine fun S hS => ⟨rfl, ?_⟩
  subst hS
  funext p
  by_cases hp : p ∈ ps
  · simp [Cmd.exec, content, hp]
  · simp [Cmd.exec, content, hp]

theorem Cmd.Takes.mkdir : (Cmd.mkdir p).Takes C (update C p (some ((C p).getD []))) := by
  refine fun S hS => ⟨rfl, ?_⟩
  subst hS
  rw [Cmd.exec, content_update]
  refine congrArg (fun x => update (content S) p (some x)) ?_
  rw [content]
  cases S p with
  | none => rfl
  | some x => rfl

theorem Cmd.Takes.sync : (Cmd.sync : Cmd π β).Takes C C :=
  fun S hS => ⟨rfl, (content_sync S).trans hS⟩

theorem Cmd.Takes.write : (Cmd.write p bytes).Takes C (update C p (some bytes)) := by
  refine fun S hS => ⟨rfl, ?_⟩
  subst hS
  exact content_update S p _

theorem Cmd.Takes.copy (hsrc : C src = some bytes) :
    (Cmd.copy src dst).Takes C (update C dst (some bytes)) := by
  intro S hS
  subst hS
  obtain ⟨x, hx, rfl⟩ := content_eq_some hsrc
  simp only [Cmd.exec, hx]
  exact ⟨trivial, content_update S dst _⟩

theorem Cmd.Takes.mv (hsrc : C src = some bytes) :
    (Cmd.mv src dst).Takes C (update (update C src none) dst (some bytes)) := by
  intro S hS
  subst hS
  obtain ⟨x, hx, rfl⟩ := content_eq_some hsrc
  simp only [Cmd.exec, hx]
  rw [content_update, content_update]
  exact ⟨trivial, rfl⟩

/-- Undisturbed, the script does. -/
def Yields (m : Script (Cmd π β) (Store π β) Bool) (C C' : π → Option (List β)) : Prop :=
  ∀ S, content S = C → (m.exec disk S).1 = true ∧ content (m.exec disk S).2 = C'

theorem Yields.pure : Yields (pure true) C C := fun _ hS => ⟨rfl, hS⟩

theorem Yields.nil : Yields (.seq []) C C := Yields.pure

theorem Yields.of_eq (h : Yields m C C₁) (heq : C₁ = C') : Yields m C C' := heq ▸ h

theorem Yields.cons (hc : c.Takes C C₁) (h : Yields (.seq cs) C₁ C') :
    Yields (.seq (c :: cs)) C C' := by
  intro S hS
  obtain ⟨hok, hC⟩ := hc S hS
  have hexec : (Script.seq (c :: cs)).exec disk S = (Script.seq cs).exec disk (c.exec S).2 := by
    rw [Script.exec_seq_cons]
    exact if_pos hok
  rw [hexec]
  exact h _ hC

theorem Yields.andThen (hm : Yields m C C₁) (hn : Yields n C₁ C') :
    Yields (m.andThen n) C C' := by
  intro S hS
  obtain ⟨hok, hC⟩ := hm S hS
  rw [Script.exec_andThen, if_pos hok]
  exact hn _ hC

/-- A look at what programs read. -/
theorem Yields.see {α : Type} {g : Store π β → α} {f : α → Script (Cmd π β) (Store π β) Bool}
    {a : α} (hg : ∀ S, content S = C → g S = a) (h : Yields (f a) C C') :
    Yields (Script.see g >>= f) C C' := by
  intro S hS
  have hexec : (Script.see g >>= f).exec disk S = (f a).exec disk S := by
    rw [Script.exec_bind]
    exact congrArg (fun b => (f b).exec disk S) (hg S hS)
  rw [hexec]
  exact h S hS

/-- **Write, sync and rename**, undisturbed. -/
theorem Yields.replace {tmp : π} :
    Yields (.seq [.write tmp bytes, .sync, .mv tmp p, .sync]) C
      (update (update C tmp none) p (some bytes)) := by
  refine .cons .write (.cons .sync (.cons (.mv (update_self ..)) ?_))
  rw [update_idem]
  exact .cons .sync .nil

end Yields

/-! ### Files that never go away -/

/-- The command cannot remove the file. -/
def Cmd.Spares (p : π) : Cmd π β → Prop
  | .rm ps => p ∉ ps
  | .rmTree q | .mv q _ => p ≠ q
  | _ => True

section Present

variable [DecidableEq π] {S T : Store π β} {c : Cmd π β} {p : π}

theorem update_ne_none {q : π} {x : Data β} (h : S p ≠ none) : update S q (some x) p ≠ none := by
  by_cases hq : p = q
  · subst hq
    rw [update_self]
    exact Option.some_ne_none x
  · rwa [update_of_ne hq]

/-- **A file that is there** stays there. -/
theorem keeps_present (hc : c.Spares p) : disk.Keeps (fun S => S p ≠ none) c := by
  apply keeps_of_leaves
  intro S T h hleaves
  obtain rfl | rfl | htorn := hleaves
  · exact h
  · cases c with
    | rm ps => simpa only [Cmd.exec, if_neg (show p ∉ ps from hc)] using h
    | rmTree q =>
        simp only [Cmd.exec]
        rwa [update_of_ne (show p ≠ q from hc)]
    | mkdir q => exact update_ne_none h
    | write q bytes => exact update_ne_none h
    | copy src dst =>
        simp only [Cmd.exec]
        cases S src with
        | none => exact h
        | some x => exact update_ne_none h
    | mv src dst =>
        simp only [Cmd.exec]
        cases S src with
        | none => exact h
        | some x =>
            apply update_ne_none
            rwa [update_of_ne (show p ≠ src from hc)]
    | dd q bytes => exact update_ne_none h
    | sync => simpa [Cmd.exec] using h
  · cases c with
    | rm ps =>
        obtain ⟨qs, hqs, rfl⟩ := htorn
        have hp : p ∉ qs := fun hmem => hc (hqs hmem)
        simpa only [if_neg hp] using h
    | rmTree q =>
        obtain ⟨x, rfl⟩ := htorn
        exact update_ne_none h
    | write q bytes =>
        obtain ⟨n, rfl⟩ := htorn
        exact update_ne_none h
    | copy src dst =>
        obtain ⟨x, n, -, rfl⟩ := htorn
        exact update_ne_none h
    | dd q bytes =>
        obtain ⟨n, rfl⟩ := htorn
        exact update_ne_none h
    | _ => exact htorn.elim

omit [DecidableEq π] in
theorem Settles.present (h : Settles S T) (hp : S p ≠ none) : T p ≠ none := by
  obtain heq | ⟨x, n, -, -, heq⟩ := h p
  · rwa [heq]
  · rw [heq]
    exact Option.some_ne_none _

end Present

/-! ### Files that are whole -/

/-- The files in `kept` are on the disk, each with a content that `pool` has for it. -/
def Whole (kept : π → Prop) (pool : π → List β → Prop) (S : Store π β) : Prop :=
  ∀ p, kept p → ∀ x, S p = some x → x.synced = true ∧ pool p x.content

/-- The command writes no file in `kept`. -/
def Cmd.Mild (kept : π → Prop) : Cmd π β → Prop
  | .rm _ | .sync => True
  | .rmTree q | .mkdir q | .write q _ | .copy _ q | .dd q _ | .mv _ q => ¬ kept q

section Whole

variable {kept : π → Prop} {pool pool' : π → List β → Prop} {S T : Store π β}

theorem Whole.mono (h : Whole kept pool S) (hpool : ∀ p bytes, pool p bytes → pool' p bytes) :
    Whole kept pool' S :=
  fun p hp x hx => ⟨(h p hp x hx).1, hpool p _ (h p hp x hx).2⟩

/-- **What power takes** is not in `kept`. -/
theorem Whole.settles (h : Whole kept pool S) (hsettles : Settles S T) {p : π} (hp : kept p) :
    T p = S p := by
  obtain heq | ⟨x, n, hx, hdirty, -⟩ := hsettles p
  · exact heq
  · rw [(h p hp x hx).1] at hdirty
    cases hdirty

theorem Whole.of_settles (h : Whole kept pool S) (hsettles : Settles S T) : Whole kept pool T :=
  fun p hp x hx => h p hp x ((h.settles hsettles hp).symm.trans hx)

variable [DecidableEq π] {c : Cmd π β}

/-- Only the files outside `kept` are new. -/
theorem Whole.update {q : π} {x : Option (Data β)} (h : Whole kept pool S)
    (hx : kept q → ∀ y, x = some y → y.synced = true ∧ pool q y.content) :
    Whole kept pool (update S q x) := by
  intro p hp y hy
  by_cases hq : p = q
  · subst hq
    rw [update_self] at hy
    exact hx hp y hy
  · rw [update_of_ne hq] at hy
    exact h p hp y hy

theorem Whole.rm (h : Whole kept pool S) (ps : List π) :
    Whole kept pool fun p => if p ∈ ps then none else S p := by
  intro p hp x hx
  by_cases hmem : p ∈ ps
  · simp only [if_pos hmem] at hx
    cases hx
  · simp only [if_neg hmem] at hx
    exact h p hp x hx

theorem Whole.sync (h : Whole kept pool S) : Whole kept pool ((Cmd.sync : Cmd π β).exec S).2 := by
  intro p hp x hx
  obtain ⟨y, hy, rfl⟩ := Option.map_eq_some_iff.1 hx
  exact ⟨rfl, (h p hp y hy).2⟩

theorem keeps_whole (hc : c.Mild kept) : disk.Keeps (Whole kept pool) c := by
  apply keeps_of_leaves
  intro S T h hleaves
  have hout {q : π} (hq : ¬ kept q) (x : Option (Data β)) :
      Whole kept pool (Function.update S q x) :=
    h.update fun hkept => absurd hkept hq
  obtain rfl | rfl | htorn := hleaves
  · exact h
  · cases c with
    | rm ps => exact h.rm ps
    | rmTree q | mkdir q | write q bytes | dd q bytes => exact hout hc _
    | copy src dst =>
        simp only [Cmd.exec]
        cases S src with
        | none => exact h
        | some x => exact hout hc _
    | mv src dst =>
        simp only [Cmd.exec]
        cases S src with
        | none => exact h
        | some x =>
            have hsrc : Whole kept pool (Function.update S src none) :=
              h.update fun _ y hy => by cases hy
            exact hsrc.update fun hkept => absurd hkept hc
    | sync => exact h.sync
  · cases c with
    | rm ps =>
        obtain ⟨qs, -, rfl⟩ := htorn
        exact h.rm qs
    | rmTree q =>
        obtain ⟨x, rfl⟩ := htorn
        exact hout hc _
    | write q bytes =>
        obtain ⟨n, rfl⟩ := htorn
        exact hout hc _
    | copy src dst =>
        obtain ⟨x, n, -, rfl⟩ := htorn
        exact hout hc _
    | dd q bytes =>
        obtain ⟨n, rfl⟩ := htorn
        exact hout hc _
    | _ => exact htorn.elim

/-- **The rename** of a file that is on the disk. -/
theorem Whole.mv {src dst : π} {x : Data β} (h : Whole kept pool S)
    (hok : x.synced = true ∧ pool dst x.content) :
    Whole kept pool (Function.update (Function.update S src none) dst (some x)) := by
  have hsrc : Whole kept pool (Function.update S src none) := h.update fun _ y hy => by cases hy
  refine hsrc.update fun _ y hy => ?_
  rw [← Option.some.inj hy]
  exact hok

section Scripts

variable {G : Incident (Cmd π β) → Prop} {post : Bool → Store π β → Prop}
  {crash : Cmd π β → Store π β → Prop} {src dst tmp p : π} {bytes : List β}
  {cs : List (Cmd π β)}

/-- A rename, and the rest if there was something to rename. -/
theorem wp_seq_mv (hcrash : crash (.mv src dst) S) (hfalse : post false S)
    (hnext : ∀ x, S src = some x →
      wp disk G (Script.seq cs) post crash (Function.update (Function.update S src none) dst
        (some x))) :
    wp disk G (Script.seq (.mv src dst :: cs)) post crash S := by
  rw [wp_seq_cons]
  refine ⟨fun _ => ⟨hcrash, fun _ ht => ht.elim⟩, ?_, fun _ T ht => ?_⟩
  · cases hsrc : S src with
    | none =>
        have hexec : disk.exec (Cmd.mv src dst) S = (false, S) := by
          simp only [disk, Cmd.exec, hsrc]
        rw [hexec]
        exact hfalse
    | some x =>
        have hexec : disk.exec (Cmd.mv src dst) S =
            (true, Function.update (Function.update S src none) dst (some x)) := by
          simp only [disk, Cmd.exec, hsrc]
        rw [hexec]
        exact hnext x hsrc
  · obtain rfl | htorn := ht
    · exact hfalse
    · exact htorn.elim

/-- **Write, sync and rename**: the file is whole at every moment, and the new one at the end. -/
theorem wp_replace (htmp : ¬ kept tmp) (hpool : pool p bytes) (h : Whole kept pool S) :
    wp disk G (Script.seq [.write tmp bytes, .sync, .mv tmp p, .sync])
      (fun ok T => Whole kept pool T ∧ (ok = true → content T p = some bytes))
      (fun _ => Whole kept pool) S := by
  have hfalse (T : Store π β) (hT : Whole kept pool T) :
      Whole kept pool T ∧ (false = true → content T p = some bytes) := ⟨hT, Bool.noConfusion⟩
  have hwrite : (Cmd.write tmp bytes : Cmd π β).Mild kept := htmp
  refine wp_seq_keeps (keeps_whole hwrite) h (fun _ hT => hT) hfalse fun _ h => ?_
  refine wp_seq_keeps (keeps_whole trivial) h (fun _ hT => hT) hfalse fun _ h => ?_
  refine wp_seq_mv h (hfalse _ h) fun x hx => ?_
  -- what is renamed is what was written, on the disk
  obtain rfl : x = ⟨bytes, true⟩ := by
    have hwritten : ((Cmd.sync : Cmd π β).exec ((Cmd.write tmp bytes : Cmd π β).exec S).2).2 tmp =
        some ⟨bytes, true⟩ := by
      simp [Cmd.exec]
    exact Option.some.inj (hx.symm.trans hwritten)
  refine wp_seq_keeps (keeps_whole trivial) (h.mv ⟨rfl, hpool⟩) (fun _ hT => hT) hfalse
    fun _ h => ⟨h, fun _ => ?_⟩
  show content ((Cmd.sync : Cmd π β).exec _).2 p = some bytes
  rw [content_sync, content_update, update_self]
  rfl

end Scripts

end Whole

end Files
