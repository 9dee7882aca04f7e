import Mathlib

/-!
# Scripts that a power cut interrupts

A script is a tree of commands on a disk, each of which the power can be cut before, inside
or after, and looks at the disk that decide what comes next.  What a command does to the disk,
what a cut inside it can leave and what it leaves when it fails is the `Disk`'s.

* `Script`, `Disk`, `Runs` — scripts and their runs, under the incidents that are `allowed`;
* `wp` — the weakest precondition of a postcondition (the script ends) and a crash condition
  (the power goes), with `wp_bind` to compose and `wp_frame` for what no command touches;
* `Cuts` — a script started again and again, each time cut; `Cuts.invariant` is its rule.
-/

namespace Crash

/-- What commands `ι` do to a disk `σ`. -/
structure Disk (ι σ : Type) where
  /-- The command to its end, with its success. -/
  exec : ι → σ → Bool × σ
  /-- What a cut inside the command can leave; nothing, for an atomic one. -/
  torn : ι → σ → σ → Prop
  /-- What the command leaves when it fails of itself; nothing, for one that does not. -/
  fail : ι → σ → σ → Prop

/-- A script. -/
inductive Script (ι σ α : Type)
  | done (a : α)
  | cmd (c : ι) (k : Bool → Script ι σ α)
  | look (k : σ → Script ι σ α)

/-- What can happen to a run. -/
inductive Incident (ι : Type)
  /-- The power goes before or inside the command. -/
  | cut (c : ι)
  /-- The command fails. -/
  | fail (c : ι)
  deriving DecidableEq

/-- The power goes; no command fails. -/
def Incident.IsCut {ι : Type} : Incident ι → Prop
  | .cut _ => True
  | .fail _ => False

/-- How a run ends. -/
inductive Outcome (ι α : Type)
  | done (a : α)
  | cut (c : ι)

variable {ι σ α β : Type}

namespace Script

/-- One script after another. -/
def bind : Script ι σ α → (α → Script ι σ β) → Script ι σ β
  | done a, f => f a
  | cmd c k, f => cmd c fun ok => (k ok).bind f
  | look k, f => look fun s => (k s).bind f

instance : Monad (Script ι σ) where
  pure := done
  bind := bind

/-- One command, with its exit status. -/
def run (c : ι) : Script ι σ Bool := cmd c done

/-- One command whose exit status nothing reads. -/
def step (c : ι) : Script ι σ Unit := cmd c fun _ => done ()

/-- A look at the disk. -/
def see (f : σ → α) : Script ι σ α := look fun s => done (f s)

/-- Commands in order, up to the first that fails. -/
def seq : List ι → Script ι σ Bool
  | [] => done true
  | c :: cs => cmd c fun ok => if ok then seq cs else done false

/-- `set -e`: the second script, unless the first failed. -/
def andThen (m n : Script ι σ Bool) : Script ι σ Bool := do
  let ok ← m
  if ok = true then n else pure false

/-- A loop, up to the first round that fails. -/
def forEach (body : α → Script ι σ Bool) : List α → Script ι σ Bool
  | [] => pure true
  | x :: xs => (body x).andThen (forEach body xs)

/-- The run that nothing interrupts. -/
def exec (D : Disk ι σ) : Script ι σ α → σ → α × σ
  | done a, s => (a, s)
  | cmd c k, s => (k (D.exec c s).1).exec D (D.exec c s).2
  | look k, s => (k s).exec D s

/-- The run that the power cut ends before command `n`, counted from 0. -/
def execCut (D : Disk ι σ) : ℕ → Script ι σ α → σ → Option (ι × σ)
  | _, done _, _ => none
  | n, look k, s => (k s).execCut D n s
  | 0, cmd c _, s => some (c, s)
  | n + 1, cmd c k, s => (k (D.exec c s).1).execCut D n (D.exec c s).2

/-- The script where the disk holds more than it looks at. -/
def comap {τ : Type} (f : τ → σ) : Script ι σ α → Script ι τ α
  | done a => done a
  | cmd c k => cmd c fun ok => (k ok).comap f
  | look k => look fun t => (k (f t)).comap f

/-- Every command the script can come to satisfies `P`. -/
def All (P : ι → Prop) : Script ι σ α → Prop
  | done _ => True
  | cmd c k => P c ∧ ∀ ok, (k ok).All P
  | look k => ∀ s, (k s).All P

end Script

variable {D : Disk ι σ} {G : Incident ι → Prop} {m : Script ι σ α} {f : α → Script ι σ β}
  {s t u : σ} {P : ι → Prop} {I : σ → Prop}

/-! ### Runs -/

/-- The runs of a script, with the incidents that `G` allows. -/
inductive Runs (D : Disk ι σ) (G : Incident ι → Prop) :
    Script ι σ α → σ → Outcome ι α → σ → Prop
  | done {a : α} {s : σ} : Runs D G (.done a) s (.done a) s
  | look {k : σ → Script ι σ α} {s t : σ} {o : Outcome ι α} :
      Runs D G (k s) s o t → Runs D G (.look k) s o t
  | cmd {c : ι} {k : Bool → Script ι σ α} {s t : σ} {o : Outcome ι α} :
      Runs D G (k (D.exec c s).1) (D.exec c s).2 o t → Runs D G (.cmd c k) s o t
  | fail {c : ι} {k : Bool → Script ι σ α} {s t u : σ} {o : Outcome ι α} :
      G (.fail c) → D.fail c s u → Runs D G (k false) u o t → Runs D G (.cmd c k) s o t
  | before {c : ι} {k : Bool → Script ι σ α} {s : σ} :
      G (.cut c) → Runs D G (.cmd c k) s (.cut c) s
  | inside {c : ι} {k : Bool → Script ι σ α} {s t : σ} :
      G (.cut c) → D.torn c s t → Runs D G (.cmd c k) s (.cut c) t

theorem Runs.of_exec (m : Script ι σ α) (s : σ) :
    Runs D G m s (.done (m.exec D s).1) (m.exec D s).2 := by
  induction m generalizing s with
  | done a => exact .done
  | cmd c k ih => exact .cmd (ih _ _)
  | look k ih => exact .look (ih _ _)

theorem Runs.of_execCut {n : ℕ} {c : ι} (hG : G (.cut c)) (h : m.execCut D n s = some (c, t)) :
    Runs D G m s (.cut c) t := by
  induction m generalizing n s with
  | done a => cases n <;> cases h
  | look k ih => exact .look (ih (n := n) s (by cases n <;> exact h))
  | cmd d k ih =>
      cases n with
      | zero =>
          cases h
          exact .before hG
      | succ n => exact .cmd (ih _ h)

theorem Script.exec_bind : (m >>= f).exec D s = (f (m.exec D s).1).exec D (m.exec D s).2 := by
  induction m generalizing s with
  | done a => rfl
  | look k ih => exact ih s
  | cmd c k ih => exact ih _

theorem Script.exec_see (f : σ → α) : (Script.see f : Script ι σ α).exec D s = (f s, s) := rfl

theorem Script.exec_andThen {m n : Script ι σ Bool} : (m.andThen n).exec D s =
    if (m.exec D s).1 = true then n.exec D (m.exec D s).2 else (false, (m.exec D s).2) := by
  rw [Script.andThen, exec_bind]
  split
  · rfl
  · rfl

section Seq

variable {c : ι} {cs ds : List ι}

theorem Script.exec_seq_cons : (Script.seq (c :: cs)).exec D s =
    if (D.exec c s).1 = true then (Script.seq cs).exec D (D.exec c s).2
    else (false, (D.exec c s).2) := by
  show (if (D.exec c s).1 = true then Script.seq cs else .done false).exec D _ = _
  split
  · rfl
  · rfl

end Seq

section Comap

variable {τ : Type} {g : τ → σ}

theorem Script.comap_bind : (m >>= f).comap g = m.comap g >>= fun a => (f a).comap g := by
  induction m with
  | done a => rfl
  | cmd c k ih => exact congrArg (Script.cmd c) (funext ih)
  | look k ih => exact congrArg Script.look (funext fun t => ih (g t))

theorem Script.comap_see {h : σ → α} :
    (Script.see h : Script ι σ α).comap g = Script.see (h ∘ g) := rfl

theorem Script.comap_seq {cs : List ι} :
    (Script.seq cs : Script ι σ Bool).comap g = Script.seq cs := by
  induction cs with
  | nil => rfl
  | cons c cs ih =>
      refine congrArg (Script.cmd c) (funext fun ok => ?_)
      cases ok with
      | true => exact ih
      | false => rfl

theorem Script.comap_andThen {m n : Script ι σ Bool} :
    (m.andThen n).comap g = (m.comap g).andThen (n.comap g) := by
  rw [Script.andThen, Script.comap_bind]
  refine congrArg _ (funext fun ok => ?_)
  cases ok with
  | true => rfl
  | false => rfl

end Comap

/-! ### Scripts that a failure ends -/

/-- A command that fails ends the script, and not with an end in `good`. -/
def Script.Strict (good : α → Prop) : Script ι σ α → Prop
  | done _ => True
  | cmd _ k => (k true).Strict good ∧ ∃ a, k false = done a ∧ ¬ good a
  | look k => ∀ s, (k s).Strict good

section Strict

variable {good : α → Prop} {good' : β → Prop} {a : α} {f' : β → Script ι σ α}

/-- **No command failed** in a run that ended well. -/
theorem Script.Strict.exec_eq (hm : m.Strict good) (h : Runs D G m s (.done a) t) (ha : good a) :
    m.exec D s = (a, t) := by
  generalize ho : Outcome.done a = o at h
  induction h with
  | done =>
      cases ho
      rfl
  | look _ ih => exact ih (hm _) ho
  | @cmd c k s t o h ih =>
      cases hok : (D.exec c s).1 with
      | true =>
          rw [hok] at ih
          show (k (D.exec c s).1).exec D (D.exec c s).2 = _
          rw [hok]
          exact ih hm.1 ho
      | false =>
          obtain ⟨b, hb, hbad⟩ := hm.2
          rw [hok, hb] at h
          cases h
          cases ho
          exact absurd ha hbad
  | fail _ _ h =>
      obtain ⟨b, hb, hbad⟩ := hm.2
      rw [hb] at h
      cases h
      cases ho
      exact absurd ha hbad
  | before => cases ho
  | inside => cases ho

theorem Script.Strict.bind (hm : m.Strict good) (hf : ∀ a, (f a).Strict good')
    (hbad : ∀ a, ¬ good a → ∃ b, f a = .done b ∧ ¬ good' b) : (m >>= f).Strict good' := by
  induction m with
  | done a => exact hf a
  | look k ih => exact fun s => ih s (hm s)
  | cmd c k ih =>
      obtain ⟨a, ha, hbad'⟩ := hm.2
      obtain ⟨b, hb, hgood⟩ := hbad a hbad'
      refine ⟨ih true hm.1, b, ?_, hgood⟩
      show (k false).bind f = _
      rw [ha]
      exact hb

theorem Script.Strict.see {g : σ → β} (hf : ∀ b, (f' b).Strict good) :
    (Script.see g >>= f' : Script ι σ α).Strict good := fun _ => hf _

theorem Script.Strict.seq {cs : List ι} : (Script.seq cs : Script ι σ Bool).Strict (· = true) := by
  induction cs with
  | nil => trivial
  | cons c cs ih => exact ⟨ih, false, rfl, Bool.false_ne_true⟩

theorem Script.Strict.andThen {m n : Script ι σ Bool} (hm : m.Strict (· = true))
    (hn : n.Strict (· = true)) : (m.andThen n).Strict (· = true) := by
  refine hm.bind (fun ok => ?_) fun ok hok => ⟨false, if_neg hok, Bool.false_ne_true⟩
  split
  · exact hn
  · trivial

end Strict

/-! ### Preconditions -/

/-- From here every run that ends does so with `post`, and every cut one leaves `crash`, which
sees the command that the power went before or inside. -/
def wp (D : Disk ι σ) (G : Incident ι → Prop) :
    Script ι σ α → (α → σ → Prop) → (ι → σ → Prop) → σ → Prop
  | .done a, post, _, s => post a s
  | .look k, post, crash, s => wp D G (k s) post crash s
  | .cmd c k, post, crash, s =>
      (G (.cut c) → crash c s ∧ ∀ t, D.torn c s t → crash c t) ∧
      wp D G (k (D.exec c s).1) post crash (D.exec c s).2 ∧
      (G (.fail c) → ∀ t, D.fail c s t → wp D G (k false) post crash t)

/-- What a run that ended as `o` established. -/
def Outcome.Meets (post : α → σ → Prop) (crash : ι → σ → Prop) (t : σ) : Outcome ι α → Prop
  | .done a => post a t
  | .cut c => crash c t

variable {post post' : α → σ → Prop} {crash crash' : ι → σ → Prop}

/-- **Soundness.** -/
theorem wp_sound {o : Outcome ι α} (h : Runs D G m s o t) (hwp : wp D G m post crash s) :
    o.Meets post crash t := by
  induction h with
  | done => exact hwp
  | look _ ih => exact ih hwp
  | cmd _ ih => exact ih hwp.2.1
  | fail hg hf _ ih => exact ih (hwp.2.2 hg _ hf)
  | before hg => exact (hwp.1 hg).1
  | inside hg ht => exact (hwp.1 hg).2 _ ht

theorem wp_mono (hpost : ∀ a t, post a t → post' a t) (hcrash : ∀ c t, crash c t → crash' c t)
    (h : wp D G m post crash s) : wp D G m post' crash' s := by
  induction m generalizing s with
  | done a => exact hpost a s h
  | look k ih => exact ih s h
  | cmd c k ih =>
      obtain ⟨hcut, hok, hfail⟩ := h
      refine ⟨fun hg => ?_, ih _ hok, fun hg t ht => ih _ (hfail hg t ht)⟩
      exact ⟨hcrash _ _ (hcut hg).1, fun t ht => hcrash _ _ ((hcut hg).2 t ht)⟩

/-- **Composition.** -/
theorem wp_bind {post : β → σ → Prop} :
    wp D G (m >>= f) post crash s ↔ wp D G m (fun a t => wp D G (f a) post crash t) crash s := by
  induction m generalizing s with
  | done a => exact Iff.rfl
  | look k ih => exact ih s
  | cmd c k ih =>
      refine and_congr Iff.rfl (and_congr (ih _) ?_)
      exact forall_congr' fun _ => forall_congr' fun _ => forall_congr' fun _ => ih _

theorem wp_pure {a : α} : wp D G (pure a) post crash s ↔ post a s := Iff.rfl

theorem wp_see {g : σ → α} : wp D G (Script.see g) post crash s ↔ post (g s) s := Iff.rfl

theorem wp_run {c : ι} {post : Bool → σ → Prop} : wp D G (Script.run c) post crash s ↔
    (G (.cut c) → crash c s ∧ ∀ t, D.torn c s t → crash c t) ∧
    post (D.exec c s).1 (D.exec c s).2 ∧ (G (.fail c) → ∀ t, D.fail c s t → post false t) :=
  Iff.rfl

theorem wp_step {c : ι} {post : Unit → σ → Prop} : wp D G (Script.step c) post crash s ↔
    (G (.cut c) → crash c s ∧ ∀ t, D.torn c s t → crash c t) ∧
    post () (D.exec c s).2 ∧ (G (.fail c) → ∀ t, D.fail c s t → post () t) :=
  Iff.rfl

theorem wp_ite {p : Prop} [Decidable p] {n : Script ι σ α} :
    wp D G (if p then m else n) post crash s ↔
      (p → wp D G m post crash s) ∧ (¬p → wp D G n post crash s) := by
  by_cases hp : p
  · simp [hp]
  · simp [hp]

/-- Two facts about the same runs. -/
theorem wp_and (h : wp D G m post crash s) (h' : wp D G m post' crash' s) :
    wp D G m (fun a t => post a t ∧ post' a t) (fun c t => crash c t ∧ crash' c t) s := by
  induction m generalizing s with
  | done a => exact ⟨h, h'⟩
  | look k ih => exact ih s h h'
  | cmd c k ih =>
      obtain ⟨hcut, hok, hfail⟩ := h
      obtain ⟨hcut', hok', hfail'⟩ := h'
      refine ⟨fun hg => ?_, ih _ hok hok', fun hg t ht => ih _ (hfail hg t ht) (hfail' hg t ht)⟩
      exact ⟨⟨(hcut hg).1, (hcut' hg).1⟩, fun t ht => ⟨(hcut hg).2 t ht, (hcut' hg).2 t ht⟩⟩

/-- The command keeps `I`, cut or failed or not. -/
def Disk.Keeps (D : Disk ι σ) (I : σ → Prop) (c : ι) : Prop :=
  ∀ s, I s → I (D.exec c s).2 ∧ (∀ t, D.torn c s t → I t) ∧ ∀ t, D.fail c s t → I t

/-! ### Commands in order -/

section Seq

variable {post : Bool → σ → Prop} {as bs : List ι} {c : ι}

theorem wp_seq_cons : wp D G (Script.seq (c :: as)) post crash s ↔
    (G (.cut c) → crash c s ∧ ∀ t, D.torn c s t → crash c t) ∧
    (if (D.exec c s).1 = true then wp D G (Script.seq as) post crash (D.exec c s).2
      else post false (D.exec c s).2) ∧
    (G (.fail c) → ∀ t, D.fail c s t → post false t) := by
  refine and_congr Iff.rfl (and_congr ?_ ?_)
  · by_cases h : (D.exec c s).1 = true
    · simp [h]
    · simp only [h]
      exact Iff.rfl
  · exact Iff.rfl

/-- One command inside an invariant, and the rest from what it leaves. -/
theorem wp_seq_keeps (hc : D.Keeps I c) (hs : I s) (hcrash : ∀ t, I t → crash c t)
    (hfalse : ∀ t, I t → post false t)
    (hnext : (D.exec c s).1 = true → I (D.exec c s).2 →
      wp D G (Script.seq as) post crash (D.exec c s).2) :
    wp D G (Script.seq (c :: as)) post crash s := by
  obtain ⟨hexec, htorn, hfail⟩ := hc s hs
  rw [wp_seq_cons]
  refine ⟨fun _ => ⟨hcrash s hs, fun t ht => hcrash t (htorn t ht)⟩, ?_,
    fun _ t ht => hfalse t (hfail t ht)⟩
  split
  · rename_i hok
    exact hnext hok hexec
  · exact hfalse _ hexec

theorem wp_seq_append : wp D G (Script.seq (as ++ bs)) post crash s ↔
    wp D G (Script.seq as) (fun ok t =>
      if ok = true then wp D G (Script.seq bs) post crash t else post false t) crash s := by
  induction as generalizing s with
  | nil => exact Iff.rfl
  | cons c as ih =>
      rw [List.cons_append, wp_seq_cons, wp_seq_cons]
      refine and_congr Iff.rfl (and_congr ?_ Iff.rfl)
      by_cases h : (D.exec c s).1 = true
      · rw [if_pos h, if_pos h]
        exact ih
      · rw [if_neg h, if_neg h]
        exact Iff.rfl

/-- **Loop rule.**  A body for each `x` of a list, in order; `before` are the ones done. -/
theorem wp_seq_flatMap {τ : Type} {xs before after : List τ} {body : τ → List ι}
    {J : List τ → σ → Prop} (hxs : before ++ after = xs)
    (hbody : ∀ before x after, before ++ x :: after = xs → ∀ t, J before t →
      wp D G (Script.seq (body x))
        (fun ok u => if ok = true then J (before ++ [x]) u else post false u) crash t)
    (hpost : ∀ t, J xs t → post true t) (hs : J before s) :
    wp D G (Script.seq (after.flatMap body)) post crash s := by
  induction after generalizing before s with
  | nil =>
      rw [List.append_nil] at hxs
      exact hpost s (hxs ▸ hs)
  | cons x after ih =>
      rw [List.flatMap_cons, wp_seq_append]
      refine wp_mono (fun ok t ht => ?_) (fun _ _ ht => ht) (hbody before x after hxs s hs)
      by_cases hok : ok = true
      · rw [if_pos hok] at ht ⊢
        exact ih ((List.append_assoc ..).trans hxs) ht
      · rw [if_neg hok] at ht ⊢
        exact ht

/-- What commands that succeed keep. -/
theorem wp_seq_kept (hI : ∀ c ∈ as, ∀ t, I t → (D.exec c t).1 = true → I (D.exec c t).2)
    (hs : I s) :
    wp D G (Script.seq as) (fun ok t => ok = true → I t) (fun _ _ => True) s := by
  induction as generalizing s with
  | nil => exact fun _ => hs
  | cons c as ih =>
      rw [wp_seq_cons]
      refine ⟨fun _ => ⟨trivial, fun _ _ => trivial⟩, ?_, fun _ _ _ => nofun⟩
      by_cases hok : (D.exec c s).1 = true
      · rw [if_pos hok]
        exact ih (fun d hd => hI d (List.mem_cons_of_mem _ hd)) (hI c List.mem_cons_self s hs hok)
      · rw [if_neg hok]
        exact nofun

end Seq

/-! ### What no command touches -/

/-- **Frame rule.**  What every command of a script keeps, the script keeps. -/
theorem wp_frame (hI : ∀ c, P c → D.Keeps I c) (hm : m.All P) (hs : I s) :
    wp D G m (fun _ => I) (fun _ => I) s := by
  induction m generalizing s with
  | done a => exact hs
  | look k ih => exact ih s (hm s) hs
  | cmd c k ih =>
      obtain ⟨hexec, htorn, hfail⟩ := hI c hm.1 s hs
      exact ⟨fun _ => ⟨hs, htorn⟩, ih _ (hm.2 _) hexec, fun _ t ht => ih _ (hm.2 _) (hfail t ht)⟩

/-- The command of a cut is one of the script's. -/
theorem wp_all (hm : m.All P) : wp D G m (fun _ _ => True) (fun c _ => P c) s := by
  induction m generalizing s with
  | done a => trivial
  | look k ih => exact ih s (hm s)
  | cmd c k ih =>
      exact ⟨fun _ => ⟨hm.1, fun _ _ => hm.1⟩, ih _ (hm.2 _), fun _ _ _ => ih _ (hm.2 _)⟩

/-- One command inside an invariant. -/
theorem wp_keeps {c : ι} {post : Unit → σ → Prop} (hc : D.Keeps I c) (hs : I s)
    (hcrash : ∀ t, I t → crash c t) (hpost : ∀ t, I t → post () t) :
    wp D G (Script.step c) post crash s := by
  obtain ⟨hexec, htorn, hfail⟩ := hc s hs
  exact ⟨fun _ => ⟨hcrash _ hs, fun t ht => hcrash t (htorn t ht)⟩, hpost _ hexec,
    fun _ t ht => hpost t (hfail t ht)⟩

theorem Script.All.mono {Q : ι → Prop} (hm : m.All P) (hPQ : ∀ c, P c → Q c) : m.All Q := by
  induction m with
  | done a => trivial
  | look k ih => exact fun s => ih s (hm s)
  | cmd c k ih => exact ⟨hPQ c hm.1, fun ok => ih ok (hm.2 ok)⟩

theorem Script.All.bind (hm : m.All P) (hf : ∀ a, (f a).All P) : (m >>= f).All P := by
  induction m with
  | done a => exact hf a
  | look k ih => exact fun s => ih s (hm s)
  | cmd c k ih => exact ⟨hm.1, fun ok => ih ok (hm.2 ok)⟩

theorem Script.All.ite {p : Prop} [Decidable p] {n : Script ι σ α} (hm : m.All P) (hn : n.All P) :
    (if p then m else n).All P := by
  split
  · exact hm
  · exact hn

theorem Script.All.step {c : ι} (h : P c) : (Script.step c : Script ι σ Unit).All P :=
  ⟨h, fun _ => trivial⟩

theorem Script.All.run {c : ι} (h : P c) : (Script.run c : Script ι σ Bool).All P :=
  ⟨h, fun _ => trivial⟩

theorem Script.All.seq {cs : List ι} (h : ∀ c ∈ cs, P c) :
    (Script.seq cs : Script ι σ Bool).All P := by
  induction cs with
  | nil => trivial
  | cons c cs ih =>
      refine ⟨h c List.mem_cons_self, fun ok => .ite (ih fun d hd => ?_) trivial⟩
      exact h d (List.mem_cons_of_mem _ hd)

theorem Script.All.see {g : σ → α} : (Script.see g : Script ι σ α).All P := fun _ => trivial

theorem Script.All.look {γ : Type} {g : σ → γ} {m : γ → Script ι σ α}
    (h : ∀ s, (m (g s)).All P) : (Script.see g >>= m).All P := fun s => h s

theorem Script.All.andThen {m n : Script ι σ Bool} (hm : m.All P) (hn : n.All P) :
    (m.andThen n).All P :=
  .bind hm fun _ => .ite hn trivial

theorem Script.All.forEach {body : α → Script ι σ Bool} {xs : List α}
    (h : ∀ x ∈ xs, (body x).All P) : (Script.forEach body xs).All P := by
  induction xs with
  | nil => trivial
  | cons x xs ih =>
      exact .andThen (h x List.mem_cons_self) (ih fun y hy => h y (List.mem_cons_of_mem _ hy))

/-! ### Scripts that keep an invariant -/

section Preserves

theorem wp_andThen {m n : Script ι σ Bool} {post : Bool → σ → Prop} : wp D G (m.andThen n) post crash s ↔
    wp D G m (fun ok t => if ok = true then wp D G n post crash t else post false t) crash s := by
  rw [Script.andThen, wp_bind]
  have hiff (ok : Bool) (t : σ) :
      wp D G (if ok = true then n else pure false) post crash t ↔
        if ok = true then wp D G n post crash t else post false t := by
    cases ok with
    | true => exact Iff.rfl
    | false => exact Iff.rfl
  simp only [hiff]

/-- Cut or not, the script keeps `I`. -/
def Preserves (D : Disk ι σ) (G : Incident ι → Prop) (I : σ → Prop) (m : Script ι σ α) : Prop :=
  ∀ s, I s → wp D G m (fun _ => I) (fun _ => I) s

theorem Preserves.done {a : α} : Preserves D G I (pure a : Script ι σ α) := fun _ hs => hs

theorem Preserves.of_all (hm : m.All P) (hI : ∀ c, P c → D.Keeps I c) : Preserves D G I m :=
  fun _ hs => wp_frame hI hm hs

theorem Preserves.bind (hm : Preserves D G I m) (hf : ∀ a, Preserves D G I (f a)) :
    Preserves D G I (m >>= f) := by
  intro s hs
  rw [wp_bind]
  exact wp_mono (fun a t ht => hf a t ht) (fun _ _ ht => ht) (hm s hs)

theorem Preserves.andThen {m n : Script ι σ Bool} (hm : Preserves D G I m)
    (hn : Preserves D G I n) : Preserves D G I (m.andThen n) := by
  refine hm.bind fun ok => ?_
  split
  · exact hn
  · exact .done

theorem Preserves.forEach {body : α → Script ι σ Bool} {xs : List α}
    (h : ∀ x ∈ xs, Preserves D G I (body x)) : Preserves D G I (Script.forEach body xs) := by
  induction xs with
  | nil => exact .done
  | cons x xs ih =>
      exact .andThen (h x List.mem_cons_self) (ih fun y hy => h y (List.mem_cons_of_mem _ hy))

/-- A look decides what comes next. -/
theorem Preserves.look {γ : Type} {g : σ → γ} {m : γ → Script ι σ α}
    (h : ∀ s, Preserves D G I (m (g s))) : Preserves D G I (Script.see g >>= m) := by
  intro s hs
  rw [wp_bind, wp_see]
  exact h s s hs

theorem Preserves.sound {o : Outcome ι α} (hm : Preserves D G I m)
    (h : Runs D G m s o t) (hs : I s) : I t := by
  have hmeets := wp_sound h (hm s hs)
  cases o with
  | done a => exact hmeets
  | cut c => exact hmeets

end Preserves

/-! ### What holds all through a run -/

/-- No command fails, and wherever the power goes, or at the end, `I` holds. -/
def Within (D : Disk ι σ) (I : σ → Prop) (m : Script ι σ α) (s : σ) : Prop :=
  ∀ o t, Runs D Incident.IsCut m s o t → I t

section Within

variable {a : α}

theorem within_done : Within D I (.done a : Script ι σ α) s ↔ I s := by
  constructor
  · intro h
    exact h _ _ .done
  · intro h o t hruns
    cases hruns
    exact h

theorem within_look {k : σ → Script ι σ α} : Within D I (.look k) s ↔ Within D I (k s) s := by
  constructor
  · intro h o t hruns
    exact h o t (.look hruns)
  · intro h o t hruns
    cases hruns with
    | look hruns => exact h o t hruns

theorem within_cmd {c : ι} {k : Bool → Script ι σ α} : Within D I (.cmd c k) s ↔
    I s ∧ (∀ t, D.torn c s t → I t) ∧ Within D I (k (D.exec c s).1) (D.exec c s).2 := by
  constructor
  · intro h
    exact ⟨h _ _ (.before trivial), fun t ht => h _ _ (.inside trivial ht),
      fun o t hruns => h o t (.cmd hruns)⟩
  · intro ⟨hs, htorn, hrest⟩ o t hruns
    cases hruns with
    | cmd hruns => exact hrest o t hruns
    | fail hg => exact hg.elim
    | before => exact hs
    | inside _ ht => exact htorn t ht

theorem Within.start (h : Within D I m s) : I s := by
  induction m generalizing s with
  | done a => exact within_done.mp h
  | look k ih => exact ih s (within_look.mp h)
  | cmd c k ih => exact (within_cmd.mp h).1

theorem Within.finish (h : Within D I m s) : I (m.exec D s).2 := h _ _ (Runs.of_exec m s)

/-- A run that is not cut ends as the undisturbed one. -/
theorem within_bind : Within D I (m >>= f) s ↔
    Within D I m s ∧ Within D I (f (m.exec D s).1) (m.exec D s).2 := by
  induction m generalizing s with
  | done a =>
      show Within D I (f a) s ↔ Within D I (.done a : Script ι σ α) s ∧ Within D I (f a) s
      rw [within_done]
      exact ⟨fun h => ⟨h.start, h⟩, fun h => h.2⟩
  | look k ih =>
      show Within D I (.look fun s => (k s).bind f) s ↔ Within D I (.look k) s ∧ _
      rw [within_look, within_look]
      exact ih s
  | cmd c k ih =>
      show Within D I (.cmd c fun ok => (k ok).bind f) s ↔ Within D I (.cmd c k) s ∧ _
      rw [within_cmd, within_cmd, and_assoc, and_assoc]
      exact and_congr_right fun _ => and_congr_right fun _ => ih _

theorem within_see {g : σ → α} : Within D I (Script.see g >>= f) s ↔ Within D I (f (g s)) s :=
  within_look

theorem within_andThen {m n : Script ι σ Bool} : Within D I (m.andThen n) s ↔
    Within D I m s ∧ ((m.exec D s).1 = true → Within D I n (m.exec D s).2) := by
  rw [Script.andThen, within_bind]
  refine and_congr_right fun hm => ?_
  cases hok : (m.exec D s).1 with
  | true => simp
  | false =>
      simp only [Bool.false_eq_true, if_false, false_implies, iff_true]
      exact within_done.mpr hm.finish

theorem within_seq_cons {c : ι} {cs : List ι} : Within D I (Script.seq (c :: cs)) s ↔
    I s ∧ (∀ t, D.torn c s t → I t) ∧ I (D.exec c s).2 ∧
      ((D.exec c s).1 = true → Within D I (Script.seq cs) (D.exec c s).2) := by
  show Within D I (.cmd c fun ok => if ok then Script.seq cs else .done false) s ↔ _
  rw [within_cmd]
  refine and_congr_right fun _ => and_congr_right fun _ => ?_
  cases (D.exec c s).1 with
  | true =>
      simp only [if_true, true_implies]
      exact ⟨fun h => ⟨h.start, h⟩, fun h => h.2⟩
  | false =>
      simp only [Bool.false_eq_true, if_false, false_implies, and_true]
      exact within_done

end Within

/-! ### Started again -/

/-- A script cut any number of times, and started again each time. -/
inductive Cuts (D : Disk ι σ) (G : Incident ι → Prop) (m : Script ι σ α) (s : σ) : σ → Prop
  | nil : Cuts D G m s s
  | cut {t u : σ} {c : ι} : Cuts D G m s t → Runs D G m t (.cut c) u → Cuts D G m s u

theorem Cuts.invariant {post : α → σ → Prop} (h : Cuts D G m s t)
    (hwp : ∀ s, I s → wp D G m post (fun _ => I) s) (hs : I s) : I t := by
  induction h with
  | nil => exact hs
  | cut _ hcut ih => exact wp_sound hcut (hwp _ ih)

end Crash
