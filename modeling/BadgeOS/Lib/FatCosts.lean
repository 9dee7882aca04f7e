import BadgeOS.Lib.Fat
import Mathlib

/-!
# What a script adds to a FAT

How much more a script can have in use at any moment than what was there before: clusters of files,
and slots of names in each directory.  Both only add up, whatever else the script removes, and so
the costs of its parts are added, in any order and for any number of turns of a loop.

* `Spent` — the files that are there, and how far the directories have grown;
* `Costs` — a script adds no more than that, at every moment;
* `Costs.andThen`, `Costs.forEach`, `Costs.replace` — the rules;
* `Spent.used_le`, `load_rmTree` — what it comes to in clusters, and what a tree frees.
-/

namespace Fat

open Files Crash Function

variable {π δ β : Type} [DecidableEq π] [DecidableEq δ] {F : Geometry π δ}
  {m n : Script (Cmd π β) (Store π β) Bool} {c : Cmd π β} {cs : List (Cmd π β)} {p q : π}
  {D₀ : δ → Slots π} {L L' L₀ : ℕ} {k k' k₀ : δ → ℕ} {v w : Vol π δ β}

/-- No more than `L` clusters of files, and in each directory names of no more than `k` slots more
than in `D₀`. -/
structure Spent (F : Geometry π δ) (D₀ : δ → Slots π) (L : ℕ) (k : δ → ℕ) (w : Vol π δ β) :
    Prop where
  load : F.load (content w.store) ≤ L
  grown : ∀ d, Grown F.per (k d) (D₀ d) (w.dirs d)

omit [DecidableEq π] [DecidableEq δ] in
theorem Spent.mono (h : Spent F D₀ L k w) (hL : L ≤ L') (hk : k ≤ k') : Spent F D₀ L' k' w :=
  ⟨Nat.le_trans h.load hL, fun d => (h.grown d).mono (hk d)⟩

/-- The command adds no more, cut or not. -/
def Adds (F : Geometry π δ) (c : Cmd π β) (L : ℕ) (k : δ → ℕ) : Prop :=
  ∀ D₀ L₀ k₀ w, Spent F D₀ L₀ k₀ w → Spent F D₀ (L₀ + L) (k₀ + k) (exec F w c).2 ∧
    ∀ t, (disk F).torn c w t → Spent F D₀ (L₀ + L) (k₀ + k) t

/-- **The script adds no more**, at every moment. -/
def Costs (F : Geometry π δ) (m : Script (Cmd π β) (Store π β) Bool) (L : ℕ) (k : δ → ℕ) : Prop :=
  ∀ D₀ L₀ k₀ w, Spent F D₀ L₀ k₀ w →
    Within (disk F) (Spent F D₀ (L₀ + L) (k₀ + k)) (m.comap Vol.store) w

/-- The clusters of the tree `p`, if it is there. -/
def Geometry.treeLoad (F : Geometry π δ) (C : π → Option (List β)) (p : π) : ℕ :=
  (F.trees.map fun t => if t.1 = p ∧ (C p).isSome then t.2 else 0).sum

/-! ### The rules -/

theorem Costs.mono (h : Costs F m L k) (hL : L ≤ L') (hk : k ≤ k') : Costs F m L' k' := by
  intro D₀ L₀ k₀ w hw o t hruns
  exact (h D₀ L₀ k₀ w hw o t hruns).mono (Nat.add_le_add_left hL _)
    (add_le_add_right hk _)

theorem Costs.pure (a : Bool) : Costs F (pure a : Script (Cmd π β) (Store π β) Bool) 0 0 :=
  fun _ _ _ _ hw => within_done.mpr hw

theorem Costs.andThen (hm : Costs F m L k) (hn : Costs F n L' k') :
    Costs F (m.andThen n) (L + L') (k + k') := by
  intro D₀ L₀ k₀ w hw
  rw [Script.comap_andThen, within_andThen, ← Nat.add_assoc, ← add_assoc]
  have hfirst := hm D₀ L₀ k₀ w hw
  refine ⟨fun o t hruns => ?_, fun _ => hn _ _ _ _ hfirst.finish⟩
  exact (hfirst o t hruns).mono (Nat.le_add_right ..) (le_add_of_nonneg_right zero_le)

/-- Whatever it sees. -/
theorem Costs.see {α : Type} {g : Store π β → α} {f : α → Script (Cmd π β) (Store π β) Bool}
    (h : ∀ a, Costs F (f a) L k) : Costs F (Script.see g >>= f) L k := by
  intro D₀ L₀ k₀ w hw
  rw [Script.comap_bind, Script.comap_see, within_see]
  exact h _ D₀ L₀ k₀ w hw

theorem Costs.nil : Costs F (.seq [] : Script (Cmd π β) (Store π β) Bool) 0 0 := .pure true

theorem Costs.cons (hc : Adds F c L k) (hcs : Costs F (.seq cs) L' k') :
    Costs F (.seq (c :: cs)) (L + L') (k + k') := by
  intro D₀ L₀ k₀ w hw
  obtain ⟨hexec, htorn⟩ := hc D₀ L₀ k₀ w hw
  have hmore {t : Vol π δ β} (ht : Spent F D₀ (L₀ + L) (k₀ + k) t) :
      Spent F D₀ (L₀ + L + L') (k₀ + k + k') t :=
    ht.mono (Nat.le_add_right ..) (le_add_of_nonneg_right zero_le)
  rw [Script.comap_seq, within_seq_cons, ← Nat.add_assoc, ← add_assoc]
  refine ⟨hmore (hw.mono (Nat.le_add_right ..) (le_add_of_nonneg_right zero_le)),
    fun t ht => hmore (htorn t ht), hmore hexec, fun _ => ?_⟩
  have hrest := hcs _ _ _ _ hexec
  rw [Script.comap_seq] at hrest
  exact hrest

/-- A loop costs what its turns cost. -/
theorem Costs.forEach {α : Type} {body : α → Script (Cmd π β) (Store π β) Bool} {xs : List α}
    {L : α → ℕ} {k : α → δ → ℕ} (h : ∀ x ∈ xs, Costs F (body x) (L x) (k x)) :
    Costs F (Script.forEach body xs) (xs.map L).sum (xs.map k).sum := by
  induction xs with
  | nil => exact .pure true
  | cons x xs ih =>
      rw [List.map_cons, List.map_cons, List.sum_cons, List.sum_cons]
      exact (h x List.mem_cons_self).andThen (ih fun y hy => h y (List.mem_cons_of_mem x hy))

/-! ### Directories -/

/-- The slots of a name. -/
def nameCost (F : Geometry π δ) (p : π) : δ → ℕ :=
  match F.name p with
  | none => 0
  | some (d, n) => Pi.single d n

/-- ... and those of a directory, with `.` and `..`. -/
def dirCost (F : Geometry π δ) (p : π) : δ → ℕ :=
  nameCost F p + match F.opens p with
    | none => 0
    | some d => Pi.single d 2

section Grows

variable {D : δ → Slots π} {C : π → Option (List β)}

theorem grown_leave (h : ∀ d, Grown F.per (k d) (D₀ d) (D d)) (p : π) (d : δ) :
    Grown F.per (k d) (D₀ d) (leave F D p d) := by
  rw [leave]
  cases F.name p with
  | none => exact h d
  | some seated =>
      obtain ⟨e, n⟩ := seated
      show Grown _ _ _ (update D e (remove p (D e)) d)
      by_cases hd : d = e
      · subst hd
        rw [update_self]
        exact (h d).remove p
      · rw [update_of_ne hd]
        exact h d

theorem grown_leaves (h : ∀ d, Grown F.per (k d) (D₀ d) (D d)) (ps : List π) (d : δ) :
    Grown F.per (k d) (D₀ d) (ps.foldl (leave F) D d) := by
  induction ps generalizing D with
  | nil => exact h d
  | cons p ps ih => exact ih fun d => grown_leave h p d

omit [DecidableEq π] in
theorem grown_enter (hper : 2 ≤ F.per) (h : ∀ d, Grown F.per (k d) (D₀ d) (D d)) (p : π) (d : δ) :
    Grown F.per ((k + nameCost F p) d) (D₀ d) (enter F C D p d) := by
  have hmore (k' : δ → ℕ) : Grown F.per ((k + k') d) (D₀ d) (D d) :=
    (h d).mono (Nat.le_add_right ..)
  rw [enter, nameCost]
  cases F.name p with
  | none => exact hmore _
  | some seated =>
      obtain ⟨e, n⟩ := seated
      show Grown _ ((k + (Pi.single e n : δ → ℕ)) d) _
        ((if (C p).isSome then D else update D e (place F.per n p (D e))) d)
      split
      · exact hmore _
      · by_cases hd : d = e
        · subst hd
          rw [update_self]
          show Grown _ (k d + (Pi.single d n : δ → ℕ) d) _ _
          rw [Pi.single_eq_same]
          exact (h d).place (by omega) n p
        · rw [update_of_ne hd]
          exact hmore _

omit [DecidableEq π] [DecidableEq δ] in
/-- A new directory is one whose names are `.` and `..`. -/
theorem grown_fresh (hper : 2 ≤ F.per) (slots : Slots π) (p : π) (n : ℕ) :
    Grown F.per (n + 2) slots (fresh F.per p) := by
  have hlength : (fresh F.per p).length = F.per := by
    simp only [fresh, List.length_cons, List.length_replicate]
    omega
  have htop : top (fresh F.per p) ≤ 2 := by
    have hnone := top_append_none [some p, some p] (F.per - 2)
    have hle := top_le_length [some p, some p]
    exact Nat.le_trans (Nat.le_of_eq hnone) hle
  refine ⟨(dvd_of_eq hlength.symm), Nat.le_trans htop (by omega), ?_⟩
  rw [hlength]
  refine Nat.le_trans ?_ (Nat.le_max_right ..)
  have hone : F.per ≤ roundUp F.per F.per := le_roundUp (by omega) _
  obtain hle | hle := Nat.le_total F.per (top slots + (n + 2))
  · exact Nat.le_trans hone (roundUp_mono hle)
  · -- at least one cluster
    rw [roundUp]
    exact Nat.le_mul_of_pos_left _ (Nat.div_pos (by omega) (by omega))

omit [DecidableEq π] in
theorem grown_makeDir (hper : 2 ≤ F.per) (h : ∀ d, Grown F.per (k d) (D₀ d) (D d)) (p : π) (d : δ) :
    Grown F.per ((k + dirCost F p) d) (D₀ d) (makeDir F C D p d) := by
  have henter (k' : δ → ℕ) :
      Grown F.per ((k + (nameCost F p + k')) d) (D₀ d) (enter F C D p d) := by
    refine (grown_enter hper h p d).mono ?_
    rw [← add_assoc]
    exact Nat.le_add_right ..
  rw [makeDir, dirCost]
  cases F.opens p with
  | none => exact henter _
  | some e =>
      show Grown _ ((k + (nameCost F p + (Pi.single e 2 : δ → ℕ))) d) _
        ((if (C p).isSome then D else update (enter F C D p) e (fresh F.per p)) d)
      split
      · exact (h d).mono (Nat.le_add_right ..)
      · by_cases hd : d = e
        · subst hd
          rw [update_self, ← add_assoc]
          show Grown _ ((k + nameCost F p) d + (Pi.single d 2 : δ → ℕ) d) _ _
          rw [Pi.single_eq_same]
          exact grown_fresh hper _ _ _
        · rw [update_of_ne hd]
          exact henter _

end Grows

/-! ### Files -/

section Loads

variable {C : π → Option (List β)} {x : List β}

omit [DecidableEq δ] in
theorem sizes_update_some {ps : List π} (hps : ps.Nodup) :
    (ps.map (F.size (update C p (some x)))).sum ≤
      (ps.map (F.size C)).sum + clustersOf F.clusterSize x.length := by
  have hsize : F.size (update C p (some x)) p = clustersOf F.clusterSize x.length := by
    rw [Geometry.size, update_self]
    rfl
  have hsame {q : π} (hq : q ≠ p) : F.size (update C p (some x)) q = F.size C q := by
    rw [Geometry.size, Geometry.size, update_of_ne hq]
  induction ps with
  | nil => exact Nat.zero_le _
  | cons q qs ih =>
      obtain ⟨hq, hqs⟩ := List.nodup_cons.mp hps
      rw [List.map_cons, List.map_cons, List.sum_cons, List.sum_cons]
      by_cases hqp : q = p
      · subst hqp
        have hrest : qs.map (F.size (update C q (some x))) = qs.map (F.size C) :=
          List.map_congr_left fun r hr => hsame (ne_of_mem_of_not_mem hr hq)
        rw [hsize, hrest]
        omega
      · have hle := ih hqs
        rw [hsame hqp]
        omega

omit [DecidableEq δ] in
/-- A file more. -/
theorem load_update_some (hfiles : F.files.Nodup) (htree : ∀ t ∈ F.trees, t.1 ≠ p) :
    F.load (update C p (some x)) ≤ F.load C + clustersOf F.clusterSize x.length := by
  have htrees : F.trees.map (fun t => if (update C p (some x) t.1).isSome then t.2 else 0) =
      F.trees.map (fun t => if (C t.1).isSome then t.2 else 0) := by
    refine List.map_congr_left fun t ht => ?_
    rw [update_of_ne (htree t ht)]
  have hsum : _ ≤ _ := sizes_update_some (F := F) (C := C) (p := p) (x := x) hfiles
  rw [Geometry.load, Geometry.load, htrees]
  omega

omit [DecidableEq δ] in
theorem load_update_none : F.load (update C p none) ≤ F.load C := by
  refine load_mono (fun q _ => size_mono ?_) fun t _ h => ?_
  · by_cases hq : q = p
    · subst hq
      rw [update_self]
      exact Nat.zero_le _
    · rw [update_of_ne hq]
  · by_cases ht : t.1 = p
    · rw [ht, update_self] at h
      cases h
    · rwa [update_of_ne ht] at h

omit [DecidableEq δ] in
/-- A directory is no file. -/
theorem load_update_getD (htree : ∀ t ∈ F.trees, t.1 ≠ p) :
    F.load (update C p (some ((C p).getD []))) ≤ F.load C := by
  refine load_mono (fun q _ => size_mono ?_) fun t ht h => ?_
  · by_cases hq : q = p
    · subst hq
      rw [update_self]
      rfl
    · rw [update_of_ne hq]
  · rwa [update_of_ne (htree t ht)] at h

end Loads

/-! ### Commands -/

theorem Adds.sync : Adds F (.sync : Cmd π β) 0 0 := by
  intro D₀ L₀ k₀ w hw
  refine ⟨⟨?_, hw.grown⟩, ?_⟩
  · rw [content_exec .sync]
    exact hw.load
  · rintro t ⟨c', hpart, -⟩
    exact hpart.elim

theorem Adds.rm (ps : List π) : Adds F (.rm ps : Cmd π β) 0 0 := by
  have hrm {D₀ : δ → Slots π} {L₀ : ℕ} {k₀ : δ → ℕ} {w : Vol π δ β} (hw : Spent F D₀ L₀ k₀ w)
      (qs : List π) : Spent F D₀ L₀ k₀ (exec F w (.rm qs)).2 := by
    refine ⟨?_, fun d => grown_leaves hw.grown qs d⟩
    rw [content_exec .rm]
    exact Nat.le_trans (load_rm qs) hw.load
  intro D₀ L₀ k₀ w hw
  refine ⟨hrm hw ps, ?_⟩
  rintro t ⟨c', ⟨qs, -, rfl⟩, rfl⟩
  exact hrm hw qs

theorem content_rmTree (w : Vol π δ β) :
    content (exec F w (.rmTree p)).2.store = update (content w.store) p none :=
  content_update w.store p none

theorem Adds.rmTree (hopens : F.opens p = none) : Adds F (.rmTree p : Cmd π β) 0 0 := by
  intro D₀ L₀ k₀ w hw
  refine ⟨⟨?_, fun d => ?_⟩, ?_⟩
  · rw [content_rmTree]
    exact Nat.le_trans load_update_none hw.load
  · show Grown _ _ _ (dirsAfter F (content w.store) w.dirs (.rmTree p) d)
    rw [dirsAfter, hopens]
    exact grown_leave hw.grown p d
  · rintro t ⟨c', hpart, -⟩
    exact hpart.elim

theorem Adds.mkdir (hper : 2 ≤ F.per) (htree : ∀ t ∈ F.trees, t.1 ≠ p) :
    Adds F (.mkdir p : Cmd π β) 0 (dirCost F p) := by
  intro D₀ L₀ k₀ w hw
  refine ⟨⟨?_, fun d => grown_makeDir hper hw.grown p d⟩, ?_⟩
  · rw [content_exec .mkdir]
    exact Nat.le_trans (load_update_getD htree) hw.load
  · rintro t ⟨c', hpart, -⟩
    exact hpart.elim

section Replace

variable {tmp : π} {bytes bytes' : List β}

theorem spent_write (hper : 2 ≤ F.per) (hfiles : F.files.Nodup) (htmp : ∀ t ∈ F.trees, t.1 ≠ tmp)
    (hle : bytes'.length ≤ bytes.length) (hw : Spent F D₀ L₀ k₀ w) :
    Spent F D₀ (L₀ + clustersOf F.clusterSize bytes.length) (k₀ + nameCost F tmp)
      (exec F w (.write tmp bytes')).2 := by
  refine ⟨?_, fun d => grown_enter hper hw.grown tmp d⟩
  rw [content_exec .write]
  exact Nat.le_trans (load_update_some hfiles htmp) (Nat.add_le_add hw.load (clustersOf_mono hle))

/-- The new file, written and synced, gets its name. -/
theorem spent_mv (hper : 2 ≤ F.per) (hfiles : F.files.Nodup) (hname : ∀ t ∈ F.trees, t.1 ≠ p)
    {C : π → Option (List β)} (hload : F.load C ≤ L₀)
    (hC : content w.store = update C tmp (some bytes))
    (hgrown : ∀ d, Grown F.per (k d) (D₀ d) (w.dirs d)) :
    Spent F D₀ (L₀ + clustersOf F.clusterSize bytes.length) (k + nameCost F p)
      (exec F w (.mv tmp p)).2 := by
  have hthere : content w.store tmp = some bytes := by rw [hC, update_self]
  constructor
  · rw [content_exec (.mv hthere), hC, update_idem]
    exact Nat.le_trans (load_update_some hfiles hname)
      (Nat.add_le_add_right (Nat.le_trans load_update_none hload) _)
  · intro d
    show Grown _ _ _ (dirsAfter F (content w.store) w.dirs (.mv tmp p) d)
    rw [dirsAfter, hthere]
    exact grown_leave (fun d => grown_enter hper hgrown p d) tmp d

/-- **A file that is replaced** is there twice. -/
theorem Costs.replace (hper : 2 ≤ F.per) (hfiles : F.files.Nodup)
    (htmp : ∀ t ∈ F.trees, t.1 ≠ tmp) (hname : ∀ t ∈ F.trees, t.1 ≠ p) :
    Costs F (.seq [.write tmp bytes, .sync, .mv tmp p, .sync])
      (clustersOf F.clusterSize bytes.length) (nameCost F tmp + nameCost F p) := by
  intro D₀ L₀ k₀ w hw
  rw [← add_assoc]
  have hmore {t : Vol π δ β} (ht : Spent F D₀ (L₀ + clustersOf F.clusterSize bytes.length)
      (k₀ + nameCost F tmp) t) : Spent F D₀ (L₀ + clustersOf F.clusterSize bytes.length)
        (k₀ + nameCost F tmp + nameCost F p) t :=
    ht.mono (Nat.le_refl _) (le_add_of_nonneg_right zero_le)
  have hwritten := spent_write hper hfiles htmp (Nat.le_refl bytes.length) hw
  have hsynced := (Adds.sync _ _ _ _ hwritten).1
  have hC : content (exec F (exec F w (.write tmp bytes)).2 .sync).2.store =
      update (content w.store) tmp (some bytes) := by
    rw [content_exec .sync, content_exec .write]
  have hnamed := spent_mv hper hfiles hname hw.load hC hsynced.grown
  have hlast := (Adds.sync _ _ _ _ hnamed).1
  rw [Script.comap_seq, within_seq_cons]
  refine ⟨hmore (hw.mono (Nat.le_add_right ..) (le_add_of_nonneg_right zero_le)), ?_,
    hmore hwritten, fun _ => ?_⟩
  · rintro t ⟨c', ⟨n, rfl⟩, rfl⟩
    exact hmore (spent_write hper hfiles htmp (List.take_sublist n bytes).length_le hw)
  rw [within_seq_cons]
  refine ⟨hmore hwritten, fun t ht => hmore ((Adds.sync _ _ _ _ hwritten).2 t ht), hmore hsynced,
    fun _ => ?_⟩
  rw [within_seq_cons]
  refine ⟨hmore hsynced, fun t ⟨_, hpart, _⟩ => hpart.elim, hnamed, fun _ => ?_⟩
  rw [within_seq_cons]
  exact ⟨hnamed, (Adds.sync _ _ _ _ hnamed).2, hlast, fun _ => within_done.mpr hlast⟩

end Replace

/-! ### In clusters -/

omit [DecidableEq π] [DecidableEq δ] in
theorem size_le_load {C : π → Option (List β)} (hp : p ∈ F.files) : F.size C p ≤ F.load C := by
  have hmem := List.mem_map_of_mem (f := F.size C) hp
  have hle := List.single_le_sum (fun n _ => Nat.zero_le n) _ hmem
  exact Nat.le_trans hle (Nat.le_add_right _ _)

omit [DecidableEq δ] in
/-- What a tree frees. -/
theorem load_rmTree {C : π → Option (List β)} :
    F.load (update C p none) + F.treeLoad C p ≤ F.load C := by
  have hsizes : (F.files.map (F.size (update C p none))).sum ≤ (F.files.map (F.size C)).sum := by
    refine List.sum_le_sum fun q _ => size_mono ?_
    by_cases hq : q = p
    · subst hq
      rw [update_self]
      exact Nat.zero_le _
    · rw [update_of_ne hq]
  have htrees : (F.trees.map fun t => if (update C p none t.1).isSome then t.2 else 0).sum +
      F.treeLoad C p ≤ (F.trees.map fun t => if (C t.1).isSome then t.2 else 0).sum := by
    rw [Geometry.treeLoad, ← List.sum_map_add]
    refine List.sum_le_sum fun t _ => ?_
    by_cases ht : t.1 = p
    · simp [ht]
    · simp [ht]
  rw [Geometry.load, Geometry.load]
  omega

theorem sum_le_of_support {ι : Type} [DecidableEq ι] {l l' : List ι} {g : ι → ℕ} (hl : l.Nodup)
    (hl' : l'.Nodup) (h : ∀ x ∈ l, g x ≠ 0 → x ∈ l') : (l.map g).sum ≤ (l'.map g).sum := by
  rw [← List.sum_toFinset g hl, ← List.sum_toFinset g hl']
  refine Finset.sum_le_sum_of_ne_zero fun x hx hg => ?_
  exact List.mem_toFinset.mpr (h x (List.mem_toFinset.mp hx) hg)


omit [DecidableEq π] [DecidableEq δ] in
/-- **What is in use**, by what was there and what was added. -/
theorem Spent.used_le (hper : 0 < F.per) (hwhole : ∀ d, F.per ∣ (D₀ d).length)
    (h : Spent F D₀ L k w) : F.used w ≤ F.base + F.dirLoad D₀ + L +
      (F.dirs.map fun d => (k d + F.per - 1) / F.per).sum := by
  have hdirs : F.dirLoad w.dirs ≤ F.dirLoad D₀ +
      (F.dirs.map fun d => (k d + F.per - 1) / F.per).sum := by
    rw [Geometry.dirLoad, Geometry.dirLoad, ← List.sum_map_add]
    exact List.sum_le_sum fun d _ => (h.grown d).clusters_le hper (hwhole d)
  have hload := h.load
  rw [Geometry.used, Geometry.total]
  omega

end Fat
