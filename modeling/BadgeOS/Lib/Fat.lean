import BadgeOS.Lib.Files
import Mathlib

/-!
# The room on a FAT

What files and directories take of a FAT file system, in clusters.  A directory is a row of slots
of 32 bytes.  A name takes some of them, one behind the other: the first that are free, or the last
ones and as many new clusters as it needs.  Slots come free again, clusters of a directory do not.

* `seat`, `place`, `remove` — names in a directory;
* `Grown` — how far a directory can have grown, whatever comes free in it;
* `Geometry`, `Vol`, `disk` — a store of files whose names stand in directories;
* `Geometry.used` — the clusters in use.
-/

namespace Fat

open Files Crash Function

variable {π δ β : Type}

/-- A directory: for each slot the file whose name it belongs to. -/
abbrev Slots (π : Type) := List (Option π)

/-- The slots of a name: one for every 13 characters, and one for the file. -/
def nameSlots (length : ℕ) : ℕ := (length + 12) / 13 + 1

/-- Up to whole clusters. -/
def roundUp (per n : ℕ) : ℕ := (n + per - 1) / per * per

/-! ### Names in a directory -/

/-- `n` slots for the name of `p`. -/
def seat (n : ℕ) (p : π) : Slots π → Slots π
  | [] => List.replicate n (some p)
  | s :: slots =>
      if ((s :: slots).take n).all Option.isNone then
        List.replicate n (some p) ++ (s :: slots).drop n
      else s :: seat n p slots

/-- ... and the rest of the new clusters, of `per` slots each. -/
def place (per n : ℕ) (p : π) (slots : Slots π) : Slots π :=
  let seated := seat n p slots
  seated ++ List.replicate (roundUp per seated.length - seated.length) none

def remove [DecidableEq π] (p : π) (slots : Slots π) : Slots π :=
  slots.map fun s => if s = some p then none else s

/-- A new directory, with `.` and `..`. -/
def fresh (per : ℕ) (p : π) : Slots π := some p :: some p :: List.replicate (per - 2) none

/-- Up to the last slot that is taken. -/
def top : Slots π → ℕ
  | [] => 0
  | s :: slots => if top slots = 0 ∧ s.isNone = true then 0 else top slots + 1

section Slots

variable {p : π} {n k per : ℕ} {slots slots₀ : Slots π}

theorem le_roundUp (hper : 0 < per) (n : ℕ) : n ≤ roundUp per n := by
  have hsplit := Nat.div_add_mod (n + per - 1) per
  have hmod := Nat.mod_lt (n + per - 1) hper
  rw [roundUp, Nat.mul_comm]
  omega

theorem roundUp_mono (h : n ≤ k) : roundUp per n ≤ roundUp per k :=
  Nat.mul_le_mul_right _ (Nat.div_le_div_right (by omega))

theorem roundUp_add (hper : 0 < per) (h : per ∣ n) : roundUp per (n + k) = n + roundUp per k := by
  obtain ⟨q, rfl⟩ := h
  rw [roundUp, roundUp, show per * q + k + per - 1 = per * q + (k + per - 1) by omega,
    Nat.mul_add_div hper, Nat.add_mul, Nat.mul_comm per]

theorem roundUp_of_dvd (hper : 0 < per) (h : per ∣ n) : roundUp per n = n := by
  have hzero : roundUp per 0 = 0 := by
    rw [roundUp, Nat.div_eq_of_lt (by omega), Nat.zero_mul]
  have hadd := roundUp_add (k := 0) hper h
  rw [hzero] at hadd
  exact hadd

theorem dvd_roundUp (per n : ℕ) : per ∣ roundUp per n := Nat.dvd_mul_left _ _

theorem top_le_length (slots : Slots π) : top slots ≤ slots.length := by
  induction slots with
  | nil => exact Nat.le_refl _
  | cons s slots ih =>
      rw [top, List.length_cons]
      split <;> omega

theorem top_eq_zero : top slots = 0 ↔ slots.all Option.isNone = true := by
  induction slots with
  | nil => simp [top]
  | cons s slots ih =>
      rw [top, List.all_cons, Bool.and_eq_true, ← ih]
      split
      · rename_i h
        simp [h.1, h.2]
      · rename_i h
        simp only [Nat.add_eq_zero_iff, one_ne_zero, and_false, false_iff]
        exact fun hboth => h ⟨hboth.2, hboth.1⟩

theorem top_append_none (slots : Slots π) (n : ℕ) :
    top (slots ++ List.replicate n none) = top slots := by
  induction slots with
  | nil =>
      rw [List.nil_append, top, top_eq_zero]
      simp
  | cons s slots ih => rw [List.cons_append, top, top, ih]

theorem top_append_le (slots slots' : Slots π) :
    top (slots ++ slots') ≤ slots.length + top slots' := by
  induction slots with
  | nil => simp
  | cons s slots ih =>
      rw [List.cons_append, top, List.length_cons]
      split <;> omega

theorem top_drop (slots : Slots π) (n : ℕ) : top (slots.drop n) = top slots - n := by
  induction slots generalizing n with
  | nil => simp [top]
  | cons s slots ih =>
      cases n with
      | zero => rfl
      | succ n =>
          rw [List.drop_succ_cons, ih, top]
          split
          · rename_i h
            omega
          · omega

theorem all_take (h : slots.all Option.isNone = true) (n : ℕ) :
    (slots.take n).all Option.isNone = true := by
  rw [List.all_eq_true] at h ⊢
  exact fun s hs => h s (List.mem_of_mem_take hs)

/-- A name is put behind the last slot that is taken, or in front of it. -/
theorem top_seat_le (slots : Slots π) : top (seat n p slots) ≤ top slots + n := by
  induction slots with
  | nil =>
      have hle := top_le_length (List.replicate n (some p))
      rw [List.length_replicate] at hle
      rw [seat, top, Nat.zero_add]
      exact hle
  | cons s slots ih =>
      rw [seat]
      split
      · have hle := top_append_le (List.replicate n (some p)) ((s :: slots).drop n)
        rw [List.length_replicate, top_drop] at hle
        omega
      · rename_i htaken
        have hpos : 0 < top (s :: slots) := by
          by_contra hzero
          exact htaken (all_take (top_eq_zero.mp (by omega)) n)
        rw [top] at hpos ⊢
        rw [top]
        split at hpos <;> split <;> omega

theorem length_seat_le (slots : Slots π) :
    (seat n p slots).length ≤ max slots.length (top slots + n) := by
  induction slots with
  | nil => simp [seat, top]
  | cons s slots ih =>
      rw [seat]
      split
      · rw [List.length_append, List.length_replicate, List.length_drop]
        omega
      · rename_i htaken
        have hpos : 0 < top (s :: slots) := by
          by_contra hzero
          exact htaken (all_take (top_eq_zero.mp (by omega)) n)
        rw [top] at hpos ⊢
        rw [List.length_cons, List.length_cons]
        split at hpos
        · omega
        · rename_i hrest
          rw [if_neg hrest]
          omega

theorem length_seat_ge (n : ℕ) (p : π) (slots : Slots π) :
    slots.length ≤ (seat n p slots).length := by
  induction slots with
  | nil => exact Nat.zero_le _
  | cons s slots ih =>
      rw [seat]
      split
      · rw [List.length_append, List.length_replicate, List.length_drop]
        omega
      · exact Nat.succ_le_succ ih

/-! ### How far a directory grows -/

/-- `slots` can have come from `slots₀` by names of `k` slots in all, and names that went. -/
structure Grown (per k : ℕ) (slots₀ slots : Slots π) : Prop where
  dvd : per ∣ slots.length
  top_le : top slots ≤ top slots₀ + k
  length_le : slots.length ≤ max slots₀.length (roundUp per (top slots₀ + k))

theorem Grown.refl (h : per ∣ slots.length) : Grown per 0 slots slots :=
  ⟨h, Nat.le_refl _, Nat.le_max_left ..⟩

theorem Grown.mono {k' : ℕ} (h : Grown per k slots₀ slots) (hk : k ≤ k') :
    Grown per k' slots₀ slots :=
  ⟨h.dvd, Nat.le_trans h.top_le (by omega), Nat.le_trans h.length_le
    (max_le_max (Nat.le_refl _) (roundUp_mono (by omega)))⟩

theorem Grown.place (hper : 0 < per) (h : Grown per k slots₀ slots) (n : ℕ) (p : π) :
    Grown per (k + n) slots₀ (place per n p slots) := by
  have htop := h.top_le
  have hround := le_roundUp hper (seat n p slots).length
  have hlen : (Fat.place per n p slots).length = roundUp per (seat n p slots).length := by
    rw [Fat.place, List.length_append, List.length_replicate]
    omega
  refine ⟨?_, ?_, ?_⟩
  · rw [hlen]
    exact dvd_roundUp _ _
  · rw [Fat.place, top_append_none]
    have hseat := top_seat_le (n := n) (p := p) slots
    omega
  · rw [hlen]
    have hseat := length_seat_le (n := n) (p := p) slots
    rcases Nat.le_total (top slots + n) slots.length with hle | hle
    · -- it fits
      rw [Nat.max_eq_left hle] at hseat
      refine Nat.le_trans (roundUp_mono hseat) ?_
      rw [roundUp_of_dvd hper h.dvd]
      exact Nat.le_trans h.length_le (max_le_max (Nat.le_refl _) (roundUp_mono (by omega)))
    · rw [Nat.max_eq_right hle] at hseat
      refine Nat.le_trans (roundUp_mono (Nat.le_trans hseat ?_)) (Nat.le_max_right ..)
      omega

theorem top_remove_le [DecidableEq π] (p : π) (slots : Slots π) :
    top (remove p slots) ≤ top slots := by
  induction slots with
  | nil => exact Nat.le_refl _
  | cons s slots ih =>
      show top ((if s = some p then none else s) :: remove p slots) ≤ _
      by_cases hs : s = some p
      · rw [if_pos hs, top, top, if_neg (show ¬ (top slots = 0 ∧ s.isNone = true) by simp [hs])]
        split <;> omega
      · rw [if_neg hs, top, top]
        split
        · exact Nat.zero_le _
        · rename_i hnew
          rw [if_neg fun hold => hnew ⟨by omega, hold.2⟩]
          omega

theorem Grown.remove [DecidableEq π] (h : Grown per k slots₀ slots) (p : π) :
    Grown per k slots₀ (remove p slots) := by
  have hlen : (Fat.remove p slots).length = slots.length := List.length_map _
  refine ⟨?_, Nat.le_trans (top_remove_le p slots) h.top_le, ?_⟩
  · rw [hlen]
    exact h.dvd
  · rw [hlen]
    exact h.length_le

/-- **The clusters** of a directory that was there. -/
theorem Grown.clusters_le (hper : 0 < per) (hdvd : per ∣ slots₀.length)
    (h : Grown per k slots₀ slots) :
    slots.length / per ≤ slots₀.length / per + (k + per - 1) / per := by
  have htop := top_le_length slots₀
  have hround : roundUp per (top slots₀ + k) ≤ slots₀.length + roundUp per k := by
    rw [← roundUp_add hper hdvd]
    exact roundUp_mono (by omega)
  have hlen : slots.length ≤ slots₀.length + roundUp per k := by
    have hle := h.length_le
    omega
  refine Nat.le_trans (Nat.div_le_div_right hlen) ?_
  rw [roundUp, Nat.add_mul_div_right _ _ hper]

end Slots

/-! ### Files whose names stand in directories -/

/-- A FAT: its size, where names stand, and what of it is looked at one by one. -/
structure Geometry (π δ : Type) where
  clusterSize : ℕ
  clusters : ℕ
  /-- The directory of a name, and the slots that it takes; none for one that is not on the FAT. -/
  name : π → Option (δ × ℕ)
  /-- The directory that it is. -/
  opens : π → Option δ
  dirs : List δ
  files : List π
  /-- Trees that are there whole, or not at all. -/
  trees : List (π × ℕ)
  /-- The clusters of everything else. -/
  base : ℕ

/-- The slots of a cluster, of 32 bytes each. -/
def Geometry.per (F : Geometry π δ) : ℕ := F.clusterSize / 32

/-- The store, and the directories; one that is not there has no slots. -/
structure Vol (π δ β : Type) where
  store : Store π β
  dirs : δ → Slots π

section Volume

variable [DecidableEq π] [DecidableEq δ] (F : Geometry π δ)

/-- The name of `p`, if it is new where `C` is read. -/
def enter (C : π → Option (List β)) (D : δ → Slots π) (p : π) : δ → Slots π :=
  match F.name p with
  | none => D
  | some (d, n) => if (C p).isSome then D else update D d (place F.per n p (D d))

def leave (D : δ → Slots π) (p : π) : δ → Slots π :=
  match F.name p with
  | none => D
  | some (d, _) => update D d (remove p (D d))

/-- The directory `p`, if it is new. -/
def makeDir (C : π → Option (List β)) (D : δ → Slots π) (p : π) : δ → Slots π :=
  match F.opens p with
  | none => enter F C D p
  | some d => if (C p).isSome then D else update (enter F C D p) d (fresh F.per p)

/-- The directories after a command. -/
def dirsAfter (C : π → Option (List β)) (D : δ → Slots π) : Cmd π β → δ → Slots π
  | .rm ps => ps.foldl (leave F) D
  | .rmTree p =>
      match F.opens p with
      | none => leave F D p
      | some d => update (leave F D p) d []
  | .mkdir p => makeDir F C D p
  | .write p _ => enter F C D p
  | .copy src dst => if (C src).isSome then enter F C D dst else D
  | .mv src dst => if (C src).isSome then leave F (enter F C D dst) src else D
  | .dd _ _ | .sync => D

/-- What a command does, with its success, where there is room. -/
def exec (v : Vol π δ β) (c : Cmd π β) : Bool × Vol π δ β :=
  ((c.exec v.store).1, ⟨(c.exec v.store).2, dirsAfter F (content v.store) v.dirs c⟩)

/-- A part of a command, as far as a cut lets it come. -/
def Part (S : Store π β) : Cmd π β → Cmd π β → Prop
  | .rm ps, c => ∃ qs ⊆ ps, c = .rm qs
  | .write p bytes, c => ∃ n, c = .write p (bytes.take n)
  | .copy src dst, c => ∃ x n, S src = some x ∧ c = .write dst (x.content.take n)
  | _, _ => False

/-- The FAT, where there is always room. -/
def disk : Disk (Cmd π β) (Vol π δ β) where
  exec c v := exec F v c
  torn c v w := ∃ c', Part v.store c c' ∧ w = (exec F v c').2
  fail c v w := w = v ∨ ∃ c', Part v.store c c' ∧ w = (exec F v c').2

end Volume

section Yields

variable [DecidableEq π] [DecidableEq δ] {F : Geometry π δ}
  {m n : Script (Cmd π β) (Store π β) Bool} {c : Cmd π β} {cs : List (Cmd π β)}
  {C C₁ C' : π → Option (List β)} {D D₁ D' : δ → Slots π}

/-- Undisturbed, the script succeeds, and takes what programs read from `C` to `C'`, and the
directories from `D` to `D'`. -/
def Yields (F : Geometry π δ) (m : Script (Cmd π β) (Store π β) Bool)
    (C : π → Option (List β)) (D : δ → Slots π) (C' : π → Option (List β)) (D' : δ → Slots π) :
    Prop :=
  ∀ v, content v.store = C → v.dirs = D →
    ((m.comap Vol.store).exec (disk F) v).1 = true ∧
      content ((m.comap Vol.store).exec (disk F) v).2.store = C' ∧
      ((m.comap Vol.store).exec (disk F) v).2.dirs = D'

theorem Yields.pure : Yields F (pure true) C D C D := fun _ hC hD => ⟨rfl, hC, hD⟩

theorem Yields.nil : Yields F (.seq []) C D C D := Yields.pure

theorem Yields.cons (hc : c.Takes C C₁) (h : Yields F (.seq cs) C₁ (dirsAfter F C D c) C' D') :
    Yields F (.seq (c :: cs)) C D C' D' := by
  intro v hC hD
  obtain ⟨hok, hC₁⟩ := hc v.store hC
  have hexec : ((Script.seq (c :: cs)).comap Vol.store).exec (disk F) v =
      ((Script.seq cs).comap Vol.store).exec (disk F) (exec F v c).2 := by
    rw [Script.comap_seq, Script.comap_seq, Script.exec_seq_cons]
    exact if_pos hok
  rw [hexec]
  refine h _ hC₁ ?_
  subst hC hD
  rfl

theorem Yields.andThen (hm : Yields F m C D C₁ D₁) (hn : Yields F n C₁ D₁ C' D') :
    Yields F (m.andThen n) C D C' D' := by
  intro v hC hD
  obtain ⟨hok, hC₁, hD₁⟩ := hm v hC hD
  rw [Script.comap_andThen, Script.exec_andThen, if_pos hok]
  exact hn _ hC₁ hD₁

/-- A look at what programs read. -/
theorem Yields.see {α : Type} {g : Store π β → α} {f : α → Script (Cmd π β) (Store π β) Bool}
    {a : α} (hg : ∀ S, content S = C → g S = a) (h : Yields F (f a) C D C' D') :
    Yields F (Script.see g >>= f) C D C' D' := by
  intro v hC hD
  have hexec : ((Script.see g >>= f).comap Vol.store).exec (disk F) v =
      ((f a).comap Vol.store).exec (disk F) v := by
    rw [Script.comap_bind, Script.exec_bind]
    exact congrArg (fun b => ((f b).comap Vol.store).exec (disk F) v) (hg _ hC)
  rw [hexec]
  exact h v hC hD

end Yields

/-! ### The clusters in use -/

/-- The clusters of so many bytes. -/
def clustersOf (clusterSize bytes : ℕ) : ℕ := (bytes + clusterSize - 1) / clusterSize

namespace Geometry

variable (F : Geometry π δ)

/-- The clusters of a file. -/
def size (C : π → Option (List β)) (p : π) : ℕ :=
  clustersOf F.clusterSize ((C p).getD []).length

/-- The clusters of the files, and of the trees, -/
def load (C : π → Option (List β)) : ℕ :=
  (F.files.map (F.size C)).sum + (F.trees.map fun t => if (C t.1).isSome then t.2 else 0).sum

/-- ... and of the directories. -/
def dirLoad (D : δ → Slots π) : ℕ := (F.dirs.map fun d => (D d).length / F.per).sum

def total (C : π → Option (List β)) (D : δ → Slots π) : ℕ := F.base + F.dirLoad D + F.load C

def used (v : Vol π δ β) : ℕ := F.total (content v.store) v.dirs

/-- `df -k --output=avail`: what it shows is rounded up. -/
def availKib (v : Vol π δ β) : ℕ := ((F.clusters - F.used v) * F.clusterSize + 1023) / 1024

end Geometry

section Load

variable {F : Geometry π δ} {C C' : π → Option (List β)} {D D' : δ → Slots π}

theorem clustersOf_mono {clusterSize n k : ℕ} (h : n ≤ k) :
    clustersOf clusterSize n ≤ clustersOf clusterSize k := Nat.div_le_div_right (by omega)

theorem dirLoad_mono (h : ∀ d, (D d).length ≤ (D' d).length) : F.dirLoad D ≤ F.dirLoad D' :=
  List.sum_le_sum fun d _ => Nat.div_le_div_right (h d)

theorem load_mono (hfile : ∀ p ∈ F.files, F.size C p ≤ F.size C' p)
    (htree : ∀ t ∈ F.trees, (C t.1).isSome = true → (C' t.1).isSome = true) :
    F.load C ≤ F.load C' := by
  refine Nat.add_le_add (List.sum_le_sum hfile) (List.sum_le_sum fun t ht => ?_)
  by_cases hC : (C t.1).isSome = true
  · rw [if_pos hC, if_pos (htree t ht hC)]
  · rw [if_neg hC]
    exact Nat.zero_le _

/-- What changes the load, of files that are not named twice. -/
theorem load_exchange [DecidableEq π] {ps : List π} (hfiles : F.files.Nodup) (hps : ps.Nodup)
    (hsub : ps ⊆ F.files) (hfile : ∀ p ∈ F.files, p ∉ ps → F.size C p = F.size C' p)
    (htree : ∀ t ∈ F.trees, (C t.1).isSome = (C' t.1).isSome) :
    F.load C + (ps.map (F.size C')).sum = F.load C' + (ps.map (F.size C)).sum := by
  have hin : (F.files.filter (· ∈ ps)).Perm ps := by
    rw [List.perm_ext_iff_of_nodup (hfiles.filter _) hps]
    intro p
    rw [List.mem_filter, decide_eq_true_eq]
    exact ⟨fun h => h.2, fun h => ⟨hsub h, h⟩⟩
  have hperm := (List.filter_append_perm (fun p => decide (p ∈ ps)) F.files).symm.trans
    (hin.append_right _)
  have hsum (g : π → ℕ) : (F.files.map g).sum =
      (ps.map g).sum + ((F.files.filter fun p => !decide (p ∈ ps)).map g).sum := by
    rw [(hperm.map g).sum_eq, List.map_append, List.sum_append]
  have hrest : (F.files.filter fun p => !decide (p ∈ ps)).map (F.size C) =
      (F.files.filter fun p => !decide (p ∈ ps)).map (F.size C') := by
    refine List.map_congr_left fun p hp => ?_
    have hmem := List.mem_filter.mp hp
    exact hfile p hmem.1 (by simpa using hmem.2)
  have htrees : F.trees.map (fun t => if (C t.1).isSome then t.2 else 0) =
      F.trees.map (fun t => if (C' t.1).isSome then t.2 else 0) := by
    refine List.map_congr_left fun t ht => ?_
    rw [htree t ht]
  rw [Geometry.load, Geometry.load, hsum, hsum, hrest, htrees]
  omega

theorem size_mono {p : π} (h : ((C p).getD []).length ≤ ((C' p).getD []).length) :
    F.size C p ≤ F.size C' p := clustersOf_mono h

theorem total_mono (hD : F.dirLoad D ≤ F.dirLoad D') (hC : F.load C ≤ F.load C') :
    F.total C D ≤ F.total C' D' := Nat.add_le_add (Nat.add_le_add_left hD _) hC

end Load

/-! ### What a run has in use -/

section Inside

variable [DecidableEq π] [DecidableEq δ] {F : Geometry π δ}
  {m n : Script (Cmd π β) (Store π β) Bool} {c : Cmd π β} {cs : List (Cmd π β)} {p : π}
  {C C₁ C' : π → Option (List β)} {D D₁ D' : δ → Slots π} {v w : Vol π δ β} {bound : ℕ}

theorem length_leave (d : δ) : (leave F D p d).length = (D d).length := by
  rw [leave]
  cases F.name p with
  | none => rfl
  | some seated =>
      obtain ⟨e, n⟩ := seated
      show (update D e (remove p (D e)) d).length = _
      by_cases hd : d = e
      · subst hd
        rw [update_self]
        exact List.length_map _
      · rw [update_of_ne hd]

theorem length_leaves (ps : List π) (d : δ) :
    (ps.foldl (leave F) D d).length = (D d).length := by
  induction ps generalizing D with
  | nil => rfl
  | cons p ps ih => rw [List.foldl_cons, ih, length_leave]

omit [DecidableEq π] in
theorem length_enter (d : δ) : (D d).length ≤ (enter F C D p d).length := by
  rw [enter]
  cases F.name p with
  | none => exact Nat.le_refl _
  | some seated =>
      obtain ⟨e, n⟩ := seated
      show _ ≤ ((if (C p).isSome then D else update D e (place F.per n p (D e))) d).length
      split
      · exact Nat.le_refl _
      · by_cases hd : d = e
        · subst hd
          rw [update_self, place, List.length_append]
          exact Nat.le_trans (length_seat_ge ..) (Nat.le_add_right ..)
        · rw [update_of_ne hd]

omit [DecidableEq δ] in
theorem size_update_le {x y : List β} (hle : x.length ≤ y.length) (q : π) :
    F.size (update C p (some x)) q ≤ F.size (update C p (some y)) q := by
  apply size_mono
  by_cases hq : q = p
  · subst hq
    rw [update_self, update_self]
    exact hle
  · rw [update_of_ne hq, update_of_ne hq]

omit [DecidableEq δ] in
theorem load_update_le {x y : List β} (hle : x.length ≤ y.length) :
    F.load (update C p (some x)) ≤ F.load (update C p (some y)) := by
  refine load_mono (fun q _ => size_update_le hle q) fun t _ => ?_
  by_cases ht : t.1 = p
  · subst ht
    simp
  · rw [update_of_ne ht, update_of_ne ht]
    exact id

omit [DecidableEq δ] in
theorem load_rm (ps : List π) : F.load (fun p => if p ∈ ps then none else C p) ≤ F.load C := by
  refine load_mono (fun p _ => size_mono ?_) fun t _ h => ?_
  · by_cases hp : p ∈ ps
    · simp [hp]
    · simp [hp]
  · by_cases ht : t.1 ∈ ps
    · simp [ht] at h
    · simpa [ht] using h

theorem content_exec (hc : c.Takes (content v.store) C₁) : content (exec F v c).2.store = C₁ :=
  (hc v.store rfl).2

/-- A part of a command needs no more than the command, or than what was there. -/
theorem used_torn (h : (disk F).torn c v w) :
    F.used w ≤ F.used v ∨ F.used w ≤ F.used ((disk F).exec c v).2 := by
  obtain ⟨c', hpart, rfl⟩ := h
  cases c with
  | rm ps =>
      obtain ⟨qs, -, rfl⟩ := hpart
      left
      refine total_mono (dirLoad_mono fun d => Nat.le_of_eq (length_leaves qs d)) ?_
      rw [content_exec .rm]
      exact load_rm qs
  | write p bytes =>
      obtain ⟨n, rfl⟩ := hpart
      right
      refine total_mono (Nat.le_refl _) ?_
      show F.load _ ≤ F.load (content (exec F v _).2.store)
      rw [content_exec .write, content_exec .write]
      exact load_update_le (List.take_sublist n bytes).length_le
  | copy src dst =>
      obtain ⟨x, n, hx, rfl⟩ := hpart
      right
      have hsrc : content v.store src = some x.content := by
        rw [content, hx]
        rfl
      refine total_mono (Nat.le_of_eq ?_) ?_
      · show _ = F.dirLoad (if (content v.store src).isSome then _ else _)
        rw [hsrc]
        rfl
      · show F.load _ ≤ F.load (content (exec F v _).2.store)
        rw [content_exec .write, content_exec (.copy hsrc)]
        exact load_update_le (List.take_sublist n x.content).length_le
  | _ => exact hpart.elim

/-- All through the undisturbed run no more than `bound` clusters are in use. -/
def Inside (F : Geometry π δ) (bound : ℕ) (m : Script (Cmd π β) (Store π β) Bool)
    (C : π → Option (List β)) (D : δ → Slots π) : Prop :=
  ∀ v, content v.store = C → v.dirs = D →
    Within (disk F) (fun w => F.used w ≤ bound) (m.comap Vol.store) v

theorem Inside.pure (h : F.total C D ≤ bound) : Inside F bound (pure true) C D := by
  intro v hC hD
  subst hC hD
  exact within_done.mpr h

theorem Inside.nil (h : F.total C D ≤ bound) : Inside F bound (.seq []) C D := .pure h

theorem Inside.cons (h : F.total C D ≤ bound) (hc : c.Takes C C₁)
    (hcs : Inside F bound (.seq cs) C₁ (dirsAfter F C D c)) : Inside F bound (.seq (c :: cs)) C D := by
  intro v hC hD
  have hrest := hcs (exec F v c).2 (hc v.store hC).2 (by subst hC hD; rfl)
  subst hC hD
  rw [Script.comap_seq] at hrest
  rw [Script.comap_seq, within_seq_cons]
  refine ⟨h, fun w hw => ?_, hrest.start, fun _ => hrest⟩
  obtain hle | hle := used_torn hw
  · exact Nat.le_trans hle h
  · exact Nat.le_trans hle hrest.start

theorem Inside.andThen (hm : Inside F bound m C D) (hy : Yields F m C D C₁ D₁)
    (hn : Inside F bound n C₁ D₁) : Inside F bound (m.andThen n) C D := by
  intro v hC hD
  obtain ⟨-, hC₁, hD₁⟩ := hy v hC hD
  rw [Script.comap_andThen, within_andThen]
  exact ⟨hm v hC hD, fun _ => hn _ hC₁ hD₁⟩

/-- A look at what programs read. -/
theorem Inside.see {α : Type} {g : Store π β → α} {f : α → Script (Cmd π β) (Store π β) Bool}
    {a : α} (hg : ∀ S, content S = C → g S = a) (h : Inside F bound (f a) C D) :
    Inside F bound (Script.see g >>= f) C D := by
  intro v hC hD
  rw [Script.comap_bind, Script.comap_see, within_see]
  have hfa : f ((g ∘ Vol.store) v) = f a := congrArg f (hg _ hC)
  rw [hfa]
  exact h v hC hD

/-- What holds at every moment of a script holds behind its first part, and from there on. -/
theorem Yields.behind {I : Vol π δ β → Prop} (hy : Yields F m C D C₁ D₁)
    (hC : content v.store = C) (hD : v.dirs = D)
    (h : Within (disk F) I ((m.andThen n).comap Vol.store) v) :
    ∃ w, content w.store = C₁ ∧ w.dirs = D₁ ∧ I w ∧
      Within (disk F) I (n.comap Vol.store) w := by
  obtain ⟨hok, hC₁, hD₁⟩ := hy v hC hD
  rw [Script.comap_andThen, within_andThen] at h
  exact ⟨_, hC₁, hD₁, h.1.finish, h.2 hok⟩

end Inside

end Fat
