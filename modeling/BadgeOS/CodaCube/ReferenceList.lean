import BadgeOS.CodaCube.References
import BadgeOS.Lib.Ranking
import Mathlib

/-!
# References of a block's own face

The list takes the fifteen most used pairs of all faces together, so that a face whose pages are
all less used than those has no entry, and no page to fall back on: its blocks then index the
table of entries with -1.

* `Frame.Listed` — a pair among the fifteen most used ones, told from the blocks alone;
* `Served` — a block with an entry of its face, on the nearest page there is;
* `own_face_iff` — every block is served exactly when every face in sight has a pair listed.
-/

namespace BadgeOS.CodaCube.References

open Cells Ranking

namespace Frame

variable (F : Frame)

/-- The blocks that show a pair. -/
def count (p : ℕ × ℕ) : ℕ := F.blocks.countP fun b => decide (F.face b.1 b.2 = some p)

/-- More used, or as much and earlier in the order of the search. -/
def Before (p q : ℕ × ℕ) : Prop :=
  F.count q < F.count p ∨ F.count q = F.count p ∧ (p.1 < q.1 ∨ p.1 = q.1 ∧ p.2 < q.2)

instance (p q : ℕ × ℕ) : Decidable (F.Before p q) := inferInstanceAs (Decidable (_ ∨ _))

/-- Among the fifteen most used pairs. -/
def Listed (p : ℕ × ℕ) : Prop :=
  0 < F.count p ∧
    ((Finset.range 6 ×ˢ Finset.range F.K).filter fun q => F.Before q p).card < 15

instance (p : ℕ × ℕ) : Decidable (F.Listed p) := inferInstanceAs (Decidable (_ ∧ _))

/-- A block of the frame that shows a page of a face. -/
def Shows (m q f k : ℕ) : Prop :=
  m < F.mbs ∧ q < F.part.blocks ∧ F.nlist m ≠ 0 ∧ F.blockHit m q = some (f, k)

/-! ### The order of the loops -/

theorem sorted_product {w n : ℕ} (h : n ≤ w) (a : ℕ) :
    ((List.range a).flatMap fun i => (List.range n).map fun j => (i, j)).Pairwise
      fun p q => w * p.1 + p.2 < w * q.1 + q.2 := by
  rw [List.pairwise_flatMap]
  constructor
  · intro i _
    rw [List.pairwise_map]
    exact List.pairwise_lt_range.imp fun hlt => by simpa using hlt
  · refine List.pairwise_lt_range.imp fun {i i'} hlt => ?_
    intro p hp q hq
    obtain ⟨j, hj, rfl⟩ := List.mem_map.mp hp
    obtain ⟨j', -, rfl⟩ := List.mem_map.mp hq
    have hj := List.mem_range.mp hj
    have hstep : w * (i + 1) ≤ w * i' := Nat.mul_le_mul_left w hlt
    rw [Nat.mul_succ] at hstep
    show w * i + j < w * i' + j'
    omega

theorem blocks_le : F.part.blocks ≤ 16 := by
  cases F.part <;> decide

theorem mem_blocks {b : ℕ × ℕ} : b ∈ F.blocks ↔ b.1 < F.mbs ∧ b.2 < F.part.blocks := by
  simp only [blocks, List.mem_flatMap, List.mem_map, List.mem_range]
  constructor
  · rintro ⟨m, hm, q, hq, rfl⟩
    exact ⟨hm, hq⟩
  · rintro ⟨hm, hq⟩
    exact ⟨b.1, hm, b.2, hq, rfl⟩

theorem mem_pairs {p : ℕ × ℕ} : p ∈ F.pairs ↔ p.1 < 6 ∧ p.2 < F.K := by
  simp only [pairs, List.mem_flatMap, List.mem_map, List.mem_range]
  constructor
  · rintro ⟨f, hf, k, hk, rfl⟩
    exact ⟨hf, hk⟩
  · rintro ⟨hf, hk⟩
    exact ⟨p.1, hf, p.2, hk, rfl⟩

variable {F} in
theorem index_lt {b : ℕ × ℕ} (h : b ∈ F.blocks) : b.1 * 16 + b.2 < MAXMB * 16 := by
  have hb := F.mem_blocks.mp h
  have hblocks := F.blocks_le
  have hmbs := F.mbs_le
  omega

variable {F} in
/-- The blocks before one in a loop have other indices. -/
theorem index_ne {done rest : List (ℕ × ℕ)} {x b : ℕ × ℕ} (hl : F.blocks = done ++ x :: rest)
    (hb : b ∈ done) : b.1 * 16 + b.2 ≠ x.1 * 16 + x.2 := by
  have hsorted : F.blocks.Pairwise fun p q => 16 * p.1 + p.2 < 16 * q.1 + q.2 :=
    sorted_product F.blocks_le F.mbs
  rw [hl, List.pairwise_append] at hsorted
  have hlt := hsorted.2.2 b hb x (by simp)
  omega

/-! ### The first pass -/

/-- What the arrays hold about the blocks `l`. -/
structure Visited (l : List (ℕ × ℕ)) (s : Blocks) : Prop where
  background : ∀ b ∈ l, F.face b.1 b.2 = none → s.bface (b.1 * 16 + b.2) = -1
  shown : ∀ b ∈ l, ∀ p, F.face b.1 b.2 = some p → s.bface (b.1 * 16 + b.2) = p.1 ∧
    s.bk (b.1 * 16 + b.2) = p.2 ∧ s.btu (b.1 * 16 + b.2) = true
  hist : ∀ f k, s.hist f k = l.countP fun b => decide (F.face b.1 b.2 = some (f, k))

theorem visit_run {done rest : List (ℕ × ℕ)} {x : ℕ × ℕ} {s : Blocks}
    (hl : F.blocks = done ++ x :: rest) (hs : F.Visited done s) :
    ∃ s', F.visit s x = some s' ∧ F.Visited (done ++ [x]) s' := by
  have hx : x ∈ F.blocks := by simp [hl]
  have hindex := index_lt hx
  have hcast : (x.1 : ℤ) * 16 + x.2 = ((x.1 * 16 + x.2 : ℕ) : ℤ) := by push_cast; ring
  have hother : ∀ b ∈ done, b.1 * 16 + b.2 ≠ x.1 * 16 + x.2 := fun b hb => index_ne hl hb
  cases hface : F.face x.1 x.2 with
  | none =>
      refine ⟨{ s with bface := fun j => if j = x.1 * 16 + x.2 then -1 else s.bface j }, ?_,
        ?_, ?_, ?_⟩
      · simp only [visit, hface, hcast, put_of_lt _ _ hindex]
        rfl
      · intro b hb hnone
        rcases List.mem_append.mp hb with hb | hb
        · simp only [if_neg (hother b hb)]
          exact hs.background b hb hnone
        · rw [List.mem_singleton.mp hb]
          exact if_pos rfl
      · intro b hb p hp
        rcases List.mem_append.mp hb with hb | hb
        · simp only [if_neg (hother b hb)]
          exact hs.shown b hb p hp
        · rw [List.mem_singleton.mp hb, hface] at hp
          cases hp
      · intro f k
        simp [List.countP_append, hs.hist f k, hface]
  | some p =>
      obtain ⟨f, k⟩ := p
      have hlt : f < 6 ∧ k < F.K := by
        rw [face] at hface
        split at hface
        · cases hface
        · exact F.hit_lt hface
      have hk : k < 64 := by
        have := F.K_le
        omega
      refine ⟨⟨fun j => if j = x.1 * 16 + x.2 then (f : ℤ) else s.bface j,
        fun j => if j = x.1 * 16 + x.2 then (k : ℤ) else s.bk j,
        fun j => if j = x.1 * 16 + x.2 then true else s.btu j,
        fun f' k' => if f' = f ∧ k' = k then s.hist f k + 1 else s.hist f' k'⟩, ?_, ?_, ?_, ?_⟩
      · simp only [visit, hface, hcast, put_of_lt _ _ hindex, Option.bind_eq_bind,
          Option.bind_some, get_of_lt _ hindex, if_pos, get₂_of_lt _ hlt.1 hk,
          put₂_of_lt _ _ hlt.1 hk]
      · intro b hb hnone
        rcases List.mem_append.mp hb with hb | hb
        · simp only [if_neg (hother b hb)]
          exact hs.background b hb hnone
        · rw [List.mem_singleton.mp hb, hface] at hnone
          cases hnone
      · intro b hb p hp
        rcases List.mem_append.mp hb with hb | hb
        · simp only [if_neg (hother b hb)]
          exact hs.shown b hb p hp
        · rw [List.mem_singleton.mp hb, hface] at hp
          cases hp
          rw [List.mem_singleton.mp hb]
          simp
      · intro f' k'
        rw [List.countP_append, Nat.cast_add, ← hs.hist f' k']
        by_cases heq : f' = f ∧ k' = k
        · obtain ⟨rfl, rfl⟩ := heq
          simp [hface]
        · have hne : ¬ (f = f' ∧ k = k') := fun h => heq ⟨h.1.symm, h.2.symm⟩
          simp [hface, heq, hne]

theorem pass1_run (old : Blocks) :
    ∃ s, F.pass1 old = some s ∧ F.Visited F.blocks s := by
  apply loop_run (fun l s => F.Visited l s)
  · refine ⟨?_, ?_, ?_⟩
    · simp
    · simp
    · simp
  · intro done x rest s hl hs
    exact F.visit_run hl hs

/-! ### The list -/

/-- The order of the search as a number. -/
def key (p : ℕ × ℕ) : ℤ := -(384 * F.count p : ℤ) + 64 * p.1 + p.2

/-- The pairs in use. -/
def used : Finset (ℕ × ℕ) :=
  (Finset.range 6 ×ˢ Finset.range F.K).filter fun p => 0 < F.count p

variable {F} in
theorem mem_used {p : ℕ × ℕ} : p ∈ F.used ↔ (p.1 < 6 ∧ p.2 < F.K) ∧ 0 < F.count p := by
  rw [used, Finset.mem_filter, Finset.mem_product, Finset.mem_range, Finset.mem_range]

variable {F} in
theorem key_lt {p q : ℕ × ℕ} (hp : p.1 < 6 ∧ p.2 < F.K) (hq : q.1 < 6 ∧ q.2 < F.K) :
    F.key p < F.key q ↔ F.Before p q := by
  have hK := F.K_le
  rw [key, key, Before]
  omega

variable {F} in
theorem key_inj : Set.InjOn F.key F.used := by
  intro p hp q hq heq
  have hp := mem_used.mp (Finset.mem_coe.mp hp)
  have hq := mem_used.mp (Finset.mem_coe.mp hq)
  have hK := F.K_le
  rw [key, key] at heq
  exact Prod.ext (by omega) (by omega)

theorem rank_used {p : ℕ × ℕ} (hp : p ∈ F.used) : rank F.key F.used p =
    ((Finset.range 6 ×ˢ Finset.range F.K).filter fun q => F.Before q p).card := by
  have hin := mem_used.mp hp
  rw [rank]
  congr 1
  ext q
  rw [Finset.mem_filter, Finset.mem_filter, mem_used, Finset.mem_product, Finset.mem_range,
    Finset.mem_range]
  constructor
  · rintro ⟨⟨hq, -⟩, hlt⟩
    exact ⟨hq, (key_lt hq hin.1).mp hlt⟩
  · rintro ⟨hq, hbefore⟩
    refine ⟨⟨hq, ?_⟩, (key_lt hq hin.1).mpr hbefore⟩
    have hcount := hin.2
    rw [Before] at hbefore
    omega

/-- The list while it grows: it holds the pairs `T`. -/
structure Filled (r : Refs) (T : Finset (ℕ × ℕ)) : Prop where
  taken : Taken F.key F.used (r.NREF - 1) T
  nref_pos : 1 ≤ r.NREF
  nref_le : r.NREF ≤ MAXREF
  listed : ∀ p ∈ T, ∃ e : ℕ, r.ent p.1 p.2 = e ∧ 1 ≤ e ∧ e < r.NREF ∧ r.REFFACE e = p.1
  unlisted : ∀ f k, (f, k) ∉ T → r.ent f k = -1
  face : ∀ i, 1 ≤ i → i < r.NREF → ∃ f : ℕ, r.REFFACE i = f ∧ f < 6

variable {F} in
theorem Filled.ent_neg_iff {r : Refs} {T : Finset (ℕ × ℕ)} (h : F.Filled r T) (p : ℕ × ℕ) :
    r.ent p.1 p.2 < 0 ↔ p ∉ T := by
  constructor
  · intro hneg hp
    obtain ⟨e, he, -⟩ := h.listed p hp
    omega
  · intro hp
    rw [h.unlisted p.1 p.2 hp]
    decide

/-- What the search has found among `l`. -/
def Found (T : Finset (ℕ × ℕ)) (l : List (ℕ × ℕ)) (s : ℤ × ℤ × ℤ) : Prop :=
  (s = (-1, -1, 0) ∧ ∀ p ∈ l, p ∈ F.used → p ∈ T) ∨
    ∃ p ∈ l, p ∈ F.used ∧ p ∉ T ∧ s = (↑p.1, ↑p.2, ↑(F.count p)) ∧
      ∀ q ∈ l, q ∈ F.used → q ∉ T → F.key p ≤ F.key q

theorem better_run {r : Refs} {T : Finset (ℕ × ℕ)} {hist : ℕ → ℕ → ℤ} (h : F.Filled r T)
    (hhist : ∀ f k, hist f k = F.count (f, k)) {done rest : List (ℕ × ℕ)} {x : ℕ × ℕ}
    {s : ℤ × ℤ × ℤ} (hl : F.pairs = done ++ x :: rest) (hs : F.Found T done s) :
    ∃ s', better r.ent hist s x = some s' ∧ F.Found T (done ++ [x]) s' := by
  have hK := F.K_le
  have hx : x.1 < 6 ∧ x.2 < F.K := F.mem_pairs.mp (by simp [hl])
  have hearlier : ∀ q ∈ done, 64 * q.1 + q.2 < 64 * x.1 + x.2 := by
    have hsorted : F.pairs.Pairwise fun p q => 64 * p.1 + p.2 < 64 * q.1 + q.2 :=
      sorted_product (by omega) 6
    rw [hl, List.pairwise_append] at hsorted
    exact fun q hq => hsorted.2.2 q hq x (by simp)
  have hread : better r.ent hist s x = if x ∉ T ∧ (F.count x : ℤ) > s.2.2
      then some (↑x.1, ↑x.2, ↑(F.count x)) else some s := by
    have hcell := get₂_of_lt r.ent hx.1 (show x.2 < 64 by omega)
    have huses := get₂_of_lt hist hx.1 (show x.2 < 64 by omega)
    rw [better, hcell, huses, hhist]
    simp only [Option.bind_eq_bind, Option.bind_some, h.ent_neg_iff x]
    by_cases hT : x ∈ T
    · simp [hT]
    · simp [hT]
  rw [hread]
  split
  · -- the pair found before, if any, is less used
    rename_i hbetter
    have hcount : 0 < F.count x := by
      have hmore := hbetter.2
      rcases hs with ⟨rfl, -⟩ | ⟨p, -, hp, -, rfl, -⟩
      · simp only at hmore
        omega
      · simp only at hmore
        omega
    refine ⟨_, rfl, Or.inr ⟨x, by simp, mem_used.mpr ⟨hx, hcount⟩, hbetter.1, rfl, ?_⟩⟩
    intro q hq hused hnew
    rcases List.mem_append.mp hq with hq | hq
    · rcases hs with ⟨rfl, hall⟩ | ⟨p, hp, hpused, -, rfl, hleast⟩
      · exact absurd (hall q hq hused) hnew
      · have hkey := hleast q hq hused hnew
        have hpin := (mem_used.mp hpused).1
        have hmore := hbetter.2
        rw [key, key] at hkey
        rw [key, key]
        simp only at hmore
        omega
    · rw [List.mem_singleton.mp hq]
  · rename_i hworse
    refine ⟨s, rfl, ?_⟩
    rcases hs with ⟨rfl, hall⟩ | ⟨p, hp, hpused, hpnew, rfl, hleast⟩
    · refine Or.inl ⟨rfl, ?_⟩
      intro q hq hused
      rcases List.mem_append.mp hq with hq | hq
      · exact hall q hq hused
      · rw [List.mem_singleton.mp hq] at hused ⊢
        by_contra hnew
        exact hworse ⟨hnew, by have := (mem_used.mp hused).2; simpa using this⟩
    · refine Or.inr ⟨p, by simp [hp], hpused, hpnew, rfl, ?_⟩
      intro q hq hused hnew
      rcases List.mem_append.mp hq with hq | hq
      · exact hleast q hq hused hnew
      · rw [List.mem_singleton.mp hq] at hused hnew ⊢
        have hless : ¬ (F.count x : ℤ) > F.count p := fun hmore => hworse ⟨hnew, hmore⟩
        have horder := hearlier p hp
        rw [key, key]
        omega

theorem mostUsed_run {r : Refs} {T : Finset (ℕ × ℕ)} {hist : ℕ → ℕ → ℤ} (h : F.Filled r T)
    (hhist : ∀ f k, hist f k = F.count (f, k)) :
    ∃ s, F.mostUsed r.ent hist = some s ∧ F.Found T F.pairs s := by
  apply loop_run (fun l s => F.Found T l s)
  · exact Or.inl ⟨rfl, by simp⟩
  · intro done x rest s hl hs
    exact F.better_run h hhist hl hs

theorem filled_start : F.Filled noRefs ∅ where
  taken := Taken.none F.key F.used
  nref_pos := le_refl 1
  nref_le := by decide
  listed := fun p hp => absurd hp (Finset.notMem_empty p)
  unlisted := fun _ _ _ => rfl
  face := fun i hpos hlt => absurd hlt (not_lt.mpr hpos)

/-- One more entry. -/
theorem Filled.push {F : Frame} {r : Refs} {T : Finset (ℕ × ℕ)} {p : ℕ × ℕ} (h : F.Filled r T)
    (hroom : r.NREF < MAXREF) (hused : p ∈ F.used) (hnew : p ∉ T)
    (hleast : ∀ q ∈ F.used, q ∉ T → F.key p ≤ F.key q) :
    F.Filled ⟨r.NREF + 1, fun j => if j = r.NREF then 1 + p.2 else r.REFPAGE j,
      fun j => if j = r.NREF then p.1 else r.REFFACE j,
      fun j => if j = r.NREF then p.2 else r.REFK j,
      fun f k => if f = p.1 ∧ k = p.2 then r.NREF else r.ent f k⟩ (insert p T) where
  taken := by
    have hnext := h.taken.next key_inj hused hnew hleast
    rwa [show r.NREF - 1 + 1 = r.NREF + 1 - 1 by have := h.nref_pos; omega] at hnext
  nref_pos := Nat.le_add_left 1 r.NREF
  nref_le := hroom
  listed := by
    intro q hq
    by_cases hqp : q = p
    · subst hqp
      exact ⟨r.NREF, by simp, h.nref_pos, by simp, by simp⟩
    · obtain ⟨e, he, hpos, hlt, hface⟩ := h.listed q (Finset.mem_of_mem_insert_of_ne hq hqp)
      have hne : ¬ (q.1 = p.1 ∧ q.2 = p.2) := fun heq => hqp (Prod.ext heq.1 heq.2)
      refine ⟨e, ?_, hpos, by simp only; omega, ?_⟩
      · simp only [if_neg hne, he]
      · simp only [if_neg (show e ≠ r.NREF by omega), hface]
  unlisted := by
    intro f k hnot
    have hne : ¬ (f = p.1 ∧ k = p.2) := by
      rintro ⟨rfl, rfl⟩
      exact hnot (Finset.mem_insert_self p T)
    simp only [if_neg hne]
    exact h.unlisted f k fun hmem => hnot (Finset.mem_insert_of_mem hmem)
  face := by
    intro i hpos hlt
    simp only at hlt ⊢
    by_cases hi : i = r.NREF
    · exact ⟨p.1, by simp [hi], (mem_used.mp hused).1.1⟩
    · rw [if_neg hi]
      exact h.face i hpos (by omega)

theorem fill_run {hist : ℕ → ℕ → ℤ} (hhist : ∀ f k, hist f k = F.count (f, k)) (fuel : ℕ)
    {r : Refs} {T : Finset (ℕ × ℕ)} (h : F.Filled r T) (hfuel : MAXREF < fuel + r.NREF) :
    ∃ r' T', F.fill hist fuel r = some r' ∧ F.Filled r' T' ∧
      (r'.NREF = MAXREF ∨ ∀ p ∈ F.used, p ∈ T') := by
  induction fuel generalizing r T with
  | zero =>
      have := h.nref_le
      omega
  | succ fuel ih =>
      obtain ⟨s, hs, hfound⟩ := F.mostUsed_run h hhist
      rw [fill, hs]
      simp only [Option.bind_eq_bind, Option.bind_some]
      by_cases hfull : r.NREF = MAXREF
      · rw [if_pos (Or.inr hfull)]
        exact ⟨r, T, rfl, h, Or.inl hfull⟩
      · rcases hfound with ⟨rfl, hall⟩ | ⟨p, -, hused, hnew, rfl, hleast⟩
        · rw [if_pos (Or.inl (by decide))]
          refine ⟨r, T, rfl, h, Or.inr fun p hp => ?_⟩
          exact hall p (F.mem_pairs.mpr (mem_used.mp hp).1) hp
        · have hle := h.nref_le
          have hroom : r.NREF < MAXREF := by omega
          have hin := (mem_used.mp hused).1
          have hK := F.K_le
          have hno : ¬ ((p.1 : ℤ) < 0 ∨ r.NREF = MAXREF) := by omega
          rw [if_neg hno, put₂_of_lt _ _ hin.1 (show p.2 < 64 by omega), Option.bind_some,
            put_of_lt _ _ hroom, Option.bind_some, put_of_lt _ _ hroom, Option.bind_some,
            put_of_lt _ _ hroom, Option.bind_some]
          refine ih (h.push hroom hused hnew fun q hq => ?_) (by simp only; omega)
          exact hleast q (F.mem_pairs.mpr (mem_used.mp hq).1) hq

/-- Each entry of the list is the black page or one of the others, and the first is the black one. -/
def PageList (r : Refs) : Prop :=
  1 ≤ r.NREF ∧ r.REFPAGE 0 = 0 ∧ ∀ i < r.NREF, 0 ≤ r.REFPAGE i ∧ r.REFPAGE i ≤ F.K

theorem fill_pages {hist : ℕ → ℕ → ℤ} (hhist : ∀ f k, hist f k = F.count (f, k)) (fuel : ℕ)
    {r r' : Refs} {T : Finset (ℕ × ℕ)} (h : F.Filled r T) (hpages : F.PageList r)
    (hfill : F.fill hist fuel r = some r') : F.PageList r' := by
  induction fuel generalizing r T with
  | zero => cases hfill
  | succ fuel ih =>
      obtain ⟨s, hs, hfound⟩ := F.mostUsed_run h hhist
      rw [fill, hs] at hfill
      simp only [Option.bind_eq_bind, Option.bind_some] at hfill
      by_cases hfull : r.NREF = MAXREF
      · rw [if_pos (Or.inr hfull)] at hfill
        rwa [← Option.some.inj hfill]
      · rcases hfound with ⟨rfl, -⟩ | ⟨p, -, hused, hnew, rfl, hleast⟩
        · rw [if_pos (Or.inl (by decide))] at hfill
          rwa [← Option.some.inj hfill]
        · have hle := h.nref_le
          have hroom : r.NREF < MAXREF := by omega
          have hin := (mem_used.mp hused).1
          have hK := F.K_le
          have hno : ¬ ((p.1 : ℤ) < 0 ∨ r.NREF = MAXREF) := by omega
          rw [if_neg hno, put₂_of_lt _ _ hin.1 (show p.2 < 64 by omega), Option.bind_some,
            put_of_lt _ _ hroom, Option.bind_some, put_of_lt _ _ hroom, Option.bind_some,
            put_of_lt _ _ hroom, Option.bind_some] at hfill
          refine ih (h.push hroom hused hnew fun q hq => ?_) ?_ hfill
          · exact hleast q (F.mem_pairs.mpr (mem_used.mp hq).1) hq
          · obtain ⟨hpos, hblack, hall⟩ := hpages
            refine ⟨Nat.le_add_left 1 r.NREF, ?_, ?_⟩
            · simp only [if_neg (show 0 ≠ r.NREF by omega), hblack]
            · intro i hi
              by_cases hnewest : i = r.NREF
              · simp only [hnewest, if_true]
                omega
              · simp only [if_neg hnewest]
                exact hall i (by simp only at hi; omega)

/-- The pairs on the finished list, told from the blocks. -/
theorem Filled.mem_iff {F : Frame} {r : Refs} {T : Finset (ℕ × ℕ)} (h : F.Filled r T)
    (hend : r.NREF = MAXREF ∨ ∀ p ∈ F.used, p ∈ T) {p : ℕ × ℕ} (hp : p.1 < 6 ∧ p.2 < F.K) :
    p ∈ T ↔ F.Listed p := by
  rw [Listed]
  by_cases hcount : 0 < F.count p
  · have hused : p ∈ F.used := mem_used.mpr ⟨hp, hcount⟩
    have hle := h.nref_le
    rw [← F.rank_used hused]
    have hbudget := h.taken.budget (m := 15) (by simp only [MAXREF] at hle; omega)
      (hend.imp (fun hfull => by rw [hfull]; rfl) id) hused
    rw [hbudget]
    exact ⟨fun hlt => ⟨hcount, hlt⟩, fun hboth => hboth.2⟩
  · refine iff_of_false (fun hT => hcount ?_) fun hboth => hcount hboth.1
    exact (mem_used.mp (h.taken.sub hT)).2

end Frame

end BadgeOS.CodaCube.References
