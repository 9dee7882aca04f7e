import BadgeOS.CodaCube.ReferenceList
import Mathlib

/-!
# The entry a block uses

A block whose own page has no entry takes the nearest page of its face that has one.  Where its
face has none it is left with page -1, which is no index of the table of entries.

* `Served` — a block with an entry of its own face on the nearest page;
* `own_face_iff` — every block is served exactly when every face in sight has a pair listed.
-/

namespace BadgeOS.CodaCube.References

open Cells Ranking

namespace Frame

variable (F : Frame)

/-- The distance of two pages around the circle of `K`. -/
def apart (a b : ℕ) : ℤ := min |(a : ℤ) - b| (F.K - |(a : ℤ) - b|)

theorem circd_eq {a b : ℕ} (ha : a < F.K) (hb : b < F.K) : F.circd a b = F.apart a b := by
  have hsmall : |(a : ℤ) - b| % F.K = |(a : ℤ) - b| := by
    apply Int.emod_eq_of_lt (abs_nonneg _)
    rw [abs_lt]
    omega
  rw [circd, apart, hsmall]
  simp only [min_def]
  split_ifs <;> omega

/-! ### The nearest page -/

/-- What the search for `own` has found among `l`. -/
def NearestIn (ent : ℕ → ℕ → ℤ) (f own : ℕ) (l : List ℕ) (best : ℤ) : Prop :=
  (best = -1 ∧ ∀ k ∈ l, ent f k < 0) ∨
    ∃ k ∈ l, best = k ∧ 0 ≤ ent f k ∧
      ∀ k' ∈ l, 0 ≤ ent f k' → F.circd k own ≤ F.circd k' own

theorem nearest_run (ent : ℕ → ℕ → ℤ) {f : ℕ} (hf : f < 6) (own : ℕ) :
    ∃ best, F.nearest ent f own = some best ∧
      F.NearestIn ent f own (List.range F.K) best := by
  apply loop_run (fun l best => F.NearestIn ent f own l best)
  · exact Or.inl ⟨rfl, by simp⟩
  · intro done k rest best hl hbest
    have hk : k < 64 := by
      have hmem : k ∈ List.range F.K := by simp [hl]
      have := F.K_le
      have := List.mem_range.mp hmem
      omega
    rw [get₂_of_lt ent hf hk]
    simp only [Option.bind_eq_bind, Option.bind_some]
    split
    · rename_i hcloser
      refine ⟨k, rfl, Or.inr ⟨k, by simp, rfl, hcloser.1, ?_⟩⟩
      intro k' hk' hent
      rcases List.mem_append.mp hk' with hk' | hk'
      · rcases hbest with ⟨rfl, hnone⟩ | ⟨j, hj, rfl, hjent, hleast⟩
        · exact absurd hent (not_le.mpr (hnone k' hk'))
        · have hlt : F.circd k own < F.circd j own :=
            hcloser.2.resolve_left (by omega)
          exact hlt.le.trans (hleast k' hk' hent)
      · rw [List.mem_singleton.mp hk']
    · rename_i hno
      refine ⟨best, rfl, ?_⟩
      rcases hbest with ⟨rfl, hnone⟩ | ⟨j, hj, rfl, hjent, hleast⟩
      · refine Or.inl ⟨rfl, fun k' hk' => ?_⟩
        rcases List.mem_append.mp hk' with hk' | hk'
        · exact hnone k' hk'
        · rw [List.mem_singleton.mp hk']
          by_contra hent
          exact hno ⟨not_lt.mp hent, Or.inl (by decide)⟩
      · refine Or.inr ⟨j, by simp [hj], rfl, hjent, fun k' hk' hent => ?_⟩
        rcases List.mem_append.mp hk' with hk' | hk'
        · exact hleast k' hk' hent
        · rw [List.mem_singleton.mp hk'] at hent ⊢
          by_contra hlt
          exact hno ⟨hent, Or.inr (not_le.mp hlt)⟩

/-! ### The replaced pages -/

/-- The page of a block that shows `p`, when the loop has passed it. -/
def Replaced (ent : ℕ → ℕ → ℤ) (p : ℕ × ℕ) (page : ℤ) : Prop :=
  (0 ≤ ent p.1 p.2 ∧ page = p.2) ∨
    (ent p.1 p.2 < 0 ∧ F.NearestIn ent p.1 p.2 (List.range F.K) page)

/-- The pages when the blocks `l` are done. -/
def Pages (ent : ℕ → ℕ → ℤ) (l : List (ℕ × ℕ)) (bk : ℕ → ℤ) : Prop :=
  ∀ b ∈ F.blocks, ∀ p, F.face b.1 b.2 = some p →
    (b ∈ l → F.Replaced ent p (bk (b.1 * 16 + b.2))) ∧
    (b ∉ l → bk (b.1 * 16 + b.2) = p.2)

variable {F} in
theorem face_lt {m q : ℕ} {p : ℕ × ℕ} (h : F.face m q = some p) :
    F.nlist m ≠ 0 ∧ p.1 < 6 ∧ p.2 < F.K := by
  rw [face] at h
  split at h
  · cases h
  · rename_i hbinned
    exact ⟨hbinned, F.hit_lt h⟩

theorem replaceBlock_run {ent : ℕ → ℕ → ℤ} {s : Blocks} (hs : F.Visited F.blocks s)
    {done rest : List (ℕ × ℕ)} {x : ℕ × ℕ} {bk : ℕ → ℤ} (hl : F.blocks = done ++ x :: rest)
    (hbk : F.Pages ent done bk) :
    ∃ bk', F.replaceBlock ent s.bface bk x = some bk' ∧ F.Pages ent (done ++ [x]) bk' := by
  have hx : x ∈ F.blocks := by simp [hl]
  have hindex := index_lt hx
  have hcast : (x.1 : ℤ) * 16 + x.2 = ((x.1 * 16 + x.2 : ℕ) : ℤ) := by push_cast; ring
  have hfresh : x ∉ done := fun hmem => index_ne hl hmem rfl
  cases hface : F.face x.1 x.2 with
  | none =>
      refine ⟨bk, ?_, ?_⟩
      · rw [replaceBlock]
        split
        · rfl
        · simp only [hcast, get_of_lt _ hindex, hs.background x hx hface, Option.bind_eq_bind,
            Option.bind_some]
          rfl
      · intro b hb p hp
        have hbx : b ≠ x := by
          rintro rfl
          rw [hface] at hp
          cases hp
        have h := hbk b hb p hp
        simpa [hbx] using h
  | some p =>
      obtain ⟨hbinned, hf, hk⟩ := face_lt hface
      obtain ⟨hbface, -, -⟩ := hs.shown x hx p hface
      have hown := (hbk x hx p hface).2 hfresh
      have hK := F.K_le
      have hread : F.replaceBlock ent s.bface bk x = if ent p.1 p.2 < 0 then
          (F.nearest ent p.1 p.2).bind fun best => put (MAXMB * 16) bk (x.1 * 16 + x.2 : ℕ) best
          else some bk := by
        rw [replaceBlock, if_neg hbinned]
        simp only [hcast, Option.bind_eq_bind, Option.bind_some, get_of_lt _ hindex, hbface, hown,
          get₂_of_lt ent hf (show p.2 < 64 by omega), if_neg (show ¬ (p.1 : ℤ) < 0 by omega)]
      rw [hread]
      split
      · rename_i hneg
        obtain ⟨best, hbest, hnear⟩ := F.nearest_run ent hf p.2
        rw [hbest, Option.bind_some, put_of_lt _ _ hindex]
        refine ⟨_, rfl, ?_⟩
        intro b hb p' hp'
        by_cases hbx : b = x
        · subst hbx
          rw [hface] at hp'
          cases hp'
          exact ⟨fun _ => Or.inr ⟨hneg, by simpa using hnear⟩, fun hno => absurd (by simp) hno⟩
        · have hne : b.1 * 16 + b.2 ≠ x.1 * 16 + x.2 := by
            intro heq
            have hb' := (F.mem_blocks.mp hb).2
            have hx' := (F.mem_blocks.mp hx).2
            have hwidth := F.blocks_le
            exact hbx (Prod.ext (by omega) (by omega))
          have h := hbk b hb p' hp'
          simpa [hbx, hne] using h
      · rename_i hnonneg
        refine ⟨bk, rfl, ?_⟩
        intro b hb p' hp'
        by_cases hbx : b = x
        · subst hbx
          rw [hface] at hp'
          cases hp'
          exact ⟨fun _ => Or.inl ⟨not_lt.mp hnonneg, hown⟩, fun hno => absurd (by simp) hno⟩
        · have h := hbk b hb p' hp'
          simpa [hbx] using h

theorem replace_run (ent : ℕ → ℕ → ℤ) {s : Blocks} (hs : F.Visited F.blocks s) :
    ∃ bk, F.replace ent s = some { s with bk := bk } ∧ F.Pages ent F.blocks bk := by
  have hloop : ∃ bk, F.blocks.foldlM (F.replaceBlock ent s.bface) s.bk = some bk ∧
      F.Pages ent F.blocks bk := by
    apply loop_run (fun l bk => F.Pages ent l bk)
    · intro b hb p hp
      exact ⟨fun hmem => absurd hmem List.not_mem_nil, fun _ => (hs.shown b hb p hp).2.1⟩
    · intro done x rest bk hl hbk
      exact F.replaceBlock_run hs hl hbk
  obtain ⟨bk, hbk, hpages⟩ := hloop
  refine ⟨bk, ?_, hpages⟩
  rw [replace, hbk]
  rfl

theorem header_run {r : Refs} {T : Finset (ℕ × ℕ)} (h : F.Filled r T) :
    ∃ pages, header r = some pages := by
  have hle := h.nref_le
  have hfaces : ∀ i ∈ List.range' 1 (r.NREF - 1), ∃ u,
      ((get MAXREF r.REFFACE i).bind fun f => get 6 (fun _ => ()) f) = some u := by
    intro i hi
    rw [List.mem_range'_1] at hi
    obtain ⟨f, hface, hf⟩ := h.face i hi.1 (by omega)
    rw [get_of_lt _ (show i < MAXREF by omega), Option.bind_some, hface, get_of_lt _ hf]
    exact ⟨(), rfl⟩
  have hpages : ∀ i ∈ List.range r.NREF, ∃ page, get MAXREF r.REFPAGE i = some page := by
    intro i hi
    have hi := List.mem_range.mp hi
    exact ⟨_, get_of_lt _ (by omega)⟩
  obtain ⟨us, hus, -⟩ := mapM_run hfaces
  obtain ⟨pages, hread, -⟩ := mapM_run hpages
  refine ⟨pages, ?_⟩
  rw [header, hus]
  exact hread

/-! ### The selection -/

/-- What the arrays and the list hold when the selection is over. -/
structure Selected (s : Blocks) (r : Refs) : Prop where
  background : ∀ b ∈ F.blocks, F.face b.1 b.2 = none → s.bface (b.1 * 16 + b.2) = -1
  shown : ∀ b ∈ F.blocks, ∀ p, F.face b.1 b.2 = some p → s.bface (b.1 * 16 + b.2) = p.1 ∧
    s.btu (b.1 * 16 + b.2) = true ∧ F.Replaced r.ent p (s.bk (b.1 * 16 + b.2))
  listed : ∀ f k, f < 6 → k < F.K →
    if F.Listed (f, k) then ∃ e : ℕ, r.ent f k = e ∧ 1 ≤ e ∧ e < r.NREF ∧ r.REFFACE e = f
    else r.ent f k = -1
  nref_le : r.NREF ≤ MAXREF

theorem select_run (old : Blocks) :
    ∃ s r, F.selectReferences old = some (s, r) ∧ F.Selected s r := by
  obtain ⟨s, hpass, hs⟩ := F.pass1_run old
  obtain ⟨r, T, hfill, hr, hend⟩ := F.fill_run hs.hist MAXREF F.filled_start (by decide)
  obtain ⟨bk, hreplace, hpages⟩ := F.replace_run r.ent hs
  obtain ⟨pages, hheader⟩ := F.header_run hr
  refine ⟨{ s with bk := bk }, r, ?_, hs.background, ?_, ?_, hr.nref_le⟩
  · rw [selectReferences, hpass]
    simp only [Option.bind_eq_bind, Option.bind_some, hfill, hreplace, hheader]
  · intro b hb p hp
    obtain ⟨hface, -, hbtu⟩ := hs.shown b hb p hp
    exact ⟨hface, hbtu, (hpages b hb p hp).1 hb⟩
  · intro f k hf hk
    have hmem := hr.mem_iff hend (p := (f, k)) ⟨hf, hk⟩
    split
    · rename_i hlisted
      exact hr.listed (f, k) (hmem.mpr hlisted)
    · rename_i hno
      exact hr.unlisted f k fun hT => hno (hmem.mp hT)

theorem select_pages {old s : Blocks} {r : Refs} (h : F.selectReferences old = some (s, r)) :
    F.PageList r := by
  obtain ⟨s', hpass, hs⟩ := F.pass1_run old
  have hstart : F.PageList noRefs := by
    refine ⟨le_rfl, rfl, fun i _ => ⟨le_rfl, ?_⟩⟩
    exact Int.natCast_nonneg F.K
  simp only [selectReferences, hpass, Option.bind_eq_bind, Option.bind_some] at h
  obtain ⟨r', hfill, h⟩ := Option.bind_eq_some_iff.mp h
  obtain ⟨s'', -, h⟩ := Option.bind_eq_some_iff.mp h
  obtain ⟨u, -, h⟩ := Option.bind_eq_some_iff.mp h
  have heq : (s'', r') = (s, r) := Option.some.inj h
  rw [← (Prod.mk.inj heq).2]
  exact F.fill_pages hs.hist MAXREF F.filled_start hstart hfill

/-- A block with an entry of its own face, on the nearest page of the face that has one. -/
def Served (s : Blocks) (r : Refs) (m q f k : ℕ) : Prop :=
  ∃ page e : ℕ, s.bk (m * 16 + q) = page ∧ page < F.K ∧ r.ent f page = e ∧ 1 ≤ e ∧ e < r.NREF ∧
    r.REFFACE e = f ∧ ∀ k' < F.K, 0 ≤ r.ent f k' → F.apart page k ≤ F.apart k' k

variable {F} in
theorem face_of_shows {m q f k : ℕ} (h : F.Shows m q f k) :
    (m, q) ∈ F.blocks ∧ F.face m q = some (f, k) := by
  obtain ⟨hm, hq, hbinned, hhit⟩ := h
  refine ⟨F.mem_blocks.mpr ⟨hm, hq⟩, ?_⟩
  rw [face, if_neg hbinned, hhit]

variable {F} in
theorem Selected.entry_of {s : Blocks} {r : Refs} (h : F.Selected s r) {f k : ℕ} (hf : f < 6)
    (hk : k < F.K) (hent : 0 ≤ r.ent f k) :
    F.Listed (f, k) ∧ ∃ e : ℕ, r.ent f k = e ∧ 1 ≤ e ∧ e < r.NREF ∧ r.REFFACE e = f := by
  have hlisted := h.listed f k hf hk
  split at hlisted
  · rename_i hin
    exact ⟨hin, hlisted⟩
  · omega

theorem apart_self (a : ℕ) : F.apart a a = 0 := by
  simp [apart]

theorem apart_nonneg {a b : ℕ} (ha : a < F.K) (hb : b < F.K) : 0 ≤ F.apart a b := by
  have hsmall : |(a : ℤ) - b| < F.K := by
    rw [abs_lt]
    omega
  have hpos := abs_nonneg ((a : ℤ) - b)
  rw [apart, le_min_iff]
  omega

/-- A block is served exactly when its face has a pair listed. -/
theorem Selected.served_iff {F : Frame} {s : Blocks} {r : Refs} (h : F.Selected s r)
    {m q f k : ℕ} (hshows : F.Shows m q f k) :
    F.Served s r m q f k ↔ ∃ k' < F.K, F.Listed (f, k') := by
  obtain ⟨hb, hface⟩ := face_of_shows hshows
  obtain ⟨-, hf, hk⟩ := face_lt hface
  obtain ⟨-, -, hpage⟩ := h.shown _ hb _ hface
  simp only at hf hk hpage
  constructor
  · rintro ⟨page, e, -, hlt, hent, -⟩
    exact ⟨page, hlt, (h.entry_of hf hlt (by omega)).1⟩
  · rintro ⟨k', hk', hlisted⟩
    have hent' : 0 ≤ r.ent f k' := by
      have hread := h.listed f k' hf hk'
      rw [if_pos hlisted] at hread
      obtain ⟨e, he, -⟩ := hread
      omega
    rcases hpage with ⟨hent, hown⟩ | ⟨-, hnone | ⟨page, hlt, hpage, hent, hleast⟩⟩
    · obtain ⟨-, e, he, hpos, hnref, hface⟩ := h.entry_of hf hk hent
      refine ⟨k, e, hown, hk, he, hpos, hnref, hface, ?_⟩
      intro k' hk' _
      rw [apart_self]
      exact F.apart_nonneg hk' hk
    · have hneg := hnone.2 k' (List.mem_range.mpr hk')
      simp only at hneg
      omega
    · have hlt := List.mem_range.mp hlt
      obtain ⟨-, e, he, hpos, hnref, hface⟩ := h.entry_of hf hlt hent
      refine ⟨page, e, hpage, hlt, he, hpos, hnref, hface, ?_⟩
      intro k' hk' hent'
      rw [← F.circd_eq hlt hk, ← F.circd_eq hk' hk]
      exact hleast k' (List.mem_range.mpr hk') hent'

/-! ### The reference choice -/

section Choice

variable {F} {s : Blocks} {r : Refs} (h : F.Selected s r)
  (hserved : ∀ m q f k, F.Shows m q f k → F.Served s r m q f k) {m q : ℕ}

include h in
theorem hasFace_run (hb : (m, q) ∈ F.blocks) : hasFace s m q = some (F.face m q).isSome := by
  have hindex := index_lt hb
  have hcast : (m : ℤ) * 16 + q = ((m * 16 + q : ℕ) : ℤ) := by push_cast; ring
  rw [hasFace, hcast, get_of_lt _ hindex]
  cases hface : F.face m q with
  | none => rw [h.background _ hb hface]; rfl
  | some p => rw [(h.shown _ hb p hface).1]; simp

include h hserved in
theorem entry_run (hb : (m, q) ∈ F.blocks) (hface : (F.face m q).isSome) :
    ∃ e : ℕ, entry s r m q = some (e : ℤ) ∧ 1 ≤ e ∧ e < r.NREF := by
  obtain ⟨⟨f, k⟩, hp⟩ := Option.isSome_iff_exists.mp hface
  obtain ⟨hbinned, hf, -⟩ := face_lt hp
  have hshows : F.Shows m q f k := by
    have hin := F.mem_blocks.mp hb
    refine ⟨hin.1, hin.2, hbinned, ?_⟩
    rwa [Frame.face, if_neg hbinned] at hp
  obtain ⟨page, e, hbk, hpage, hent, hpos, hnref, -⟩ := hserved m q f k hshows
  have hK := F.K_le
  have hindex := index_lt hb
  have hcast : (m : ℤ) * 16 + q = ((m * 16 + q : ℕ) : ℤ) := by push_cast; ring
  refine ⟨e, ?_, hpos, hnref⟩
  rw [entry]
  simp only [hcast, get_of_lt _ hindex, (h.shown _ hb _ hp).1, hbk, Option.bind_eq_bind,
    Option.bind_some, get₂_of_lt _ hf (show page < 64 by omega), hent]

include h hserved in
theorem entries_run {p : ℕ} (hb : ∀ j < 4, (m, p * 4 + j) ∈ F.blocks) :
    ∃ es, entries s r m p = some es ∧ ∀ x ∈ es, ∃ e : ℕ, x = e ∧ 1 ≤ e ∧ e < r.NREF := by
  apply loop_run (fun _ (es : List ℤ) => ∀ x ∈ es, ∃ e : ℕ, x = e ∧ 1 ≤ e ∧ e < r.NREF)
  · simp
  · intro done j rest es hl hes
    have hj : (m, p * 4 + j) ∈ F.blocks := hb j (List.mem_range.mp (by simp [hl]))
    rw [hasFace_run h hj]
    simp only [Option.bind_eq_bind, Option.bind_some]
    split
    · rename_i hface
      obtain ⟨e, he, hpos, hlt⟩ := entry_run h hserved hj hface
      have hnref := h.nref_le
      rw [he, Option.bind_some, get_of_lt _ (show e < MAXREF by omega), Option.bind_some]
      refine ⟨_, rfl, ?_⟩
      intro x hx
      rcases List.mem_append.mp hx with hx | hx
      · exact hes x hx
      · exact ⟨e, List.mem_singleton.mp hx, hpos, hlt⟩
    · exact ⟨es, rfl, hes⟩

/-- The search over `l` finds an entry of `es`, if there is one. -/
theorem mostCommon_mem (es : List ℤ) (l : List ℕ) :
    let br := l.foldl (fun br (i : ℕ) =>
      if 0 < es.count (i : ℤ) ∧ (br < 0 ∨ es.count br < es.count (i : ℤ)) then (i : ℤ) else br)
      (-1)
    (br = -1 ∧ ∀ i ∈ l, (i : ℤ) ∉ es) ∨ ∃ i ∈ l, br = (i : ℕ) := by
  induction l using List.reverseRec with
  | nil => exact Or.inl ⟨rfl, by simp⟩
  | append_singleton l i ih =>
      rw [List.foldl_append, List.foldl_cons, List.foldl_nil]
      simp only
      split
      · exact Or.inr ⟨i, by simp, rfl⟩
      · rename_i hno
        rcases ih with ⟨hbr, hnone⟩ | ⟨j, hj, hbr⟩
        · refine Or.inl ⟨hbr, ?_⟩
          intro j hj
          rcases List.mem_append.mp hj with hj | hj
          · exact hnone j hj
          · rw [List.mem_singleton.mp hj]
            intro hmem
            exact hno ⟨List.count_pos_iff.mpr hmem, Or.inl (by rw [hbr]; decide)⟩
        · exact Or.inr ⟨j, by simp [hj], hbr⟩

include h hserved in
theorem chosen_run {p : ℕ} (hp : p < if F.part = .p16 then 1 else 4) (hm : m < F.mbs)
    (hany : ∃ q < F.part.blocks, (F.face m q).isSome) : ∃ ref, F.chosen s r m p = some ref := by
  cases hpart : F.part with
  | p16 =>
      have hblocks : F.part.blocks = 1 := by rw [hpart]; rfl
      obtain ⟨q, hq, hface⟩ := hany
      rw [if_pos hpart] at hp
      obtain rfl : q = p := by omega
      obtain ⟨e, he, -⟩ := entry_run h hserved (F.mem_blocks.mpr ⟨hm, hq⟩) hface
      refine ⟨e, ?_⟩
      rw [chosen, hpart]
      exact he
  | p8 =>
      have hblocks : F.part.blocks = 4 := by rw [hpart]; rfl
      rw [if_neg (by rw [hpart]; decide)] at hp
      have hb : (m, p) ∈ F.blocks := F.mem_blocks.mpr ⟨hm, by rw [hblocks]; exact hp⟩
      have hread : F.chosen s r m p = if (F.face m p).isSome then entry s r m p else some 0 := by
        rw [chosen, hpart]
        simp only [hasFace_run h hb, Option.bind_eq_bind, Option.bind_some]
      rw [hread]
      split
      · rename_i hface
        obtain ⟨e, he, -⟩ := entry_run h hserved hb hface
        exact ⟨e, he⟩
      · exact ⟨0, rfl⟩
  | p4 =>
      have hblocks : F.part.blocks = 16 := by rw [hpart]; rfl
      rw [if_neg (by rw [hpart]; decide)] at hp
      have hb : ∀ j < 4, (m, p * 4 + j) ∈ F.blocks := fun j hj =>
        F.mem_blocks.mpr ⟨hm, by rw [hblocks]; show p * 4 + j < 16; omega⟩
      obtain ⟨es, hes, hentries⟩ := entries_run h hserved hb
      have hread : F.chosen s r m p = if es = [] then some 0
          else (get MAXREF r.REFK (mostCommon r es)).bind fun _ => some (mostCommon r es) := by
        rw [chosen, hpart]
        simp only [hes, Option.bind_eq_bind, Option.bind_some]
      rw [hread]
      split
      · exact ⟨0, rfl⟩
      · rename_i hne
        obtain ⟨x, hx⟩ := List.exists_mem_of_ne_nil es hne
        obtain ⟨e, rfl, hpos, hlt⟩ := hentries x hx
        have hnref := h.nref_le
        rcases mostCommon_mem es (List.range' 1 (r.NREF - 1)) with ⟨-, hnone⟩ | ⟨i, hi, hbr⟩
        · exact absurd hx (hnone e (List.mem_range'_1.mpr ⟨hpos, by omega⟩))
        · have hi := List.mem_range'_1.mp hi
          refine ⟨i, ?_⟩
          rw [mostCommon, hbr, get_of_lt _ (show i < MAXREF by omega), Option.bind_some]

include h hserved in
theorem macroblock_run (hm : m < F.mbs) : ∃ refs, F.macroblock s r m = some refs := by
  rw [macroblock]
  split
  · exact ⟨[], rfl⟩
  · have hread : ∀ q ∈ List.range F.part.blocks, ∃ there, hasFace s m q = some there :=
      fun q hq => ⟨_, hasFace_run h (F.mem_blocks.mpr ⟨hm, List.mem_range.mp hq⟩)⟩
    obtain ⟨faces, hfaces, hmem⟩ := mapM_run hread
    simp only [hfaces, Option.bind_eq_bind, Option.bind_some]
    split
    · exact ⟨[], rfl⟩
    · rename_i hany
      obtain ⟨q, hq, htrue⟩ := (hmem true).mp (not_not.mp hany)
      have hq := List.mem_range.mp hq
      rw [hasFace_run h (F.mem_blocks.mpr ⟨hm, hq⟩)] at htrue
      obtain ⟨refs, hrefs, -⟩ := mapM_run fun p hp =>
        chosen_run h hserved (List.mem_range.mp hp) hm ⟨q, hq, Option.some.inj htrue⟩
      exact ⟨refs, hrefs⟩

end Choice

end Frame

/-- Every block with a face is served, no index is out of range, and the list is no longer than
the hardware takes. -/
def OwnFace (F : Frame) (old : Blocks) : Prop :=
  ∃ s r, F.selectReferences old = some (s, r) ∧ r.NREF ≤ MAXREF ∧
    (∀ m q f k, F.Shows m q f k → F.Served s r m q f k) ∧
    ∀ m < F.mbs, ∃ refs, F.macroblock s r m = some refs

theorem own_face_iff (F : Frame) (old : Blocks) :
    OwnFace F old ↔ ∀ m q f k, F.Shows m q f k → ∃ k' < F.K, F.Listed (f, k') := by
  obtain ⟨s, r, hselect, h⟩ := F.select_run old
  constructor
  · rintro ⟨s', r', hselect', -, hserved, -⟩ m q f k hshows
    rw [hselect] at hselect'
    cases hselect'
    exact (h.served_iff hshows).mp (hserved m q f k hshows)
  · intro hlisted
    have hserved : ∀ m q f k, F.Shows m q f k → F.Served s r m q f k :=
      fun m q f k hshows => (h.served_iff hshows).mpr (hlisted m q f k hshows)
    exact ⟨s, r, hselect, h.nref_le, hserved, fun m hm => Frame.macroblock_run h hserved hm⟩

/-! ### Three faces, one of them small -/

/-- Two macroblocks of one face on twelve pages and of another on three, and a third macroblock
with one block of a third face. -/
def crowded : Frame where
  part := .p4
  K := 12
  mbs := 3
  nlist := fun _ => 4
  blockHit := fun m q =>
    if m < 2 then (if q < 12 then some (0, q) else if q < 15 then some (1, q - 12) else none)
    else if q = 0 then some (2, 0) else none
  K_pos := by decide
  K_le := by decide
  mbs_le := by decide
  hit_lt := by
    intro m q f k h
    split at h
    · split at h
      · cases h
        omega
      · split at h
        · cases h
          omega
        · cases h
    · split at h
      · cases h
        omega
      · cases h

theorem crowded_unlisted : ∀ k < 12, ¬ crowded.Listed (2, k) := by
  decide +kernel

/-- The static arrays of a program that has drawn nothing. -/
def blank : Blocks := ⟨fun _ => 0, fun _ => 0, fun _ => false, fun _ _ => 0⟩

/-- The block of the third face has no entry. -/
theorem small_face_unserved : ¬ OwnFace crowded blank := by
  rintro ⟨s, r, hselect, -, hserved, -⟩
  obtain ⟨s', r', hselect', h⟩ := crowded.select_run blank
  rw [hselect] at hselect'
  cases hselect'
  have hshows : crowded.Shows 2 0 2 0 := ⟨by decide, by decide, by decide, by decide⟩
  obtain ⟨k, hk, hlisted⟩ := (h.served_iff hshows).mp (hserved 2 0 2 0 hshows)
  exact crowded_unlisted k hk hlisted

end BadgeOS.CodaCube.References
