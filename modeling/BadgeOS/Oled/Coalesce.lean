import BadgeOS.Oled.Flush
import Mathlib

/-!
# What a partial flush sends

The spans of `flushDirty` are the runs of changed columns, where a gap that is short enough is
sent as well.  The comment at `gap_merge` says that runs separated by no more than that many
unchanged columns are one, and the code compares it with the distance of their ends, which is
one more.

* `Run`, `Apart` — what a span is, and how far from the next;
* `walkRuns_runs`, `pageSpans_runs` — the walk over a page;
* `Coalesced` — the spans of a frame that merges gaps up to a length;
* `coalesced_iff` — when they are those that the comment promises.
-/

namespace BadgeOS.Oled

variable {bits : BitVec 128} {page left col runStart runEnd : ℕ}

/-- Two changed columns with none between them. -/
structure Next (bits : BitVec 128) (a b : ℕ) : Prop where
  lt : a < b
  left : bits.getLsbD a = true
  right : bits.getLsbD b = true
  between : ∀ c, a < c → c < b → bits.getLsbD c = false

/-- From a changed column to another, and no gap on the way is too long. -/
structure Run (bits : BitVec 128) (lo hi : ℕ) : Prop where
  le : lo ≤ hi
  first : bits.getLsbD lo = true
  last : bits.getLsbD hi = true
  tight : ∀ a b, Next bits a b → lo ≤ a → b ≤ hi → b - a ≤ gapMerge

/-- A span that ends too far before another to be merged with it. -/
def Apart (s t : Span) : Prop := s.2.2 + gapMerge < t.2.1

theorem Run.single (h : bits.getLsbD col = true) : Run bits col col :=
  ⟨le_rfl, h, h, fun a b hnext hle hge => by
    have hlt := hnext.lt
    omega⟩

/-- A changed column after a run, with no other between, that is close enough joins it. -/
theorem Run.absorb (h : Run bits runStart runEnd) (hend : runEnd < col)
    (hgap : ∀ c, runEnd < c → c < col → bits.getLsbD c = false) (hcol : bits.getLsbD col = true)
    (hclose : col - runEnd ≤ gapMerge) : Run bits runStart col := by
  refine ⟨h.le.trans hend.le, h.first, hcol, fun a b hnext hle hge => ?_⟩
  rcases Nat.lt_or_ge runEnd b with hnew | hold
  · -- the new column, so its neighbour is the end of the run
    have hb : b = col := by
      by_contra hne
      have hunset := hgap b hnew (by omega)
      rw [hnext.right] at hunset
      cases hunset
    have ha : runEnd ≤ a := by
      by_contra hlt
      have hunset := hnext.between runEnd (Nat.lt_of_not_le hlt) hnew
      rw [h.last] at hunset
      cases hunset
    omega
  · exact h.tight a b hnext hle hold

/-- **The walk.**  Every span is a run, none starts before the open one, and each is apart from
those after it. -/
theorem walkRuns_runs (h : Run bits runStart runEnd) (hend : runEnd < col)
    (hgap : ∀ c, runEnd < c → c < col → bits.getLsbD c = false) :
    (∀ span ∈ walkRuns bits page left col runStart runEnd,
      Run bits span.2.1 span.2.2 ∧ runStart ≤ span.2.1) ∧
    (walkRuns bits page left col runStart runEnd).Pairwise Apart := by
  induction left generalizing col runStart runEnd with
  | zero =>
      refine ⟨fun span hspan => ?_, List.pairwise_singleton _ _⟩
      obtain rfl := List.mem_singleton.mp hspan
      exact ⟨h, le_rfl⟩
  | succ left ih =>
      rw [walkRuns]
      by_cases hbit : bits.getLsbD col = false
      · rw [if_pos hbit]
        refine ih h (by omega) fun c hlt hle => ?_
        rcases Nat.lt_succ_iff_lt_or_eq.mp hle with hlt' | rfl
        · exact hgap c hlt hlt'
        · exact hbit
      · have hset : bits.getLsbD col = true := by simpa using hbit
        have hnone : ∀ c, col < c → c < col + 1 → bits.getLsbD c = false :=
          fun c hlt hle => absurd hle (by omega)
        rw [if_neg hbit]
        by_cases hclose : col - runEnd ≤ gapMerge
        · rw [if_pos hclose]
          exact ih (h.absorb hend hgap hset hclose) (Nat.lt_succ_self col) hnone
        · rw [if_neg hclose]
          obtain ⟨hruns, hpairs⟩ := ih (Run.single hset) (Nat.lt_succ_self col) hnone
          constructor
          · intro span hspan
            rcases List.mem_cons.mp hspan with rfl | hspan
            · exact ⟨h, le_rfl⟩
            · have hle := h.le
              obtain ⟨hrun, hstart⟩ := hruns span hspan
              exact ⟨hrun, by omega⟩
          · refine List.pairwise_cons.mpr ⟨fun span hspan => ?_, hpairs⟩
            have hstart := (hruns span hspan).2
            show runEnd + gapMerge < span.2.1
            omega

theorem pageSpans_runs :
    (∀ span ∈ pageSpans bits page left col, Run bits span.2.1 span.2.2) ∧
    (pageSpans bits page left col).Pairwise Apart := by
  induction left generalizing col with
  | zero => exact ⟨fun span hspan => absurd hspan List.not_mem_nil, List.Pairwise.nil⟩
  | succ left ih =>
      rw [pageSpans]
      split
      · exact ih
      · rename_i hbit
        have hset : bits.getLsbD col = true := by simpa using hbit
        have hwalk : (∀ span ∈ walkRuns bits page left (col + 1) col col,
              Run bits span.2.1 span.2.2 ∧ col ≤ span.2.1) ∧
            (walkRuns bits page left (col + 1) col col).Pairwise Apart :=
          walkRuns_runs (Run.single hset) (Nat.lt_succ_self col)
            fun c hlt hle => absurd hle (by omega)
        exact ⟨fun span hspan => (hwalk.1 span hspan).1, hwalk.2⟩

/-! ### A frame -/

variable {g : Geometry} {dirty : Dirty}

/-- A changed column of the panel. -/
def Dirty.Changed (dirty : Dirty) (g : Geometry) (page col : ℕ) : Prop :=
  page < g.pages ∧ col < g.width ∧ (dirty.bits page).getLsbD col = true

/-- The end of a run of changed columns of the panel and the start of the next; or two changed
columns side by side. -/
def Dirty.Neighbours (dirty : Dirty) (g : Geometry) (page a b : ℕ) : Prop :=
  page < g.pages ∧ b < g.width ∧ Next (dirty.bits page) a b

/-- Earlier on the panel, and apart. -/
def Span.Before (s t : Span) : Prop := s.1 < t.1 ∨ (s.1 = t.1 ∧ s.2.2 < t.2.1)

/-- The spans of a flush that merges two runs exactly when no more than `merge` unchanged columns
separate them. -/
structure Coalesced (g : Geometry) (dirty : Dirty) (merge : ℕ) (spans : List Span) : Prop where
  fits : ∀ span ∈ spans, span.Fits g
  ends : ∀ span ∈ spans, dirty.Changed g span.1 span.2.1 ∧ dirty.Changed g span.1 span.2.2
  ascending : spans.Pairwise Span.Before
  covers : ∀ page col, dirty.Changed g page col → ∃ span ∈ spans, span.Covers page col
  merged : ∀ page a b, dirty.Neighbours g page a b →
    ((∃ span ∈ spans, span.Covers page a ∧ span.Covers page b) ↔ b - a - 1 ≤ merge)

/-- Every span is a run of its page. -/
theorem dirtySpans_run : ∀ span ∈ dirtySpans g dirty,
    Run (dirty.bits span.1) span.2.1 span.2.2 := by
  intro span hspan
  obtain ⟨page, -, hmem⟩ := List.mem_flatMap.mp hspan
  split at hmem
  · cases hmem
  · rw [(pageSpans_mem hmem).1]
    exact pageSpans_runs.1 span hmem

/-- Two spans are of different pages, or apart. -/
theorem dirtySpans_pairwise : (dirtySpans g dirty).Pairwise fun s t =>
    s.1 < t.1 ∨ (s.1 = t.1 ∧ Apart s t) := by
  rw [dirtySpans, List.pairwise_flatMap]
  constructor
  · intro page _
    split
    · exact List.Pairwise.nil
    · refine pageSpans_runs.2.imp_of_mem fun {s t} hs ht hapart => Or.inr ⟨?_, hapart⟩
      rw [(pageSpans_mem hs).1, (pageSpans_mem ht).1]
  · refine List.pairwise_lt_range.imp fun {p q} hlt s hs t ht => Or.inl ?_
    split at hs
    · cases hs
    · split at ht
      · cases ht
      · rw [(pageSpans_mem hs).1, (pageSpans_mem ht).1]
        exact hlt

/-- Of two spans of one page one is before the other. -/
theorem apart_or_apart {s t : Span} (hs : s ∈ dirtySpans g dirty) (ht : t ∈ dirtySpans g dirty)
    (hne : s ≠ t) (hpage : s.1 = t.1) : Apart s t ∨ Apart t s := by
  have hsym : Std.Symm fun s t : Span => s.1 = t.1 → Apart s t ∨ Apart t s :=
    ⟨fun s t h heq => (h heq.symm).symm⟩
  have hpairs : (dirtySpans g dirty).Pairwise fun s t => s.1 = t.1 → Apart s t ∨ Apart t s :=
    dirtySpans_pairwise.imp fun {s t} hst heq =>
      hst.elim (fun hlt => absurd heq hlt.ne) fun h => Or.inl h.2
  exact hpairs.forall hs ht hne hpage

/-- A marked column of the panel is covered. -/
theorem dirtySpans_changed {page col : ℕ} (h : dirty.Changed g page col) :
    ∃ span ∈ dirtySpans g dirty, span.Covers page col := by
  obtain ⟨hpage, hcol, hset⟩ := h
  have hmax : page < Dirty.maxPages := hpage.trans_le g.pages_le
  rw [Dirty.bits, dif_pos hmax] at hset
  have hcovers : ({ dirty with full := false } : Dirty).Covers page col := Or.inr ⟨hmax, hset⟩
  have hspan : ∃ span ∈ dirtySpans g { dirty with full := false }, span.Covers page col :=
    dirtySpans_covers rfl hpage hcol hcovers
  -- the spans do not read `full`
  exact hspan

/-- Neighbours in one span are close, for it is a run. -/
theorem close_of_covered {page a b : ℕ} (h : dirty.Neighbours g page a b) {span : Span}
    (hspan : span ∈ dirtySpans g dirty) (ha : span.Covers page a) (hb : span.Covers page b) :
    b - a ≤ gapMerge := by
  have hrun := dirtySpans_run span hspan
  rw [← ha.1] at hrun
  exact hrun.tight a b h.2.2 ha.2.1 hb.2.2

theorem merged_iff {page a b : ℕ} (h : dirty.Neighbours g page a b) :
    (∃ span ∈ dirtySpans g dirty, span.Covers page a ∧ span.Covers page b) ↔
      b - a ≤ gapMerge := by
  constructor
  · rintro ⟨span, hspan, ha, hb⟩
    exact close_of_covered h hspan ha hb
  · intro hclose
    have hab := h.2.2.lt
    obtain ⟨s, hs, ha⟩ := dirtySpans_changed (g := g) ⟨h.1, hab.trans h.2.1, h.2.2.left⟩
    obtain ⟨t, ht, hb⟩ := dirtySpans_changed (g := g) ⟨h.1, h.2.1, h.2.2.right⟩
    by_cases hst : s = t
    · subst hst
      exact ⟨s, hs, ha, hb⟩
    · exfalso
      have haEnd := ha.2.2
      have haStart := ha.2.1
      have hbEnd := hb.2.2
      have hbStart := hb.2.1
      rcases apart_or_apart hs ht hst (ha.1.symm.trans hb.1) with hapart | hapart
      · have hlt : s.2.2 + gapMerge < t.2.1 := hapart
        omega
      · have hlt : t.2.2 + gapMerge < s.2.1 := hapart
        omega

/-- **The spans of a frame**: two runs are merged when fewer than `gapMerge` unchanged columns
separate them. -/
theorem coalesced_dirtySpans (g : Geometry) (dirty : Dirty) :
    Coalesced g dirty (gapMerge - 1) (dirtySpans g dirty) where
  fits := fits_dirtySpans
  ends span hspan := by
    obtain ⟨hpage, hle, hlt⟩ := fits_dirtySpans span hspan
    have hrun := dirtySpans_run span hspan
    exact ⟨⟨hpage, hle.trans_lt hlt, hrun.first⟩, hpage, hlt, hrun.last⟩
  ascending := by
    refine dirtySpans_pairwise.imp fun {s t} hst => hst.imp_right fun ⟨hpage, hapart⟩ =>
      ⟨hpage, ?_⟩
    have hlt : s.2.2 + gapMerge < t.2.1 := hapart
    exact (Nat.le_add_right _ _).trans_lt hlt
  covers _ _ := dirtySpans_changed
  merged page a b h := by
    have hlt := h.2.2.lt
    rw [merged_iff h, gapMerge]
    omega

/-- **Coalesced as promised**: exactly in the frames where no two runs are separated by
`gapMerge` unchanged columns and no more. -/
theorem coalesced_iff (g : Geometry) (dirty : Dirty) :
    Coalesced g dirty gapMerge (dirtySpans g dirty) ↔
      ∀ page a b, dirty.Neighbours g page a b → b - a - 1 ≠ gapMerge := by
  have hspans := coalesced_dirtySpans g dirty
  constructor
  · intro hpromised page a b h heq
    have hwide := hpromised.merged page a b h
    have hnarrow := hspans.merged page a b h
    rw [heq] at hwide hnarrow
    exact absurd (hnarrow.mp (hwide.mpr le_rfl)) (by decide)
  · intro hnone
    refine { hspans with merged := fun page a b h => ?_ }
    have hne := hnone page a b h
    rw [hspans.merged page a b h]
    rw [gapMerge] at hne ⊢
    omega

/-- Columns 0 and 9 of the first page. -/
def tooFar : Dirty where
  full := false
  changed page := if page.val = 0 then 1#128 ||| 1#128 <<< 9 else 0#128

/-- The eight unchanged columns between them are not sent. -/
theorem coalesced_tooFar :
    ¬ ∀ (g : Geometry) (dirty : Dirty), dirty.full = false →
      Coalesced g dirty gapMerge (dirtySpans g dirty) := by
  intro hall
  let g : Geometry := ⟨128, 32, by decide, by decide, Or.inl rfl⟩
  have hspans : dirtySpans g tooFar = [(0, 0, 0), (0, 9, 9)] := by decide
  have hnext : tooFar.Neighbours g 0 0 9 :=
    ⟨by decide, by decide, by decide, by decide, by decide, fun c hlt hle => by
      interval_cases c <;> decide⟩
  obtain ⟨span, hspan, ha, hb⟩ := ((hall g tooFar rfl).merged 0 0 9 hnext).mpr (by decide)
  rw [hspans] at hspan
  rcases List.mem_pair.mp hspan with rfl | rfl
  · exact absurd hb.2.2 (by decide)
  · exact absurd ha.2.1 (by decide)

end BadgeOS.Oled
