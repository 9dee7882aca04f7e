import BadgeOS.Lib.Transition
import BadgeOS.Oled.Eval
import BadgeOS.Oled.Glass

/-!
# The loop that keeps the glass in step

`nix-badge.zig`: every turn of `cmdOled` blits a rendered frame and flushes the part of it that
its `Dirty` marks.  A flush that fails is counted; every eighth failure in a row, and the first
flush that gets through after some, probe the panel again, initialise it and draw all of it.

* `flushDirty`, `recovered`, `reinit`, `step` — the loop, with what becomes of every write;
* `flushDirty_shows` — a partial flush that gets through;
* `Good`, `inv_step` — the turns after which the glass shows the framebuffer;
* `flushed_glass_shows` — over every run of such turns.
-/

namespace BadgeOS.Oled

open Transition

variable {g : Geometry} {p : Panel g} {chip : Chip}

/-! ### The spans of a partial flush -/

/-- Two runs of changed columns no further apart than this are one. -/
def gapMerge : ℕ := 8

/-- The walk from column `col` on, with `left` columns to go and a run open. -/
def walkRuns (bits : BitVec 128) (page : ℕ) : (left col runStart runEnd : ℕ) → List Span
  | 0, _, runStart, runEnd => [(page, runStart, runEnd)]
  | left + 1, col, runStart, runEnd =>
      if bits.getLsbD col = false then walkRuns bits page left (col + 1) runStart runEnd
      else if col - runEnd ≤ gapMerge then walkRuns bits page left (col + 1) runStart col
      else (page, runStart, runEnd) :: walkRuns bits page left (col + 1) col col

/-- The columns up to the first that is changed, and the walk from there. -/
def pageSpans (bits : BitVec 128) (page : ℕ) : (left col : ℕ) → List Span
  | 0, _ => []
  | left + 1, col =>
      if bits.getLsbD col = false then pageSpans bits page left (col + 1)
      else walkRuns bits page left (col + 1) col col

/-- The columns of a page that are changed. -/
def Dirty.bits (dirty : Dirty) (page : ℕ) : BitVec 128 :=
  if h : page < Dirty.maxPages then dirty.changed ⟨page, h⟩ else 0#128

def dirtySpans (g : Geometry) (dirty : Dirty) : List Span :=
  (List.range (min g.pages Dirty.maxPages)).flatMap fun page =>
    if dirty.bits page = 0#128 then []
    else pageSpans (dirty.bits page) page (min g.width 128) 0

/-- Push a frame's dirty region to the panel. -/
def Panel.flushDirty (p : Panel g) (dirty : Dirty) (chip : Chip) (f : ℕ → SpanFaults) :
    Bool × Chip :=
  if dirty.full then p.flush chip f else p.flushSpans (dirtySpans g dirty) f chip

theorem walkRuns_mem {bits : BitVec 128} {page left col runStart runEnd : ℕ}
    (hrun : runStart ≤ runEnd) (hend : runEnd < col) {span : Span}
    (h : span ∈ walkRuns bits page left col runStart runEnd) :
    span.1 = page ∧ span.2.1 ≤ span.2.2 ∧ span.2.2 < col + left := by
  induction left generalizing col runStart runEnd with
  | zero =>
      obtain rfl := List.mem_singleton.1 h
      exact ⟨rfl, hrun, hend⟩
  | succ left ih =>
      have hshift : col + 1 + left = col + (left + 1) := by omega
      rw [walkRuns] at h
      split at h
      · rw [← hshift]
        exact ih hrun (by omega) h
      · split at h
        · rw [← hshift]
          exact ih (by omega) (by omega) h
        · rcases List.mem_cons.1 h with rfl | h
          · exact ⟨rfl, hrun, by dsimp only; omega⟩
          · rw [← hshift]
            exact ih le_rfl (by omega) h

/-- The walk covers the run that is open and every changed column it comes to. -/
theorem walkRuns_covers {bits : BitVec 128} {page left col runStart runEnd c : ℕ}
    (hrun : runStart ≤ runEnd) (hend : runEnd < col)
    (hc : (runStart ≤ c ∧ c ≤ runEnd) ∨
      (col ≤ c ∧ c < col + left ∧ bits.getLsbD c = true)) :
    ∃ span ∈ walkRuns bits page left col runStart runEnd, span.Covers page c := by
  induction left generalizing col runStart runEnd with
  | zero =>
      have hin : runStart ≤ c ∧ c ≤ runEnd := by omega
      exact ⟨_, List.mem_singleton.2 rfl, rfl, hin⟩
  | succ left ih =>
      rw [walkRuns]
      by_cases hbit : bits.getLsbD col = false
      · rw [if_pos hbit]
        refine ih hrun (by omega) ?_
        rcases hc with hin | ⟨hle, hlt, hset⟩
        · exact .inl hin
        · have hne : c ≠ col := by
            intro heq
            subst heq
            rw [hbit] at hset
            cases hset
          exact .inr ⟨by omega, by omega, hset⟩
      · rw [if_neg hbit]
        by_cases hgap : col - runEnd ≤ gapMerge
        · -- the gap joins the run
          rw [if_pos hgap]
          refine ih (by omega) (by omega) ?_
          rcases hc with hin | ⟨hle, hlt, hset⟩
          · exact .inl ⟨hin.1, by omega⟩
          · by_cases heq : c = col
            · exact .inl ⟨by omega, by omega⟩
            · exact .inr ⟨by omega, by omega, hset⟩
        · rw [if_neg hgap]
          by_cases hin : runStart ≤ c ∧ c ≤ runEnd
          · exact ⟨_, List.mem_cons_self, rfl, hin⟩
          · have hrest : (col ≤ c ∧ c ≤ col) ∨
                (col + 1 ≤ c ∧ c < col + 1 + left ∧ bits.getLsbD c = true) := by
              rcases hc with hold | ⟨hle, hlt, hset⟩
              · exact absurd hold hin
              · by_cases heq : c = col
                · exact .inl ⟨by omega, by omega⟩
                · exact .inr ⟨by omega, by omega, hset⟩
            obtain ⟨span, hspan, hcovers⟩ := ih le_rfl (by omega) hrest
            exact ⟨span, List.mem_cons_of_mem _ hspan, hcovers⟩

theorem pageSpans_mem {bits : BitVec 128} {page left col : ℕ} {span : Span}
    (h : span ∈ pageSpans bits page left col) :
    span.1 = page ∧ span.2.1 ≤ span.2.2 ∧ span.2.2 < col + left := by
  induction left generalizing col with
  | zero => simp [pageSpans] at h
  | succ left ih =>
      have hshift : col + 1 + left = col + (left + 1) := by omega
      rw [pageSpans] at h
      rw [← hshift]
      split at h
      · exact ih h
      · exact walkRuns_mem le_rfl (Nat.lt_succ_self col) h

theorem pageSpans_covers {bits : BitVec 128} {page left col c : ℕ} (hle : col ≤ c)
    (hlt : c < col + left) (hset : bits.getLsbD c = true) :
    ∃ span ∈ pageSpans bits page left col, span.Covers page c := by
  induction left generalizing col with
  | zero => omega
  | succ left ih =>
      rw [pageSpans]
      by_cases heq : c = col
      · subst heq
        rw [if_neg (by simp [hset])]
        exact walkRuns_covers le_rfl (Nat.lt_succ_self c) (.inl ⟨le_rfl, le_rfl⟩)
      · split
        · exact ih (by omega) (by omega)
        · exact walkRuns_covers le_rfl (Nat.lt_succ_self col)
            (.inr ⟨by omega, by omega, hset⟩)

/-- The spans are of the panel. -/
theorem fits_dirtySpans {dirty : Dirty} : ∀ span ∈ dirtySpans g dirty, span.Fits g := by
  intro span hspan
  obtain ⟨page, hpage, hmem⟩ := List.mem_flatMap.1 hspan
  have hlt := List.mem_range.1 hpage
  split at hmem
  · simp at hmem
  · obtain ⟨hrow, hstart, hstop⟩ := pageSpans_mem hmem
    exact ⟨by omega, hstart, by omega⟩

/-- Every column that is marked is in one of them. -/
theorem dirtySpans_covers {dirty : Dirty} (hpart : dirty.full = false) {page col : ℕ}
    (hpage : page < g.pages) (hcol : col < g.width) (h : dirty.Covers page col) :
    ∃ span ∈ dirtySpans g dirty, span.Covers page col := by
  have hwidth := g.width_le
  rcases h with hfull | ⟨hmax, hset⟩
  · rw [hpart] at hfull
    cases hfull
  · have hbits : (dirty.bits page).getLsbD col = true := by
      rw [Dirty.bits, dif_pos hmax]
      exact hset
    have hne : dirty.bits page ≠ 0#128 := by
      intro hzero
      rw [hzero] at hbits
      simp at hbits
    have hspans : ∃ span ∈ pageSpans (dirty.bits page) page (min g.width 128) 0,
        span.Covers page col := pageSpans_covers (Nat.zero_le col) (by omega) hbits
    obtain ⟨span, hspan, hcovers⟩ := hspans
    refine ⟨span, List.mem_flatMap.2 ⟨page, List.mem_range.2 (by omega), ?_⟩, hcovers⟩
    rw [if_neg hne]
    exact hspan

/-- Every write of a frame's flush gets through. -/
def Panel.DirtyThrough (p : Panel g) (dirty : Dirty) (f : ℕ → SpanFaults) : Prop :=
  if dirty.full then p.FlushThrough f else ∀ n < (dirtySpans g dirty).length, (f n).Through

instance (p : Panel g) (dirty : Dirty) (f : ℕ → SpanFaults) : Decidable (p.DirtyThrough dirty f) :=
  inferInstanceAs (Decidable (ite (dirty.full = true) _ _))

/-- Whether a flush gets through depends on the controller alone. -/
theorem flushThrough_iff {p q : Panel g} (h : p.controller = q.controller)
    (f : ℕ → SpanFaults) : p.FlushThrough f ↔ q.FlushThrough f := by
  unfold Panel.FlushThrough
  rw [h]

theorem dirtyThrough_iff {p q : Panel g} (h : p.controller = q.controller) (dirty : Dirty)
    (f : ℕ → SpanFaults) : p.DirtyThrough dirty f ↔ q.DirtyThrough dirty f := by
  unfold Panel.DirtyThrough
  rw [propext (flushThrough_iff h f)]

theorem flushDirty_ok (p : Panel g) (dirty : Dirty) (chip : Chip) (f : ℕ → SpanFaults) :
    (p.flushDirty dirty chip f).1 = true ↔ p.DirtyThrough dirty f := by
  unfold Panel.flushDirty Panel.DirtyThrough
  split
  · exact flush_ok p chip f
  · rw [flushSpans_through]
    exact decide_eq_true_iff

theorem kept_flushDirty (p : Panel g) (dirty : Dirty) (chip : Chip) (f : ℕ → SpanFaults) :
    Kept chip (p.flushDirty dirty chip f).2 := by
  unfold Panel.flushDirty
  split
  · exact kept_flush p chip f
  · exact kept_flushSpans p fits_dirtySpans f chip

/-- **A frame's flush** that gets through shows the framebuffer when it covers every column that
did not. -/
theorem flushDirty_shows (hkind : chip.kind = p.controller) (hready : chip.Ready) {dirty : Dirty}
    {f : ℕ → SpanFaults} (hthrough : p.DirtyThrough dirty f)
    (hdirty : ∀ page < g.pages, ∀ col < g.width, chip.visible page col ≠ p.byte page col →
      dirty.Covers page col) :
    Shows (p.flushDirty dirty chip f).2 p := by
  unfold Panel.DirtyThrough at hthrough
  unfold Panel.flushDirty
  by_cases hfull : dirty.full = true
  · rw [if_pos hfull] at hthrough ⊢
    exact flush_shows hkind hready hthrough
  · rw [if_neg hfull] at hthrough ⊢
    intro page hpage col hcol
    rw [flushSpans_shows hkind hready fits_dirtySpans hthrough]
    by_cases hsame : chip.visible page col = p.byte page col
    · rw [hsame, ite_self]
    · rw [if_pos]
      exact dirtySpans_covers (by simpa using hfull) hpage hcol (hdirty page hpage col hcol hsame)

/-! ### The loop -/

/-- Copy a frame into the framebuffer. -/
def Panel.blit (p : Panel g) (frame : List UInt8) : Option (Panel g) :=
  if h : frame.length = g.fbLen then some { p with fb := frame, fb_length := h } else none

/-- A panel as `open` leaves it. -/
def Panel.blank (g : Geometry) (controller : Controller) : Panel g where
  controller
  fb := List.replicate g.fbLen 0
  fb_length := List.length_replicate

namespace Flush

/-- The part of `cmdOled`'s state that the flush reads, and the chip; `turns` counts the
iterations. -/
structure Loop (g : Geometry) where
  panel : Panel g
  chip : Chip
  flushFailCount : ℕ := 0
  turns : ℕ := 0

/-- What one iteration is given: the rendered frame, and what becomes of each of its writes. -/
structure Turn where
  frame : List UInt8
  dirty : Dirty
  flush : ℕ → SpanFaults
  probe : ProbeFaults
  init : ℕ → ℕ → Outcome
  redraw : ℕ → SpanFaults

/-- The bus has come back: probe, init and redraw, whatever fails of it. -/
def recovered (p : Panel g) (chip : Chip) (turn : Turn) : Panel g × Chip :=
  let probed := p.redetect chip turn.probe
  let started := probed.1.init probed.2 turn.init
  (probed.1, (probed.1.flush started.2 turn.redraw).2)

/-- Every eighth failure: probe, init, and redraw when the init got through. -/
def reinit (p : Panel g) (chip : Chip) (turn : Turn) : Panel g × Chip :=
  let probed := p.redetect chip turn.probe
  let started := probed.1.init probed.2 turn.init
  (probed.1, if started.1 then (probed.1.flush started.2 turn.redraw).2 else started.2)

/-- An iteration, once `panel` holds the frame. -/
def Loop.flushed (s : Loop g) (panel : Panel g) (turn : Turn) : Loop g :=
  let r := panel.flushDirty turn.dirty s.chip turn.flush
  if r.1 then
    let after := if 0 < s.flushFailCount then recovered panel r.2 turn else (panel, r.2)
    { panel := after.1, chip := after.2, flushFailCount := 0, turns := s.turns + 1 }
  else
    let count := s.flushFailCount + 1
    let after := if count % 8 = 0 then reinit panel r.2 turn else (panel, r.2)
    { panel := after.1, chip := after.2, flushFailCount := count, turns := s.turns + 1 }

/-- The frame's `Dirty` marks every byte that is not the one of the frame before. -/
def Turn.Marks (turn : Turn) (p : Panel g) : Prop :=
  ∀ page < g.pages, ∀ col < g.width,
    turn.frame.getD (page * g.width + col) 0 ≠ p.byte page col → turn.dirty.Covers page col

instance (turn : Turn) (p : Panel g) : Decidable (turn.Marks p) :=
  inferInstanceAs (Decidable (∀ page < _, ∀ col < _, _ → _))

def step (s : Loop g) (turn : Turn) : Option (Loop g) :=
  if turn.Marks s.panel then
    match s.panel.blit turn.frame with
    | none => none
    | some panel => some (s.flushed panel turn)
  else none

/-- The loop as it is entered: a panel that is opened blank, and an `init` of it that got
through. -/
def entered (g : Geometry) (controller : Controller) (chip : Chip) (outcome : ℕ → ℕ → Outcome) :
    Option (Loop g) :=
  let panel := Panel.blank g controller
  let started := panel.init chip outcome
  if started.1 then some { panel, chip := started.2 } else none

/-! ### What a turn keeps -/

theorem kept_recovered (p : Panel g) (chip : Chip) (turn : Turn) :
    Kept chip (recovered p chip turn).2 :=
  ((kept_redetect p chip turn.probe).trans (kept_init _ _ _)).trans (kept_flush _ _ _)

theorem kept_reinit (p : Panel g) (chip : Chip) (turn : Turn) :
    Kept chip (reinit p chip turn).2 := by
  have hinit := (kept_redetect p chip turn.probe).trans
    (kept_init (p.redetect chip turn.probe).1 _ turn.init)
  unfold reinit
  dsimp only
  split
  · exact hinit.trans (kept_flush _ _ _)
  · exact hinit

theorem flushed_kept (s : Loop g) (panel : Panel g) (turn : Turn) :
    Kept s.chip (s.flushed panel turn).chip := by
  have hflush := kept_flushDirty panel turn.dirty s.chip turn.flush
  unfold Loop.flushed
  dsimp only
  split
  · split
    · exact hflush.trans (kept_recovered _ _ _)
    · exact hflush
  · split
    · exact hflush.trans (kept_reinit _ _ _)
    · exact hflush

/-- **A recovery** whose probe is right and whose redraw gets through shows the framebuffer,
whatever its `init` came to. -/
theorem recovered_shows (hready : chip.Ready) {turn : Turn}
    (hprobe : turn.probe.Right chip.kind p.controller)
    (hredraw : Panel.FlushThrough { p with controller := chip.kind } turn.redraw) :
    (recovered p chip turn).2.kind = (recovered p chip turn).1.controller ∧
      Shows (recovered p chip turn).2 (recovered p chip turn).1 := by
  have hcontroller : (p.redetect chip turn.probe).1.controller = chip.kind :=
    redetect_right hprobe
  have hinit := (kept_redetect p chip turn.probe).trans
    (kept_init (p.redetect chip turn.probe).1 _ turn.init)
  have hthrough : (p.redetect chip turn.probe).1.FlushThrough turn.redraw :=
    (flushThrough_iff hcontroller _).2 hredraw
  constructor
  · exact (kept_recovered p chip turn).kind.trans hcontroller.symm
  · exact flush_shows (hinit.kind.trans hcontroller.symm) (hinit.ready hready) hthrough

/-! ### Turns that keep the glass in step -/

/-- The frame's `Dirty` marks every column where the glass differs from the frame. -/
def Turn.MarksGlass (turn : Turn) (s : Loop g) : Prop :=
  ∀ page < g.pages, ∀ col < g.width,
    s.chip.visible page col ≠ turn.frame.getD (page * g.width + col) 0 →
      turn.dirty.Covers page col

instance (turn : Turn) (s : Loop g) : Decidable (turn.MarksGlass s) :=
  inferInstanceAs (Decidable (∀ page < _, ∀ col < _, _ → _))

/-- The first turn starts with the controller that is fitted and flushes whatever the glass does
not show, and a flush that gets through after others that did not is followed by a probe that is
right and by a redraw that gets through. -/
structure Good (s : Loop g) (turn : Turn) : Prop where
  controller : s.turns = 0 → s.panel.controller = s.chip.kind
  first : s.turns = 0 → s.panel.DirtyThrough turn.dirty turn.flush → turn.MarksGlass s
  probe : 0 < s.flushFailCount → s.panel.DirtyThrough turn.dirty turn.flush →
    turn.probe.Right s.chip.kind s.panel.controller
  redraw : 0 < s.flushFailCount → s.panel.DirtyThrough turn.dirty turn.flush →
    Panel.FlushThrough { s.panel with controller := s.chip.kind } turn.redraw

/-- With no failure to recover from, the driver knows the chip and the glass shows the
framebuffer. -/
structure Loop.Inv (s : Loop g) : Prop where
  ready : (s.turns = 0 → s.panel.controller = s.chip.kind) → s.chip.Ready
  shows : 0 < s.turns → s.flushFailCount = 0 →
    s.chip.kind = s.panel.controller ∧ Shows s.chip s.panel

/-- What a turn does: the frame is in the framebuffer of the panel that is flushed. -/
theorem step_cases {s t : Loop g} {turn : Turn} (h : step s turn = some t) :
    turn.Marks s.panel ∧ ∃ panel : Panel g, panel.fb = turn.frame ∧
      panel.controller = s.panel.controller ∧ t = s.flushed panel turn := by
  rw [step] at h
  split at h
  · rename_i hmarks
    split at h
    · cases h
    · rename_i panel hblit
      cases h
      rw [Panel.blit] at hblit
      split at hblit
      · rename_i hlen
        cases hblit
        exact ⟨hmarks, { s.panel with fb := turn.frame, fb_length := hlen }, rfl, rfl, rfl⟩
      · cases hblit
  · cases h

/-- A flush that fails is counted. -/
theorem flushed_failed {panel : Panel g} {turn : Turn} (s : Loop g)
    (h : ¬ panel.DirtyThrough turn.dirty turn.flush) :
    (s.flushed panel turn).flushFailCount = s.flushFailCount + 1 := by
  have hfail : (panel.flushDirty turn.dirty s.chip turn.flush).1 = false := by
    rw [← Bool.not_eq_true, flushDirty_ok]
    exact h
  simp [Loop.flushed, hfail]

/-- A flush that gets through after others that did not is followed by the recovery. -/
theorem flushed_recovered {s : Loop g} {panel : Panel g} {turn : Turn}
    (h : panel.DirtyThrough turn.dirty turn.flush) (hcount : 0 < s.flushFailCount) :
    s.flushed panel turn =
      { panel := (recovered panel (panel.flushDirty turn.dirty s.chip turn.flush).2 turn).1
        chip := (recovered panel (panel.flushDirty turn.dirty s.chip turn.flush).2 turn).2
        flushFailCount := 0, turns := s.turns + 1 } := by
  have hok := (flushDirty_ok panel turn.dirty s.chip turn.flush).2 h
  simp only [Loop.flushed, hok, if_true, if_pos hcount]

theorem flushed_quiet {s : Loop g} {panel : Panel g} {turn : Turn}
    (h : panel.DirtyThrough turn.dirty turn.flush) (hcount : s.flushFailCount = 0) :
    s.flushed panel turn =
      { panel, chip := (panel.flushDirty turn.dirty s.chip turn.flush).2
        flushFailCount := 0, turns := s.turns + 1 } := by
  have hok := (flushDirty_ok panel turn.dirty s.chip turn.flush).2 h
  have hzero : ¬ 0 < s.flushFailCount := by omega
  simp only [Loop.flushed, hok, if_true, if_neg hzero]

/-- With nothing to recover from, the frame's `Dirty` marks whatever the glass does not show. -/
theorem unshown_marked {s : Loop g} (hs : s.Inv) (hcount : s.flushFailCount = 0) {turn : Turn}
    (hgood : Good s turn) (hmarks : turn.Marks s.panel)
    (hthrough : s.panel.DirtyThrough turn.dirty turn.flush) :
    s.chip.kind = s.panel.controller ∧ turn.MarksGlass s := by
  by_cases hturns : s.turns = 0
  · exact ⟨(hgood.controller hturns).symm, hgood.first hturns hthrough⟩
  · obtain ⟨hkind, hglass⟩ := hs.shows (by omega) hcount
    refine ⟨hkind, ?_⟩
    intro page hpage col hcol hne
    rw [hglass page hpage col hcol] at hne
    exact hmarks page hpage col hcol hne.symm

/-- **One turn** keeps the invariant. -/
theorem inv_step {s t : Loop g} {turn : Turn} (hs : s.Inv) (hgood : Good s turn)
    (h : step s turn = some t) : t.Inv := by
  obtain ⟨hmarks, panel, hframe, hcontroller, rfl⟩ := step_cases h
  have hready : s.chip.Ready := hs.ready hgood.controller
  have hkept := flushed_kept s panel turn
  have hflush := kept_flushDirty panel turn.dirty s.chip turn.flush
  have hsame := dirtyThrough_iff hcontroller turn.dirty turn.flush
  by_cases hthrough : panel.DirtyThrough turn.dirty turn.flush
  · by_cases hcount : s.flushFailCount = 0
    · obtain ⟨hkind, hglass⟩ := unshown_marked hs hcount hgood hmarks (hsame.1 hthrough)
      have hknown : s.chip.kind = panel.controller := hkind.trans hcontroller.symm
      have hshows := flushDirty_shows hknown hready hthrough (by
        intro page hpage col hcol hne
        rw [Panel.byte, hframe] at hne
        exact hglass page hpage col hcol hne)
      rw [flushed_quiet hthrough hcount]
      exact ⟨fun _ => hflush.ready hready, fun _ _ => ⟨hflush.kind.trans hknown, hshows⟩⟩
    · -- the bus has come back
      have hpos : 0 < s.flushFailCount := Nat.pos_of_ne_zero hcount
      have hprobe : turn.probe.Right (panel.flushDirty turn.dirty s.chip turn.flush).2.kind
          panel.controller := by
        rw [hflush.kind, hcontroller]
        exact hgood.probe hpos (hsame.1 hthrough)
      have hredraw : Panel.FlushThrough { panel with
          controller := (panel.flushDirty turn.dirty s.chip turn.flush).2.kind } turn.redraw :=
        (flushThrough_iff hflush.kind.symm _).1 (hgood.redraw hpos (hsame.1 hthrough))
      have hshows := recovered_shows (hflush.ready hready) hprobe hredraw
      rw [flushed_recovered hthrough hpos] at hkept ⊢
      exact ⟨fun _ => hkept.ready hready, fun _ _ => hshows⟩
  · have hcount := flushed_failed s hthrough
    exact ⟨fun _ => hkept.ready hready, fun _ h => by omega⟩

theorem turns_step {s t : Loop g} {turn : Turn} (h : step s turn = some t) : 0 < t.turns := by
  obtain ⟨-, panel, -, -, rfl⟩ := step_cases h
  unfold Loop.flushed
  dsimp only
  split <;> exact Nat.succ_pos _

/-! ### Runs -/

/-- An `init` that gets through puts an SSD1306 into the horizontal mode. -/
theorem init_ready (hkind : p.controller = chip.kind) {outcome : ℕ → ℕ → Outcome}
    (h : (p.init chip outcome).1 = true) : (p.init chip outcome).2.Ready := by
  cases chip with
  | ssd1306 s =>
      have hctl : p.controller = .ssd1306 := hkind
      rw [Panel.init] at h ⊢
      rw [sendChunks_all h, hctl]
      rcases g.height_ok with hheight | hheight
      · rw [hheight]
        rfl
      · rw [hheight]
        rfl
  | sh1106 s => exact (kept_init p (.sh1106 s) outcome).ready trivial

theorem inv_entered {controller : Controller} {chip : Chip} {outcome : ℕ → ℕ → Outcome}
    {s : Loop g} (h : entered g controller chip outcome = some s) : s.Inv := by
  rw [entered] at h
  split at h
  · rename_i hinit
    cases h
    refine ⟨fun hknown => ?_, fun hturns => absurd hturns (Nat.lt_irrefl 0)⟩
    have hkind := (kept_init (Panel.blank g controller) chip outcome).kind
    exact init_ready ((hknown rfl).trans hkind) hinit
  · cases h

/-- **The glass shows the framebuffer** after every turn that leaves no failure to recover from,
over every run whose turns start with the controller that is fitted and flush what the glass
does not show, and whose recoveries get through. -/
theorem flushed_glass_shows (g : Geometry) {controller : Controller} {chip : Chip}
    {outcome : ℕ → ℕ → Outcome} {s t : Loop g} {turns : List Turn}
    (hentered : entered g controller chip outcome = some s) (hrun : RunWith step Good s turns t)
    (hturns : turns ≠ []) (hcount : t.flushFailCount = 0) : Shows t.chip t.panel := by
  have hinv : t.Inv := hrun.invariant (fun _ _ _ hs hgood hstep => inv_step hs hgood hstep)
    (inv_entered hentered)
  have hpos : 0 < t.turns := by
    cases hrun with
    | nil => exact absurd rfl hturns
    | snoc _ _ hstep => exact turns_step hstep
  exact (hinv.shows hpos hcount).2

/-! ### A panel of four columns -/

def small : Geometry := ⟨4, 32, by decide, by decide, .inl rfl⟩

/-- An SSD1306 as it wakes. -/
def woken : Chip :=
  .ssd1306 ⟨⟨fun _ => 0xff, (0, 0)⟩, (0, 127), (0, 7), false⟩

/-- A frame with its first byte set or clear, and every write acknowledged. -/
def Turn.clean (first : UInt8) (dirty : Dirty) : Turn where
  frame := first :: List.replicate 15 0
  dirty
  flush := fun _ => ⟨fun _ => .acked, .acked⟩
  probe := ⟨fun _ => .acked, fun _ => .acked, fun _ => .acked, some (0, 0)⟩
  init := fun _ _ => .acked
  redraw := fun _ => ⟨fun _ => .acked, .acked⟩

/-- No data write of the spans is acknowledged. -/
def dropped : ℕ → SpanFaults := fun _ => ⟨fun _ => .acked, .failed 0⟩

/-- A blank frame; a frame whose data is dropped; the same frame again, with nothing to flush
and the recovery that follows. -/
def recovery : List Turn :=
  [.clean 0 {}, { Turn.clean 1 (Dirty.mark { full := false } 0 0) with flush := dropped },
    .clean 1 { full := false }]

instance (s : Loop g) (turn : Turn) : Decidable (Good s turn) :=
  decidable_of_iff
    ((s.turns = 0 → s.panel.controller = s.chip.kind) ∧
      (s.turns = 0 → s.panel.DirtyThrough turn.dirty turn.flush → turn.MarksGlass s) ∧
      (0 < s.flushFailCount → s.panel.DirtyThrough turn.dirty turn.flush →
        turn.probe.Right s.chip.kind s.panel.controller) ∧
      (0 < s.flushFailCount → s.panel.DirtyThrough turn.dirty turn.flush →
        Panel.FlushThrough { s.panel with controller := s.chip.kind } turn.redraw))
    ⟨fun ⟨h1, h2, h3, h4⟩ => ⟨h1, h2, h3, h4⟩, fun ⟨h1, h2, h3, h4⟩ => ⟨h1, h2, h3, h4⟩⟩

theorem flushed_glass_shows_recovery : ∃ s t : Loop small,
    entered small .ssd1306 woken (fun _ _ => .acked) = some s ∧ RunWith step Good s recovery t ∧
      t.flushFailCount = 0 ∧ Shows t.chip t.panel := by
  have hcheck : ((entered small .ssd1306 woken fun _ _ => .acked).any fun s =>
      (runFromWith step (fun s turn => decide (Good s turn)) s recovery).any fun t =>
        t.flushFailCount == 0) = true := by decide +kernel
  obtain ⟨s, hentered, hreach⟩ := (Option.any_eq_true _ _).1 hcheck
  obtain ⟨t, hrun, hcount⟩ := runWith_exists_of_check hreach
  have hgood : RunWith step Good s recovery t := hrun.mono fun s turn h => of_decide_eq_true h
  have hzero : t.flushFailCount = 0 := by simpa using hcount
  exact ⟨s, t, hentered, hgood, hzero,
    flushed_glass_shows small hentered hgood (by decide) hzero⟩

/-- The same, with the redraw's data dropped as well. -/
def lostRedraw : List Turn :=
  [.clean 0 {}, { Turn.clean 1 (Dirty.mark { full := false } 0 0) with flush := dropped },
    { Turn.clean 1 { full := false } with redraw := dropped }]

/-- **A redraw that is lost** leaves a frame that no later flush brings to the glass. -/
theorem lost_redraw_stays :
    ¬ ∀ (g : Geometry) (chip : Chip) (outcome : ℕ → ℕ → Outcome) (s t : Loop g)
      (turns : List Turn), entered g chip.kind chip outcome = some s → Run step s turns t →
      (∀ turn ∈ turns.head?, turn.dirty.full = true) → turns ≠ [] → t.flushFailCount = 0 →
      Shows t.chip t.panel := by
  intro h
  have hcheck : ((entered small woken.kind woken fun _ _ => .acked).any fun s =>
      (runFrom step s lostRedraw).any fun t =>
        t.flushFailCount == 0 && !decide (Shows t.chip t.panel)) = true := by decide +kernel
  obtain ⟨s, hentered, hreach⟩ := (Option.any_eq_true _ _).1 hcheck
  obtain ⟨t, hrun, hend⟩ := run_exists_of_check hreach
  simp only [Bool.and_eq_true, beq_iff_eq, Bool.not_eq_true', decide_eq_false_iff_not] at hend
  exact hend.2 (h small woken (fun _ _ => .acked) s t lostRedraw hentered hrun (by decide)
    (by decide) hend.1)

end Flush

end BadgeOS.Oled
