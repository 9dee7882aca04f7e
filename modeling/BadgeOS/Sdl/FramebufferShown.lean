import BadgeOS.Sdl.FramebufferOwned
import Mathlib

/-!
# What a commit shows

In copy mode a buffer differs from the window surface in its stale rectangle only, and in what was
drawn since the last update; an update copies both before it commits.

* `copyFramebufferRect_of_mem`, `getUpdateArea_within` — the copy, and the area of an update;
* `Synced` — the invariant, and `Synced.step`;
* `framebuffer_run` — a run of drawing, updates and releases.
-/

namespace BadgeOS.Sdl

open Rectangle Transition

section Copy

variable {ops : Ops} {fb : Framebuffer} {src dst : Pixels} {rect : Rect} {x y o : ℕ}

/-! ### The copy -/

/-- A row of pixels has room in the pitch. -/
theorem width_le_pitch (fb : Framebuffer) : fb.width * fb.bytesPerPixel ≤ fb.pitch := by
  have hround (n k : ℕ) (hk : 0 < k) : n ≤ (n + k - 1) / k * k := by
    have hdiv := Nat.div_add_mod (n + k - 1) k
    have hmod := Nat.mod_lt (n + k - 1) hk
    rw [Nat.mul_comm] at hdiv
    omega
  unfold Framebuffer.pitch getFramebufferPitch
  dsimp only
  split
  · exact hround _ 12 (by decide)
  · exact hround _ 4 (by decide)

/-- A byte is copied, or it stays. -/
theorem memcpy_or (dst src : Pixels) (off n o : ℕ) :
    memcpy dst src off n o = src o ∨ memcpy dst src off n o = dst o := by
  unfold memcpy
  split
  · exact Or.inl rfl
  · exact Or.inr rfl

theorem memcpy_of_eq {off n : ℕ} (h : dst o = src o) : memcpy dst src off n o = src o :=
  (memcpy_or dst src off n o).elim id fun hdst => hdst.trans h

/-- Copies of rows: a byte that was right before, or that is in one of the rows. -/
theorem rows_copied (rows : List ℕ) (at' : ℕ → ℕ) (n : ℕ) (dst : Pixels)
    (h : dst o = src o ∨ ∃ r ∈ rows, at' r ≤ o ∧ o < at' r + n) :
    rows.foldl (fun dst r => memcpy dst src (at' r) n) dst o = src o := by
  induction rows generalizing dst with
  | nil =>
      obtain h | ⟨r, hr, -⟩ := h
      · exact h
      · cases hr
  | cons r rows ih =>
      rw [List.foldl_cons]
      apply ih
      obtain h | ⟨r', hr', hin⟩ := h
      · exact Or.inl (memcpy_of_eq h)
      · rw [List.mem_cons] at hr'
        obtain rfl | hr' := hr'
        · exact Or.inl (if_pos hin)
        · exact Or.inr ⟨r', hr', hin⟩

/-- A byte that was right stays so. -/
theorem copyFramebufferRect_of_eq (h : dst o = src o) :
    copyFramebufferRect fb src dst rect o = src o := by
  unfold copyFramebufferRect
  dsimp only
  split
  · exact memcpy_of_eq h
  · exact rows_copied _ _ _ _ (Or.inl h)

/-- **A pixel in the rectangle is copied.** -/
theorem copyFramebufferRect_of_mem (hin : ∀ p : Pixel, p ∈ rect → p ∈ fb.bounds)
    (hp : ((x : ℤ), (y : ℤ)) ∈ rect) (ho : fb.At x y o) :
    copyFramebufferRect fb src dst rect o = src o := by
  obtain ⟨hx, hx', hy, hy'⟩ := mem_iff.1 hp
  dsimp only at hx hx' hy hy'
  have hcorner := hin (rect.x, rect.y) ⟨le_rfl, by dsimp only; omega, le_rfl, by dsimp only; omega⟩
  obtain ⟨hleft, -, htop, -⟩ := mem_iff.1 hcorner
  have hlow : fb.bounds.x = 0 ∧ fb.bounds.y = 0 := ⟨rfl, rfl⟩
  dsimp only at hleft htop
  obtain ⟨a, ha⟩ := Int.eq_ofNat_of_zero_le (show 0 ≤ rect.x by omega)
  obtain ⟨b, hb⟩ := Int.eq_ofNat_of_zero_le (show 0 ≤ rect.y by omega)
  obtain ⟨w, hw⟩ := Int.eq_ofNat_of_zero_le (show 0 ≤ rect.w by omega)
  obtain ⟨h, hh⟩ := Int.eq_ofNat_of_zero_le (show 0 ≤ rect.h by omega)
  obtain ⟨r, hr⟩ : ∃ r, y = b + r := ⟨y - b, by omega⟩
  have hrow : y * fb.pitch = b * fb.pitch + r * fb.pitch := by rw [hr, Nat.add_mul]
  unfold Framebuffer.At at ho
  unfold copyFramebufferRect
  dsimp only
  rw [ha, hb, hw, hh, Int.toNat_natCast, Int.toNat_natCast, Int.toNat_natCast, Int.toNat_natCast]
  split
  · -- whole rows, with the bytes behind their pixels
    rename_i hwhole
    have hcol : (x + 1) * fb.bytesPerPixel ≤ fb.width * fb.bytesPerPixel :=
      Nat.mul_le_mul_right _ (by omega)
    have hpitch := width_le_pitch fb
    have hend : (r + 1) * fb.pitch ≤ h * fb.pitch := Nat.mul_le_mul_right _ (by omega)
    have ha0 : a = 0 := by omega
    rw [Nat.add_mul, Nat.one_mul] at hend
    rw [ha0, Nat.zero_mul, Nat.add_zero]
    exact if_pos (by omega)
  · apply rows_copied
    refine Or.inr ⟨r, List.mem_range.2 (by omega), ?_⟩
    have hstart : a * fb.bytesPerPixel ≤ x * fb.bytesPerPixel := Nat.mul_le_mul_right _ (by omega)
    have hend : (x + 1) * fb.bytesPerPixel ≤ (a + w) * fb.bytesPerPixel :=
      Nat.mul_le_mul_right _ (by omega)
    rw [Nat.add_mul a] at hend
    omega

/-! ### The area of an update -/

/-- A bounding box holds what it is of. -/
theorem mem_foldl_union (hops : ops.Lawful) {p : Pixel} (rs : List Rect) (acc : Rect)
    (h : p ∈ acc ∨ ∃ r ∈ rs, p ∈ r) : p ∈ rs.foldl ops.union acc := by
  induction rs generalizing acc with
  | nil =>
      obtain h | ⟨r, hr, -⟩ := h
      · exact h
      · cases hr
  | cons r rs ih =>
      rw [List.foldl_cons]
      apply ih
      obtain h | ⟨r', hr', hp⟩ := h
      · exact Or.inl (hops.mem_union p (Or.inl h))
      · rw [List.mem_cons] at hr'
        obtain rfl | hr' := hr'
        · exact Or.inl (hops.mem_union p (Or.inr hp))
        · exact Or.inr ⟨r', hr', hp⟩

theorem foldl_union_within (hops : ops.Lawful) {R : Rect} (rs : List Rect) (acc : Rect)
    (hacc : ∀ p : Pixel, p ∈ acc → p ∈ R) (hrs : ∀ r ∈ rs, ∀ p : Pixel, p ∈ r → p ∈ R) :
    ∀ p : Pixel, p ∈ rs.foldl ops.union acc → p ∈ R := by
  induction rs generalizing acc with
  | nil => exact hacc
  | cons r rs ih =>
      apply ih
      · exact hops.union_within hacc (hrs r (by simp))
      · intro r' hr'
        exact hrs r' (List.mem_cons_of_mem r hr')

/-- What a clipped rectangle of an update holds. -/
theorem mem_clipped (hops : ops.Lawful) {rects : List Rect} {c : Rect}
    (hc : c ∈ rects.filterMap (clipUpdateRect ops fb)) :
    ∃ r ∈ rects, ∀ p : Pixel, p ∈ c ↔ p ∈ r ∧ p ∈ fb.bounds := by
  obtain ⟨r, hr, hclip⟩ := List.mem_filterMap.1 hc
  exact ⟨r, hr, hops.mem_intersection hclip⟩

/-- A pixel of the framebuffer in a rectangle is in the clipped one. -/
theorem exists_clipped (hops : ops.Lawful) {rects : List Rect} {p : Pixel} (hp : p ∈ fb.bounds)
    (h : ∃ r ∈ rects, p ∈ r) : ∃ c ∈ rects.filterMap (clipUpdateRect ops fb), p ∈ c := by
  obtain ⟨r, hr, hpr⟩ := h
  cases hclip : clipUpdateRect ops fb r with
  | none => exact absurd hp (hops.disjoint hclip p hpr)
  | some c =>
      exact ⟨c, List.mem_filterMap.2 ⟨r, hr, hclip⟩, (hops.mem_intersection hclip p).2 ⟨hpr, hp⟩⟩

theorem getUpdateArea_within (hops : ops.Lawful) (rects : List Rect) :
    ∀ p : Pixel, p ∈ getUpdateArea ops fb rects → p ∈ fb.bounds := by
  apply foldl_union_within hops
  · intro p hp
    exact absurd hp (Rect.IsEmpty.not_mem (Or.inl le_rfl) p)
  · intro c hc p hp
    obtain ⟨r, -, hmem⟩ := mem_clipped hops hc
    exact ((hmem p).1 hp).2

theorem mem_getUpdateArea (hops : ops.Lawful) {rects : List Rect} {p : Pixel} (hp : p ∈ fb.bounds)
    (h : ∃ r ∈ rects, p ∈ r) : p ∈ getUpdateArea ops fb rects :=
  mem_foldl_union hops _ _ (Or.inr (exists_clipped hops hp h))

/-- Copies of rectangles: a byte that was right before, or whose pixel is in one of them. -/
theorem rects_copied (rs : List Rect) (hrs : ∀ r ∈ rs, ∀ p : Pixel, p ∈ r → p ∈ fb.bounds)
    (ho : fb.At x y o) (dst : Pixels) (h : dst o = src o ∨ ∃ r ∈ rs, ((x : ℤ), (y : ℤ)) ∈ r) :
    rs.foldl (copyFramebufferRect fb src) dst o = src o := by
  induction rs generalizing dst with
  | nil =>
      obtain h | ⟨r, hr, -⟩ := h
      · exact h
      · cases hr
  | cons r rs ih =>
      rw [List.foldl_cons]
      apply ih
      · intro r' hr'
        exact hrs r' (List.mem_cons_of_mem r hr')
      · obtain h | ⟨r', hr', hp⟩ := h
        · exact Or.inl (copyFramebufferRect_of_eq h)
        · rw [List.mem_cons] at hr'
          obtain rfl | hr' := hr'
          · exact Or.inl (copyFramebufferRect_of_mem (hrs r' (by simp)) hp ho)
          · exact Or.inr ⟨r', hr', hp⟩

end Copy

/-! ### The invariant -/

/-- The pixels of `p` are those of the window surface. -/
def Same (fb : Framebuffer) (p q : Pixels) (x y : ℕ) : Prop := ∀ o, fb.At x y o → p o = q o

/-- A commit shows the whole window surface. -/
def Event.Whole (fb : Framebuffer) : Event → Prop
  | .committed _ shown surface _ => ∀ x < fb.width, ∀ y < fb.height, Same fb shown surface x y
  | _ => True

/-- The pixels that the buffers may lack beyond their stale rectangles: those drawn since the last
update, or the rectangles of the update that runs. -/
def Due (s : State) (p : Pixel) : Prop :=
  match s.call with
  | .idle => p ∈ s.drawn
  | .reading rects => ∃ r ∈ rects, p ∈ r
  | .waiting rects => ∃ r ∈ rects, p ∈ r

/-- An update's rectangles hold what was drawn before it. -/
def Covers (s : State) : Act → Prop
  | .update rects _ => ∀ p ∈ s.drawn, ∃ r ∈ rects, p ∈ r
  | _ => True

/-- A buffer has the pixels of the window surface, but for its stale rectangle and `due`. -/
structure Lags (fb : Framebuffer) (surface : Pixels) (due : Pixel → Prop) (b : Buffer) : Prop where
  within : ∀ p : Pixel, p ∈ b.stale → p ∈ fb.bounds
  same : ∀ x < fb.width, ∀ y < fb.height, ((x : ℤ), (y : ℤ)) ∉ b.stale → ¬ due (x, y) →
    Same fb b.pixels surface x y

/-- **The invariant** of copy mode: every buffer lags by what is due, and every commit was whole. -/
structure Synced (fb : Framebuffer) (s : State) : Prop where
  lags : ∃ surface, s.surface = some surface ∧ ∀ b ∈ s.buffers, Lags fb surface (Due s) b
  whole : ∀ e ∈ s.log, e.Whole fb

section Synced

variable {ops : Ops} {fb : Framebuffer} {surface : Pixels} {due due' : Pixel → Prop} {b : Buffer}
  {s t : State} {i : ℕ}

theorem mem_bounds {x y : ℕ} (hx : x < fb.width) (hy : y < fb.height) :
    ((x : ℤ), (y : ℤ)) ∈ fb.bounds := by
  rw [mem_iff]
  unfold Framebuffer.bounds
  dsimp only
  omega

theorem Lags.of_due (h : Lags fb surface due b)
    (hdue : ∀ p : Pixel, p ∈ fb.bounds → due p → due' p) : Lags fb surface due' b where
  within := h.within
  same x hx y hy hstale hnot :=
    h.same x hx y hy hstale fun hd => hnot (hdue _ (mem_bounds hx hy) hd)

/-- What a buffer's stale rectangle takes in is no longer due. -/
theorem Lags.marked (hops : ops.Lawful) (h : Lags fb surface due b) {area : Rect}
    (harea : ∀ p : Pixel, p ∈ area → p ∈ fb.bounds)
    (hdue : ∀ p : Pixel, p ∈ fb.bounds → due p → p ∈ area ∨ due' p) :
    Lags fb surface due' { b with stale := ops.union b.stale area } where
  within := hops.union_within h.within harea
  same x hx y hy hstale hnot := by
    apply h.same x hx y hy
    · exact fun hold => hstale (hops.mem_union _ (Or.inl hold))
    · intro hd
      obtain hin | hd' := hdue _ (mem_bounds hx hy) hd
      · exact hstale (hops.mem_union _ (Or.inr hin))
      · exact hnot hd'

/-- **A buffer brought up to date** has all pixels of the window surface. -/
theorem Lags.upToDate (hops : ops.Lawful) {rects : List Rect}
    (h : Lags fb surface (fun p => ∃ r ∈ rects, p ∈ r) b) {x y : ℕ} (hx : x < fb.width)
    (hy : y < fb.height) : Same fb (upToDate ops fb surface rects b) surface x y := by
  intro o ho
  have hp : ((x : ℤ), (y : ℤ)) ∈ fb.bounds := mem_bounds hx hy
  unfold Sdl.upToDate
  split
  · -- nothing is stale: the rectangles of the update are what is missing
    rename_i hempty
    apply rects_copied _ _ ho
    · by_cases hdue : ∃ r ∈ rects, ((x : ℤ), (y : ℤ)) ∈ r
      · exact Or.inr (exists_clipped hops hp hdue)
      · exact Or.inl (h.same x hx y hy (hempty.not_mem _) hdue o ho)
    · intro c hc p hpc
      obtain ⟨r, -, hmem⟩ := mem_clipped hops hc
      exact ((hmem p).1 hpc).2
  · by_cases hmissing : ((x : ℤ), (y : ℤ)) ∈ b.stale ∨ ∃ r ∈ rects, ((x : ℤ), (y : ℤ)) ∈ r
    · refine copyFramebufferRect_of_mem ?_ (hops.mem_union _ ?_) ho
      · exact hops.union_within h.within (getUpdateArea_within hops rects)
      · exact hmissing.imp_right fun hdue => mem_getUpdateArea hops hp hdue
    · rw [not_or] at hmissing
      exact copyFramebufferRect_of_eq (h.same x hx y hy hmissing.1 hmissing.2 o ho)

theorem lags_alloc (pixels : Pixels) : Lags fb surface due (allocFramebufferBuffer fb pixels) where
  within _ hp := hp
  same _ hx _ hy hstale _ := absurd (mem_bounds hx hy) hstale

/-- A dispatched release changes a flag. -/
theorem mem_handleReleases (is : List ℕ) (buffers : List Buffer) :
    ∀ b ∈ handleReleases is buffers, ∃ c ∈ buffers, b.pixels = c.pixels ∧ b.stale = c.stale := by
  unfold handleReleases
  induction is generalizing buffers with
  | nil => exact fun b hb => ⟨b, hb, rfl, rfl⟩
  | cons i is ih =>
      intro b hb
      obtain ⟨c, hc, hpixels, hstale⟩ := ih _ b hb
      obtain ⟨j, hj⟩ := List.mem_iff_getElem?.1 hc
      rw [List.getElem?_modify] at hj
      cases hold : buffers[j]? with
      | none => rw [hold] at hj; cases hj
      | some d =>
          rw [hold] at hj
          have hd : (if i = j then { d with busy := false } else d) = c := Option.some.inj hj
          refine ⟨d, List.mem_of_getElem? hold, ?_⟩
          rw [hpixels, hstale, ← hd]
          split
          · exact ⟨rfl, rfl⟩
          · exact ⟨rfl, rfl⟩

theorem mem_markBuffersStale {area : Rect} {buffers : List Buffer}
    (h : b ∈ markBuffersStale ops none area buffers) :
    ∃ c ∈ buffers, b = { c with stale := ops.union c.stale area } := by
  obtain ⟨j, hj, hb⟩ := List.mem_mapIdx.1 h
  exact ⟨buffers[j], List.getElem_mem hj, hb.symm⟩

/-- The buffers after a commit of buffer `i`. -/
theorem mem_markBuffersStale_set {area : Rect} {buffers : List Buffer} {new : Buffer}
    (h : b ∈ (markBuffersStale ops (some i) area buffers).set i new) :
    b = new ∨ ∃ c ∈ buffers, b = { c with stale := ops.union c.stale area } := by
  obtain ⟨j, hj⟩ := List.mem_iff_getElem?.1 h
  rw [List.getElem?_set] at hj
  split at hj
  · split at hj
    · exact Or.inl (Option.some.inj hj).symm
    · cases hj
  · rename_i hij
    unfold markBuffersStale at hj
    rw [List.getElem?_mapIdx] at hj
    cases hold : buffers[j]? with
    | none => rw [hold] at hj; cases hj
    | some c =>
        rw [hold] at hj
        have hc : (if some i = some j then c else _) = b := Option.some.inj hj
        rw [if_neg fun hsome => hij (Option.some.inj hsome)] at hc
        exact Or.inr ⟨c, List.mem_of_getElem? hold, hc.symm⟩

theorem Synced.dispatched (h : Synced fb s) (n : ℕ) : Synced fb (dispatched n s) where
  lags := by
    obtain ⟨surface, hsurface, hlags⟩ := h.lags
    refine ⟨surface, hsurface, ?_⟩
    intro b hb
    obtain ⟨c, hc, hpixels, hstale⟩ := mem_handleReleases _ _ b hb
    have hlag := hlags c hc
    exact ⟨hstale ▸ hlag.within, by rw [hpixels, hstale]; exact hlag.same⟩
  whole := h.whole

/-- The copy into a free buffer, and its commit. -/
theorem Synced.finish (hops : ops.Lawful) (h : Synced fb s) {rects : List Rect}
    (hdue : Due s = fun p => ∃ r ∈ rects, p ∈ r) (hi : i < s.buffers.length) :
    Synced fb (finish ops fb rects s i) := by
  obtain ⟨surface, hsurface, hlags⟩ := h.lags
  have hlag := hlags s.buffers[i] (List.getElem_mem hi)
  rw [hdue] at hlag
  unfold Sdl.finish
  rw [List.getElem?_eq_getElem hi, hsurface]
  dsimp only
  refine ⟨⟨surface, rfl, ?_⟩, ?_⟩
  · intro b hb
    obtain rfl | ⟨c, hc, rfl⟩ := mem_markBuffersStale_set hb
    · refine ⟨fun p hp => absurd hp (Rect.IsEmpty.not_mem (Or.inl le_rfl) p), ?_⟩
      intro x hx y hy _ _
      exact hlag.upToDate hops hx hy
    · apply (hlags c hc).marked hops (getUpdateArea_within hops rects)
      intro p hp hd
      rw [hdue] at hd
      exact Or.inl (mem_getUpdateArea hops hp hd)
  · intro e he
    simp only [List.mem_cons] at he
    obtain rfl | rfl | he := he
    · exact fun x hx y hy => hlag.upToDate hops hx hy
    · trivial
    · exact h.whole e he

theorem Synced.alloc (h : Synced fb s) (pixels : Pixels) :
    Synced fb { s with buffers := s.buffers ++ [allocFramebufferBuffer fb pixels] } where
  lags := by
    obtain ⟨surface, hsurface, hlags⟩ := h.lags
    refine ⟨surface, hsurface, ?_⟩
    intro b hb
    rw [List.mem_append, List.mem_singleton] at hb
    obtain hb | rfl := hb
    · exact hlags b hb
    · exact lags_alloc pixels
  whole := h.whole

theorem Synced.afterRead (hops : ops.Lawful) (h : Synced fb s) {rects : List Rect}
    (hcall : s.call = .reading rects) (fresh : Option Pixels) :
    Synced fb (afterRead ops fb rects fresh s) := by
  have hdue : Due s = fun p => ∃ r ∈ rects, p ∈ r := by
    funext p
    unfold Due
    rw [hcall]
  unfold Sdl.afterRead
  split
  · rename_i i hfound
    exact h.finish hops hdue (findFreeBuffer_some hfound).1
  · split
    · rename_i pixels hfresh
      refine (h.alloc pixels).finish hops hdue ?_
      rw [List.length_append]
      exact Nat.lt_succ_self _
    · refine ⟨?_, h.whole⟩
      obtain ⟨surface, hsurface, hlags⟩ := h.lags
      rw [hdue] at hlags
      exact ⟨surface, hsurface, hlags⟩

theorem Synced.afterDispatch (hops : ops.Lawful) (h : Synced fb s) {rects : List Rect}
    (hcall : s.call = .waiting rects) : Synced fb (afterDispatch ops fb rects s) := by
  have hdue : Due s = fun p => ∃ r ∈ rects, p ∈ r := by
    funext p
    unfold Due
    rw [hcall]
  unfold Sdl.afterDispatch
  split
  · rename_i i hfound
    exact h.finish hops hdue (findFreeBuffer_some hfound).1
  · exact h

/-- The start of an update that covers what was drawn. -/
theorem Synced.startUpdate (hops : ops.Lawful) (h : Synced fb s) (hidle : s.call = .idle)
    {rects : List Rect} (canCommit : Bool) (hcovers : ∀ p ∈ s.drawn, ∃ r ∈ rects, p ∈ r) :
    Synced fb (startUpdate ops fb rects canCommit s) := by
  obtain ⟨surface, hsurface, hlags⟩ := h.lags
  have hdrawn : Due s = fun p => p ∈ s.drawn := by
    funext p
    unfold Due
    rw [hidle]
  rw [hdrawn] at hlags
  have harea (p : Pixel) (hp : p ∈ fb.bounds) (hd : p ∈ s.drawn) :
      p ∈ getUpdateArea ops fb rects := mem_getUpdateArea hops hp (hcovers p hd)
  unfold Sdl.startUpdate
  dsimp only
  rw [hsurface, Option.isSome_some, if_pos rfl, if_pos rfl]
  split
  · -- an update outside the framebuffer: then nothing was drawn
    rename_i hempty
    refine ⟨⟨surface, rfl, ?_⟩, h.whole⟩
    intro b hb
    exact (hlags b hb).of_due fun p hp hd => absurd (harea p hp hd) (hempty.not_mem p)
  split
  · refine ⟨⟨surface, rfl, ?_⟩, h.whole⟩
    intro b hb
    obtain ⟨c, hc, rfl⟩ := mem_markBuffersStale hb
    refine (hlags c hc).marked hops (getUpdateArea_within hops rects) ?_
    intro p hp hd
    exact Or.inl (harea p hp hd)
  · refine ⟨⟨surface, rfl, ?_⟩, h.whole⟩
    intro b hb
    exact (hlags b hb).of_due fun p _ hd => hcovers p hd

/-- Two pixels of the framebuffer have no byte in common. -/
theorem pixel_unique {x y x' y' o : ℕ} (hx : x < fb.width) (hx' : x' < fb.width)
    (h : fb.At x y o) (h' : fb.At x' y' o) : x' = x ∧ y' = y := by
  unfold Framebuffer.At at h h'
  have hpitch := width_le_pitch fb
  have hend (a : ℕ) (ha : a < fb.width) : (a + 1) * fb.bytesPerPixel ≤ fb.pitch :=
    le_trans (Nat.mul_le_mul_right _ ha) hpitch
  have hrow (a b : ℕ) (hab : a < b) : a * fb.pitch + fb.pitch ≤ b * fb.pitch := by
    rw [← Nat.succ_mul]
    exact Nat.mul_le_mul_right _ hab
  have hcol (a b : ℕ) (hab : a < b) : (a + 1) * fb.bytesPerPixel ≤ b * fb.bytesPerPixel :=
    Nat.mul_le_mul_right _ hab
  have hendx := hend x hx
  have hendx' := hend x' hx'
  obtain hlt | rfl | hgt := Nat.lt_trichotomy y y'
  · have hnext := hrow y y' hlt
    omega
  · obtain hlt | rfl | hgt := Nat.lt_trichotomy x x'
    · have hnext := hcol x x' hlt
      omega
    · exact ⟨rfl, rfl⟩
    · have hnext := hcol x' x hgt
      omega
  · have hnext := hrow y' y hgt
    omega

/-- A pixel drawn is due. -/
theorem Synced.drawn (h : Synced fb s) (hidle : s.call = .idle) {x y : ℕ} (hx : x < fb.width)
    (v : Pixels) : Synced fb (drawn fb x y v s) := by
  obtain ⟨surface, hsurface, hlags⟩ := h.lags
  unfold Sdl.drawn
  dsimp only
  rw [hsurface]
  dsimp only
  refine ⟨⟨_, rfl, ?_⟩, h.whole⟩
  intro b hb
  refine ⟨(hlags b hb).within, ?_⟩
  intro a ha c hc hstale hdue o ho
  have hnot : ((a : ℤ), (c : ℤ)) ∉ ((x : ℤ), (y : ℤ)) :: s.drawn := by
    intro hmem
    apply hdue
    unfold Due
    dsimp only
    rw [hidle]
    exact hmem
  rw [List.mem_cons, not_or] at hnot
  have hother : ¬ fb.At x y o := by
    intro hat
    obtain ⟨rfl, rfl⟩ := pixel_unique hx ha hat ho
    exact hnot.1 rfl
  have hsame := (hlags b hb).same a ha c hc hstale ?_ o ho
  · show b.pixels o = if fb.At x y o then v o else surface o
    rw [if_neg hother]
    exact hsame
  · unfold Due
    rw [hidle]
    exact hnot.2

/-- **The step lemma**, of copy mode. -/
theorem Synced.step (hops : ops.Lawful) {a : Act} (h : Synced fb s) (hok : a.fails = false)
    (hcovers : Covers s a) (hstep : step ops fb s a = some t) : Synced fb t := by
  cases a with
  | draw x y v =>
      unfold Sdl.step at hstep
      dsimp only at hstep
      split at hstep
      · rename_i hidle
        cases hstep
        exact h.drawn hidle.1 hidle.2.1 v
      · cases hstep
  | update rects canCommit =>
      unfold Sdl.step at hstep
      dsimp only at hstep
      split at hstep
      · rename_i hidle
        cases hstep
        exact h.startUpdate hops hidle canCommit hcovers
      · cases hstep
  | read n ok fresh =>
      obtain rfl : ok = true := by simpa [Act.fails] using hok
      unfold Sdl.step at hstep
      dsimp only at hstep
      split at hstep
      · rename_i rects hcall
        cases hstep
        exact (h.dispatched n).afterRead hops hcall fresh
      · cases hstep
  | dispatch n ok =>
      obtain rfl : ok = true := by simpa [Act.fails] using hok
      unfold Sdl.step at hstep
      dsimp only at hstep
      split at hstep
      · rename_i rects hcall
        cases hstep
        exact (h.dispatched n).afterDispatch hops hcall
      · cases hstep
  | release i =>
      unfold Sdl.step at hstep
      dsimp only at hstep
      split at hstep
      · cases hstep
        refine ⟨h.lags, ?_⟩
        intro e he
        rw [List.mem_cons] at he
        obtain rfl | he := he
        · trivial
        · exact h.whole e he
      · cases hstep

end Synced

/-- A new framebuffer in copy mode: all of every buffer is stale. -/
theorem synced_create {width height : ℕ} {format : PixelFormat} {first second : Pixels}
    {fb : Framebuffer} {s : State}
    (h : create width height format false first second = some (fb, s)) : Synced fb s := by
  unfold create at h
  dsimp only at h
  split at h
  · cases h
  · cases h
    refine ⟨⟨_, rfl, ?_⟩, fun e he => by cases he⟩
    intro b hb
    rw [List.mem_cons, List.mem_singleton] at hb
    obtain rfl | rfl := hb
    · exact lags_alloc first
    · exact lags_alloc second

/-! ### Runs -/

section Run

variable {ops : Ops} {width height : ℕ} {format : PixelFormat} {noCopy : Bool}
  {first second : Pixels} {fb : Framebuffer} {s t : State} {as : List Act}

/-- **A run of a window framebuffer**, in which no Wayland call fails in no-copy mode.  There are
never more than four buffers, and none is written while the compositor holds it.  In copy mode,
when no call fails and every update covers what was drawn before it, every commit shows the whole
window surface. -/
theorem framebuffer_run (hops : ops.Lawful)
    (hcreate : create width height format noCopy first second = some (fb, s))
    (hrun : RunWith (step ops fb) (fun _ a => Reads fb a) s as t) :
    t.buffers.length ≤ 4 ∧ Clean t.log ∧
      (noCopy = false → RunWith (step ops fb) (fun s a => a.fails = false ∧ Covers s a) s as t →
        ∀ e ∈ t.log, e.Whole fb) := by
  have howned : Owned fb t :=
    hrun.invariant (fun _ _ _ h hreads hstep => h.step hreads hstep) (owned_create hcreate)
  refine ⟨howned.few, howned.clean, ?_⟩
  intro hcopy hcovered
  subst hcopy
  have hsynced : Synced fb t :=
    hcovered.invariant (fun _ _ _ h hcond hstep => h.step hops hcond.1 hcond.2 hstep)
      (synced_create hcreate)
  exact hsynced.whole

end Run

/-- One pixel, drawn, updated and committed. -/
theorem framebuffer_run_pixel :
    ∃ fb s t, create 1 1 .xrgb8888 false (fun _ => 7) (fun _ => 8) = some (fb, s) ∧
      Run (step corners fb) s [.draw 0 0 fun _ => 9, .update [⟨0, 0, 5, 5⟩] true, .read 0 true none]
        t ∧ t.buffers.length ≤ 4 ∧ Clean t.log ∧ ∀ e ∈ t.log, e.Whole fb := by
  have hpixel (p : Pixel) (hp : p ∈ [(0, 0)]) : ∃ r ∈ [Rect.mk 0 0 5 5], p ∈ r := by
    obtain rfl := List.mem_singleton.1 hp
    exact ⟨_, List.mem_singleton.2 rfl, by decide⟩
  obtain ⟨fb, s, t, hcreate, hrun⟩ : ∃ fb s t,
      create 1 1 .xrgb8888 false (fun _ => 7) (fun _ => 8) = some (fb, s) ∧
        RunWith (step corners fb) (fun s a => a.fails = false ∧ Covers s a) s
          [.draw 0 0 fun _ => 9, .update [⟨0, 0, 5, 5⟩] true, .read 0 true none] t := by
    exact ⟨_, _, _, rfl, by
      apply RunWith.cons ⟨rfl, trivial⟩ rfl
      apply RunWith.cons ⟨rfl, hpixel⟩ rfl
      exact RunWith.cons ⟨rfl, trivial⟩ rfl .nil⟩
  have hreads := hrun.mono fun _ _ hcond (_ : fb.noCopy = true) => hcond.1
  obtain ⟨hfew, hclean, hwhole⟩ := framebuffer_run corners_lawful hcreate hreads
  exact ⟨fb, s, t, hcreate, hrun.run, hfew, hclean, hwhole rfl hrun⟩

/-- In no-copy mode a read of the releases that fails leaves the application with the pixels of
the buffer that was just committed, and its next pixel goes there. -/
theorem framebuffer_lost_read :
    ¬ ∀ (fb : Framebuffer) (s t : State) (as : List Act),
      create 1 1 .xrgb8888 true (fun _ => 7) (fun _ => 8) = some (fb, s) →
        Run (step corners fb) s as t → Clean t.log := by
  intro hall
  have hclean := hall _ _ _ [.update [⟨0, 0, 1, 1⟩] true, .read 0 false none, .draw 0 0 fun _ => 9]
    rfl (.cons trivial rfl (.cons trivial rfl (.cons trivial rfl .nil)))
  exact absurd hclean.1 (by decide)

end BadgeOS.Sdl
