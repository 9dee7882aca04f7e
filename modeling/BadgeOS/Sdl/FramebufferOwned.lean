import BadgeOS.Sdl.Framebuffer
import Mathlib

/-!
# Who may write a buffer

A buffer that the compositor holds is busy, and only a buffer that is not busy is written.

* `busyAt` — the flag of a buffer, and what each part of an update does with it;
* `Clean` — no write to a buffer between its commit and its release;
* `Owned` — the invariant, and `Owned.step`.
-/

namespace BadgeOS.Sdl

open Rectangle Transition

/-- No buffer was written while the compositor held it. -/
def Clean : List Event → Prop
  | [] => True
  | .wrote i :: log => heldIn log i = false ∧ Clean log
  | .committed _ _ _ _ :: log => Clean log
  | .released _ :: log => Clean log

/-- `busy` of a buffer. -/
def busyAt (buffers : List Buffer) (i : ℕ) : Bool :=
  match buffers[i]? with
  | some b => b.busy
  | none => false

section Busy

variable {ops : Ops} {fb : Framebuffer} {buffers : List Buffer} {i j : ℕ}

theorem busyAt_markBuffersStale (current : Option ℕ) (area : Rect) :
    busyAt (markBuffersStale ops current area buffers) j = busyAt buffers j := by
  unfold busyAt markBuffersStale
  rw [List.getElem?_mapIdx]
  cases buffers[j]? with
  | none => rfl
  | some b =>
      rw [Option.map_some]
      dsimp only
      split <;> rfl

theorem length_markBuffersStale (current : Option ℕ) (area : Rect) :
    (markBuffersStale ops current area buffers).length = buffers.length := List.length_mapIdx

theorem busyAt_set (hi : i < buffers.length) (b : Buffer) :
    busyAt (buffers.set i b) j = if i = j then b.busy else busyAt buffers j := by
  unfold busyAt
  by_cases hij : i = j
  · subst hij
    rw [List.getElem?_set_self hi, if_pos rfl]
  · rw [List.getElem?_set_ne hij, if_neg hij]

theorem busyAt_alloc (pixels : Pixels) :
    busyAt (buffers ++ [allocFramebufferBuffer fb pixels]) j = busyAt buffers j := by
  unfold busyAt
  obtain hlt | hge := Nat.lt_or_ge j buffers.length
  · rw [List.getElem?_append_left hlt]
  · rw [List.getElem?_append_right hge, List.getElem?_eq_none hge]
    cases j - buffers.length with
    | zero => rfl
    | succ k => rfl

theorem busyAt_modify (f : Buffer → Buffer) (hf : ∀ b, (f b).busy = b.busy) :
    busyAt (buffers.modify i f) j = busyAt buffers j := by
  unfold busyAt
  rw [List.getElem?_modify]
  cases buffers[j]? with
  | none => rfl
  | some b =>
      show (if i = j then f b else b).busy = b.busy
      split
      · exact hf b
      · rfl

theorem busyAt_free (buffers : List Buffer) (i j : ℕ) :
    busyAt (buffers.modify i fun b => { b with busy := false }) j =
      if i = j then false else busyAt buffers j := by
  unfold busyAt
  rw [List.getElem?_modify]
  cases buffers[j]? with
  | none => exact (ite_self false).symm
  | some b =>
      show (if i = j then { b with busy := false } else b).busy = _
      split <;> rfl

/-- After its release was dispatched, a buffer is not busy; the others are as before. -/
theorem busyAt_handleReleases (is : List ℕ) (buffers : List Buffer) :
    busyAt (handleReleases is buffers) j = (busyAt buffers j && !is.contains j) := by
  unfold handleReleases
  induction is generalizing buffers with
  | nil => rw [List.foldl_nil, List.contains_nil, Bool.not_false, Bool.and_true]
  | cons i is ih =>
      rw [List.foldl_cons, ih, busyAt_free, List.contains_cons]
      by_cases hij : i = j
      · rw [if_pos hij, beq_iff_eq.2 hij.symm, Bool.true_or, Bool.not_true, Bool.and_false,
          Bool.false_and]
      · rw [if_neg hij, beq_false_of_ne (Ne.symm hij), Bool.false_or]

theorem length_handleReleases (is : List ℕ) (buffers : List Buffer) :
    (handleReleases is buffers).length = buffers.length := by
  unfold handleReleases
  induction is generalizing buffers with
  | nil => rfl
  | cons i is ih => rw [List.foldl_cons, ih, List.length_modify]

/-- What `FindFreeBuffer` finds. -/
theorem findFreeBuffer_some (h : findFreeBuffer buffers = some i) :
    i < buffers.length ∧ busyAt buffers i = false := by
  unfold findFreeBuffer at h
  obtain ⟨hlt, hfree, -⟩ := List.findIdx?_eq_some_iff_getElem.1 h
  refine ⟨hlt, ?_⟩
  unfold busyAt
  rw [List.getElem?_eq_getElem hlt]
  simpa using hfree

end Busy

/-! ### The invariant -/

/-- **Every buffer that the compositor holds is busy**, and so is one whose release is on its way;
in no-copy mode the window surface's own buffer is not, outside an update. -/
structure Owned (fb : Framebuffer) (s : State) : Prop where
  mode : s.surface.isNone = fb.noCopy
  few : s.buffers.length ≤ 4
  clean : Clean s.log
  held : ∀ i, heldIn s.log i = true → busyAt s.buffers i = true
  sent : ∀ i ∈ s.pending, heldIn s.log i = false ∧ busyAt s.buffers i = true
  nodup : s.pending.Nodup
  own : fb.noCopy = true → s.current < s.buffers.length ∧
    (s.call = .idle → busyAt s.buffers s.current = false)

/-- In no-copy mode no Wayland call fails. -/
def Reads (fb : Framebuffer) (a : Act) : Prop := fb.noCopy = true → a.fails = false

section Owned

variable {ops : Ops} {fb : Framebuffer} {s t : State} {i : ℕ}

theorem Owned.not_held (h : Owned fb s) (hfree : busyAt s.buffers i = false) :
    heldIn s.log i = false := by
  cases hheld : heldIn s.log i with
  | false => rfl
  | true => rw [h.held i hheld] at hfree; cases hfree

/-- Releases dispatched. -/
theorem Owned.dispatched (h : Owned fb s) (n : ℕ) (hcall : s.call ≠ .idle) :
    Owned fb (dispatched n s) where
  mode := h.mode
  few := by
    show (handleReleases _ _).length ≤ 4
    rw [length_handleReleases]
    exact h.few
  clean := h.clean
  held i hheld := by
    show busyAt (handleReleases _ _) i = true
    have hnot : i ∉ s.pending.take n := by
      intro hmem
      have hsent := (h.sent i (List.mem_of_mem_take hmem)).1
      have hheld' : heldIn s.log i = true := hheld
      rw [hsent] at hheld'
      cases hheld'
    rw [busyAt_handleReleases, h.held i hheld]
    simpa using hnot
  sent i hmem := by
    have hmem' : i ∈ s.pending.drop n := hmem
    have hsent := h.sent i (List.mem_of_mem_drop hmem')
    refine ⟨hsent.1, ?_⟩
    show busyAt (handleReleases _ _) i = true
    have hnot : i ∉ s.pending.take n := by
      intro htake
      have hdisjoint : List.Disjoint (s.pending.take n) (s.pending.drop n) :=
        List.disjoint_take_drop h.nodup le_rfl
      exact hdisjoint htake hmem'
    rw [busyAt_handleReleases, hsent.2]
    simpa using hnot
  nodup := h.nodup.sublist (List.drop_sublist n _)
  own hmode := by
    refine ⟨?_, fun hidle => absurd hidle hcall⟩
    show s.current < (handleReleases _ _).length
    rw [length_handleReleases]
    exact (h.own hmode).1

/-- A free buffer taken: written and committed in copy mode, else the application's next one. -/
theorem Owned.finish (h : Owned fb s) (rects : List Rect) (hi : i < s.buffers.length)
    (hfree : busyAt s.buffers i = false) : Owned fb (finish ops fb rects s i) := by
  have hnot : heldIn s.log i = false := h.not_held hfree
  have hpending : i ∉ s.pending := by
    intro hmem
    rw [(h.sent i hmem).2] at hfree
    cases hfree
  unfold Sdl.finish
  rw [List.getElem?_eq_getElem hi]
  cases hsurface : s.surface with
  | none =>
      exact {
        mode := by rw [← h.mode, hsurface]
        few := h.few
        clean := h.clean
        held := h.held
        sent := h.sent
        nodup := h.nodup
        own := fun _ => ⟨hi, fun _ => hfree⟩ }
  | some surface =>
      dsimp only
      have hi' : i < (markBuffersStale ops (some i) (getUpdateArea ops fb rects)
          s.buffers).length := by
        rw [length_markBuffersStale]
        exact hi
      have hbusy (b : Buffer) (j : ℕ) (hb : b.busy = true) : busyAt
          ((markBuffersStale ops (some i) (getUpdateArea ops fb rects) s.buffers).set i b) j =
            if i = j then true else busyAt s.buffers j := by
        rw [busyAt_set hi', busyAt_markBuffersStale, hb]
      have hmode : fb.noCopy = false := by rw [← h.mode, hsurface]; rfl
      exact {
        mode := by rw [hmode]; rfl
        few := by
          rw [List.length_set, length_markBuffersStale]
          exact h.few
        clean := ⟨hnot, h.clean⟩
        held := by
          intro j hheld
          rw [hbusy _ _ rfl]
          by_cases hij : i = j
          · rw [if_pos hij]
          · rw [if_neg hij]
            have hheld' : (i == j || heldIn s.log j) = true := hheld
            rw [beq_false_of_ne hij, Bool.false_or] at hheld'
            exact h.held j hheld'
        sent := by
          intro j hmem
          have hij : i ≠ j := fun hij => hpending (hij ▸ hmem)
          have hsent := h.sent j hmem
          rw [hbusy _ _ rfl, if_neg hij]
          refine ⟨?_, hsent.2⟩
          show (i == j || heldIn s.log j) = false
          rw [beq_false_of_ne hij, Bool.false_or]
          exact hsent.1
        nodup := h.nodup
        own := fun htrue => by rw [hmode] at htrue; cases htrue }

/-- A buffer more. -/
theorem Owned.alloc (h : Owned fb s) (pixels : Pixels) (hfew : s.buffers.length < 4) :
    Owned fb { s with buffers := s.buffers ++ [allocFramebufferBuffer fb pixels] } where
  mode := h.mode
  few := by
    rw [List.length_append]
    exact hfew
  clean := h.clean
  held i hheld := by
    rw [busyAt_alloc]
    exact h.held i hheld
  sent i hmem := by
    rw [busyAt_alloc]
    exact h.sent i hmem
  nodup := h.nodup
  own hmode := by
    rw [List.length_append, busyAt_alloc]
    exact ⟨Nat.lt_add_right _ (h.own hmode).1, (h.own hmode).2⟩

theorem Owned.wait (h : Owned fb s) (rects : List Rect) :
    Owned fb { s with call := .waiting rects } :=
  ⟨h.mode, h.few, h.clean, h.held, h.sent, h.nodup,
    fun hmode => ⟨(h.own hmode).1, fun hidle => by cases hidle⟩⟩

theorem Owned.afterRead (h : Owned fb s) (rects : List Rect) (fresh : Option Pixels) :
    Owned fb (afterRead ops fb rects fresh s) := by
  unfold Sdl.afterRead
  split
  · rename_i i hfound
    obtain ⟨hlt, hfree⟩ := findFreeBuffer_some hfound
    exact h.finish rects hlt hfree
  · split
    · rename_i pixels hfresh
      have hfew : s.buffers.length < 4 := by
        by_contra hge
        rw [if_neg hge] at hfresh
        cases hfresh
      refine (h.alloc pixels hfew).finish rects ?_ ?_
      · rw [List.length_append]
        exact Nat.lt_succ_self _
      · rw [busyAt_alloc]
        unfold busyAt
        rw [List.getElem?_eq_none le_rfl]
    · exact h.wait rects

theorem Owned.afterDispatch (h : Owned fb s) (rects : List Rect) :
    Owned fb (afterDispatch ops fb rects s) := by
  unfold Sdl.afterDispatch
  split
  · rename_i i hfound
    obtain ⟨hlt, hfree⟩ := findFreeBuffer_some hfound
    exact h.finish rects hlt hfree
  · exact h

/-- A call that failed ends the update, which in no-copy mode does not happen. -/
theorem Owned.failed (h : Owned fb s) (hmode : fb.noCopy = false) :
    Owned fb { s with call := .idle } :=
  ⟨h.mode, h.few, h.clean, h.held, h.sent, h.nodup,
    fun htrue => by rw [hmode] at htrue; cases htrue⟩

theorem Owned.startUpdate (h : Owned fb s) (hidle : s.call = .idle) (rects : List Rect)
    (canCommit : Bool) : Owned fb (startUpdate ops fb rects canCommit s) := by
  have hdrawn : Owned fb { s with drawn := [] } :=
    ⟨h.mode, h.few, h.clean, h.held, h.sent, h.nodup, h.own⟩
  unfold Sdl.startUpdate
  dsimp only
  split
  · exact hdrawn
  split
  · split
    · exact {
        mode := h.mode
        few := by
          rw [length_markBuffersStale]
          exact h.few
        clean := h.clean
        held := fun i hheld => by
          rw [busyAt_markBuffersStale]
          exact h.held i hheld
        sent := fun i hmem => by
          rw [busyAt_markBuffersStale]
          exact h.sent i hmem
        nodup := h.nodup
        own := fun hmode => by
          rw [length_markBuffersStale, busyAt_markBuffersStale]
          exact h.own hmode }
    · exact hdrawn
  split
  · rename_i hsome
    have hmode : fb.noCopy = false := by
      rw [← h.mode]
      cases hs : s.surface with
      | none => rw [hs] at hsome; cases hsome
      | some surface => rfl
    exact ⟨h.mode, h.few, h.clean, h.held, h.sent, h.nodup,
      fun htrue => by rw [hmode] at htrue; cases htrue⟩
  · rename_i hnone
    have hmode : fb.noCopy = true := by
      rw [← h.mode]
      cases hs : s.surface with
      | none => rfl
      | some surface => rw [hs] at hnone; exact absurd rfl hnone
    obtain ⟨hlt, hfree⟩ := h.own hmode
    have hfree := hfree hidle
    have hpending : s.current ∉ s.pending := by
      intro hmem
      rw [(h.sent _ hmem).2] at hfree
      cases hfree
    rw [List.getElem?_eq_getElem hlt]
    unfold commitCurrent
    dsimp only
    exact {
      mode := h.mode
      few := by
        rw [List.length_set]
        exact h.few
      clean := h.clean
      held := by
        intro j hheld
        rw [busyAt_set hlt]
        by_cases hij : s.current = j
        · rw [if_pos hij]
        · rw [if_neg hij]
          have hheld' : (s.current == j || heldIn s.log j) = true := hheld
          rw [beq_false_of_ne hij, Bool.false_or] at hheld'
          exact h.held j hheld'
      sent := by
        intro j hmem
        have hij : s.current ≠ j := fun hij => hpending (hij ▸ hmem)
        rw [busyAt_set hlt, if_neg hij]
        refine ⟨?_, (h.sent j hmem).2⟩
        show (s.current == j || heldIn s.log j) = false
        rw [beq_false_of_ne hij, Bool.false_or]
        exact (h.sent j hmem).1
      nodup := h.nodup
      own := fun _ => by
        rw [List.length_set]
        exact ⟨hlt, fun hcall => by cases hcall⟩ }

theorem Owned.drawn (h : Owned fb s) (hidle : s.call = .idle) (x y : ℕ) (v : Pixels) :
    Owned fb (drawn fb x y v s) := by
  unfold Sdl.drawn
  dsimp only
  cases hsurface : s.surface with
  | some surface =>
      exact ⟨by rw [← h.mode, hsurface]; rfl, h.few, h.clean, h.held, h.sent, h.nodup, h.own⟩
  | none =>
      have hmode : fb.noCopy = true := by rw [← h.mode, hsurface]; rfl
      have hbusy (j : ℕ) : busyAt (s.buffers.modify s.current fun b =>
          { b with pixels := drawPixel fb x y v b.pixels }) j = busyAt s.buffers j :=
        busyAt_modify _ fun _ => rfl
      exact {
        mode := by rw [hmode]; rfl
        few := by
          rw [List.length_modify]
          exact h.few
        clean := ⟨h.not_held ((h.own hmode).2 hidle), h.clean⟩
        held := fun i hheld => by
          rw [hbusy]
          exact h.held i hheld
        sent := fun i hmem => by
          rw [hbusy]
          exact h.sent i hmem
        nodup := h.nodup
        own := fun _ => by
          rw [List.length_modify, hbusy]
          exact h.own hmode }

/-- A release of the compositor. -/
theorem Owned.released (h : Owned fb s) (hheld : heldIn s.log i = true) :
    Owned fb { s with pending := s.pending ++ [i], log := .released i :: s.log } where
  mode := h.mode
  few := h.few
  clean := h.clean
  held j hj := by
    have hj' : (i != j && heldIn s.log j) = true := hj
    exact h.held j (Bool.and_eq_true_iff.1 hj').2
  sent j hmem := by
    rw [List.mem_append, List.mem_singleton] at hmem
    show (i != j && heldIn s.log j) = false ∧ _
    obtain hmem | rfl := hmem
    · rw [(h.sent j hmem).1, Bool.and_false]
      exact ⟨rfl, (h.sent j hmem).2⟩
    · rw [bne_self_eq_false, Bool.false_and]
      exact ⟨rfl, h.held j hheld⟩
  nodup := by
    rw [List.nodup_append_comm]
    refine List.nodup_cons.2 ⟨?_, h.nodup⟩
    intro hmem
    rw [(h.sent i hmem).1] at hheld
    cases hheld
  own := h.own

/-- **The step lemma.** -/
theorem Owned.step {a : Act} (h : Owned fb s) (hreads : Reads fb a)
    (hstep : step ops fb s a = some t) : Owned fb t := by
  cases a with
  | draw x y v =>
      unfold Sdl.step at hstep
      dsimp only at hstep
      split at hstep
      · rename_i hidle
        cases hstep
        exact h.drawn hidle.1 x y v
      · cases hstep
  | update rects canCommit =>
      unfold Sdl.step at hstep
      dsimp only at hstep
      split at hstep
      · rename_i hidle
        cases hstep
        exact h.startUpdate hidle rects canCommit
      · cases hstep
  | read n ok fresh =>
      unfold Sdl.step at hstep
      dsimp only at hstep
      split at hstep
      · rename_i rects hcall
        cases hstep
        have hread := h.dispatched n (by rw [hcall]; exact Call.noConfusion)
        cases ok with
        | true => exact hread.afterRead rects fresh
        | false => exact hread.failed (Bool.eq_false_iff.2 fun hmode => by cases hreads hmode)
      · cases hstep
  | dispatch n ok =>
      unfold Sdl.step at hstep
      dsimp only at hstep
      split at hstep
      · rename_i rects hcall
        cases hstep
        have hread := h.dispatched n (by rw [hcall]; exact Call.noConfusion)
        cases ok with
        | true => exact hread.afterDispatch rects
        | false => exact hread.failed (Bool.eq_false_iff.2 fun hmode => by cases hreads hmode)
      · cases hstep
  | release i =>
      unfold Sdl.step at hstep
      dsimp only at hstep
      split at hstep
      · rename_i hheld
        cases hstep
        exact h.released hheld
      · cases hstep

end Owned

/-- A new framebuffer. -/
theorem owned_create {width height : ℕ} {format : PixelFormat} {noCopy : Bool}
    {first second : Pixels} {fb : Framebuffer} {s : State}
    (h : create width height format noCopy first second = some (fb, s)) : Owned fb s := by
  unfold create at h
  dsimp only at h
  split at h
  · cases h
  · cases h
    exact {
      mode := by cases noCopy <;> rfl
      few := (by decide : 2 ≤ 4)
      clean := trivial
      held := fun i hheld => by cases hheld
      sent := fun i hmem => by cases hmem
      nodup := List.nodup_nil
      own := fun _ => ⟨(by decide : 0 < 2), fun _ => rfl⟩ }

end BadgeOS.Sdl
