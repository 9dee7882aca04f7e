import BadgeOS.Lib.Transition
import Mathlib

/-!
# Page flips

A flip writes an address, which the next frame start latches, and forgets the frame starts seen so
far; the poller completes it at the next one it sees.  `flip_lock` holds the write and the
forgetting together, but the poller acts on what it saw after it has let the lock go, so a flip
that is written and armed in between is completed by a frame start that came before it.

* `State`, `Act`, `step` — the hardware, commits and the poller, by the sections of their locks;
* `Late` — a flip armed while a poll from before its write is still to be acted on;
* `flip_live` — every flip that was completed had its frame start, where none is armed late.
-/

namespace BadgeOS.Display.PageFlip

open Transition

/-- `SOPH_VBL_OVERSAMPLE`. -/
def sophVblOversample : ℕ := 4

/-- A commit on its way through `soph_pipe_update`: the frame starts before its write of the
address, or `none` when it wrote none, and the polls before it. -/
structure Flip where
  mark : Option ℕ
  polls : ℕ
  deriving DecidableEq, Repr

/-- An event that was armed, and the vblank that completes it. -/
structure Armed where
  flip : Flip
  sequence : ℕ
  deriving DecidableEq, Repr

/-- A completed flip: the frame starts, and the polls without one, when it was completed. -/
structure Sent where
  mark : Option ℕ
  starts : ℕ
  unseen : ℕ
  deriving DecidableEq, Repr

/-- `flip_lock`, and how far its holder is. -/
inductive FlipLock
  | free
  /-- The address is written. -/
  | written (f : Flip)
  /-- `sclr_disp_frame_start_poll` has read the status for a commit. -/
  | forgetting (f : Flip) (status : Bool)
  /-- It has read the status for the poller. -/
  | polled (status : Bool)
  deriving DecidableEq, Repr

structure State where
  /-- The frame starts so far, and the status bit that each of them sets. -/
  starts : ℕ
  status : Bool
  flipLock : FlipLock
  vblMiss : ℕ
  vblGate : ℕ
  /-- What `soph_vbl_fn` decided in its section of `flip_lock` and is still to act on. -/
  vblank : Option Bool
  /-- Commits between their section of `flip_lock` and that of the event lock. -/
  staged : List Flip
  armed : List Armed
  vblanks : ℕ
  polls : ℕ
  unseen : ℕ
  sent : List Sent
  deriving DecidableEq, Repr

/-- After the probe. -/
def start (status : Bool) : State :=
  ⟨0, status, .free, 0, 0, none, [], [], 0, 0, 0, []⟩

inductive Act
  /-- The hardware starts a frame. -/
  | frameStart
  /-- A commit with no framebuffer, or in nomodeset. -/
  | skip
  | write
  | read
  | unlock
  /-- The section of the event lock, with an event that is armed, or with none that is. -/
  | arm (i : ℕ)
  | drop (i : ℕ)
  | poll
  | pollUnlock
  /-- The rest of `soph_vbl_fn`, with the `vbl_div` that it reads. -/
  | handle (vblDiv : ℕ)
  deriving DecidableEq, Repr

/-- The end of `sclr_disp_frame_start_poll`: a bit that was set is cleared. -/
def clears (seen status : Bool) : Bool := !seen && status

/-- The end of the poller's section. -/
def decided (seen : Bool) (s : State) : State :=
  let s := { s with flipLock := .free, status := clears seen s.status, polls := s.polls + 1 }
  if seen then { s with vblMiss := 0, vblank := some true, unseen := 0 }
  else if s.vblMiss + 1 > 2 * sophVblOversample then
    { s with vblMiss := 0, vblank := some true, unseen := s.unseen + 1 }
  else { s with vblMiss := s.vblMiss + 1, vblank := some false, unseen := s.unseen + 1 }

/-- `drm_crtc_handle_vblank`. -/
def drmCrtcHandleVblank (s : State) : State :=
  { s with
    vblanks := s.vblanks + 1
    armed := s.armed.filter fun e => s.vblanks + 1 < e.sequence
    sent := s.sent ++ (s.armed.filter fun e => e.sequence ≤ s.vblanks + 1).map fun e =>
      ⟨e.flip.mark, s.starts, s.unseen⟩ }

/-- The frames to a vblank that is handled. -/
def period (vblDiv : ℕ) : ℕ := if vblDiv = 0 then 1 else vblDiv

/-- `soph_vbl_fn` behind its section; `vbl_gate` has 32 bits. -/
def paced (vblank : Bool) (vblDiv : ℕ) (s : State) : State :=
  let s := { s with vblank := none }
  if vblank then
    let gate := (s.vblGate + 1) % 2 ^ 32
    if gate ≥ period vblDiv then
      drmCrtcHandleVblank { s with vblGate := 0 }
    else { s with vblGate := gate }
  else s

/-- **One step.** -/
def step (s : State) : Act → Option State
  | .frameStart => some { s with starts := s.starts + 1, status := true }
  | .skip => some { s with staged := s.staged ++ [⟨none, s.polls⟩] }
  | .write =>
      if s.flipLock = .free then some { s with flipLock := .written ⟨some s.starts, s.polls⟩ }
      else none
  | .read =>
      match s.flipLock with
      | .written f => some { s with flipLock := .forgetting f s.status }
      | _ => none
  | .unlock =>
      match s.flipLock with
      | .forgetting f seen =>
          some { s with
            flipLock := .free, status := clears seen s.status, staged := s.staged ++ [f] }
      | _ => none
  | .arm i =>
      s.staged[i]?.map fun f =>
        { s with staged := s.staged.eraseIdx i, armed := s.armed ++ [⟨f, s.vblanks + 1⟩] }
  | .drop i => s.staged[i]?.map fun _ => { s with staged := s.staged.eraseIdx i }
  | .poll =>
      if s.flipLock = .free ∧ s.vblank = none then
        some { s with flipLock := .polled s.status }
      else none
  | .pollUnlock =>
      match s.flipLock with
      | .polled seen => some (decided seen s)
      | _ => none
  | .handle vblDiv => s.vblank.map fun vblank => paced vblank vblDiv s

/-- A flip is armed while a poll from before its write has decided on a vblank that it is still to
handle. -/
def Late (s : State) (a : Act) : Prop :=
  s.vblank = some true ∧ ∃ i f, a = .arm i ∧ s.staged[i]? = some f ∧ f.polls = s.polls

/-- A frame started after the flip's write, or none was seen for too long. -/
def Sent.Live (e : Sent) : Prop :=
  ∀ m, e.mark = some m → m < e.starts ∨ 2 * sophVblOversample < e.unseen

/-! ### The invariant -/

variable {s t : State}

/-- The frame starts are past the flip's write. -/
def Flip.Past (f : Flip) (starts : ℕ) : Prop := ∀ m, f.mark = some m → m < starts

theorem Flip.Past.mono {f : Flip} {n m : ℕ} (h : f.Past n) (hle : n ≤ m) : f.Past m :=
  fun k hk => (h k hk).trans_le hle

/-- A flip that a frame start completes: a commit has written it, whether it is armed or not. -/
def State.Waits (s : State) (f : Flip) : Prop := f ∈ s.staged ∨ ∃ e ∈ s.armed, e.flip = f

/-- The commit in its section. -/
def FlipLock.Holds (l : FlipLock) (f : Flip) : Prop :=
  l = .written f ∨ ∃ seen, l = .forgetting f seen

/-- **The invariant.** -/
structure Inv (s : State) : Prop where
  /-- No address was written after the last frame start's count. -/
  marks : ∀ f, s.Waits f ∨ s.flipLock.Holds f → f.Past (s.starts + 1)
  polls : ∀ f ∈ s.staged, f.polls ≤ s.polls
  locked : ∀ f, s.flipLock.Holds f → f.polls = s.polls
  /-- A status that is set is from after every write but that of the lock's holder. -/
  status : s.status = true → ∀ f, s.Waits f → f.Past s.starts
  forgotten : ∀ f, s.flipLock = .forgetting f false → s.status = true → f.Past s.starts
  seen : s.flipLock = .polled true → ∀ f, s.Waits f → f.Past s.starts
  /-- A vblank is still to be handled. -/
  vblank : s.vblank = some true → 2 * sophVblOversample < s.unseen ∨
    (∀ e ∈ s.armed, e.flip.Past s.starts) ∧ ∀ f ∈ s.staged, f.polls < s.polls → f.Past s.starts
  miss : s.vblMiss ≤ s.unseen
  sent : ∀ e ∈ s.sent, e.Live

theorem start_inv (status : Bool) : Inv (start status) where
  marks f hf := by
    obtain (hf | ⟨e, he, -⟩) | hf | ⟨seen, hf⟩ := hf
    · cases hf
    · cases he
    · cases hf
    · cases hf
  polls f hf := by cases hf
  locked f hf := by
    obtain hf | ⟨seen, hf⟩ := hf
    · cases hf
    · cases hf
  status _ f hf := by
    obtain hf | ⟨e, he, -⟩ := hf
    · cases hf
    · cases he
  forgotten f hf := by cases hf
  seen hf := by cases hf
  vblank hf := by cases hf
  miss := le_refl 0
  sent e he := by cases he

theorem Inv.frameStart (h : Inv s) :
    Inv { s with starts := s.starts + 1, status := true } where
  marks f hf := (h.marks f hf).mono (Nat.le_succ _)
  polls := h.polls
  locked := h.locked
  status _ f hf := h.marks f (Or.inl hf)
  forgotten f hf _ := h.marks f (Or.inr (Or.inr ⟨false, hf⟩))
  seen hf f hf' := h.marks f (Or.inl hf')
  vblank hv := by
    obtain hmissed | ⟨harmed, hstaged⟩ := h.vblank hv
    · exact Or.inl hmissed
    · exact Or.inr ⟨fun e he => (harmed e he).mono (Nat.le_succ _),
        fun f hf hp => (hstaged f hf hp).mono (Nat.le_succ _)⟩
  miss := h.miss
  sent := h.sent

/-- The lock let go, by a commit or by the poller; a status that was read as set is cleared. -/
theorem Inv.release (h : Inv s) (seen : Bool) :
    Inv { s with flipLock := .free, status := clears seen s.status } where
  marks f hf := by
    obtain hf | hf | ⟨st, hf⟩ := hf
    · exact h.marks f (Or.inl hf)
    · cases hf
    · cases hf
  polls := h.polls
  locked f hf := by
    obtain hf | ⟨st, hf⟩ := hf
    · cases hf
    · cases hf
  status hst f hf := by
    have hset : s.status = true := (Bool.and_eq_true_iff.1 hst).2
    exact h.status hset f hf
  forgotten f hf := by cases hf
  seen hf := by cases hf
  vblank := h.vblank
  miss := h.miss
  sent := h.sent

/-- A commit behind its section, when its flip is past whatever was seen. -/
theorem Inv.stage (h : Inv s) {f : Flip} (hmark : f.Past (s.starts + 1))
    (hpolls : f.polls = s.polls)
    (hstatus : s.status = true → f.Past s.starts)
    (hseen : s.flipLock = .polled true → f.Past s.starts) :
    Inv { s with staged := s.staged ++ [f] } := by
  have hwaits (g : Flip) (hg : State.Waits { s with staged := s.staged ++ [f] } g) :
      s.Waits g ∨ g = f := by
    obtain hg | hg := hg
    · obtain hg | hg := List.mem_append.1 hg
      · exact Or.inl (Or.inl hg)
      · exact Or.inr (List.mem_singleton.1 hg)
    · exact Or.inl (Or.inr hg)
  exact {
    marks := fun g hg => by
      obtain hg | hg := hg
      · obtain hg | rfl := hwaits g hg
        · exact h.marks g (Or.inl hg)
        · exact hmark
      · exact h.marks g (Or.inr hg)
    polls := fun g hg => by
      obtain hg | hg := List.mem_append.1 hg
      · exact h.polls g hg
      · rw [List.mem_singleton.1 hg]
        exact hpolls.le
    locked := h.locked
    status := fun hst g hg => by
      obtain hg | rfl := hwaits g hg
      · exact h.status hst g hg
      · exact hstatus hst
    forgotten := h.forgotten
    seen := fun hsn g hg => by
      obtain hg | rfl := hwaits g hg
      · exact h.seen hsn g hg
      · exact hseen hsn
    vblank := fun hv => by
      obtain hmissed | ⟨harmed, hstaged⟩ := h.vblank hv
      · exact Or.inl hmissed
      refine Or.inr ⟨harmed, fun g hg hlt => ?_⟩
      obtain hg | hg := List.mem_append.1 hg
      · exact hstaged g hg hlt
      · rw [List.mem_singleton.1 hg, hpolls] at hlt
        exact absurd hlt (lt_irrefl _)
    miss := h.miss
    sent := h.sent }

/-- Fewer flips wait. -/
theorem Inv.subset (h : Inv s) {staged : List Flip} {armed : List Armed}
    (hstaged : ∀ f ∈ staged, f ∈ s.staged) (harmed : ∀ e ∈ armed, e ∈ s.armed) :
    Inv { s with staged := staged, armed := armed } := by
  have hwaits (f : Flip) (hf : State.Waits { s with staged := staged, armed := armed } f) :
      s.Waits f := by
    obtain hf | ⟨e, he, rfl⟩ := hf
    · exact Or.inl (hstaged f hf)
    · exact Or.inr ⟨e, harmed e he, rfl⟩
  exact {
    marks := fun f hf => h.marks f (hf.imp_left (hwaits f))
    polls := fun f hf => h.polls f (hstaged f hf)
    locked := h.locked
    status := fun hst f hf => h.status hst f (hwaits f hf)
    forgotten := h.forgotten
    seen := fun hsn f hf => h.seen hsn f (hwaits f hf)
    vblank := fun hv => (h.vblank hv).imp_right fun hboth =>
      ⟨fun e he => hboth.1 e (harmed e he), fun f hf => hboth.2 f (hstaged f hf)⟩
    miss := h.miss
    sent := h.sent }

/-- The event of a flip that is not late. -/
theorem Inv.arm (h : Inv s) {i : ℕ} {f : Flip} (hf : s.staged[i]? = some f)
    (hlate : ¬ Late s (.arm i)) :
    Inv { s with armed := s.armed ++ [⟨f, s.vblanks + 1⟩] } := by
  have hmem : f ∈ s.staged := List.mem_of_getElem? hf
  have hwaits (g : Flip)
      (hg : State.Waits { s with armed := s.armed ++ [⟨f, s.vblanks + 1⟩] } g) : s.Waits g := by
    obtain hg | ⟨e, he, rfl⟩ := hg
    · exact Or.inl hg
    · obtain he | he := List.mem_append.1 he
      · exact Or.inr ⟨e, he, rfl⟩
      · rw [List.mem_singleton.1 he]
        exact Or.inl hmem
  exact {
    marks := fun g hg => h.marks g (hg.imp_left (hwaits g))
    polls := h.polls
    locked := h.locked
    status := fun hst g hg => h.status hst g (hwaits g hg)
    forgotten := h.forgotten
    seen := fun hsn g hg => h.seen hsn g (hwaits g hg)
    vblank := fun hv => by
      obtain hmissed | ⟨harmed, hstaged⟩ := h.vblank hv
      · exact Or.inl hmissed
      -- a poll that is to be handled came after the write, or the flip is late
      have hold : f.polls < s.polls :=
        lt_of_le_of_ne (h.polls f hmem) fun heq => hlate ⟨hv, i, f, rfl, hf, heq⟩
      refine Or.inr ⟨fun e he => ?_, hstaged⟩
      obtain he | he := List.mem_append.1 he
      · exact harmed e he
      · rw [List.mem_singleton.1 he]
        exact hstaged f hmem hold
    miss := h.miss
    sent := h.sent }

/-- **The poller's section.** -/
theorem Inv.decided (h : Inv s) {seen : Bool} (hlock : s.flipLock = .polled seen) :
    Inv (decided seen s) := by
  have hrest := h.release seen
  have hpolls (f : Flip) (hf : f ∈ s.staged) : f.polls ≤ s.polls + 1 :=
    (h.polls f hf).trans (Nat.le_succ _)
  have hlocked (f : Flip) (hf : FlipLock.free.Holds f) : f.polls = s.polls + 1 := by
    obtain hf | ⟨st, hf⟩ := hf
    · cases hf
    · cases hf
  simp only [PageFlip.decided]
  split
  · rename_i hseen
    have hpast := h.seen (by rw [hlock, hseen])
    exact {
      marks := hrest.marks
      polls := hpolls
      locked := hlocked
      status := hrest.status
      forgotten := hrest.forgotten
      seen := hrest.seen
      vblank := fun _ => Or.inr
        ⟨fun e he => hpast _ (Or.inr ⟨e, he, rfl⟩), fun f hf _ => hpast f (Or.inl hf)⟩
      miss := le_refl 0
      sent := h.sent }
  split
  · rename_i hmiss
    exact {
      marks := hrest.marks
      polls := hpolls
      locked := hlocked
      status := hrest.status
      forgotten := hrest.forgotten
      seen := hrest.seen
      vblank := fun _ => Or.inl (hmiss.trans_le (Nat.succ_le_succ h.miss))
      miss := Nat.zero_le _
      sent := h.sent }
  · exact {
      marks := hrest.marks
      polls := hpolls
      locked := hlocked
      status := hrest.status
      forgotten := hrest.forgotten
      seen := hrest.seen
      vblank := fun hv => by cases hv
      miss := Nat.succ_le_succ h.miss
      sent := h.sent }

/-- Nothing is left to act on. -/
theorem Inv.handled (h : Inv s) (gate : ℕ) : Inv { s with vblank := none, vblGate := gate } where
  marks := h.marks
  polls := h.polls
  locked := h.locked
  status := h.status
  forgotten := h.forgotten
  seen := h.seen
  vblank hv := by cases hv
  miss := h.miss
  sent := h.sent

/-- **The flips completed** are past their write, or nothing was seen for too long. -/
theorem Inv.paced (h : Inv s) {vblank : Bool} (hv : s.vblank = some vblank) (vblDiv : ℕ) :
    Inv (paced vblank vblDiv s) := by
  simp only [PageFlip.paced]
  split
  swap
  · exact h.handled s.vblGate
  rename_i hvblank
  split
  swap
  · exact h.handled _
  have hrest : Inv { s with
      vblank := none, vblGate := 0
      armed := s.armed.filter fun e => s.vblanks + 1 < e.sequence } :=
    (h.handled 0).subset (fun _ hf => hf) (fun e he => (List.mem_filter.1 he).1)
  have hsent : ∀ e ∈ s.sent ++ (s.armed.filter fun e => e.sequence ≤ s.vblanks + 1).map
      (fun e => (⟨e.flip.mark, s.starts, s.unseen⟩ : Sent)), e.Live := by
    intro e he
    obtain he | he := List.mem_append.1 he
    · exact h.sent e he
    obtain ⟨a, ha, rfl⟩ := List.mem_map.1 he
    intro m hm
    obtain hmissed | ⟨harmed, -⟩ := h.vblank (hv.trans (by rw [hvblank]))
    · exact Or.inr hmissed
    · exact Or.inl (harmed a (List.mem_filter.1 ha).1 m hm)
  exact {
    marks := hrest.marks
    polls := hrest.polls
    locked := hrest.locked
    status := hrest.status
    forgotten := hrest.forgotten
    seen := hrest.seen
    vblank := hrest.vblank
    miss := hrest.miss
    sent := hsent }

/-- **The step lemma.** -/
theorem Inv.step {a : Act} (h : Inv s) (hlate : ¬ Late s a) (hstep : step s a = some t) :
    Inv t := by
  cases a with
  | frameStart =>
      obtain rfl := Option.some.inj hstep
      exact h.frameStart
  | skip =>
      obtain rfl := Option.some.inj hstep
      have hnone (n : ℕ) : (Flip.mk none s.polls).Past n := fun m hm => by cases hm
      exact h.stage (hnone _) rfl (fun _ => hnone _) (fun _ => hnone _)
  | write =>
      simp only [PageFlip.step] at hstep
      split at hstep
      swap
      · cases hstep
      obtain rfl := Option.some.inj hstep
      have hown (f : Flip)
          (hf : (FlipLock.written ⟨some s.starts, s.polls⟩).Holds f) :
          f = ⟨some s.starts, s.polls⟩ := by
        obtain hf | ⟨seen, hf⟩ := hf
        · exact (FlipLock.written.inj hf).symm
        · cases hf
      exact {
        marks := fun f hf => by
          obtain hf | hf := hf
          · exact h.marks f (Or.inl hf)
          · rw [hown f hf]
            intro m hm
            rw [← Option.some.inj hm]
            exact Nat.lt_succ_self _
        polls := h.polls
        locked := fun f hf => by rw [hown f hf]
        status := h.status
        forgotten := fun f hf => by cases hf
        seen := fun hf => by cases hf
        vblank := h.vblank
        miss := h.miss
        sent := h.sent }
  | read =>
      cases hlock : s.flipLock with
      | written f =>
          simp only [PageFlip.step, hlock] at hstep
          obtain rfl := Option.some.inj hstep
          have hown (g : Flip) (hg : (FlipLock.forgetting f s.status).Holds g) :
              s.flipLock.Holds g := by
            obtain hg | ⟨seen, hg⟩ := hg
            · cases hg
            · rw [(FlipLock.forgetting.inj hg).1] at hlock
              exact Or.inl hlock
          exact {
            marks := fun g hg => h.marks g (hg.imp_right (hown g))
            polls := h.polls
            locked := fun g hg => h.locked g (hown g hg)
            status := h.status
            forgotten := fun g hg hst => by
              rw [hst] at hg
              cases (FlipLock.forgetting.inj hg).2
            seen := fun hf => by cases hf
            vblank := h.vblank
            miss := h.miss
            sent := h.sent }
      | free => simp only [PageFlip.step, hlock] at hstep; cases hstep
      | forgetting f seen => simp only [PageFlip.step, hlock] at hstep; cases hstep
      | polled seen => simp only [PageFlip.step, hlock] at hstep; cases hstep
  | unlock =>
      cases hlock : s.flipLock with
      | forgetting f seen =>
          simp only [PageFlip.step, hlock] at hstep
          obtain rfl := Option.some.inj hstep
          have hholds : s.flipLock.Holds f := Or.inr ⟨seen, hlock⟩
          apply (h.release seen).stage
          · exact h.marks f (Or.inr hholds)
          · exact h.locked f hholds
          · intro hst
            obtain ⟨hseen, hset⟩ := Bool.and_eq_true_iff.1 hst
            rw [Bool.not_eq_true'] at hseen
            exact h.forgotten f (by rw [hlock, hseen]) hset
          · intro hf
            cases hf
      | free => simp only [PageFlip.step, hlock] at hstep; cases hstep
      | written f => simp only [PageFlip.step, hlock] at hstep; cases hstep
      | polled seen => simp only [PageFlip.step, hlock] at hstep; cases hstep
  | arm i =>
      simp only [PageFlip.step, Option.map_eq_some_iff] at hstep
      obtain ⟨f, hf, rfl⟩ := hstep
      exact (h.arm hf hlate).subset (fun _ hg => List.mem_of_mem_eraseIdx hg) (fun _ he => he)
  | drop i =>
      simp only [PageFlip.step, Option.map_eq_some_iff] at hstep
      obtain ⟨f, hf, rfl⟩ := hstep
      exact h.subset (fun _ hg => List.mem_of_mem_eraseIdx hg) (fun _ he => he)
  | poll =>
      simp only [PageFlip.step] at hstep
      split at hstep
      swap
      · cases hstep
      obtain rfl := Option.some.inj hstep
      have hown (f : Flip) (hf : (FlipLock.polled s.status).Holds f) : False := by
        obtain hf | ⟨seen, hf⟩ := hf
        · cases hf
        · cases hf
      exact {
        marks := fun f hf => h.marks f (hf.imp_right fun hf => (hown f hf).elim)
        polls := h.polls
        locked := fun f hf => (hown f hf).elim
        status := h.status
        forgotten := fun f hf => by cases hf
        seen := fun hf => h.status (FlipLock.polled.inj hf)
        vblank := h.vblank
        miss := h.miss
        sent := h.sent }
  | pollUnlock =>
      cases hlock : s.flipLock with
      | polled seen =>
          simp only [PageFlip.step, hlock] at hstep
          obtain rfl := Option.some.inj hstep
          exact h.decided hlock
      | free => simp only [PageFlip.step, hlock] at hstep; cases hstep
      | written f => simp only [PageFlip.step, hlock] at hstep; cases hstep
      | forgetting f seen => simp only [PageFlip.step, hlock] at hstep; cases hstep
  | handle vblDiv =>
      simp only [PageFlip.step, Option.map_eq_some_iff] at hstep
      obtain ⟨vblank, hv, rfl⟩ := hstep
      exact h.paced hv vblDiv

/-- **A completed flip is live.**  In every interleaving of commits, frame starts and the poller
where no flip is armed late, each flip that is completed had a frame start after its write, or no
frame start was seen for more than twice `SOPH_VBL_OVERSAMPLE` polls. -/
theorem flip_live (status : Bool) {as : List Act} {s : State}
    (hrun : RunWith step (fun s a => ¬ Late s a) (start status) as s) : ∀ e ∈ s.sent, e.Live := by
  have hinv : Inv s :=
    hrun.invariant (fun _ _ _ h hlate hstep => h.step hlate hstep) (start_inv status)
  exact hinv.sent

/-- A flip, its frame start, and the poll that sees it. -/
theorem flip_live_once :
    ∃ s, RunWith step (fun s a => ¬ Late s a) (start true)
      [.write, .read, .unlock, .arm 0, .frameStart, .poll, .pollUnlock, .handle 1] s ∧
        s.sent = [⟨some 0, 1, 0⟩] ∧ ∀ e ∈ s.sent, e.Live := by
  have hnow {s : State} {a : Act} (hidle : s.vblank = none) : ¬ Late s a := by
    intro hlate
    cases hlate.1.symm.trans hidle
  have hhandle {s : State} {n : ℕ} : ¬ Late s (.handle n) := by
    intro hlate
    obtain ⟨i, -, ha, -⟩ := hlate.2
    cases ha
  obtain ⟨s, hrun, hsent⟩ : ∃ s, RunWith step (fun s a => ¬ Late s a) (start true)
      [.write, .read, .unlock, .arm 0, .frameStart, .poll, .pollUnlock, .handle 1] s ∧
        s.sent = [⟨some 0, 1, 0⟩] :=
    ⟨_, .cons (hnow rfl) rfl (.cons (hnow rfl) rfl (.cons (hnow rfl) rfl (.cons (hnow rfl) rfl
      (.cons (hnow rfl) rfl (.cons (hnow rfl) rfl (.cons (hnow rfl) rfl
        (.cons hhandle rfl .nil))))))), by decide⟩
  exact ⟨s, hrun, hsent, flip_live true hrun⟩

/-- A flip written and armed between a poll's section and its vblank. -/
theorem flip_late :
    ¬ ∀ (status : Bool) (as : List Act) (s : State), Run step (start status) as s →
      ∀ e ∈ s.sent, e.Live := by
  intro hall
  have hlive := hall true [.poll, .pollUnlock, .write, .read, .unlock, .arm 0, .handle 1] _
    (.cons trivial rfl (.cons trivial rfl (.cons trivial rfl (.cons trivial rfl
      (.cons trivial rfl (.cons trivial rfl (.cons trivial rfl .nil)))))))
    ⟨some 0, 0, 0⟩ (by decide) 0 rfl
  exact absurd hlive (by decide)

end BadgeOS.Display.PageFlip
