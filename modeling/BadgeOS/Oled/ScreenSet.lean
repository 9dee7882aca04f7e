import BadgeOS.Oled.Eval
import Mathlib

/-!
# The screen set, over one framebuffer

`backend.zig`: a set of screens shares one framebuffer and one playback counter, which
`renderOled` hands to the screen as `frameIndex` and puts back to 0 whenever it is asked for
another screen than the time before.  A screen may answer deltas, so what it draws stands on
what is in the framebuffer already; at frame 0 it is to answer a keyframe.

The evaluator is a parameter: any function of its own heap, the screen and the fields.

* `ScreenSet.renderOled`, `ScreenSet.probeHidden` — the functions;
* `Session` — a framebuffer and the calls made on it, with the frames they were answered;
* `Session.Inv` — the framebuffer is a replay of the current screen's frames;
* `screen_never_shows_through` — so no other screen's bytes, and nothing older, are in it.
-/

namespace BadgeOS.Oled

variable {β σ ε : Type*}

/-- One evaluated frame, with the overlay and the requests to the loop. -/
structure ScreenFrame extends Frame where
  overlay : List ℤ := []
  overlayN : ℕ := 0
  hidden : Bool := false
  pause : Bool := false
  autoReturnMs : ℕ := 0
  wantsScan : Bool := false
  deriving DecidableEq, Repr

/-- What a screen's scope is made of: the panel's width, the playback counter and the rest
(the clock, the sensors, the versions), which only the screen reads. -/
structure Fields (σ : Type*) where
  width : ℕ
  frameIndex : UInt64 := 0
  scope : σ

/-- One decoded frame: its period, the dirty region and the requests. -/
structure OledFrame where
  nextMs : ℕ
  dirty : Dirty
  autoReturnMs : ℕ := 0
  wantsScan : Bool := false

/-- `default_next_ms`: about 30 frames a second. -/
def defaultNextMs : ℕ := 33

/-- `max_next_ms`. -/
def maxNextMs : ℕ := 60000

/-- Clamp the frame period a screen asked for. -/
def clampNextMs (nextMs : ℤ) : ℕ :=
  if nextMs ≤ 0 then defaultNextMs else min nextMs.toNat maxNextMs

/-- How many frames pass between sweeps. -/
def collectEvery : UInt64 := 64

/-- A per-frame evaluator: `β` is its heap, and whatever else its answers depend on. -/
structure Backend (β σ ε : Type*) where
  applyFrame : β → ℕ → Fields σ → Except ε ScreenFrame × β
  collect : β → β

/-- The screens of a backend, with the shared playback state. -/
structure ScreenSet (β : Type*) where
  be : β
  frame : UInt64 := 0
  playIdx : UInt64 := 0
  activeIx : Option ℕ := none
  loggedError : Bool := false

/-- A screen change restarts playback at frame 0. -/
def ScreenSet.enter (s : ScreenSet β) (idx : ℕ) : ScreenSet β :=
  if s.activeIx = some idx then s else { s with playIdx := 0, activeIx := some idx }

/-- What screen `idx` answers when it is rendered, and the evaluator after it. -/
def ScreenSet.answer (B : Backend β σ ε) (s : ScreenSet β) (idx : ℕ) (fields : Fields σ) :
    Except ε ScreenFrame × β :=
  B.applyFrame s.be idx { fields with frameIndex := (s.enter idx).playIdx }

/-- Decode a frame into the framebuffer and stamp its overlay on top. -/
def decodeStamped (f : ScreenFrame) (out : List UInt8) (width : ℕ) : Dirty × List UInt8 :=
  let r := decodeOledFrame f.toFrame out width
  if 0 < f.overlayN then applyOverlay f.overlay f.overlayN r.2 width r.1 else r

/-- Apply screen `idx` and decode it into `out`. -/
def ScreenSet.renderOledInner (B : Backend β σ ε) (s : ScreenSet β) (idx : ℕ)
    (fields : Fields σ) (out : List UInt8) : Except ε OledFrame × ScreenSet β × List UInt8 :=
  match s.answer B idx fields with
  | (.error e, be) => (.error e, { s.enter idx with be }, out)
  | (.ok f, be) =>
      let r := decodeStamped f out fields.width
      let frame := s.frame + 1
      let be := if frame % collectEvery = 0 then B.collect be else be
      -- `pause` freezes the playback counter
      let playIdx := if f.pause then (s.enter idx).playIdx else (s.enter idx).playIdx + 1
      (.ok { nextMs := clampNextMs f.nextMs, dirty := r.1, autoReturnMs := f.autoReturnMs,
             wantsScan := f.wantsScan },
        { s.enter idx with be, frame, playIdx }, r.2)

/-- `renderOledInner`, with a fault logged once. -/
def ScreenSet.renderOled (B : Backend β σ ε) (s : ScreenSet β) (idx : ℕ) (fields : Fields σ)
    (out : List UInt8) : Except ε OledFrame × ScreenSet β × List UInt8 :=
  match s.renderOledInner B idx fields out with
  | (.error e, s', out') => (.error e, { s' with loggedError := true }, out')
  | r => r

/-- A screen's `hidden` flag, read by applying it once at frame 0. -/
def ScreenSet.probeHidden (B : Backend β σ ε) (s : ScreenSet β) (idx : ℕ) (fields : Fields σ) :
    Bool × ScreenSet β :=
  match B.applyFrame s.be idx { fields with frameIndex := 0 } with
  | (.error _, be) => (false, { s with be })
  | (.ok f, be) => (f.hidden, { s with be })

/-! ### The calls on one framebuffer -/

/-- A call on the framebuffer that has been made: a render with the frame index it asked for
and the frame it got, a render that faulted, or a set opened in place of the one before. -/
inductive Call
  | rendered (idx : ℕ) (frameIndex : UInt64) (f : ScreenFrame)
  | faulted (idx : ℕ)
  | reopened

/-- The set and the framebuffer, with the calls so far, the newest first. -/
structure Session (β : Type*) where
  set : ScreenSet β
  fb : List UInt8
  calls : List Call := []

/-- What the loop does with a set.  A dropped screen is one that is not asked for again. -/
inductive Act (β σ : Type*)
  | render (idx : ℕ) (scope : σ)
  | probe (idx : ℕ) (scope : σ)
  | reopen (be : β)

/-- The call that a render of screen `idx` makes. -/
def ScreenSet.call (B : Backend β σ ε) (s : ScreenSet β) (idx : ℕ) (fields : Fields σ) : Call :=
  match (s.answer B idx fields).1 with
  | .error _ => .faulted idx
  | .ok f => .rendered idx (s.enter idx).playIdx f

/-- One action on a panel `width` columns wide. -/
def Session.step (B : Backend β σ ε) (width : ℕ) (s : Session β) : Act β σ → Session β
  | .render idx scope =>
      let r := s.set.renderOled B idx { width, scope } s.fb
      { set := r.2.1, fb := r.2.2, calls := s.set.call B idx { width, scope } :: s.calls }
  | .probe idx scope => { s with set := (s.set.probeHidden B idx { width, scope }).2 }
  | .reopen be => { s with set := { be }, calls := .reopened :: s.calls }

/-- The actions in order, from a set just opened over any framebuffer. -/
def Session.run (B : Backend β σ ε) (width : ℕ) (be : β) (fb : List UInt8)
    (acts : List (Act β σ)) : Session β :=
  acts.foldl (Session.step B width) { set := { be }, fb }

/-- The frames screen `idx` returned since the loop last switched to it, the newest first:
none when the last call was for another screen, or opened the set anew. -/
def framesSince (idx : ℕ) : List Call → List ScreenFrame
  | [] => []
  | .rendered ix _ f :: calls => if ix = idx then f :: framesSince idx calls else []
  | .faulted ix :: calls => if ix = idx then framesSince idx calls else []
  | .reopened :: _ => []

/-- A blank framebuffer after `frames`, of which the newest is first. -/
def shown (len width : ℕ) (frames : List ScreenFrame) : List UInt8 :=
  frames.foldr (fun f out => (decodeStamped f out width).2) (List.replicate len 0)

/-- Every frame that was asked for at frame index 0 is a keyframe. -/
def Keyed (calls : List Call) : Prop :=
  ∀ idx f, Call.rendered idx 0 f ∈ calls → f.delta = false

/-! ### Decoding -/

theorem length_wordBytes_flatMap (bitmap : List ℤ) :
    (bitmap.flatMap wordBytes).length = bitmap.length * 4 := by
  induction bitmap with
  | nil => rfl
  | cons v bitmap ih =>
      rw [List.flatMap_cons, List.length_append, ih, List.length_cons]
      have hword : (wordBytes v).length = 4 := rfl
      omega

theorem length_decodeOled (bitmap : List ℤ) (out : List UInt8) :
    (decodeOled bitmap out).2.length = out.length := by
  have hwords : min bitmap.length (out.length / 4) * 4 ≤ out.length := by omega
  simp only [decodeOled, List.length_append, length_wordBytes_flatMap, List.length_take,
    List.length_replicate]
  omega

theorem Dirty.mark_full (dirty : Dirty) (page col : ℕ) : (dirty.mark page col).full = dirty.full := by
  unfold Dirty.mark
  split <;> rfl

theorem overlayEntry_keeps (v : ℤ) (i width : ℕ) (dirty : Dirty) (out : List UInt8) :
    (overlayEntry v i width dirty out).2.length = out.length ∧
    (overlayEntry v i width dirty out).1.full = dirty.full := by
  generalize he : (if i % 2 = 0 then (v >>> (18 : ℕ)) % 2 ^ 18 else v % 2 ^ 18) = e
  simp only [overlayEntry, he]
  by_cases hout : out.length ≤ (e >>> (8 : ℕ)).toNat
  · rw [if_pos hout]
    exact ⟨rfl, rfl⟩
  · rw [if_neg hout]
    exact ⟨List.length_set, dirty.mark_full _ _⟩

theorem overlayLoop_keeps (packed : List ℤ) (width count i : ℕ) (dirty : Dirty)
    (out : List UInt8) :
    (overlayLoop packed width count i dirty out).2.length = out.length ∧
    (overlayLoop packed width count i dirty out).1.full = dirty.full := by
  induction count generalizing i dirty out with
  | zero => exact ⟨rfl, rfl⟩
  | succ count ih =>
      rw [overlayLoop]
      cases packed[i / 2]? with
      | none => exact ⟨rfl, rfl⟩
      | some v =>
          obtain ⟨hlen, hfull⟩ := overlayEntry_keeps v i width dirty out
          obtain ⟨hlen', hfull'⟩ := ih (i + 1) (overlayEntry v i width dirty out).1
            (overlayEntry v i width dirty out).2
          exact ⟨hlen'.trans hlen, hfull'.trans hfull⟩

/-- Entries change bytes and columns: the buffer keeps its length, and a full region stays
full. -/
theorem applyOverlay_keeps (packed : List ℤ) (n : ℕ) (out : List UInt8) (width : ℕ)
    (dirty : Dirty) :
    (applyOverlay packed n out width dirty).2.length = out.length ∧
    (applyOverlay packed n out width dirty).1.full = dirty.full := by
  unfold applyOverlay
  split
  · exact ⟨rfl, rfl⟩
  · exact overlayLoop_keeps packed width n 0 dirty out

theorem length_decodeOledFrame (frame : Frame) (out : List UInt8) (width : ℕ) :
    (decodeOledFrame frame out width).2.length = out.length := by
  unfold decodeOledFrame
  split
  · exact length_decodeOled frame.bitmap out
  · exact (applyOverlay_keeps frame.bitmap frame.n out width _).1

theorem length_decodeStamped (f : ScreenFrame) (out : List UInt8) (width : ℕ) :
    (decodeStamped f out width).2.length = out.length := by
  have hframe := length_decodeOledFrame f.toFrame out width
  unfold decodeStamped
  simp only
  split
  · exact (applyOverlay_keeps _ _ _ _ _).1.trans hframe
  · exact hframe

/-- **A keyframe** leaves nothing of the framebuffer it is decoded into, and the whole panel
stale. -/
theorem decodeStamped_keyframe {f : ScreenFrame} (hkey : f.delta = false) (width : ℕ)
    {out out' : List UInt8} (hlen : out.length = out'.length) :
    decodeStamped f out width = decodeStamped f out' width ∧
    (decodeStamped f out width).1.full = true := by
  have hdecode (b : List UInt8) : decodeOledFrame f.toFrame b width = decodeOled f.bitmap b := by
    simp [decodeOledFrame, hkey]
  have hsame : decodeOled f.bitmap out = decodeOled f.bitmap out' := by
    simp only [decodeOled, hlen]
  have hfull : (decodeOled f.bitmap out).1.full = true := rfl
  unfold decodeStamped
  simp only [hdecode, hsame]
  refine ⟨trivial, ?_⟩
  split
  · exact (applyOverlay_keeps _ _ _ _ _).2
  · rw [← hsame]
    exact hfull

theorem length_shown (len width : ℕ) (frames : List ScreenFrame) :
    (shown len width frames).length = len := by
  induction frames with
  | nil => exact List.length_replicate
  | cons f frames ih =>
      rw [shown, List.foldr_cons, length_decodeStamped]
      exact ih

/-! ### One call -/

theorem ScreenSet.enter_activeIx (s : ScreenSet β) (idx : ℕ) :
    (s.enter idx).activeIx = some idx := by
  unfold ScreenSet.enter
  split
  · assumption
  · rfl

theorem ScreenSet.enter_playIdx {s : ScreenSet β} {idx : ℕ} (h : s.activeIx ≠ some idx) :
    (s.enter idx).playIdx = 0 := by
  rw [ScreenSet.enter, if_neg h]

theorem ScreenSet.enter_self {s : ScreenSet β} {idx : ℕ} (h : s.activeIx = some idx) :
    s.enter idx = s :=
  if_pos h

/-- A render that faults, and one that does not: what they leave of the playback state. -/
theorem ScreenSet.renderOled_cases (B : Backend β σ ε) (s : ScreenSet β) (idx : ℕ)
    (fields : Fields σ) (out : List UInt8) :
    (∃ e s', s.renderOled B idx fields out = (.error e, s', out) ∧
      s.call B idx fields = .faulted idx ∧
      s'.activeIx = some idx ∧ s'.playIdx = (s.enter idx).playIdx) ∨
    (∃ f r s', s.renderOled B idx fields out = (.ok r, s', (decodeStamped f out fields.width).2) ∧
      s.call B idx fields = .rendered idx (s.enter idx).playIdx f ∧
      s'.activeIx = some idx ∧ r.dirty = (decodeStamped f out fields.width).1) := by
  unfold ScreenSet.renderOled ScreenSet.renderOledInner ScreenSet.call
  rcases s.answer B idx fields with ⟨e | f, be⟩
  · exact .inl ⟨e, _, rfl, rfl, s.enter_activeIx idx, rfl⟩
  · exact .inr ⟨f, _, _, rfl, rfl, s.enter_activeIx idx, rfl⟩

/-- A render that is answered. -/
theorem ScreenSet.renderOled_answered {B : Backend β σ ε} {s : ScreenSet β} {idx : ℕ}
    {fields : Fields σ} {f : ScreenFrame} {be : β}
    (h : s.answer B idx fields = (.ok f, be)) (out : List UInt8) :
    (s.renderOled B idx fields out).2.2 = (decodeStamped f out fields.width).2 ∧
    ((s.renderOled B idx fields out).2.1.enter idx).playIdx =
      (if f.pause then (s.enter idx).playIdx else (s.enter idx).playIdx + 1) := by
  have hr : s.renderOled B idx fields out = s.renderOledInner B idx fields out := by
    unfold ScreenSet.renderOled ScreenSet.renderOledInner
    rw [h]
  rw [hr, ScreenSet.renderOledInner, h]
  refine ⟨rfl, ?_⟩
  dsimp only
  rw [ScreenSet.enter_self (by exact s.enter_activeIx idx)]

theorem ScreenSet.probeHidden_keeps (B : Backend β σ ε) (s : ScreenSet β) (idx : ℕ)
    (fields : Fields σ) :
    (s.probeHidden B idx fields).2.activeIx = s.activeIx ∧
    (s.probeHidden B idx fields).2.playIdx = s.playIdx := by
  unfold ScreenSet.probeHidden
  split <;> exact ⟨rfl, rfl⟩

/-! ### The framebuffer -/

/-- The framebuffer shows the frames since the last switch, and a screen that has returned
none since will be asked for frame 0. -/
structure Session.Inv (len width : ℕ) (s : Session β) : Prop where
  length : s.fb.length = len
  fresh : ∀ idx, framesSince idx s.calls = [] → (s.set.enter idx).playIdx = 0
  replay : ∀ idx, framesSince idx s.calls ≠ [] →
    s.fb = shown len width (framesSince idx s.calls)

theorem Session.inv_start (width : ℕ) (be : β) (fb : List UInt8) :
    Session.Inv fb.length width { set := { be }, fb } where
  length := rfl
  fresh := fun idx _ => ScreenSet.enter_playIdx (by simp)
  replay := fun idx h => absurd rfl h

/-- **One render.**  The first frame after a switch is a keyframe, and every other one is
decoded into the frames before it. -/
theorem Session.Inv.render {B : Backend β σ ε} {len width idx : ℕ} {s : Session β} {scope : σ}
    (h : s.Inv len width) {f : ScreenFrame}
    (hcall : s.set.call B idx { width, scope } = .rendered idx (s.set.enter idx).playIdx f)
    (hkeyed : Keyed (s.set.call B idx { width, scope } :: s.calls)) :
    (decodeStamped f s.fb width).2 = shown len width (f :: framesSince idx s.calls) ∧
    (framesSince idx s.calls = [] → (decodeStamped f s.fb width).1.full = true) := by
  have hstack : shown len width (f :: framesSince idx s.calls) =
      (decodeStamped f (shown len width (framesSince idx s.calls)) width).2 := rfl
  rw [hstack]
  by_cases hnew : framesSince idx s.calls = []
  · have hkey : f.delta = false := by
      refine hkeyed idx f ?_
      rw [hcall, h.fresh idx hnew]
      exact List.mem_cons_self
    obtain ⟨hsame, hfull⟩ := decodeStamped_keyframe hkey width
      (h.length.trans (length_shown len width (framesSince idx s.calls)).symm)
    exact ⟨congrArg Prod.snd hsame, fun _ => hfull⟩
  · rw [← h.replay idx hnew]
    exact ⟨rfl, fun hnil => absurd hnil hnew⟩

/-- A step only adds to the calls. -/
theorem Session.calls_suffix (B : Backend β σ ε) (width : ℕ) (s : Session β) (a : Act β σ) :
    s.calls <:+ (s.step B width a).calls := by
  cases a with
  | render idx scope => exact List.suffix_cons _ _
  | probe idx scope => exact List.suffix_rfl
  | reopen be => exact List.suffix_cons _ _

theorem Keyed.suffix {calls calls' : List Call} (h : Keyed calls') (hs : calls <:+ calls') :
    Keyed calls :=
  fun idx f hmem => h idx f (hs.subset hmem)

/-- **One action** keeps the invariant. -/
theorem Session.Inv.step {B : Backend β σ ε} {len width : ℕ} {s : Session β} (a : Act β σ)
    (h : s.Inv len width) (hkeyed : Keyed (s.step B width a).calls) :
    (s.step B width a).Inv len width := by
  cases a with
  | render idx scope =>
      rcases s.set.renderOled_cases B idx { width, scope } s.fb with
        ⟨e, s', hr, hcall, hactive, hplay⟩ | ⟨f, r, s', hr, hcall, hactive, -⟩
      · -- a fault: the framebuffer stays, and so does the counter of the screen
        have hstep : s.step B width (.render idx scope) =
            { set := s', fb := s.fb, calls := .faulted idx :: s.calls } := by
          simp only [Session.step, hr, hcall]
        rw [hstep]
        refine ⟨h.length, fun ix hix => ?_, fun ix hix => ?_⟩
        · by_cases heq : idx = ix
          · subst heq
            rw [ScreenSet.enter_self hactive, hplay]
            exact h.fresh idx (by simpa [framesSince] using hix)
          · exact ScreenSet.enter_playIdx (by simpa [hactive] using heq)
        · by_cases heq : idx = ix
          · subst heq
            simp only [framesSince, if_true] at hix ⊢
            exact h.replay idx hix
          · simp [framesSince, heq] at hix
      · have hstep : s.step B width (.render idx scope) =
            { set := s', fb := (decodeStamped f s.fb width).2,
              calls := .rendered idx (s.set.enter idx).playIdx f :: s.calls } := by
          simp only [Session.step, hr, hcall]
        have hkeyed' : Keyed (s.set.call B idx { width, scope } :: s.calls) := hkeyed
        obtain ⟨hfb, -⟩ := h.render hcall hkeyed'
        rw [hstep]
        refine ⟨(length_decodeStamped f s.fb width).trans h.length, fun ix hix => ?_,
          fun ix hix => ?_⟩
        · have hne : idx ≠ ix := by
            intro heq
            simp [framesSince, heq] at hix
          exact ScreenSet.enter_playIdx (by simpa [hactive] using hne)
        · by_cases heq : idx = ix
          · subst heq
            simp only [framesSince, if_true]
            exact hfb
          · simp [framesSince, heq] at hix
  | probe idx scope =>
      obtain ⟨hactive, hplay⟩ := s.set.probeHidden_keeps B idx { width, scope }
      refine ⟨h.length, fun ix hix => ?_, h.replay⟩
      have hfresh := h.fresh ix hix
      unfold ScreenSet.enter at hfresh ⊢
      rw [Session.step, hactive]
      split
      · rename_i hix'
        rw [if_pos hix'] at hfresh
        rw [hplay]
        exact hfresh
      · rfl
  | reopen be =>
      refine ⟨h.length, fun ix _ => ScreenSet.enter_playIdx (by simp [Session.step]), ?_⟩
      intro ix hix
      exact absurd rfl hix

/-- **A run** keeps it. -/
theorem Session.inv_run (B : Backend β σ ε) (width : ℕ) (be : β) (fb : List UInt8)
    (acts : List (Act β σ)) (hkeyed : Keyed (Session.run B width be fb acts).calls) :
    (Session.run B width be fb acts).Inv fb.length width := by
  induction acts using List.reverseRecOn with
  | nil => exact Session.inv_start width be fb
  | append_singleton acts a ih =>
      have hsnoc : Session.run B width be fb (acts ++ [a]) =
          (Session.run B width be fb acts).step B width a := by
        rw [Session.run, List.foldl_append]
        rfl
      rw [hsnoc] at hkeyed ⊢
      exact (ih (hkeyed.suffix (Session.calls_suffix B width _ a))).step a hkeyed

/-- **No screen shows through another.**  After any actions on a set opened over any
framebuffer, let a render of screen `idx` succeed, every frame asked for at frame index 0 so
far being a keyframe.  Then the framebuffer is the blank one with the frames put on it that
this screen returned since the loop last switched to it; and the first of them leaves the
whole panel stale. -/
theorem screen_never_shows_through (B : Backend β σ ε) (width : ℕ) (be : β) (fb : List UInt8)
    (acts : List (Act β σ)) (idx : ℕ) (scope : σ) {s s' : Session β} {r : OledFrame}
    (hs : s = Session.run B width be fb acts) (hs' : s' = s.step B width (.render idx scope))
    (hok : (s.set.renderOled B idx { width, scope } s.fb).1 = .ok r)
    (hkeyed : Keyed s'.calls) :
    s'.fb = shown fb.length width (framesSince idx s'.calls) ∧
    (framesSince idx s.calls = [] → r.dirty.full = true) := by
  subst hs hs'
  generalize hrun : Session.run B width be fb acts = s at *
  have hinv : s.Inv fb.length width := by
    rw [← hrun]
    refine Session.inv_run B width be fb acts ?_
    rw [hrun]
    exact hkeyed.suffix (Session.calls_suffix B width s _)
  rcases s.set.renderOled_cases B idx { width, scope } s.fb with
    ⟨e, s', hr, -⟩ | ⟨f, r', s', hr, hcall, -, hdirty⟩
  · rw [hr] at hok
    cases hok
  · obtain rfl : r' = r := by
      rw [hr] at hok
      exact Except.ok.inj hok
    have hkeyed' : Keyed (s.set.call B idx { width, scope } :: s.calls) := hkeyed
    obtain ⟨hfb, hfull⟩ := hinv.render hcall hkeyed'
    refine ⟨?_, fun hnew => ?_⟩
    · simp only [Session.step, hr, hcall, framesSince, if_true]
      exact hfb
    · rw [hdirty]
      exact hfull hnew

/-- Two screens four columns wide: a keyframe and then deltas, and a paused full frame. -/
def twoScreens : Backend Unit Unit Unit where
  applyFrame := fun _ idx fields =>
    match idx with
    | 0 =>
        if fields.frameIndex = 0 then (.ok { bitmap := [67305985], nextMs := 33 }, ())
        else (.ok { bitmap := [(1 * 256 + 9) * 262144], nextMs := 33, delta := true, n := 1 }, ())
    | 1 => (.ok { bitmap := [2139062143], nextMs := 0, pause := true }, ())
    | _ => (.error (), ())
  collect := id

/-- The second screen, the first one twice, between a fault and a probe. -/
def twoScreensActs : List (Act Unit Unit) :=
  [Act.render 1 (), Act.render 2 (), Act.render 0 (), Act.probe 1 ()]

theorem screen_never_shows_through_delta :
    ∃ r, ((Session.run twoScreens 4 () [9, 9, 9, 9] twoScreensActs).set.renderOled twoScreens 0
        { width := 4, scope := () } [1, 2, 3, 4]).1 = .ok r ∧
      (Session.run twoScreens 4 () [9, 9, 9, 9] (twoScreensActs ++ [Act.render 0 ()])).fb =
        shown 4 4 [{ bitmap := [(1 * 256 + 9) * 262144], nextMs := 33, delta := true, n := 1 },
          { bitmap := [67305985], nextMs := 33 }] := by
  have hkeyed : Keyed ((Session.run twoScreens 4 () [9, 9, 9, 9] twoScreensActs).step twoScreens 4
      (.render 0 ())).calls := by
    intro idx f hmem
    have hcalls : ((Session.run twoScreens 4 () [9, 9, 9, 9] twoScreensActs).step twoScreens 4
      (.render 0 ())).calls =
        [.rendered 0 1 { bitmap := [(1 * 256 + 9) * 262144], nextMs := 33, delta := true, n := 1 },
          .rendered 0 0 { bitmap := [67305985], nextMs := 33 }, .faulted 2,
          .rendered 1 0 { bitmap := [2139062143], nextMs := 0, pause := true }] := rfl
    rw [hcalls] at hmem
    simp only [List.mem_cons, Call.rendered.injEq, List.not_mem_nil] at hmem
    rcases hmem with ⟨-, habs, -⟩ | ⟨-, -, rfl⟩ | habs | ⟨-, -, rfl⟩ | habs
    · exact absurd habs (by decide)
    · rfl
    · cases habs
    · rfl
    · cases habs
  refine ⟨_, rfl, ?_⟩
  exact (screen_never_shows_through twoScreens 4 () [9, 9, 9, 9] twoScreensActs 0 () rfl rfl rfl
    hkeyed).1

end BadgeOS.Oled
