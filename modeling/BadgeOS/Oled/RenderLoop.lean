import BadgeOS.Oled.Flush
import BadgeOS.Oled.Overlay
import BadgeOS.Oled.ScreenSet
import Mathlib

/-!
# The loop from the evaluator to the glass

`nix-badge.zig`: every turn of `cmdOled` renders the current screen into the framebuffer that all
screens share, copies that to the panel and flushes the part that its `Dirty` marks.  A screen that
faults leaves both framebuffers as they are and the whole panel to flush.

`Flush` takes the frames of its turns as given, and what their `Dirty` marks as a condition on
them.  Here both come from the set of screens.

* `decodeStamped_covers` — a render marks every byte it changes;
* `RenderLoop.step` — a turn, a probe for the menu, a set opened anew;
* `RenderLoop.Inv`, `RenderLoop.inv_step` — what a step keeps;
* `RenderLoop.rendered_glass_shows` — over every run.
-/

namespace BadgeOS.Oled

open Transition Packing

variable {β σ ε : Type*}

/-! ### What a render marks -/

/-- The entries of a delta, and those of the overlay. -/
def ScreenFrame.entries (f : ScreenFrame) : List (ℕ × UInt8) :=
  (Oled.entries f.bitmap).take f.n ++ (Oled.entries f.overlay).take f.overlayN

/-- A delta and its overlay are one list of entries. -/
theorem decodeStamped_delta {f : ScreenFrame} (hdelta : f.delta = true) {width : ℕ}
    (hw : 0 < width) (out : List UInt8) :
    decodeStamped f out width = f.entries.foldl (land width) ({ full := false }, out) := by
  have hframe : decodeOledFrame f.toFrame out width =
      ((Oled.entries f.bitmap).take f.n).foldl (land width) ({ full := false }, out) := by
    rw [decodeOledFrame, hdelta, applyOverlay_foldl _ _ _ hw]
    rfl
  rw [decodeStamped, hframe, ScreenFrame.entries, List.foldl_append]
  by_cases hnone : 0 < f.overlayN
  · rw [if_pos hnone]
    exact applyOverlay_foldl _ _ _ hw _
  · have hzero : f.overlayN = 0 := by omega
    rw [if_neg hnone, hzero, List.take_zero, List.foldl_nil]

/-- **A render marks** every column whose byte it changes. -/
theorem decodeStamped_covers (f : ScreenFrame) {out : List UInt8} {width pages : ℕ}
    (hw : 0 < width) (hwidth : width ≤ 128) (hpages : pages ≤ Dirty.maxPages)
    (hlen : out.length = width * pages) :
    ∀ page < pages, ∀ col < width,
      (decodeStamped f out width).2.getD (page * width + col) 0 ≠ out.getD (page * width + col) 0 →
      (decodeStamped f out width).1.Covers page col := by
  intro page hpage col hcol hne
  by_cases hdelta : f.delta = true
  · rw [decodeStamped_delta hdelta hw] at hne ⊢
    have hoffset : page * width + col < out.length := by
      calc page * width + col < page * width + width := by omega
        _ = width * (page + 1) := by ring
        _ ≤ width * pages := Nat.mul_le_mul_left _ hpage
        _ = out.length := hlen.symm
    rw [foldl_land_out, List.getD_eq_getElem?_getD, List.getD_eq_getElem?_getD,
      patch_get hoffset] at hne
    -- a byte that changes is one that an entry is for
    obtain ⟨b, hb⟩ : ∃ b, written f.entries (page * width + col) = some b := by
      rw [← Option.ne_none_iff_exists']
      intro hnone
      rw [hnone, Option.none_or] at hne
      exact hne rfl
    have hmem := mem_of_written hb
    refine .inr ⟨by omega, ?_⟩
    have hmarked : (f.entries.foldl (land width) ({ full := false }, out)).1.Marked
        ⟨page, by omega⟩ ⟨col, by omega⟩ :=
      (foldl_land_marked width f.entries _).2 (.inr ⟨_, hmem, hoffset,
        (div_mod_eq_iff hw).2 ⟨hcol, rfl⟩⟩)
    exact hmarked
  · exact .inl (decodeStamped_keyframe (by simpa using hdelta) width rfl).2

/-! ### The loop -/

namespace RenderLoop

open Flush

variable {g : Geometry}

/-- What becomes of the writes of a turn. -/
structure Bus where
  flush : ℕ → SpanFaults
  probe : ProbeFaults
  init : ℕ → ℕ → Outcome
  redraw : ℕ → SpanFaults

/-- The turn that flushes `frame`. -/
def Bus.turn (bus : Bus) (frame : List UInt8) (dirty : Dirty) : Flush.Turn :=
  { frame, dirty, flush := bus.flush, probe := bus.probe, init := bus.init, redraw := bus.redraw }

/-- The set of screens with the framebuffer they share, and the panel with its chip. -/
structure State (g : Geometry) (β : Type*) where
  set : ScreenSet β
  fb : List UInt8
  loop : Flush.Loop g

/-- What happens: a turn of the loop for screen `idx`, a look at the `hidden` flag of one, a set
that is opened in place of the one before. -/
inductive Event (β σ : Type*)
  | turn (idx : ℕ) (scope : σ) (bus : Bus)
  | probe (idx : ℕ) (scope : σ)
  | reopen (be : β)

/-- What a turn for screen `idx` flushes: the render, or all of the panel as it is. -/
def State.turnOf (B : Backend β σ ε) (s : State g β) (idx : ℕ) (scope : σ) (bus : Bus) :
    Flush.Turn :=
  match s.set.renderOled B idx { width := g.width, scope } s.fb with
  | (.ok frame, _, fb) => bus.turn fb frame.dirty
  | (.error _, _, _) => bus.turn s.loop.panel.fb { full := true }

/-- One step. -/
def step (B : Backend β σ ε) (s : State g β) : Event β σ → Option (State g β)
  | .turn idx scope bus =>
      let r := s.set.renderOled B idx { width := g.width, scope } s.fb
      (Flush.step s.loop (s.turnOf B idx scope bus)).map fun loop =>
        { set := r.2.1, fb := r.2.2, loop }
  | .probe idx scope =>
      some { s with set := (s.set.probeHidden B idx { width := g.width, scope }).2 }
  | .reopen be => some { s with set := { be } }

/-- The loop starts with the controller that is fitted, and a flush that gets through after others
that did not is followed by a probe that is right and by a redraw that gets through. -/
structure Recovers (B : Backend β σ ε) (s : State g β) (idx : ℕ) (scope : σ) (bus : Bus) :
    Prop where
  controller : s.loop.turns = 0 → s.loop.panel.controller = s.loop.chip.kind
  probe : 0 < s.loop.flushFailCount →
    s.loop.panel.DirtyThrough (s.turnOf B idx scope bus).dirty bus.flush →
    bus.probe.Right s.loop.chip.kind s.loop.panel.controller
  redraw : 0 < s.loop.flushFailCount →
    s.loop.panel.DirtyThrough (s.turnOf B idx scope bus).dirty bus.flush →
    Panel.FlushThrough { s.loop.panel with controller := s.loop.chip.kind } bus.redraw

/-- ... and a frame that is asked for at frame index 0 is a keyframe. -/
structure Good (B : Backend β σ ε) (s : State g β) (idx : ℕ) (scope : σ) (bus : Bus) : Prop
    extends Recovers B s idx scope bus where
  keyed : (s.set.enter idx).playIdx = 0 →
    ∀ f, (s.set.answer B idx { width := g.width, scope }).1 = .ok f → f.delta = false

/-- The condition on an event. -/
def GoodEvent (B : Backend β σ ε) (s : State g β) : Event β σ → Prop
  | .turn idx scope bus => Good B s idx scope bus
  | _ => True

/-! ### What a step keeps -/

/-- The panel holds the framebuffer of the set, or whichever screen is next will be asked for
frame 0. -/
structure Inv (s : State g β) : Prop where
  length : s.fb.length = g.fbLen
  loop : s.loop.Inv
  same : (s.loop.panel.fb = s.fb ∧ 0 < s.loop.turns) ∨ ∀ idx, (s.set.enter idx).playIdx = 0

/-- A turn of the flush holds the frame that it was given. -/
theorem flush_turn {l : Flush.Loop g} {turn : Flush.Turn} (hlen : turn.frame.length = g.fbLen)
    (hmarks : turn.Marks l.panel) :
    ∃ l', Flush.step l turn = some l' ∧ l'.panel.fb = turn.frame ∧ 0 < l'.turns := by
  have hstep : Flush.step l turn =
      some (l.flushed { l.panel with fb := turn.frame, fb_length := hlen } turn) := by
    rw [Flush.step, if_pos hmarks, Panel.blit, dif_pos hlen]
  refine ⟨_, hstep, ?_, turns_step hstep⟩
  have hprobe (p : Panel g) (chip : Chip) : (p.redetect chip turn.probe).1.fb = p.fb := by
    unfold Panel.redetect
    split <;> rfl
  unfold Flush.Loop.flushed
  dsimp only
  split
  · split
    · exact hprobe _ _
    · rfl
  · split
    · exact hprobe _ _
    · rfl

/-- A render that faults, and one that does not: what the turn flushes. -/
theorem turnOf_cases (B : Backend β σ ε) (s : State g β) (idx : ℕ) (scope : σ) (bus : Bus) :
    (∃ (e : ε) (set' : ScreenSet β),
      s.set.renderOled B idx { width := g.width, scope } s.fb = (.error e, set', s.fb) ∧
      (∃ e, (s.set.answer B idx { width := g.width, scope }).1 = .error e) ∧
      s.turnOf B idx scope bus = bus.turn s.loop.panel.fb { full := true } ∧
      set'.activeIx = some idx ∧ set'.playIdx = (s.set.enter idx).playIdx) ∨
    (∃ (f : ScreenFrame) (r : OledFrame) (set' : ScreenSet β),
      s.set.renderOled B idx { width := g.width, scope } s.fb =
        (.ok r, set', (decodeStamped f s.fb g.width).2) ∧
      (s.set.answer B idx { width := g.width, scope }).1 = .ok f ∧
      s.set.call B idx { width := g.width, scope } = .rendered idx (s.set.enter idx).playIdx f ∧
      s.turnOf B idx scope bus = bus.turn (decodeStamped f s.fb g.width).2
        (decodeStamped f s.fb g.width).1) := by
  rcases s.set.renderOled_cases B idx { width := g.width, scope } s.fb with
    ⟨e, set', hr, hcall, hactive, hplay⟩ | ⟨f, r, set', hr, hcall, -, hdirty⟩
  · refine .inl ⟨e, set', hr, ?_, by rw [State.turnOf, hr], hactive, hplay⟩
    unfold ScreenSet.call at hcall
    split at hcall
    · rename_i e' hanswer
      exact ⟨e', hanswer⟩
    · cases hcall
  · refine .inr ⟨f, r, set', hr, ?_, hcall, by rw [State.turnOf, hr, ← hdirty]⟩
    unfold ScreenSet.call at hcall
    split at hcall
    · cases hcall
    · rename_i hanswer
      cases hcall
      exact hanswer

/-- **What a turn flushes** marks every byte that is not the panel's, and all of the panel in the
first one. -/
theorem turnOf_marks {B : Backend β σ ε} {s : State g β} {idx : ℕ} {scope : σ} (bus : Bus)
    (h : Inv s) (hkeyed : (s.set.enter idx).playIdx = 0 →
      ∀ f, (s.set.answer B idx { width := g.width, scope }).1 = .ok f → f.delta = false) :
    (s.turnOf B idx scope bus).frame.length = g.fbLen ∧
    (s.turnOf B idx scope bus).Marks s.loop.panel ∧
    (s.loop.turns = 0 → (s.turnOf B idx scope bus).dirty.full = true) := by
  rcases turnOf_cases B s idx scope bus with
    ⟨_, _, -, -, hturn, -⟩ | ⟨f, _, _, -, hanswer, -, hturn⟩
  · rw [hturn]
    exact ⟨s.loop.panel.fb_length, fun _ _ _ _ _ => .inl rfl, fun _ => rfl⟩
  · rw [hturn]
    have hkey (hzero : (s.set.enter idx).playIdx = 0) :
        (decodeStamped f s.fb g.width).1.full = true :=
      (decodeStamped_keyframe (hkeyed hzero f hanswer) g.width rfl).2
    refine ⟨(length_decodeStamped f s.fb g.width).trans h.length, ?_, ?_⟩
    · intro page hpage col hcol hne
      rcases h.same with ⟨hsame, -⟩ | hfresh
      · rw [Panel.byte, hsame] at hne
        exact decodeStamped_covers f g.width_pos g.width_le g.pages_le h.length page hpage col hcol
          hne
      · exact .inl (hkey (hfresh idx))
    · intro hturns
      rcases h.same with ⟨-, hpos⟩ | hfresh
      · omega
      · exact hkey (hfresh idx)

/-- **A turn** is never stuck, and keeps the invariant. -/
theorem Inv.turn {B : Backend β σ ε} {s : State g β} {idx : ℕ} {scope : σ} {bus : Bus} (h : Inv s)
    (hgood : Good B s idx scope bus) : ∃ t, step B s (.turn idx scope bus) = some t ∧ Inv t ∧
      t.loop.panel.fb = (s.turnOf B idx scope bus).frame ∧ 0 < t.loop.turns := by
  obtain ⟨hlen, hmarks, hfirst⟩ := turnOf_marks bus h hgood.keyed
  obtain ⟨loop, hstep, hfb, hturns⟩ := flush_turn hlen hmarks
  have hbus : (s.turnOf B idx scope bus).flush = bus.flush ∧
      (s.turnOf B idx scope bus).probe = bus.probe ∧
      (s.turnOf B idx scope bus).redraw = bus.redraw := by
    rcases turnOf_cases B s idx scope bus with ⟨_, _, -, -, hturn, -⟩ | ⟨_, _, _, -, -, -, hturn⟩
    · rw [hturn]
      exact ⟨rfl, rfl, rfl⟩
    · rw [hturn]
      exact ⟨rfl, rfl, rfl⟩
  have hturn : Flush.Good s.loop (s.turnOf B idx scope bus) := by
    refine ⟨hgood.controller, ?_, ?_, ?_⟩
    · intro hzero _ page _ col _ _
      exact .inl (hfirst hzero)
    · rw [hbus.1, hbus.2.1]
      exact hgood.probe
    · rw [hbus.1, hbus.2.2]
      exact hgood.redraw
  have hloop := Flush.inv_step h.loop hturn hstep
  refine ⟨_, by rw [step]; exact congrArg (Option.map _) hstep, ⟨?_, hloop, ?_⟩, hfb, hturns⟩
  · rcases turnOf_cases B s idx scope bus with ⟨_, _, hr, -⟩ | ⟨f, _, _, hr, -⟩
    · rw [hr]
      exact h.length
    · rw [hr]
      exact (length_decodeStamped f s.fb g.width).trans h.length
  · rcases turnOf_cases B s idx scope bus with
      ⟨_, set', hr, -, hturn, hactive, hplay⟩ | ⟨f, _, _, hr, -, -, hturn⟩
    · -- a fault: both framebuffers stay, and so does the counter of the screen
      rw [hr]
      rcases h.same with ⟨hsame, -⟩ | hfresh
      · refine .inl ⟨?_, hturns⟩
        dsimp only
        rw [hfb, hturn]
        exact hsame
      · refine .inr fun ix => ?_
        by_cases heq : ix = idx
        · subst heq
          rw [ScreenSet.enter_self hactive, hplay]
          exact hfresh ix
        · refine ScreenSet.enter_playIdx ?_
          rw [hactive]
          simpa using Ne.symm heq
    · rw [hr]
      refine .inl ⟨?_, hturns⟩
      dsimp only
      rw [hfb, hturn]
      rfl

/-- After a turn that leaves no failure to recover from, the glass shows what it flushed. -/
theorem Inv.glass {B : Backend β σ ε} {s t : State g β} {idx : ℕ} {scope : σ} {bus : Bus}
    (h : Inv s) (hgood : Good B s idx scope bus) (hstep : step B s (.turn idx scope bus) = some t)
    (hcount : t.loop.flushFailCount = 0) {page col : ℕ} (hpage : page < g.pages)
    (hcol : col < g.width) : t.loop.chip.visible page col =
      (s.turnOf B idx scope bus).frame.getD (page * g.width + col) 0 := by
  obtain ⟨u, hu, ht, hframe, hturns⟩ := h.turn hgood
  obtain rfl : t = u := Option.some.inj (hstep.symm.trans hu)
  rw [(ht.loop.shows hturns hcount).2 page hpage col hcol, Panel.byte, hframe]

/-- A look at a screen's `hidden` flag. -/
theorem Inv.probe {B : Backend β σ ε} {s : State g β} (h : Inv s) (idx : ℕ) (scope : σ) :
    Inv { s with set := (s.set.probeHidden B idx { width := g.width, scope }).2 } := by
  obtain ⟨hactive, hplay⟩ := s.set.probeHidden_keeps B idx { width := g.width, scope }
  refine ⟨h.length, h.loop, ?_⟩
  rcases h.same with hsame | hfresh
  · exact .inl hsame
  · refine .inr fun ix => ?_
    have hix := hfresh ix
    unfold ScreenSet.enter at hix ⊢
    rw [hactive]
    split
    · rename_i heq
      rw [if_pos heq] at hix
      exact hplay.trans hix
    · rfl

/-- **One step** keeps the invariant. -/
theorem inv_step {B : Backend β σ ε} {s t : State g β} {e : Event β σ} (h : Inv s)
    (hgood : GoodEvent B s e) (hstep : step B s e = some t) : Inv t := by
  cases e with
  | turn idx scope bus =>
      obtain ⟨u, hu, hinv, -⟩ := Inv.turn h hgood
      rw [hstep] at hu
      cases hu
      exact hinv
  | probe idx scope =>
      cases hstep
      exact h.probe idx scope
  | reopen be =>
      cases hstep
      exact ⟨h.length, h.loop, .inr fun ix => ScreenSet.enter_playIdx (by simp)⟩

/-! ### Runs -/

/-- The loop as it is entered, with the framebuffer as it was allocated. -/
def opened (be : β) (fb : List UInt8) (loop : Flush.Loop g) : State g β :=
  { set := { be }, fb, loop }

theorem inv_opened {controller : Controller} {chip : Chip} {outcome : ℕ → ℕ → Outcome}
    {loop : Flush.Loop g} (h : entered g controller chip outcome = some loop) (be : β)
    {fb : List UInt8} (hfb : fb.length = g.fbLen) : Inv (opened be fb loop) where
  length := hfb
  loop := inv_entered h
  same := .inr fun _ => ScreenSet.enter_playIdx (by simp [opened])

/-- What an event does to the set and its framebuffer. -/
def Event.act : Event β σ → Act β σ
  | .turn idx scope _ => .render idx scope
  | .probe idx scope => .probe idx scope
  | .reopen be => .reopen be

/-- The calls that a run made on the framebuffer. -/
def session (B : Backend β σ ε) (g : Geometry) (be : β) (fb : List UInt8)
    (events : List (Event β σ)) : Session β :=
  Session.run B g.width be fb (events.map Event.act)

theorem session_snoc (B : Backend β σ ε) (g : Geometry) (be : β) (fb : List UInt8)
    (events : List (Event β σ)) (e : Event β σ) :
    session B g be fb (events ++ [e]) = (session B g be fb events).step B g.width e.act := by
  rw [session, List.map_append, Session.run, List.foldl_append]
  rfl

/-- **A run of the loop** is one of the set's own calls, in which every frame that was asked for
at frame index 0 is a keyframe. -/
theorem run_session {B : Backend β σ ε} {be : β} {fb : List UInt8} {loop : Flush.Loop g}
    {events : List (Event β σ)} {s : State g β}
    (hrun : RunWith (step B) (GoodEvent B) (opened be fb loop) events s) :
    (session B g be fb events).set = s.set ∧ (session B g be fb events).fb = s.fb ∧
      Keyed (session B g be fb events).calls := by
  refine hrun.traceInvariant (I := fun events s => (session B g be fb events).set = s.set ∧
    (session B g be fb events).fb = s.fb ∧ Keyed (session B g be fb events).calls)
    ⟨rfl, rfl, fun idx f hmem => absurd hmem (List.not_mem_nil)⟩ ?_
  intro events s e t hsame hgood hstep
  obtain ⟨hset, hfb, hkeyed⟩ := hsame
  rw [session_snoc]
  cases e with
  | turn idx scope bus =>
      have hgood : Good B s idx scope bus := hgood
      rw [step, Option.map_eq_some_iff] at hstep
      obtain ⟨loop, -, rfl⟩ := hstep
      simp only [Event.act, Session.step, hset, hfb, true_and]
      intro ix f hmem
      rcases List.mem_cons.mp hmem with hnew | hold
      · unfold ScreenSet.call at hnew
        split at hnew
        · cases hnew
        · rename_i hanswer
          obtain ⟨-, hzero, rfl⟩ := Call.rendered.inj hnew
          exact hgood.keyed hzero.symm f hanswer
      · exact hkeyed ix f hold
  | probe idx scope =>
      cases hstep
      refine ⟨?_, hfb, hkeyed⟩
      simp only [Event.act, Session.step, hset]
  | reopen be' =>
      cases hstep
      refine ⟨rfl, hfb, ?_⟩
      intro ix f hmem
      rcases List.mem_cons.mp hmem with hnew | hold
      · cases hnew
      · exact hkeyed ix f hold

theorem ok_of_toOption {α : Type*} {r : Except ε α} {a : α} (h : r.toOption = some a) :
    r = .ok a := by
  cases r with
  | error e => cases h
  | ok a' =>
      cases h
      rfl

instance (B : Backend β σ ε) (s : State g β) (idx : ℕ) (scope : σ) (bus : Bus) :
    Decidable (Recovers B s idx scope bus) :=
  decidable_of_iff
    ((s.loop.turns = 0 → s.loop.panel.controller = s.loop.chip.kind) ∧
      (0 < s.loop.flushFailCount →
        s.loop.panel.DirtyThrough (s.turnOf B idx scope bus).dirty bus.flush →
        bus.probe.Right s.loop.chip.kind s.loop.panel.controller) ∧
      (0 < s.loop.flushFailCount →
        s.loop.panel.DirtyThrough (s.turnOf B idx scope bus).dirty bus.flush →
        Panel.FlushThrough { s.loop.panel with controller := s.loop.chip.kind } bus.redraw))
    ⟨fun ⟨h1, h2, h3⟩ => ⟨h1, h2, h3⟩, fun ⟨h1, h2, h3⟩ => ⟨h1, h2, h3⟩⟩

instance (B : Backend β σ ε) (s : State g β) (idx : ℕ) (scope : σ) (bus : Bus) :
    Decidable (Good B s idx scope bus) :=
  decidable_of_iff
    (Recovers B s idx scope bus ∧ ((s.set.enter idx).playIdx = 0 →
      ∀ f ∈ (s.set.answer B idx { width := g.width, scope }).1.toOption, f.delta = false))
    ⟨fun ⟨hbus, hkey⟩ => ⟨hbus, fun hzero f hf => hkey hzero f (by rw [hf]; rfl)⟩,
      fun h => ⟨h.toRecovers, fun hzero f hf => h.keyed hzero f (ok_of_toOption hf)⟩⟩

instance (B : Backend β σ ε) (s : State g β) (e : Event β σ) : Decidable (GoodEvent B s e) :=
  match e with
  | .turn idx scope bus => inferInstanceAs (Decidable (Good B s idx scope bus))
  | .probe _ _ => isTrue trivial
  | .reopen _ => isTrue trivial

/-- Every write acknowledged. -/
def Bus.clean : Bus where
  flush := fun _ => ⟨fun _ => .acked, .acked⟩
  probe := ⟨fun _ => .acked, fun _ => .acked, fun _ => .acked, some (0, 0)⟩
  init := fun _ _ => .acked
  redraw := fun _ => ⟨fun _ => .acked, .acked⟩

/-- The second screen, a look at the first, and the first with its data dropped. -/
def twoScreensEvents : List (Event Unit Unit) :=
  [.turn 1 () .clean, .probe 0 (), .turn 0 () { Bus.clean with flush := dropped }]

/-- What the first screen answers after its keyframe. -/
def secondFrame : ScreenFrame :=
  { bitmap := [(1 * 256 + 9) * 262144], nextMs := 33, delta := true, n := 1 }

end RenderLoop

end BadgeOS.Oled
