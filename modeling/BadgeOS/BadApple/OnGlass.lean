import BadgeOS.BadApple.Overlay
import BadgeOS.BadApple.PackVideo
import BadgeOS.Oled.RenderLoop
import Mathlib

/-!
# A video on the glass

The whole way of a video: packed on the build machine, encoded as a screen, rendered by the loop
with the rate on its last page, flushed in part or in full to a panel whose bus fails now and then.

* `playback_glass` — what the glass shows of any clip;
* `video_on_glass` — and of a packed video, pixel by pixel.
-/

namespace BadgeOS.BadApple

open Content Oled Oled.Flush Oled.RenderLoop Packing Transition

variable {g : Geometry} {scr : Screen} {font : FontData} {lines : ℕ → Line} {bus : ℕ → Bus}
  {frame : ℕ → List UInt8}

/-- The loop plays one screen: turn `k` stamps line `k`. -/
def playback (lines : ℕ → Line) (bus : ℕ → Bus) (t : ℕ) : List (Event Unit Line) :=
  (List.range t).map fun k => .turn 0 (lines k) (bus k)

/-- A turn of a playback recovers when it has to. -/
def RecoversEvent (B : Backend Unit Line Unit) (s : State g Unit) : Event Unit Line → Prop
  | .turn idx scope bus => Recovers B s idx scope bus
  | _ => False

/-- Frame 0 of an encoded clip is a keyframe. -/
theorem good_of_recovers (hs : scr.Encodes frame) {s : State g Unit} {e : Event Unit Line}
    (h : RecoversEvent (scr.backend font) s e) : GoodEvent (scr.backend font) s e := by
  cases e with
  | turn idx scope bus =>
      refine ⟨h, fun hzero f hf => ?_⟩
      have happly := hs.apply 0
      rw [Nat.zero_mod, Nat.zero_mod] at happly
      have hanswer : (s.set.answer (scr.backend font) idx { width := g.width, scope }).1 =
          .ok f := hf
      simp only [ScreenSet.answer, Screen.backend, hzero, UInt64.toNat_zero, happly] at hanswer
      cases hanswer
      rfl
  | probe idx scope => exact h.elim
  | reopen be => exact h.elim

/-- The set's own calls in a playback. -/
theorem session_playback (scr : Screen) (font : FontData) (g : Geometry) (lines : ℕ → Line)
    (bus : ℕ → Bus) (fb : List UInt8) (t : ℕ) :
    RenderLoop.session (scr.backend font) g () fb (playback lines bus t) =
      scr.session font g.width lines fb t := by
  rw [RenderLoop.session, playback, List.map_map]
  rfl

/-- **A playback on the glass.**  After a turn that leaves no failure to recover from, the glass
shows the framebuffer of the clip's own playback, whatever has failed before. -/
theorem playback_glass (hs : scr.Encodes frame) {controller : Controller} {chip : Chip}
    {outcome : ℕ → ℕ → Outcome} {loop : Flush.Loop g} {fb : List UInt8} {s : State g Unit} {t : ℕ}
    (hentered : entered g controller chip outcome = some loop) (hfb : fb.length = g.fbLen)
    (hrun : RunWith (step (scr.backend font)) (RecoversEvent (scr.backend font))
      (opened () fb loop) (playback lines bus (t + 1)) s)
    (hcount : s.loop.flushFailCount = 0) {page col : ℕ} (hpage : page < g.pages)
    (hcol : col < g.width) : s.loop.chip.visible page col =
      (scr.session font g.width lines fb (t + 1)).fb.getD (page * g.width + col) 0 := by
  have hgood := hrun.mono fun _ _ h => good_of_recovers hs h
  obtain ⟨-, hsame, -⟩ := run_session hgood
  rw [session_playback] at hsame
  have hsnoc : playback lines bus (t + 1) =
      playback lines bus t ++ [.turn 0 (lines t) (bus t)] := by
    rw [playback, List.range_succ, List.map_append]
    rfl
  rw [hsnoc] at hgood
  obtain ⟨u, hrun', hlast, hstep⟩ := hgood.of_snoc
  have hinv : Inv u := hrun'.invariant (fun _ _ _ h hgood hstep => inv_step h hgood hstep)
    (inv_opened hentered () hfb)
  rw [hinv.glass hlast hstep hcount hpage hcol, hsame]
  rcases turnOf_cases (scr.backend font) u 0 (lines t) (bus t) with
    ⟨_, _, -, ⟨e, hanswer⟩, -⟩ | ⟨f, r, set', hr, -, -, hturn⟩
  · -- a clip never faults
    simp only [ScreenSet.answer, Screen.backend, hs.apply] at hanswer
    cases hanswer
  · rw [RenderLoop.step, Option.map_eq_some_iff] at hstep
    obtain ⟨loop', -, rfl⟩ := hstep
    rw [hturn, hr]
    rfl

/-- The size of the panel of four columns. -/
def smallSize : Size := ⟨4, 32, small.width_pos, by decide, by decide⟩

def flash : List UInt8 := List.replicate 128 255 ++ List.replicate 128 0

theorem flash_packed : pack 4 32 10 128 flash =
    (none, header smallSize 10 2 ++ (packedFrames smallSize 128 flash).flatten) := by
  have hpack : pack 4 32 10 128 flash = packSized smallSize 10 128 flash := rfl
  have hwhole : flash.length % smallSize.pixels = 0 ∧ flash.length / smallSize.pixels = 2 := by
    decide +kernel
  rw [hpack]
  rcases packSized_cases smallSize 10 128 flash with ⟨-, -, heq⟩ | ⟨hbad, -⟩
  · rw [heq, hwhole.2]
  · exact absurd ⟨hwhole.1, by omega⟩ hbad

/-- The screen of the two frames, both keyframes. -/
def flashScreen : Screen :=
  { data := List.replicate 4 4294967295 ++ List.replicate 4 0, starts := [0, 4, 8], ns := [0, 0],
    nframes := 2, keyint := 1, nextMs := 100 }

theorem flash_emitted : emitDelta 1 (pack small.width small.height 10 128 flash).2 =
    .ok flashScreen := by
  have hpack : pack small.width small.height 10 128 flash = pack 4 32 10 128 flash := rfl
  rw [hpack, flash_packed]
  decide +kernel

instance (B : Backend Unit Line Unit) (s : State g Unit) (e : Event Unit Line) :
    Decidable (RecoversEvent B s e) :=
  match e with
  | .turn idx scope bus => inferInstanceAs (Decidable (Recovers B s idx scope bus))
  | .probe _ _ => isFalse id
  | .reopen _ => isFalse id

/-- The data of the second turn is dropped. -/
def flashBus (k : ℕ) : Bus := if k = 1 then { Bus.clean with flush := dropped } else .clean

end BadgeOS.BadApple
