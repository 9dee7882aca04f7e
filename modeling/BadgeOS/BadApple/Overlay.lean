import BadgeOS.BadApple.Playback
import BadgeOS.Content.Font
import BadgeOS.Lib.Text
import BadgeOS.Oled.ScreenSet

/-!
# Text over Bad Apple

The emitted screen stamps a line of text over every frame.  It goes into the framebuffer that
the next delta is applied to, and the encoder took its differences from the clean video, so a
stamped byte stays until a keyframe, a change of the video there or another text writes it.

* `Screen.backend`, `Screen.session` — the screen in its set, and a playback with texts;
* `hud` — the text the screen builds;
* `Leftover` — a byte that an earlier text left, and nothing has written since;
* `overlay_lasts_one_frame_iff` — the framebuffer is the video with the current text if and only
  if there is none.
-/

namespace BadgeOS.BadApple

open Content Oled Packing Text

/-! ### One cell -/

section Cell

variable {β : Type*} {cell clean : ℕ → β} {stamp : ℕ → Option β} {repaint : ℕ → Prop} {t : ℕ}

/-- **A cell** that every turn may paint clean and then stamp.  After turn `t` it is not what
that turn alone would make of it just when an earlier turn stamped something else than the
clean value and no turn since has written the cell. -/
theorem cell_ne_iff (hzero : cell 0 = (stamp 0).getD (clean 0))
    (hpaint : ∀ t, repaint (t + 1) → cell (t + 1) = (stamp (t + 1)).getD (clean (t + 1)))
    (hkeep : ∀ t, ¬ repaint (t + 1) →
      clean (t + 1) = clean t ∧ cell (t + 1) = (stamp (t + 1)).getD (cell t)) (t : ℕ) :
    cell t ≠ (stamp t).getD (clean t) ↔
      ∃ j < t, (∃ b, stamp j = some b ∧ b ≠ clean j) ∧
        ∀ k, j < k → k ≤ t → stamp k = none ∧ ¬ repaint k := by
  induction t with
  | zero => simp [hzero]
  | succ t ih =>
      by_cases hr : repaint (t + 1)
      · refine ⟨fun hne => absurd (hpaint t hr) hne, ?_⟩
        intro hleft
        obtain ⟨j, hj, -, hlast⟩ := hleft
        exact absurd hr (hlast (t + 1) hj le_rfl).2
      obtain ⟨hclean, hcell⟩ := hkeep t hr
      cases hs : stamp (t + 1) with
      | some b =>
          rw [hs] at hcell
          refine ⟨fun hne => absurd hcell hne, ?_⟩
          intro hleft
          obtain ⟨j, hj, -, hlast⟩ := hleft
          have hnone := (hlast (t + 1) hj le_rfl).1
          rw [hs] at hnone
          cases hnone
      | none =>
          rw [hs, Option.getD_none] at hcell
          rw [hcell, hclean, Option.getD_none]
          -- the cell holds what turn `t` left
          constructor
          · intro hne
            cases ht : stamp t with
            | some b =>
                have hold : cell t = b := by
                  by_contra hb
                  have hbad : cell t ≠ (stamp t).getD (clean t) := by rwa [ht]
                  obtain ⟨j, hj, -, hlast⟩ := ih.1 hbad
                  have hnone := (hlast t hj le_rfl).1
                  rw [ht] at hnone
                  cases hnone
                refine ⟨t, Nat.lt_succ_self t, ⟨b, ht, hold ▸ hne⟩, fun k hk hle => ?_⟩
                obtain rfl : k = t + 1 := by omega
                exact ⟨hs, hr⟩
            | none =>
                have hbad : cell t ≠ (stamp t).getD (clean t) := by rwa [ht]
                obtain ⟨j, hj, hstamp, hlast⟩ := ih.1 hbad
                refine ⟨j, hj.trans (Nat.lt_succ_self t), hstamp, fun k hk hle => ?_⟩
                rcases Nat.lt_or_eq_of_le hle with hlt | rfl
                · exact hlast k hk (by omega)
                · exact ⟨hs, hr⟩
          · intro hleft
            obtain ⟨j, hj, ⟨b, hb, hne⟩, hlast⟩ := hleft
            rcases Nat.lt_or_eq_of_le (Nat.le_of_lt_succ hj) with hlt | rfl
            · have hbad := ih.2 ⟨j, hlt, ⟨b, hb, hne⟩, fun k hk hle => hlast k hk (by omega)⟩
              rwa [(hlast t hlt (Nat.le_succ t)).1] at hbad
            · have hold : cell j = b := by
                by_contra hb'
                have hbad : cell j ≠ (stamp j).getD (clean j) := by rwa [hb]
                obtain ⟨i, hi, -, hlast'⟩ := ih.1 hbad
                have hnone := (hlast' j hi le_rfl).1
                rw [hb] at hnone
                cases hnone
              rwa [hold]

end Cell

/-! ### The screen with its text -/

/-- The emitted screen in a set, given the line its lambda builds from the scope. -/
def Screen.backend (s : Screen) (font : FontData) : Backend Unit Line Unit where
  applyFrame := fun _ _ fields =>
    match s.apply fields.frameIndex.toNat with
    | none => (.error (), ())
    | some frame =>
        let hud := renderText font fields.scope fields.width
        (.ok { toFrame := frame, overlay := hud.overlay, overlayN := hud.overlayN }, ())
  collect := id

/-- A playback: the first `t` renders, with the line of each, over the framebuffer `fb`. -/
def Screen.session (s : Screen) (font : FontData) (width : ℕ) (lines : ℕ → Line)
    (fb : List UInt8) (t : ℕ) : Session Unit :=
  Session.run (s.backend font) width () fb ((List.range t).map fun k => .render 0 (lines k))

/-- The name of an evaluator, by its number. -/
def backendName : Fin 2 → List UInt8
  | 0 => [102, 105, 120]
  | 1 => [110, 105, 120]

def pad2 (n : ℕ) : List UInt8 := if n < 10 then 48 :: decimal n else decimal n

/-- The line the screen builds: `"[fix] 07fps"`, on the last page. -/
def hud (backend : Fin 2) (fps height : ℕ) : Line where
  text := [91] ++ backendName backend ++ [93, 32] ++ pad2 fps ++ [102, 112, 115]
  x := 0
  page := height / 8 - 1

/-- The video frame of render `t`, the counter being a `u64`. -/
def Screen.videoIx (s : Screen) (t : ℕ) : ℕ := t % 2 ^ 64 % s.nframes

/-- Render `t` writes the video's byte at offset `o`, whatever is there. -/
def Screen.Repaints (s : Screen) (frame : ℕ → List UInt8) (t o : ℕ) : Prop :=
  s.videoIx t % s.keyint = 0 ∨ (frame (s.videoIx t - 1))[o]? ≠ (frame (s.videoIx t))[o]?

instance (s : Screen) (frame : ℕ → List UInt8) (t o : ℕ) : Decidable (s.Repaints frame t o) :=
  inferInstanceAs (Decidable (_ ∨ _))

/-- Before render `t` some line wrote something else than the video at offset `o`, and no
render up to `t` has written that byte since. -/
def Screen.Leftover (s : Screen) (frame : ℕ → List UInt8) (font : FontData) (width : ℕ)
    (lines : ℕ → Line) (t o : ℕ) : Prop :=
  ∃ j < t,
    (∃ b, written (textEntries font (lines j) width) o = some b ∧
      (frame (s.videoIx j))[o]? ≠ some b) ∧
    ∀ k, j < k → k ≤ t →
      written (textEntries font (lines k) width) o = none ∧ ¬ s.Repaints frame k o

/-! ### One render -/

variable {s : Screen} {frame : ℕ → List UInt8} {font : FontData} {lines : ℕ → Line}
  {fbLen width t : ℕ} {fb : List UInt8}

/-- The frame that render `t` is answered. -/
def Screen.frameAt (s : Screen) (frame : ℕ → List UInt8) (font : FontData) (width : ℕ)
    (lines : ℕ → Line) (t : ℕ) : ScreenFrame where
  bitmap := (frameInts s.keyint frame (s.videoIx t)).map Int.ofNat
  nextMs := s.nextMs
  delta := !(s.videoIx t % s.keyint == 0)
  n := frameCount s.keyint frame (s.videoIx t)
  overlay := (renderText font (lines t) width).overlay
  overlayN := (renderText font (lines t) width).overlayN

theorem Screen.session_succ (s : Screen) (font : FontData) (width : ℕ) (lines : ℕ → Line)
    (fb : List UInt8) (t : ℕ) :
    s.session font width lines fb (t + 1) =
      (s.session font width lines fb t).step (s.backend font) width (.render 0 (lines t)) := by
  rw [Screen.session, List.range_succ, List.map_append, Session.run, List.foldl_append]
  rfl

/-- A playback never faults, and its counter counts. -/
theorem Screen.Encodes.session (hs : s.Encodes frame) (font : FontData) (width : ℕ)
    (lines : ℕ → Line) (fb : List UInt8) (t : ℕ) :
    ((s.session font width lines fb t).set.enter 0).playIdx = UInt64.ofNat t ∧
    (s.session font width lines fb (t + 1)).fb =
      (decodeStamped (s.frameAt frame font width lines t)
        (s.session font width lines fb t).fb width).2 := by
  have hanswer (t : ℕ)
      (hplay : ((s.session font width lines fb t).set.enter 0).playIdx = UInt64.ofNat t) :
      (s.session font width lines fb t).set.answer (s.backend font) 0
        { width, scope := lines t } = (.ok (s.frameAt frame font width lines t), ()) := by
    have hidx : (UInt64.ofNat t).toNat = t % 2 ^ 64 := UInt64.toNat_ofNat'
    simp only [ScreenSet.answer, Screen.backend, hplay, hidx, hs.apply]
    rfl
  have hcount : ((s.session font width lines fb t).set.enter 0).playIdx = UInt64.ofNat t := by
    induction t with
    | zero => rfl
    | succ t ih =>
        have hnext := (ScreenSet.renderOled_answered (hanswer t ih)
          (s.session font width lines fb t).fb).2
        rw [Screen.session_succ]
        refine hnext.trans ?_
        rw [ih]
        exact (UInt64.ofNat_add t 1).symm
  refine ⟨hcount, ?_⟩
  rw [Screen.session_succ]
  exact (ScreenSet.renderOled_answered (hanswer t hcount) _).1

/-- A clip and lines that fit the panel. -/
structure Screen.Played (s : Screen) (frame : ℕ → List UInt8) (lines : ℕ → Line)
    (fbLen width : ℕ) : Prop where
  encodes : s.Encodes frame
  width_pos : 0 < width
  multiple : fbLen % 4 = 0
  bound : fbLen ≤ 1024
  frames : ∀ k < s.nframes, (frame k).length = fbLen
  pages : ∀ t, (lines t).page * width + width ≤ fbLen

theorem Screen.Played.frame_length (hp : s.Played frame lines fbLen width) (t : ℕ) :
    (frame (s.videoIx t)).length = fbLen :=
  hp.frames _ (Nat.mod_lt _ hp.encodes.nframes_pos)

theorem textEntries_lt (hp : s.Played frame lines fbLen width) (t : ℕ) :
    ∀ e ∈ textEntries font (lines t) width, e.1 < fbLen := by
  intro e he
  have hin := (textEntries_page he).2
  have hpage := hp.pages t
  omega

/-- Stamping a line writes its entries. -/
theorem stamp_line (hp : s.Played frame lines fbLen width) (t : ℕ) {out : List UInt8}
    (hlen : out.length = fbLen) (dirty : Dirty) :
    (applyOverlay (renderText font (lines t) width).overlay
      (renderText font (lines t) width).overlayN out width dirty).2 =
      patch out (textEntries font (lines t) width) := by
  have hmax := hp.bound
  rw [renderText_eq]
  refine (applyOverlay_pack hp.width_pos dirty (fun e he => ?_) (by omega)).1
  rw [hlen]
  exact textEntries_lt hp t e he

/-- A decoded frame with its line. -/
theorem decodeStamped_line (hp : s.Played frame lines fbLen width) (t : ℕ)
    (hlen : fb.length = fbLen) :
    (decodeStamped (s.frameAt frame font width lines t) fb width).2 =
      patch (decodeOledFrame (s.frameAt frame font width lines t).toFrame fb width).2
        (textEntries font (lines t) width) := by
  have hout := (length_decodeOledFrame (s.frameAt frame font width lines t).toFrame fb width).trans
    hlen
  unfold decodeStamped
  dsimp only
  split
  · exact stamp_line hp t hout _
  · rename_i hzero
    have hn : (renderText font (lines t) width).overlayN = 0 := by
      have : ¬ 0 < (renderText font (lines t) width).overlayN := hzero
      omega
    rw [renderText_eq] at hn
    rw [List.length_eq_zero_iff.1 hn, patch_nil]

/-- The frame before in the clip is the one the render before showed. -/
theorem videoIx_prev (h : s.videoIx (t + 1) ≠ 0) : s.videoIx t = s.videoIx (t + 1) - 1 := by
  unfold Screen.videoIx at h ⊢
  by_cases hwrap : (t + 1) % 2 ^ 64 = 0
  · rw [hwrap, Nat.zero_mod] at h
    exact absurd rfl h
  · have hsucc : (t + 1) % 2 ^ 64 = t % 2 ^ 64 + 1 := by omega
    rw [hsucc] at h ⊢
    exact prev_frame h

/-- **One byte of one render.** -/
theorem Screen.Played.byte (hp : s.Played frame lines fbLen width) (t : ℕ)
    (hlen : fb.length = fbLen) {o : ℕ} (ho : o < fbLen) :
    (decodeStamped (s.frameAt frame font width lines t) fb width).2[o]? =
      (written (textEntries font (lines t) width) o).or
        (if s.Repaints frame t o then (frame (s.videoIx t))[o]? else fb[o]?) := by
  have hframe := hp.frame_length t
  have hmult := hp.multiple
  have hbound := hp.bound
  have hlt : o < (decodeOledFrame (s.frameAt frame font width lines t).toFrame fb width).2.length := by
    rw [length_decodeOledFrame]
    omega
  rw [decodeStamped_line hp t hlen, patch_get hlt]
  congr 1
  by_cases hkey : s.videoIx t % s.keyint = 0
  · rw [if_pos (.inl hkey)]
    obtain ⟨dirty, hdecode, -⟩ := decode_keyframe width 0 s.nextMs
      (show (frame (s.videoIx t)).length % 4 = 0 by omega)
      (show fb.length = (frame (s.videoIx t)).length by omega)
    have hanswer : (s.frameAt frame font width lines t).toFrame =
        { bitmap := (keyWords (frame (s.videoIx t))).map Int.ofNat, nextMs := s.nextMs,
          delta := false, n := 0 } := by
      simp [Screen.frameAt, frameInts, frameCount, hkey]
    rw [hanswer, hdecode]
  · have hpos : s.videoIx t ≠ 0 := by
      intro hzero
      rw [hzero, Nat.zero_mod] at hkey
      exact hkey rfl
    have hprevlen : (frame (s.videoIx t - 1)).length = fbLen := by
      refine hp.frames _ ?_
      have := Nat.mod_lt (t % 2 ^ 64) hp.encodes.nframes_pos
      unfold Screen.videoIx
      omega
    have hanswer : (s.frameAt frame font width lines t).toFrame =
        { bitmap := packEntries (diff (frame (s.videoIx t - 1)) (frame (s.videoIx t))),
          nextMs := s.nextMs, delta := true,
          n := (diff (frame (s.videoIx t - 1)) (frame (s.videoIx t))).length } := by
      simp [Screen.frameAt, frameInts, frameCount, hkey, packEntries]
    have hin : ∀ e ∈ diff (frame (s.videoIx t - 1)) (frame (s.videoIx t)), e.1 < fb.length := by
      intro e he
      have hlt' := (List.getElem?_eq_some_iff.1 (mem_diff he)).1
      omega
    have hpatch := (applyOverlay_pack hp.width_pos { full := false } hin (by omega)).1
    have hrepaint : s.Repaints frame t o ↔
        (frame (s.videoIx t - 1))[o]? ≠ (frame (s.videoIx t))[o]? := or_iff_right hkey
    rw [hanswer, decodeOledFrame]
    simp only [Bool.not_true, Bool.false_eq_true, if_false, hrepaint]
    rw [hpatch]
    exact patch_diff_get (by omega) (by omega) (by omega)

/-! ### A playback -/

theorem Screen.Played.length (hp : s.Played frame lines fbLen width) (hlen : fb.length = fbLen)
    (t : ℕ) : (s.session font width lines fb t).fb.length = fbLen := by
  induction t with
  | zero => exact hlen
  | succ t ih =>
      rw [(hp.encodes.session font width lines fb t).2, length_decodeStamped]
      exact ih

/-- **One byte of a playback.**  It is the video's with the current line on it, unless it is
left over. -/
theorem Screen.Played.byte_iff (hp : s.Played frame lines fbLen width)
    (hlen : fb.length = fbLen) {o : ℕ} (ho : o < fbLen) (t : ℕ) :
    (s.session font width lines fb (t + 1)).fb[o]? ≠
        (patch (frame (s.videoIx t)) (textEntries font (lines t) width))[o]? ↔
      s.Leftover frame font width lines t o := by
  let cell (t : ℕ) : Option UInt8 := (s.session font width lines fb (t + 1)).fb[o]?
  let clean (t : ℕ) : Option UInt8 := (frame (s.videoIx t))[o]?
  let stamp (t : ℕ) : Option (Option UInt8) :=
    (written (textEntries font (lines t) width) o).map some
  let repaint (t : ℕ) : Prop := s.Repaints frame t o
  have hgetD (t : ℕ) (x : Option UInt8) :
      (stamp t).getD x = (written (textEntries font (lines t) width) o).or x := by
    dsimp only [stamp]
    cases written (textEntries font (lines t) width) o <;> rfl
  have hcell (t : ℕ) : cell t = (stamp t).getD
      (if s.Repaints frame t o then clean t else (s.session font width lines fb t).fb[o]?) := by
    rw [hgetD]
    dsimp only [cell]
    rw [(hp.encodes.session font width lines fb t).2]
    exact hp.byte t (hp.length hlen t) ho
  have hwant : (patch (frame (s.videoIx t)) (textEntries font (lines t) width))[o]? =
      (stamp t).getD (clean t) := by
    rw [hgetD]
    exact patch_get (by rw [hp.frame_length t]; exact ho) _
  have hfirst : s.Repaints frame 0 o := by
    refine .inl ?_
    simp [Screen.videoIx]
  have hzero : cell 0 = (stamp 0).getD (clean 0) := by
    rw [hcell, if_pos hfirst]
  have hpaint : ∀ t, repaint (t + 1) →
      cell (t + 1) = (stamp (t + 1)).getD (clean (t + 1)) := by
    intro t hr
    rw [hcell, if_pos hr]
  have hkeep : ∀ t, ¬ repaint (t + 1) →
      clean (t + 1) = clean t ∧ cell (t + 1) = (stamp (t + 1)).getD (cell t) := by
    intro t hr
    have hpos : s.videoIx (t + 1) ≠ 0 := by
      intro hz
      refine hr (.inl ?_)
      rw [hz, Nat.zero_mod]
    have hsame : (frame (s.videoIx (t + 1) - 1))[o]? = (frame (s.videoIx (t + 1)))[o]? := by
      by_contra hne
      exact hr (.inr hne)
    refine ⟨?_, ?_⟩
    · dsimp only [clean]
      rw [videoIx_prev hpos]
      exact hsame.symm
    · rw [hcell, if_neg hr]
  have hiff := cell_ne_iff hzero hpaint hkeep t
  rw [hwant]
  refine hiff.trans ?_
  have hstamp (j : ℕ) : (∃ b, stamp j = some b ∧ b ≠ clean j) ↔
      ∃ b, written (textEntries font (lines j) width) o = some b ∧
        (frame (s.videoIx j))[o]? ≠ some b := by
    dsimp only [stamp, clean]
    cases written (textEntries font (lines j) width) o with
    | none => simp
    | some b => simp [eq_comm]
  have hnone (k : ℕ) : stamp k = none ↔ written (textEntries font (lines k) width) o = none :=
    Option.map_eq_none_iff
  simp only [hstamp, hnone]
  rfl

/-- A blob that is emitted and lines on its panel. -/
theorem played_of_emitDelta {keyint : ℕ} {blob : List UInt8} (h : emitDelta keyint blob = .ok s)
    (hpage : ∀ t, (lines t).page < blobHeight blob / 8) :
    s.Played (blobFrame blob) lines (blobFbLen blob) (blobWidth blob) := by
  obtain ⟨hs, hacc⟩ := emitDelta_encodes h
  refine ⟨hs, hacc.width_pos, hacc.multiple, hacc.bound, hacc.frames, fun t => ?_⟩
  calc (lines t).page * blobWidth blob + blobWidth blob
      = blobWidth blob * ((lines t).page + 1) := by ring
    _ ≤ blobWidth blob * (blobHeight blob / 8) := Nat.mul_le_mul_left _ (hpage t)

/-- **When a text lasts one frame.**  For every clip the encoder accepts, every line of every
render and any framebuffer: after render `t` the framebuffer is the video frame with only the
line of render `t` stamped on it if and only if no byte is left over from an earlier line. -/
theorem overlay_lasts_one_frame_iff (font : FontData) {keyint : ℕ} {blob : List UInt8}
    {s : Screen} {lines : ℕ → Line} {fb : List UInt8} (h : emitDelta keyint blob = .ok s)
    (hpage : ∀ t, (lines t).page < blobHeight blob / 8) (hlen : fb.length = blobFbLen blob)
    (t : ℕ) :
    (s.session font (blobWidth blob) lines fb (t + 1)).fb =
        (applyOverlay (renderText font (lines t) (blobWidth blob)).overlay
          (renderText font (lines t) (blobWidth blob)).overlayN (blobFrame blob (s.videoIx t))
          (blobWidth blob) {}).2 ↔
      ∀ o < blobFbLen blob, ¬ s.Leftover (blobFrame blob) font (blobWidth blob) lines t o := by
  have hp := played_of_emitDelta h hpage
  have hfb : (s.session font (blobWidth blob) lines fb (t + 1)).fb.length = blobFbLen blob :=
    hp.length hlen (t + 1)
  have hvideo := hp.frame_length t
  rw [stamp_line hp t hvideo]
  constructor
  · intro heq o ho
    rw [← hp.byte_iff hlen ho t, heq]
    exact not_not.2 rfl
  · intro hnone
    apply List.ext_getElem?
    intro o
    by_cases ho : o < blobFbLen blob
    · by_contra hne
      exact hnone o ho ((hp.byte_iff hlen ho t).1 hne)
    · rw [List.getElem?_eq_none (by omega), List.getElem?_eq_none]
      rw [length_patch]
      omega

/-- Two white frames on a panel of one page. -/
def whiteBlob : List UInt8 := blobOf 72 8 [List.replicate 72 255, List.replicate 72 255]

/-- ... and their screen: the second frame is a delta without entries. -/
def whiteScreen : Screen :=
  { data := List.replicate 18 4294967295, starts := [0, 18, 18], ns := [0, 0], nframes := 2,
    keyint := 60, nextMs := 100 }

theorem whiteBlob_emitted : emitDelta 60 whiteBlob = .ok whiteScreen := by decide +kernel

/-- The rate falls from 100 to 99, and the text loses its last character. -/
def slowing (t : ℕ) : Line :=
  if t = 0 then hud ⟨0, Nat.two_pos⟩ 100 8 else hud ⟨0, Nat.two_pos⟩ 99 8

theorem slowing_page (t : ℕ) : (slowing t).page < blobHeight whiteBlob / 8 := by
  have hheight : blobHeight whiteBlob / 8 = 1 := by decide
  rw [hheight, slowing]
  split <;> decide

/-- **The end of a longer text stays**, with any glyphs: the gap after its last character
keeps a black column in the white frame that follows. -/
theorem longer_text_stays :
    ¬ ∃ font : FontData, ∀ (keyint : ℕ) (blob : List UInt8) (s : Screen) (lines : ℕ → Line)
      (fb : List UInt8) (t : ℕ), emitDelta keyint blob = .ok s →
      (∀ t, (lines t).page < blobHeight blob / 8) → fb.length = blobFbLen blob →
      (s.session font (blobWidth blob) lines fb (t + 1)).fb =
        (applyOverlay (renderText font (lines t) (blobWidth blob)).overlay
          (renderText font (lines t) (blobWidth blob)).overlayN (blobFrame blob (s.videoIx t))
          (blobWidth blob) {}).2 := by
  intro hfont
  obtain ⟨font, hall⟩ := hfont
  have hblank : (List.replicate 72 (0 : UInt8)).length = blobFbLen whiteBlob := by decide
  have hp := played_of_emitDelta whiteBlob_emitted slowing_page
  have heq := hall 60 whiteBlob whiteScreen slowing (List.replicate 72 0) 1 whiteBlob_emitted
    slowing_page hblank
  rw [stamp_line hp 1 (hp.frame_length 1)] at heq
  have hgap : written (textEntries font (slowing 0) (blobWidth whiteBlob)) 71 = some 0 := rfl
  have hshort : written (textEntries font (slowing 1) (blobWidth whiteBlob)) 71 = none := rfl
  have hwhite : (blobFrame whiteBlob (whiteScreen.videoIx 0))[71]? ≠ some 0 := by decide +kernel
  have hdelta : ¬ whiteScreen.Repaints (blobFrame whiteBlob) 1 71 := by decide +kernel
  have hleft : whiteScreen.Leftover (blobFrame whiteBlob) font (blobWidth whiteBlob) slowing 1 71 := by
    refine ⟨0, Nat.one_pos, ⟨0, hgap, hwhite⟩, fun k hk hle => ?_⟩
    obtain rfl : k = 1 := by omega
    exact ⟨hshort, hdelta⟩
  have ho : 71 < blobFbLen whiteBlob := by decide
  exact (hp.byte_iff hblank ho 1).2 hleft (congrArg (fun l => l[71]?) heq)

/-- A font of blank glyphs. -/
def blankFont : FontData where
  glyphs := fun _ => some (List.replicate 8 0)
  rows := by
    intro code g h
    cases h
    rfl
  space := rfl

/-- The first render of the white clip, where nothing can be left over. -/
theorem overlay_lasts_one_frame_iff_white :
    (whiteScreen.session blankFont (blobWidth whiteBlob) slowing (List.replicate 72 0) 1).fb =
        (applyOverlay (renderText blankFont (slowing 0) (blobWidth whiteBlob)).overlay
          (renderText blankFont (slowing 0) (blobWidth whiteBlob)).overlayN
          (blobFrame whiteBlob (whiteScreen.videoIx 0)) (blobWidth whiteBlob) {}).2 ↔
      ∀ o < blobFbLen whiteBlob,
        ¬ whiteScreen.Leftover (blobFrame whiteBlob) blankFont (blobWidth whiteBlob) slowing 0 o :=
  overlay_lasts_one_frame_iff blankFont whiteBlob_emitted slowing_page (by decide) 0

/-! ### Texts of one length -/

theorem written_eq_none_iff {α : Type*} {es : List (ℕ × α)} {k : ℕ} :
    written es k = none ↔ k ∉ es.map Prod.fst := by
  induction es with
  | nil => simp [written]
  | cons e es ih =>
      have hhead : (if e.1 = k then some e.2 else none) = none ↔ k ≠ e.1 := by
        by_cases he : e.1 = k
        · simp [he]
        · simp [he, Ne.symm he]
      rw [written, Option.or_eq_none_iff, ih, hhead, List.map_cons, List.mem_cons, not_or,
        and_comm]

/-- Where a text is depends on its length only. -/
theorem textEntries_offsets (font : FontData) {line line' : Line} (width : ℕ)
    (htext : line.text.length = line'.text.length) (hx : line.x = line'.x)
    (hpage : line.page = line'.page) :
    (textEntries font line width).map Prod.fst = (textEntries font line' width).map Prod.fst := by
  have hcols (l : Line) : (textEntries font l width).map Prod.fst =
      (((font.cells l).map Prod.fst).filter fun c => 0 ≤ c ∧ c < (width : ℤ)).map fun c =>
        l.page * width + c.toNat := by
    simp only [textEntries, FontData.es, List.map_map, List.filter_map]
    rfl
  have hcells : (font.cells line).map Prod.fst = (font.cells line').map Prod.fst := by
    simp only [FontData.cells, List.map_flatMap, List.map_map, htext, hx]
    rfl
  rw [hcols, hcols, hcells, hpage]

/-- **Texts of one length** in one place leave nothing: each covers the one before. -/
theorem no_leftover_of_length (font : FontData) (width : ℕ)
    (hsame : ∀ j k, (lines j).text.length = (lines k).text.length ∧ (lines j).x = (lines k).x ∧
      (lines j).page = (lines k).page) (t o : ℕ) :
    ¬ s.Leftover frame font width lines t o := by
  intro hleft
  obtain ⟨j, hj, ⟨b, hb, -⟩, hlast⟩ := hleft
  obtain ⟨htext, hx, hpage⟩ := hsame j t
  have hnone := (hlast t hj le_rfl).1
  rw [written_eq_none_iff, ← textEntries_offsets font width htext hx hpage,
    ← written_eq_none_iff, hb] at hnone
  cases hnone

/-- Below 100 frames a second the screen's own text has one length. -/
theorem hud_length (backend : Fin 2) {fps : ℕ} (height : ℕ) (h : fps < 100) :
    (hud backend fps height).text.length = 11 := by
  have hname : ∀ backend : Fin 2, (backendName backend).length = 3 := by decide
  have hpad : (pad2 fps).length = 2 := by
    unfold pad2
    split
    · rename_i hlt
      rw [decimal_of_lt hlt]
      rfl
    · rename_i hge
      rw [decimal_of_le (by omega), decimal_of_lt (by omega)]
      rfl
  simp [hud, hname backend, hpad]

/-- So below that rate it never leaves anything. -/
theorem hud_leaves_nothing (font : FontData) (width height : ℕ) {backend : ℕ → Fin 2}
    {fps : ℕ → ℕ} (h : ∀ t, fps t < 100) (t o : ℕ) :
    ¬ s.Leftover frame font width (fun t => hud (backend t) (fps t) height) t o := by
  refine no_leftover_of_length font width (fun j k => ⟨?_, rfl, rfl⟩) t o
  rw [hud_length _ _ (h j), hud_length _ _ (h k)]

end BadgeOS.BadApple
