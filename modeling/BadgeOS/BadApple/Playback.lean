import BadgeOS.BadApple.EmitDelta
import Mathlib

/-!
# Bad Apple, played back

The emitted screen picks frame `mod frameIndex nframes`, slices its integers out of `data` and
says whether they are a delta; `decodeOledFrame` applies them to a framebuffer that keeps the
frame before.  Rendered in order from 0, whatever the framebuffer held, every render leaves
exactly the blob's frame: a keyframe replaces everything, and a delta follows the frame it was
made from, also across the end of the clip, since frame 0 is a keyframe.

* `Screen.apply`, `Screen.play` — the screen's expressions, and a playback;
* `play_exact` — the round trip.
-/

namespace BadgeOS.BadApple

open Packing Oled

/-- The screen's `mod`: Nix has no such builtin. -/
def mod (a b : ℕ) : ℕ := a - a / b * b

/-- The emitted lambda, applied at a frame index; `none` when a list is indexed past its
end. -/
def Screen.apply (s : Screen) (frameIndex : ℕ) : Option Frame := do
  let i := mod frameIndex s.nframes
  let isKey := mod i s.keyint == 0
  let start ← s.starts[i]?
  let next ← s.starts[i + 1]?
  let b ← (List.range (next - start)).mapM fun j => s.data[start + j]?
  let n ← s.ns[i]?
  return { bitmap := b.map Int.ofNat, nextMs := s.nextMs, delta := !isKey, n }

/-- The render of one frame index into the framebuffer `out`. -/
def Screen.render (s : Screen) (width frameIndex : ℕ) (out : List UInt8) :
    Option (Dirty × List UInt8) :=
  (s.apply frameIndex).map fun frame => decodeOledFrame frame out width

/-- The framebuffer before the render of frame index `t`, when 0, 1, 2, ... are rendered in
order from the framebuffer `out`. -/
def Screen.play (s : Screen) (width : ℕ) (out : List UInt8) : ℕ → Option (List UInt8)
  | 0 => some out
  | t + 1 => (s.play width out t).bind fun fb => (s.render width t fb).map Prod.snd

/-! ### One frame -/

theorem mod_eq (a b : ℕ) : mod a b = a % b := by
  have := Nat.div_add_mod a b
  rw [Nat.mul_comm] at this
  unfold mod
  omega

/-- `genList` of lookups that give the elements of `l` gives `l`. -/
theorem genList_eq {α : Type*} {f : ℕ → Option α} {l : List α}
    (h : ∀ j x, l[j]? = some x → f j = some x) : (List.range l.length).mapM f = some l := by
  induction l using List.reverseRecOn with
  | nil => rfl
  | append_singleton l x ih =>
      have hlast : f l.length = some x := h l.length x List.getElem?_concat_length
      have hinit : (List.range l.length).mapM f = some l := by
        refine ih fun j y hj => h j y ?_
        rw [List.getElem?_append_left (List.getElem?_eq_some_iff.1 hj).1]
        exact hj
      rw [List.length_append, List.length_singleton, List.range_succ, List.mapM_append, hinit]
      simp [hlast]

/-- The frame a screen answers: the integers and the count of frame `t % nframes`. -/
theorem Screen.Encodes.apply {s : Screen} {frame : ℕ → List UInt8} (hs : s.Encodes frame)
    (t : ℕ) :
    s.apply t = some
      { bitmap := (frameInts s.keyint frame (t % s.nframes)).map Int.ofNat, nextMs := s.nextMs,
        delta := !(t % s.nframes % s.keyint == 0),
        n := frameCount s.keyint frame (t % s.nframes) } := by
  have hi : t % s.nframes < s.nframes := Nat.mod_lt _ hs.nframes_pos
  generalize hk : t % s.nframes = i at hi
  have hget : (parts s.keyint s.nframes frame)[i]? = some (frameInts s.keyint frame i) :=
    parts_get hi
  have hstart : s.starts[i]? = some (start (parts s.keyint s.nframes frame) i) := by
    rw [hs.starts]
    simp [show i < s.nframes + 1 by omega]
  have hnext : s.starts[i + 1]? = some (start (parts s.keyint s.nframes frame) i +
      (frameInts s.keyint frame i).length) := by
    rw [hs.starts, ← start_succ hget]
    simp [hi]
  have hn : s.ns[i]? = some (frameCount s.keyint frame i) := by
    rw [hs.ns]
    simp [hi]
  have hslice : (List.range (frameInts s.keyint frame i).length).mapM (fun j =>
      s.data[start (parts s.keyint s.nframes frame) i + j]?) =
      some (frameInts s.keyint frame i) := by
    apply genList_eq
    intro j x hj
    rw [hs.data, flatten_start hget (List.getElem?_eq_some_iff.1 hj).1]
    exact hj
  simp only [Screen.apply, mod_eq, hk, hstart, hnext, hn, Nat.add_sub_cancel_left, hslice,
    Option.bind_eq_bind, Option.bind_some]
  rfl

/-- Two framebuffers differ in column `col` of page `page`. -/
def Changed (width : ℕ) (prev cur : List UInt8) (page col : ℕ) : Prop :=
  col < width ∧ prev[page * width + col]? ≠ cur[page * width + col]?

/-- A keyframe, over any framebuffer of its length. -/
theorem decode_keyframe (width n : ℕ) (nextMs : ℤ) {fb out : List UInt8}
    (h4 : fb.length % 4 = 0) (hlen : out.length = fb.length) :
    ∃ dirty, decodeOledFrame
      { bitmap := (keyWords fb).map Int.ofNat, nextMs, delta := false, n } out width = (dirty, fb) ∧
      dirty.full = true := by
  obtain ⟨hbytes, hwords⟩ := wordBytes_keyWords h4
  have hsize : ((keyWords fb).map Int.ofNat).length * 4 = out.length := by
    rw [List.length_map, hwords, hlen]
  have hfull := decodeOled_full hsize
  refine ⟨{ full := true }, ?_, rfl⟩
  rw [hbytes] at hfull
  exact Prod.ext rfl hfull

/-- A delta, over the frame it was made from. -/
theorem decode_delta (nextMs : ℤ) {prev fb : List UInt8} {width : ℕ} (hw : 0 < width)
    (hlen : prev.length = fb.length) (hmax : prev.length ≤ 1024) :
    ∃ dirty, decodeOledFrame
      { bitmap := (pairs (2 ^ 18) ((diff prev fb).map entryCode)).map Int.ofNat, nextMs,
        delta := true, n := (diff prev fb).length } prev width = (dirty, fb) ∧
      (width ≤ 128 → ∀ page col, page < Dirty.maxPages → Changed width prev fb page col →
        dirty.Covers page col) := by
  have hin : ∀ e ∈ diff prev fb, e.1 < prev.length := by
    intro e he
    rw [hlen]
    exact (List.getElem?_eq_some_iff.1 (mem_diff he)).1
  obtain ⟨hout, hmark⟩ := applyOverlay_pack hw { full := false } hin hmax
  rw [patch_diff hlen] at hout
  refine ⟨_, Prod.ext rfl hout, ?_⟩
  intro hw128 page col hpage hchanged
  -- the changed byte has an entry, at its offset
  have hk : page * width + col < fb.length := by
    by_contra hge
    refine hchanged.2 ?_
    rw [List.getElem?_eq_none (by omega), List.getElem?_eq_none (by omega)]
  have hp := List.getElem?_eq_getElem (hlen ▸ hk : page * width + col < prev.length)
  have hc := List.getElem?_eq_getElem hk
  have hne : fb[page * width + col] ≠ prev[page * width + col] := by
    intro heq
    refine hchanged.2 ?_
    rw [hp, hc, heq]
  have he := diff_complete hp hc hne
  have hdiv : (page * width + col) / width = page := by
    rw [Nat.mul_comm, Nat.mul_add_div hw, Nat.div_eq_of_lt hchanged.1, Nat.add_zero]
  have hmod : (page * width + col) % width = col := by
    rw [Nat.mul_comm, Nat.mul_add_mod, Nat.mod_eq_of_lt hchanged.1]
  have hcover := hmark _ he
  rw [hdiv, hmod] at hcover
  exact hcover hpage (hchanged.1.trans_le hw128)

/-! ### A playback -/

/-- **One render.**  Over the frame before it in the clip, or over anything for frame 0. -/
theorem Screen.Encodes.render {s : Screen} {frame : ℕ → List UInt8} (hs : s.Encodes frame)
    {fbLen width t : ℕ} {out : List UInt8} (hw : 0 < width) (h4 : fbLen % 4 = 0)
    (hmax : fbLen ≤ 1024) (hframes : ∀ k < s.nframes, (frame k).length = fbLen)
    (hlen : out.length = fbLen) (hprev : t % s.nframes ≠ 0 → out = frame (t % s.nframes - 1)) :
    ∃ dirty, s.render width t out = some (dirty, frame (t % s.nframes)) ∧
      (width ≤ 128 → dirty.full = true ∨ ∀ page col, page < Dirty.maxPages →
        Changed width out (frame (t % s.nframes)) page col → dirty.Covers page col) := by
  have hi : t % s.nframes < s.nframes := Nat.mod_lt _ hs.nframes_pos
  have happly := hs.apply t
  unfold Screen.render
  rw [happly, Option.map_some]
  generalize t % s.nframes = i at *
  have hfb := hframes i hi
  by_cases hkey : i % s.keyint = 0
  · rw [frameInts, frameCount, if_pos hkey, if_pos hkey, hkey]
    obtain ⟨dirty, hdecode, hfull⟩ := decode_keyframe width 0 s.nextMs
      (show (frame i).length % 4 = 0 by omega) (show out.length = (frame i).length by omega)
    exact ⟨dirty, congrArg some hdecode, fun _ => .inl hfull⟩
  · have hpos : i ≠ 0 := by
      intro heq
      subst heq
      simp at hkey
    obtain rfl := hprev hpos
    have hbeq : (i % s.keyint == 0) = false := by simpa using hkey
    rw [frameInts, frameCount, if_neg hkey, if_neg hkey, hbeq]
    obtain ⟨dirty, hdecode, hcover⟩ := decode_delta s.nextMs hw
      (show (frame (i - 1)).length = (frame i).length by omega) (by omega)
    exact ⟨dirty, congrArg some hdecode, fun h128 => .inr (hcover h128)⟩

/-- The frame before frame index `t + 1` in the clip is the one that index `t` shows. -/
theorem prev_frame {t n : ℕ} (h : (t + 1) % n ≠ 0) : t % n = (t + 1) % n - 1 := by
  rcases Nat.eq_zero_or_pos n with rfl | hn
  · simp
  · have hdiv := Nat.div_add_mod (t + 1) n
    have hlt := Nat.mod_lt (t + 1) hn
    have ht : t = n * ((t + 1) / n) + ((t + 1) % n - 1) := by omega
    calc t % n = (n * ((t + 1) / n) + ((t + 1) % n - 1)) % n := by rw [← ht]
      _ = ((t + 1) % n - 1) % n := Nat.mul_add_mod ..
      _ = (t + 1) % n - 1 := Nat.mod_eq_of_lt (by omega)

/-- The framebuffer of a playback: the frame shown last, once there is one. -/
theorem Screen.Encodes.play {s : Screen} {frame : ℕ → List UInt8} (hs : s.Encodes frame)
    {fbLen width : ℕ} {out : List UInt8} (hw : 0 < width) (h4 : fbLen % 4 = 0)
    (hmax : fbLen ≤ 1024) (hframes : ∀ k < s.nframes, (frame k).length = fbLen)
    (hlen : out.length = fbLen) (t : ℕ) :
    ∃ fb, s.play width out t = some fb ∧ fb.length = fbLen ∧
      (t % s.nframes ≠ 0 → fb = frame (t % s.nframes - 1)) := by
  induction t with
  | zero => exact ⟨out, rfl, hlen, fun h => absurd (Nat.zero_mod _) h⟩
  | succ t ih =>
      obtain ⟨fb, hplay, hfb, hprev⟩ := ih
      obtain ⟨dirty, hrender, -⟩ := hs.render hw h4 hmax hframes hfb hprev
      refine ⟨frame (t % s.nframes), ?_, hframes _ (Nat.mod_lt _ hs.nframes_pos), ?_⟩
      · rw [Screen.play, hplay, Option.bind_some, hrender]
        rfl
      · intro hne
        rw [prev_frame hne]

/-- **Round trip.**  For every blob the encoder accepts and every keyframe interval, a
playback from any framebuffer renders at every frame index `t`, and leaves exactly frame
`t % nframes` of the blob; on a panel of at most 128 columns the dirty region is full or has
every column of its 8 pages that changed. -/
theorem play_exact {keyint : ℕ} {blob : List UInt8} {s : Screen}
    (h : emitDelta keyint blob = .ok s) {out : List UInt8} (hlen : out.length = blobFbLen blob)
    (t : ℕ) :
    ∃ fb dirty, s.play (blobWidth blob) out t = some fb ∧
      s.render (blobWidth blob) t fb = some (dirty, blobFrame blob (t % s.nframes)) ∧
      (blobWidth blob ≤ 128 → dirty.full = true ∨ ∀ page col, page < Dirty.maxPages →
        Changed (blobWidth blob) fb (blobFrame blob (t % s.nframes)) page col →
        dirty.Covers page col) := by
  obtain ⟨hs, hacc⟩ := emitDelta_encodes h
  obtain ⟨fb, hplay, hfb, hprev⟩ :=
    hs.play hacc.width_pos hacc.multiple hacc.bound hacc.frames hlen t
  obtain ⟨dirty, hrender, hcover⟩ :=
    hs.render hacc.width_pos hacc.multiple hacc.bound hacc.frames hfb hprev
  exact ⟨fb, dirty, hplay, hrender, hcover⟩

/-- A blob of `frames`, at 10 frames a second. -/
def blobOf (width height : UInt8) (frames : List (List UInt8)) : List UInt8 :=
  magic ++ [width, 0, height, 0, 10, 0, 0, 0, UInt8.ofNat frames.length, 0, 0, 0] ++ frames.flatten

/-- Two frames of four columns that differ in two bytes: the second is a delta. -/
def shortBlob : List UInt8 := blobOf 4 8 [[1, 2, 3, 4], [1, 9, 3, 8]]

/-- ... and its screen. -/
def shortScreen : Screen :=
  { data := [67305985, (1 * 256 + 9) * 262144 + (3 * 256 + 8)], starts := [0, 1, 2],
    ns := [0, 2], nframes := 2, keyint := 2, nextMs := 100 }

/-- The short clip, its second frame once more after the wrap. -/
theorem play_exact_short :
    ∃ fb dirty, shortScreen.play (blobWidth shortBlob) [7, 7, 7, 7] 3 = some fb ∧
      shortScreen.render (blobWidth shortBlob) 3 fb =
        some (dirty, blobFrame shortBlob (3 % shortScreen.nframes)) ∧
      (blobWidth shortBlob ≤ 128 → dirty.full = true ∨ ∀ page col, page < Dirty.maxPages →
        Changed (blobWidth shortBlob) fb (blobFrame shortBlob (3 % shortScreen.nframes)) page col →
        dirty.Covers page col) :=
  play_exact (show emitDelta 2 shortBlob = .ok shortScreen by rfl) (by decide) 3

/-- Two frames of nine pages: a byte of the last page, which `Dirty` does not have, changes. -/
def tallBlob : List UInt8 :=
  blobOf 4 72 [List.replicate 36 0, List.replicate 32 0 ++ [1, 0, 0, 0]]

/-- ... and its screen. -/
def tallScreen : Screen :=
  { data := List.replicate 9 0 ++ [(32 * 256 + 1) * 262144], starts := [0, 9, 10],
    ns := [0, 1], nframes := 2, keyint := 2, nextMs := 100 }

/-- **Pages past the eighth are not marked**, so the dirty region of a taller clip can be
neither full nor have every changed column. -/
theorem pages_past_the_eighth :
    ¬ ∀ (keyint : ℕ) (blob : List UInt8) (s : Screen) (out : List UInt8) (t : ℕ),
      emitDelta keyint blob = .ok s → out.length = blobFbLen blob →
      ∃ fb dirty, s.play (blobWidth blob) out t = some fb ∧
        s.render (blobWidth blob) t fb = some (dirty, blobFrame blob (t % s.nframes)) ∧
        (blobWidth blob ≤ 128 → dirty.full = true ∨ ∀ page col,
          Changed (blobWidth blob) fb (blobFrame blob (t % s.nframes)) page col →
          dirty.Covers page col) := by
  intro h
  obtain ⟨fb, dirty, hplay, hrender, hcover⟩ :=
    h 2 tallBlob tallScreen (List.replicate 36 0) 1 (by rfl) (by decide)
  have hfb : tallScreen.play (blobWidth tallBlob) (List.replicate 36 0) 1 =
      some (List.replicate 36 0) := by decide
  obtain rfl : List.replicate 36 0 = fb := Option.some.inj (hfb.symm.trans hplay)
  have hsome_pages : dirty.full = false := by
    have hr := congrArg (Option.map fun r => r.1.full) hrender
    exact (Option.some.inj hr).symm
  rcases hcover (by decide) with hfull | hall
  · rw [hsome_pages] at hfull
    cases hfull
  · rcases hall 8 0 (by unfold Changed; decide) with hfull | ⟨hpage, -⟩
    · rw [hsome_pages] at hfull
      cases hfull
    · exact absurd hpage (by decide)

end BadgeOS.BadApple
