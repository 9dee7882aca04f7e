import BadgeOS.Oled.Eval

/-!
# The Bad Apple encoder

`emit_delta.c` reads a "BADA" blob and prints it as a Nix screen: every frame's integers in one
list `data`, with `starts` and `ns` to find and to read them.  Frame `f` is a keyframe when
`f % keyint == 0`, and else the changes from the frame before it.  A printed list is a list
here, and a numeral a number.

* `emitDelta` — the program;
* `Screen.Encodes` — what an emitted screen is: frame by frame, keyframe words or packed
  differences, cut by running offsets;
* `emitDelta_encodes` — every screen it emits is that.
-/

namespace BadgeOS.BadApple

open Packing Oled

/-! ### The program -/

/-- The refusals of `main`, with the numbers of their messages. -/
inductive EmitError
  | badInterval
  | shortHeader
  | notBada
  | badHeader (width height fps frames : ℕ)
  | notMultipleOf4 (fbLen : ℕ)
  | tooLong (fbLen : ℕ)
  | shortFrame (f got fbLen : ℕ)
  | trailing (frames : ℕ)
  deriving DecidableEq, Repr

/-- The emitted lists and numbers. -/
structure Screen where
  data : List ℕ
  starts : List ℕ
  ns : List ℕ
  nframes : ℕ
  keyint : ℕ
  nextMs : ℕ
  deriving DecidableEq, Repr

/-- `rd_u16`. -/
def rdU16 : List UInt8 → ℕ
  | p0 :: p1 :: _ => p0.toNat ||| p1.toNat <<< 8
  | _ => 0

/-- `rd_u32`. -/
def rdU32 : List UInt8 → ℕ
  | p0 :: p1 :: p2 :: p3 :: _ =>
      p0.toNat ||| p1.toNat <<< 8 ||| p2.toNat <<< 16 ||| p3.toNat <<< 24
  | _ => 0

/-- One integer of a keyframe. -/
def keyWord (b0 b1 b2 b3 : UInt8) : ℕ :=
  b0.toNat ||| b1.toNat <<< 8 ||| b2.toNat <<< 16 ||| b3.toNat <<< 24

/-- The integers of a keyframe. -/
def keyWords : List UInt8 → List ℕ
  | b0 :: b1 :: b2 :: b3 :: fb => keyWord b0 b1 b2 b3 :: keyWords fb
  | _ => []

/-- The first pass of a delta frame: how many bytes changed. -/
def countChanges : List UInt8 → List UInt8 → ℕ
  | p :: prev, b :: fb => if b ≠ p then countChanges prev fb + 1 else countChanges prev fb
  | _, _ => 0

/-- The second pass, from byte `i` on, with the entry that waits for its partner. -/
def packChanges : (i : ℕ) → (prev fb : List UInt8) → (hi : Option ℕ) → List ℕ
  | i, p :: prev, b :: fb, hi =>
      if b = p then packChanges (i + 1) prev fb hi
      else
        let e := i * 256 + b.toNat
        match hi with
        | none => packChanges (i + 1) prev fb (some e)
        | some h => (h * 262144 + e) :: packChanges (i + 1) prev fb none
  | _, _, _, some h => [h * 262144]
  | _, _, _, none => []

/-- What the frame loop has so far.  `prev` is not read before the first frame. -/
structure Enc where
  prev : List UInt8
  cursor : ℕ
  data : List ℕ
  starts : List ℕ
  ns : List ℕ

/-- One turn of the frame loop, with the frame it read. -/
def encodeFrame (keyint f : ℕ) (fb : List UInt8) (st : Enc) : Enc :=
  if f % keyint = 0 then
    { prev := fb, cursor := st.cursor + fb.length / 4, data := st.data ++ keyWords fb,
      starts := st.starts ++ [st.cursor], ns := st.ns ++ [0] }
  else
    let count := countChanges st.prev fb
    { prev := fb, cursor := st.cursor + (count + 1) / 2,
      data := st.data ++ packChanges 0 st.prev fb none,
      starts := st.starts ++ [st.cursor], ns := st.ns ++ [count] }

/-- The frame loop from frame `f` on. -/
def encodeFrames (keyint fbLen : ℕ) : (remaining f : ℕ) → Enc → List UInt8 →
    Except EmitError (Enc × List UInt8)
  | 0, _, st, stdin => .ok (st, stdin)
  | remaining + 1, f, st, stdin =>
      let fb := stdin.take fbLen
      if fb.length ≠ fbLen then .error (.shortFrame f fb.length fbLen)
      else encodeFrames keyint fbLen remaining (f + 1) (encodeFrame keyint f fb st)
        (stdin.drop fbLen)

/-- The magic of a blob, `"BADA"`. -/
def magic : List UInt8 := [0x42, 0x41, 0x44, 0x41]

/-- `main`, with its keyframe interval and its standard input. -/
def emitDelta (keyint : ℕ) (stdin : List UInt8) : Except EmitError Screen :=
  if keyint = 0 then .error .badInterval
  else
    let header := stdin.take 16
    if header.length ≠ 16 then .error .shortHeader
    else if header.take 4 ≠ magic then .error .notBada
    else
      let width := rdU16 (header.drop 4)
      let height := rdU16 (header.drop 6)
      let fps := rdU16 (header.drop 8)
      let frames := rdU32 (header.drop 12)
      if width = 0 ∨ height = 0 ∨ height % 8 ≠ 0 ∨ fps = 0 ∨ frames = 0 then
        .error (.badHeader width height fps frames)
      else
        let fbLen := width * (height / 8)
        if fbLen % 4 ≠ 0 then .error (.notMultipleOf4 fbLen)
        else if 1024 < fbLen then .error (.tooLong fbLen)
        else
          match encodeFrames keyint fbLen frames 0 ⟨[], 0, [], [], []⟩ (stdin.drop 16) with
          | .error e => .error e
          | .ok (st, rest) =>
              if rest ≠ [] then .error (.trailing frames)
              else
                .ok { data := st.data, starts := st.starts ++ [st.cursor], ns := st.ns,
                      nframes := frames, keyint,
                      nextMs := if 1000 / fps = 0 then 1 else 1000 / fps }

/-! ### Passes -/

theorem keyWord_eq (b0 b1 b2 b3 : UInt8) :
    keyWord b0 b1 b2 b3 = b0.toNat + 2 ^ 8 * b1.toNat + 2 ^ 16 * b2.toNat + 2 ^ 24 * b3.toNat := by
  have h0 : b0.toNat < 2 ^ 8 := b0.toNat_lt
  have h1 := b1.toNat_lt
  have h2 := b2.toNat_lt
  have hor (k a b : ℕ) (h : b < 2 ^ k) : b ||| a <<< k = b + 2 ^ k * a := by
    rw [Nat.or_comm, ← Nat.shiftLeft_add_eq_or_of_lt h, Nat.shiftLeft_eq,
      Nat.mul_comm, Nat.add_comm]
  rw [keyWord, hor 8 _ _ h0, hor 16 _ _ (by omega), hor 24 _ _ (by omega)]

/-- Keyframe words are the frame, four bytes each. -/
theorem wordBytes_keyWords {fb : List UInt8} (h : fb.length % 4 = 0) :
    ((keyWords fb).map Int.ofNat).flatMap wordBytes = fb ∧
      (keyWords fb).length * 4 = fb.length := by
  induction fb using keyWords.induct with
  | case1 b0 b1 b2 b3 fb ih =>
      obtain ⟨hbytes, hlen⟩ := ih (by simp only [List.length_cons] at h; omega)
      rw [keyWords, List.map_cons, List.flatMap_cons, hbytes, keyWord_eq]
      refine ⟨?_, ?_⟩
      · rw [show Int.ofNat _ = ((_ : ℕ) : ℤ) from rfl, wordBytes_le]
        rfl
      · simp only [List.length_cons]
        omega
  | case2 fb hshort =>
      match fb, hshort with
      | [], _ => exact ⟨rfl, rfl⟩
      | [_], _ | [_, _], _ | [_, _, _], _ => simp at h
      | b0 :: b1 :: b2 :: b3 :: fb, hshort => exact absurd rfl (hshort b0 b1 b2 b3 fb)

theorem countChanges_eq (i : ℕ) (prev fb : List UInt8) :
    countChanges prev fb = (diffFrom i prev fb).length := by
  induction prev generalizing i fb with
  | nil => cases fb <;> rfl
  | cons p prev ih =>
      cases fb with
      | nil => rfl
      | cons b fb =>
          by_cases hb : b = p
          · simp [countChanges, diffFrom, hb, ih (i + 1) fb]
          · simp [countChanges, diffFrom, hb, ih (i + 1) fb]

/-- The second pass packs the entries of the difference, after the one that waits. -/
theorem packChanges_eq (i : ℕ) (prev fb : List UInt8) (hi : Option ℕ) :
    packChanges i prev fb hi =
      pairs (2 ^ 18) (hi.toList ++ (diffFrom i prev fb).map entryCode) := by
  induction prev generalizing i fb hi with
  | nil => cases fb <;> cases hi <;> simp [packChanges, diffFrom, pairs]
  | cons p prev ih =>
      cases fb with
      | nil => cases hi <;> simp [packChanges, diffFrom, pairs]
      | cons b fb =>
          by_cases hb : b = p
          · simp [packChanges, diffFrom, hb, ih]
          · cases hi <;> simp [packChanges, diffFrom, hb, ih, pairs, entryCode]

/-! ### What a screen encodes -/

/-- The integers of frame `k`. -/
def frameInts (keyint : ℕ) (frame : ℕ → List UInt8) (k : ℕ) : List ℕ :=
  if k % keyint = 0 then keyWords (frame k)
  else pairs (2 ^ 18) ((diff (frame (k - 1)) (frame k)).map entryCode)

/-- The entry count of frame `k`. -/
def frameCount (keyint : ℕ) (frame : ℕ → List UInt8) (k : ℕ) : ℕ :=
  if k % keyint = 0 then 0 else (diff (frame (k - 1)) (frame k)).length

/-- The integers of all frames, frame by frame. -/
def parts (keyint n : ℕ) (frame : ℕ → List UInt8) : List (List ℕ) :=
  (List.range n).map (frameInts keyint frame)

/-- `s` is the encoding of the frames `frame 0`, ..., `frame (s.nframes - 1)`. -/
structure Screen.Encodes (s : Screen) (frame : ℕ → List UInt8) : Prop where
  nframes_pos : 0 < s.nframes
  keyint_pos : 0 < s.keyint
  data : s.data = (parts s.keyint s.nframes frame).flatten
  starts : s.starts = (List.range (s.nframes + 1)).map (start (parts s.keyint s.nframes frame))
  ns : s.ns = (List.range s.nframes).map (frameCount s.keyint frame)

/-- The state of the frame loop before frame `f` of `n`. -/
structure Enc.Before (keyint n : ℕ) (frame : ℕ → List UInt8) (f : ℕ) (st : Enc) : Prop where
  prev : 0 < f → st.prev = frame (f - 1)
  cursor : st.cursor = start (parts keyint n frame) f
  data : st.data = ((parts keyint n frame).take f).flatten
  starts : st.starts = (List.range f).map (start (parts keyint n frame))
  ns : st.ns = (List.range f).map (frameCount keyint frame)

theorem parts_get {keyint n k : ℕ} {frame : ℕ → List UInt8} (h : k < n) :
    (parts keyint n frame)[k]? = some (frameInts keyint frame k) := by
  simp [parts, h]

theorem Enc.Before.step {keyint n f : ℕ} {frame : ℕ → List UInt8} {st : Enc}
    (hst : st.Before keyint n frame f) (hf : f < n) (hlen : (frame f).length % 4 = 0) :
    (encodeFrame keyint f (frame f) st).Before keyint n frame (f + 1) := by
  have hget : (parts keyint n frame)[f]? = some (frameInts keyint frame f) := parts_get hf
  have htake : ((parts keyint n frame).take (f + 1)).flatten =
      ((parts keyint n frame).take f).flatten ++ frameInts keyint frame f := by
    rw [List.take_add_one, hget]
    simp
  have hstart := start_succ hget
  unfold encodeFrame
  by_cases hkey : f % keyint = 0
  · have hwords := (wordBytes_keyWords hlen).2
    rw [if_pos hkey]
    simp only [frameInts, if_pos hkey] at htake hstart
    refine ⟨fun _ => rfl, ?_, ?_, ?_, ?_⟩
    · rw [hstart, hst.cursor]
      dsimp only
      omega
    · rw [htake, hst.data]
    · rw [List.range_succ, List.map_append, hst.starts, hst.cursor]
      rfl
    · rw [List.range_succ, List.map_append, hst.ns]
      simp [frameCount, hkey]
  · -- not frame 0, so the frame before it was read
    have hpos : 0 < f := by
      rcases Nat.eq_zero_or_pos f with rfl | hpos
      · simp at hkey
      · exact hpos
    have hprev := hst.prev hpos
    have hcount : countChanges st.prev (frame f) = (diff (frame (f - 1)) (frame f)).length := by
      rw [hprev, countChanges_eq 0]
      rfl
    have hpack : packChanges 0 st.prev (frame f) none =
        pairs (2 ^ 18) ((diff (frame (f - 1)) (frame f)).map entryCode) := by
      rw [hprev, packChanges_eq]
      rfl
    rw [if_neg hkey]
    simp only [frameInts, if_neg hkey] at htake hstart
    refine ⟨fun _ => rfl, ?_, ?_, ?_, ?_⟩
    · rw [hstart, hst.cursor, length_pairs, List.length_map, ← hcount]
    · rw [htake, hst.data, hpack]
    · rw [List.range_succ, List.map_append, hst.starts, hst.cursor]
      rfl
    · rw [List.range_succ, List.map_append, hst.ns]
      simp [frameCount, hkey, hcount]

/-- Frame `k` of the frames that follow a header. -/
def nthFrame (fbLen : ℕ) (frames : List UInt8) (k : ℕ) : List UInt8 :=
  (frames.drop (k * fbLen)).take fbLen

theorem encodeFrames_before {keyint fbLen n : ℕ} {frames : List UInt8} (h4 : fbLen % 4 = 0)
    {remaining f : ℕ} {st st' : Enc} {rest : List UInt8} (hn : f + remaining = n)
    (hst : st.Before keyint n (nthFrame fbLen frames) f)
    (h : encodeFrames keyint fbLen remaining f st (frames.drop (f * fbLen)) = .ok (st', rest)) :
    st'.Before keyint n (nthFrame fbLen frames) n ∧
      ∀ k, f ≤ k → k < n → (nthFrame fbLen frames k).length = fbLen := by
  induction remaining generalizing f st with
  | zero =>
      obtain rfl : f = n := hn
      cases h
      exact ⟨hst, fun k hk hlt => absurd hlt (Nat.not_lt.2 hk)⟩
  | succ remaining ih =>
      simp only [encodeFrames] at h
      split at h
      · cases h
      · rename_i hlen
        have hframe : (nthFrame fbLen frames f).length = fbLen := not_not.1 hlen
        have hstep := hst.step (by omega) (by rw [hframe]; exact h4)
        rw [List.drop_drop, show f * fbLen + fbLen = (f + 1) * fbLen by rw [Nat.succ_mul]] at h
        obtain ⟨hdone, hrest⟩ := ih (by omega) hstep h
        refine ⟨hdone, fun k hk hlt => ?_⟩
        rcases Nat.lt_or_eq_of_le hk with hlt' | rfl
        · exact hrest k hlt' hlt
        · exact hframe

/-! ### Blobs -/

/-- The width a blob's header states. -/
def blobWidth (blob : List UInt8) : ℕ := rdU16 ((blob.take 16).drop 4)

/-- ... and its height. -/
def blobHeight (blob : List UInt8) : ℕ := rdU16 ((blob.take 16).drop 6)

/-- The framebuffer length of a blob, `fbLen`. -/
def blobFbLen (blob : List UInt8) : ℕ := blobWidth blob * (blobHeight blob / 8)

/-- Frame `k` of a blob. -/
def blobFrame (blob : List UInt8) : ℕ → List UInt8 := nthFrame (blobFbLen blob) (blob.drop 16)

/-- What `main` checked of a blob that it accepts. -/
structure Accepted (blob : List UInt8) (s : Screen) : Prop where
  width_pos : 0 < blobWidth blob
  multiple : blobFbLen blob % 4 = 0
  bound : blobFbLen blob ≤ 1024
  frames : ∀ k < s.nframes, (blobFrame blob k).length = blobFbLen blob

/-- **The encoder.**  The screen emitted for a blob encodes the blob's frames. -/
theorem emitDelta_encodes {keyint : ℕ} {blob : List UInt8} {s : Screen}
    (h : emitDelta keyint blob = .ok s) : s.Encodes (blobFrame blob) ∧ Accepted blob s := by
  unfold emitDelta at h
  dsimp only at h
  split at h
  · cases h
  rename_i hkey
  split at h
  · cases h
  split at h
  · cases h
  split at h
  · cases h
  rename_i hheader
  split at h
  · cases h
  rename_i h4
  split at h
  · cases h
  rename_i hbound
  split at h
  · cases h
  rename_i st rest hloop
  split at h
  · cases h
  cases h
  push Not at hheader hkey
  have hmult : blobFbLen blob % 4 = 0 := not_not.1 h4
  have hinit : Enc.Before keyint (rdU32 ((blob.take 16).drop 12)) (blobFrame blob) 0
      ⟨[], 0, [], [], []⟩ := ⟨(fun h => by cases h), rfl, rfl, rfl, rfl⟩
  obtain ⟨hdone, hframes⟩ := encodeFrames_before (f := 0) hmult (Nat.zero_add _) hinit
    (by rw [Nat.zero_mul, List.drop_zero]; exact hloop)
  refine ⟨⟨?_, ?_, ?_, ?_, hdone.ns⟩, ⟨?_, hmult, ?_, ?_⟩⟩
  · exact Nat.pos_of_ne_zero hheader.2.2.2.2
  · exact Nat.pos_of_ne_zero hkey
  · rw [hdone.data]
    exact congrArg List.flatten (List.take_of_length_le (by simp [parts]))
  · rw [List.range_succ, List.map_append, hdone.starts, hdone.cursor]
    rfl
  · exact Nat.pos_of_ne_zero hheader.1
  · exact Nat.not_lt.1 hbound
  · exact fun k hk => hframes k (Nat.zero_le k) hk

end BadgeOS.BadApple
