import BadgeOS.BadApple.EmitDelta
import BadgeOS.Content.Bitmap
import Mathlib

/-!
# The packer

`pack.c` reads a video of gray frames from a pipe and writes the "BADA" blob: a header whose frame
count is patched in last, and of every frame the pixels that are bright enough.  It is given what
`atoi` made of its arguments; that its own writes get through is assumed.

* `pack` — the program, with what it leaves in its output when it fails;
* `packFrames_eq` — its loop, over any input;
* `emitDelta_ok_iff` — what the encoder takes;
* `packed_emits_iff` — which videos get through both, and what the encoder then reads.
-/

namespace BadgeOS.BadApple

open Content

/-! ### The program -/

/-- The refusals of `main`, with the numbers of their messages. -/
inductive PackError
  | badArgs (width height fps threshold : ℤ)
  | shortFrame (got pixels : ℕ)
  | tooManyFrames
  deriving DecidableEq, Repr

/-- `put_u16` -/
def putU16 (v : ℕ) : List UInt8 := [UInt8.ofNat (v &&& 0xff), UInt8.ofNat (v >>> 8 &&& 0xff)]

/-- `put_u32` -/
def putU32 (v : ℕ) : List UInt8 :=
  [UInt8.ofNat (v &&& 0xff), UInt8.ofNat (v >>> 8 &&& 0xff), UInt8.ofNat (v >>> 16 &&& 0xff),
    UInt8.ofNat (v >>> 24 &&& 0xff)]

/-- A picture size that `main` takes. -/
structure Size where
  width : ℕ
  height : ℕ
  width_pos : 0 < width
  height_pos : 0 < height
  multiple : height % 8 = 0

/-- Gray bytes of a frame. -/
def Size.pixels (s : Size) : ℕ := s.width * s.height

/-- Packed bytes of a frame. -/
def Size.fbLen (s : Size) : ℕ := s.pixels / 8

theorem Size.pixels_pos (s : Size) : 0 < s.pixels := Nat.mul_pos s.width_pos s.height_pos

/-- Whether pixel `(x, y)` of a gray frame is on. -/
def Size.on (s : Size) (threshold : ℕ) (gray : List UInt8) (x y : ℕ) : Bool :=
  threshold ≤ (gray.getD (y * s.width + x) 0).toNat

/-- One frame, row by row. -/
def packFrame (s : Size) (threshold : ℕ) (gray : List UInt8) : List UInt8 :=
  (List.range s.height).foldl (fun fb y =>
    (List.range s.width).foldl (fun fb x =>
      if s.on threshold gray x y then setBit s.width fb x y else fb) fb)
    (List.replicate s.fbLen 0)

/-- The frame loop, with the frames it has counted and what it has written. -/
def packFrames (s : Size) (threshold count : ℕ) (stdin out : List UInt8) :
    Option PackError × ℕ × List UInt8 :=
  let gray := stdin.take s.pixels
  if gray = [] then (none, count, out)
  else if gray.length ≠ s.pixels then (some (.shortFrame gray.length s.pixels), count, out)
  else
    let out := out ++ packFrame s threshold gray
    if 0xffffffff < count + 1 then (some .tooManyFrames, count + 1, out)
    else packFrames s threshold (count + 1) (stdin.drop s.pixels) out
termination_by stdin.length
decreasing_by
  have hsome : ¬ stdin.take s.pixels = [] := by assumption
  have hlen := List.length_pos_iff.mpr hsome
  have hpixels := s.pixels_pos
  rw [List.length_take] at hlen
  rw [List.length_drop]
  omega

/-- The 16 bytes in front of the frames. -/
def header (s : Size) (fps count : ℕ) : List UInt8 :=
  magic ++ putU16 s.width ++ putU16 s.height ++ putU16 fps ++ putU16 0 ++ putU32 count

/-- `main` behind its checks.  The frame count stays 0 unless the input ends with a frame. -/
def packSized (s : Size) (fps threshold : ℕ) (stdin : List UInt8) : Option PackError × List UInt8 :=
  match packFrames s threshold 0 stdin [] with
  | (none, count, out) => (none, header s fps count ++ out)
  | (some e, _, out) => (some e, header s fps 0 ++ out)

/-- `main`, with the error it ends with and its output. -/
def pack (width height fps threshold : ℤ) (stdin : List UInt8) : Option PackError × List UInt8 :=
  if h : width ≤ 0 ∨ height ≤ 0 ∨ height % 8 ≠ 0 ∨ fps ≤ 0 ∨ fps > 65535 ∨ threshold < 0 ∨
      threshold > 255 then
    (some (.badArgs width height fps threshold), [])
  else
    packSized ⟨width.toNat, height.toNat, by omega, by omega, by omega⟩ fps.toNat threshold.toNat
      stdin

/-! ### A frame -/

variable {s : Size} {threshold fps keyint : ℕ}

theorem Size.fbLen_eq (s : Size) : s.fbLen = s.height / 8 * s.width := by
  have hheight : s.height = 8 * (s.height / 8) := by
    have := s.multiple
    omega
  have hpixels : s.pixels = 8 * (s.height / 8 * s.width) := by
    rw [Size.pixels]
    conv_lhs => rw [hheight]
    ring
  rw [Size.fbLen, hpixels, Nat.mul_div_cancel_left _ (by decide)]

theorem Size.rows (s : Size) : s.height / 8 * 8 = s.height := by
  have := s.multiple
  omega

/-- **A packed frame** is the picture of the pixels that are on. -/
theorem packFrame_eq (s : Size) (threshold : ℕ) (gray : List UInt8) :
    packFrame s threshold gray = bitmap s.width (s.height / 8) (s.on threshold gray) := by
  -- the two loops are one over the pixels
  have hloop (rows : List ℕ) (fb : List UInt8) :
      rows.foldl (fun fb y => (List.range s.width).foldl (fun fb x =>
        if s.on threshold gray x y then setBit s.width fb x y else fb) fb) fb =
      (rows.flatMap fun y => (List.range s.width).map fun x => (x, y)).foldl (fun fb p =>
        if s.on threshold gray p.1 p.2 then setBit s.width fb p.1 p.2 else fb) fb := by
    induction rows generalizing fb with
    | nil => rfl
    | cons y rows ih => rw [List.foldl_cons, ih, List.flatMap_cons, List.foldl_append, List.foldl_map]
  have hin : ∀ p ∈ (List.range s.height).flatMap fun y => (List.range s.width).map fun x => (x, y),
      p.1 < s.width := by
    intro p hp
    obtain ⟨y, -, hp⟩ := List.mem_flatMap.mp hp
    obtain ⟨x, hx, rfl⟩ := List.mem_map.mp hp
    exact List.mem_range.mp hx
  rw [packFrame, hloop]
  obtain ⟨hlen, hlit⟩ := lit_foldl_setBit (s.on threshold gray)
    (show (List.replicate s.fbLen (0 : UInt8)).length = s.height / 8 * s.width by
      rw [List.length_replicate, s.fbLen_eq]) hin
  refine eq_bitmap hlen fun x hx y hy => ?_
  rw [hlit x hx y hy]
  have hblank : lit s.width (List.replicate s.fbLen 0) x y = false := by
    rw [lit, List.getD_eq_getElem?_getD, List.getElem?_replicate]
    split <;> simp
  have hmem : (x, y) ∈ (List.range s.height).flatMap fun y =>
      (List.range s.width).map fun x => (x, y) :=
    List.mem_flatMap.mpr ⟨y, List.mem_range.mpr (s.rows ▸ hy),
      List.mem_map.mpr ⟨x, List.mem_range.mpr hx, rfl⟩⟩
  rw [hblank, Bool.false_or, decide_eq_true hmem, Bool.true_and]

theorem length_packFrame (s : Size) (threshold : ℕ) (gray : List UInt8) :
    (packFrame s threshold gray).length = s.fbLen := by
  rw [packFrame_eq, length_bitmap, s.fbLen_eq]

/-! ### The loop -/

/-- The packed frames of an input, as many as are whole. -/
def packedFrames (s : Size) (threshold : ℕ) (stdin : List UInt8) : List (List UInt8) :=
  (List.range (stdin.length / s.pixels)).map fun k =>
    packFrame s threshold (nthFrame s.pixels stdin k)

/-- Behind the first frame. -/
theorem packedFrames_step {stdin : List UInt8} (h : s.pixels ≤ stdin.length) :
    packedFrames s threshold stdin = packFrame s threshold (stdin.take s.pixels) ::
      packedFrames s threshold (stdin.drop s.pixels) := by
  have hcount : stdin.length / s.pixels = (stdin.drop s.pixels).length / s.pixels + 1 := by
    rw [List.length_drop, ← Nat.add_div_right _ s.pixels_pos, Nat.sub_add_cancel h]
  rw [packedFrames, hcount, List.range_succ_eq_map, List.map_cons, List.map_map, packedFrames]
  congr 1
  · rw [nthFrame, Nat.zero_mul, List.drop_zero]
  · refine List.map_congr_left fun k _ => ?_
    rw [Function.comp_apply, nthFrame, nthFrame, List.drop_drop, Nat.succ_mul, Nat.add_comm]

/-- **The loop** packs every whole frame, and then an input that goes on is refused. -/
theorem packFrames_eq (s : Size) (threshold count : ℕ) (stdin out : List UInt8) :
    (count + stdin.length / s.pixels ≤ 0xffffffff →
      packFrames s threshold count stdin out =
        (if stdin.length % s.pixels = 0 then none
          else some (.shortFrame (stdin.length % s.pixels) s.pixels),
          count + stdin.length / s.pixels,
          out ++ (packedFrames s threshold stdin).flatten)) ∧
    (count ≤ 0xffffffff → 0xffffffff < count + stdin.length / s.pixels →
      (packFrames s threshold count stdin out).1 = some .tooManyFrames) := by
  have hpos := s.pixels_pos
  induction hn : stdin.length / s.pixels generalizing count stdin out with
  | zero =>
      have hshort : stdin.length < s.pixels := by
        rcases Nat.div_eq_zero_iff.mp hn with h | h
        · omega
        · exact h
      refine ⟨fun _ => ?_, fun _ h => by omega⟩
      rw [packFrames, List.take_of_length_le hshort.le, Nat.mod_eq_of_lt hshort, packedFrames, hn]
      by_cases hnil : stdin = []
      · subst hnil
        simp
      · have hlen := List.length_pos_iff.mpr hnil
        simp [hnil, hshort.ne, hlen.ne']
  | succ n ih =>
      have hwhole : s.pixels ≤ stdin.length := by
        by_contra hlt
        rw [Nat.div_eq_of_lt (not_le.mp hlt)] at hn
        cases hn
      have htake : (stdin.take s.pixels).length = s.pixels := by
        rw [List.length_take]
        omega
      have hsome : stdin.take s.pixels ≠ [] := List.ne_nil_of_length_pos (by omega)
      have hdrop : (stdin.drop s.pixels).length / s.pixels = n := by
        rw [← Nat.sub_add_cancel hwhole, Nat.add_div_right _ hpos] at hn
        rw [List.length_drop]
        exact Nat.succ.inj hn
      have hmod : (stdin.drop s.pixels).length % s.pixels = stdin.length % s.pixels := by
        rw [List.length_drop, ← Nat.mod_eq_sub_mod hwhole]
      rw [packFrames]
      dsimp only
      rw [if_neg hsome, if_neg (not_not.mpr htake)]
      by_cases hmany : 0xffffffff < count + 1
      · rw [if_pos hmany]
        exact ⟨fun h => by omega, fun _ _ => rfl⟩
      · obtain ⟨hok, hover⟩ := ih (count + 1) (stdin.drop s.pixels)
          (out ++ packFrame s threshold (stdin.take s.pixels)) hdrop
        rw [if_neg hmany]
        refine ⟨fun h => ?_, fun _ h => hover (by omega) (by omega)⟩
        rw [hok (by omega), hmod, packedFrames_step hwhole, List.flatten_cons, List.append_assoc,
          show count + 1 + n = count + (n + 1) by omega]

/-! ### What the encoder takes -/

/-- The frames a blob's header counts, and its rate. -/
def blobFrames (blob : List UInt8) : ℕ := rdU32 ((blob.take 16).drop 12)

def blobFps (blob : List UInt8) : ℕ := rdU16 ((blob.take 16).drop 8)

/-- A blob that is whole, of frames that the screen's integers can hold. -/
structure Whole (blob : List UInt8) : Prop where
  magic : blob.take 4 = magic
  width : blobWidth blob ≠ 0
  height : blobHeight blob ≠ 0
  pages : blobHeight blob % 8 = 0
  fps : blobFps blob ≠ 0
  frames : blobFrames blob ≠ 0
  multiple : blobFbLen blob % 4 = 0
  bound : blobFbLen blob ≤ 1024
  length : blob.length = 16 + blobFrames blob * blobFbLen blob

theorem encodeFrames_ok (keyint : ℕ) {fbLen remaining f : ℕ} (st : Enc) {stdin : List UInt8}
    (h : remaining * fbLen ≤ stdin.length) : ∃ st',
      encodeFrames keyint fbLen remaining f st stdin = .ok (st', stdin.drop (remaining * fbLen)) := by
  induction remaining generalizing f st stdin with
  | zero => exact ⟨st, by rw [Nat.zero_mul, List.drop_zero]; rfl⟩
  | succ remaining ih =>
      rw [Nat.succ_mul] at h ⊢
      have hframe : (stdin.take fbLen).length = fbLen := by
        rw [List.length_take]
        omega
      have hbody : remaining * fbLen ≤ (stdin.drop fbLen).length := by
        rw [List.length_drop]
        omega
      obtain ⟨st', hrest⟩ := ih (f := f + 1) (encodeFrame keyint f (stdin.take fbLen) st) hbody
      refine ⟨st', ?_⟩
      rw [encodeFrames, if_neg (not_not.mpr hframe), hrest, List.drop_drop, Nat.add_comm fbLen]

theorem encodeFrames_length {fbLen remaining f : ℕ} {st st' : Enc} {stdin rest : List UInt8}
    (h : encodeFrames keyint fbLen remaining f st stdin = .ok (st', rest)) :
    stdin.length = remaining * fbLen + rest.length := by
  induction remaining generalizing f st stdin with
  | zero =>
      cases h
      rw [Nat.zero_mul, Nat.zero_add]
  | succ remaining ih =>
      simp only [encodeFrames] at h
      split at h
      · cases h
      · rename_i hframe
        have hrest := ih h
        rw [not_not, List.length_take] at hframe
        rw [List.length_drop] at hrest
        rw [Nat.succ_mul]
        omega

/-- The encoder takes only whole blobs, and goes by their headers. -/
theorem whole_of_emitDelta {blob : List UInt8} {scr : Screen}
    (h : emitDelta keyint blob = .ok scr) : (0 < keyint ∧ Whole blob) ∧
      scr.nframes = blobFrames blob ∧ scr.nextMs = max 1 (1000 / blobFps blob) := by
  have hacc := (emitDelta_encodes h).2
  unfold emitDelta at h
  dsimp only at h
  split at h
  · cases h
  rename_i hkey
  split at h
  · cases h
  rename_i hlen
  split at h
  · cases h
  rename_i hmagic
  split at h
  · cases h
  rename_i hheader
  split at h
  · cases h
  split at h
  · cases h
  split at h
  · cases h
  rename_i st rest hloop
  split at h
  · cases h
  rename_i hrest
  cases h
  push Not at hkey hlen hmagic hheader hrest
  have hframes := encodeFrames_length hloop
  rw [hrest, List.length_nil, List.length_drop] at hframes
  rw [List.length_take] at hlen
  rw [List.take_take] at hmagic
  refine ⟨⟨Nat.pos_of_ne_zero hkey, hmagic, hheader.1, hheader.2.1, hheader.2.2.1, hheader.2.2.2.1,
    hheader.2.2.2.2, hacc.multiple, hacc.bound, ?_⟩, rfl, ?_⟩
  · show blob.length = 16 + blobFrames blob * blobFbLen blob
    have hlong : 16 ≤ blob.length := by omega
    have hcount : blob.length - 16 = blobFrames blob * blobFbLen blob := hframes
    omega
  · show (if 1000 / blobFps blob = 0 then 1 else 1000 / blobFps blob) = _
    generalize 1000 / blobFps blob = ms
    split <;> omega

/-- **What the encoder takes** is every whole blob. -/
theorem emitDelta_ok_iff (keyint : ℕ) (blob : List UInt8) :
    (∃ scr, emitDelta keyint blob = .ok scr) ↔ 0 < keyint ∧ Whole blob := by
  refine ⟨fun ⟨_, h⟩ => (whole_of_emitDelta h).1, fun ⟨hkey, h⟩ => ?_⟩
  have hlen : (blob.take 16).length = 16 := by
    rw [List.length_take, h.length]
    omega
  have hmagic : (blob.take 16).take 4 = magic := by
    rw [List.take_take]
    exact h.magic
  have hheader : ¬ (blobWidth blob = 0 ∨ blobHeight blob = 0 ∨ blobHeight blob % 8 ≠ 0 ∨
      blobFps blob = 0 ∨ blobFrames blob = 0) := by
    have := h.width
    have := h.height
    have := h.pages
    have := h.fps
    have := h.frames
    omega
  have hbody : (blob.drop 16).length = blobFrames blob * blobFbLen blob := by
    rw [List.length_drop, h.length]
    omega
  obtain ⟨st, hloop⟩ := encodeFrames_ok keyint (f := 0) ⟨[], 0, [], [], []⟩ hbody.ge
  rw [List.drop_of_length_le hbody.le] at hloop
  unfold emitDelta
  dsimp only
  rw [if_neg hkey.ne', if_neg (not_not.mpr hlen), if_neg (not_not.mpr hmagic)]
  change ∃ scr, (if blobWidth blob = 0 ∨ blobHeight blob = 0 ∨ blobHeight blob % 8 ≠ 0 ∨
    blobFps blob = 0 ∨ blobFrames blob = 0 then _ else if blobFbLen blob % 4 ≠ 0 then _
    else if 1024 < blobFbLen blob then _ else _) = Except.ok scr
  rw [if_neg hheader, if_neg (not_not.mpr h.multiple), if_neg (not_lt.mpr h.bound)]
  split
  · rename_i e he
    cases he.symm.trans hloop
  · rename_i st' rest he
    cases he.symm.trans hloop
    exact ⟨_, rfl⟩

/-! ### From the one to the other -/

theorem rdU16_putU16 (v : ℕ) (rest : List UInt8) : rdU16 (putU16 v ++ rest) = v % 2 ^ 16 := by
  have hlow : v &&& 255 = v % 2 ^ 8 := Nat.and_two_pow_sub_one_eq_mod v 8
  have hhigh : v >>> 8 &&& 255 = v / 2 ^ 8 % 2 ^ 8 := by
    rw [Nat.and_two_pow_sub_one_eq_mod _ 8, Nat.shiftRight_eq_div_pow]
  have hbyte (b : ℕ) : (UInt8.ofNat (b % 2 ^ 8)).toNat = b % 2 ^ 8 :=
    UInt8.toNat_ofNat_of_lt (Nat.mod_lt _ (by decide))
  rw [putU16, List.cons_append, List.cons_append, rdU16, hlow, hhigh, hbyte, hbyte,
    Nat.or_comm, ← Nat.shiftLeft_add_eq_or_of_lt (Nat.mod_lt _ (by decide)), Nat.shiftLeft_eq]
  omega

theorem rdU32_putU32 (v : ℕ) (rest : List UInt8) : rdU32 (putU32 v ++ rest) = v % 2 ^ 32 := by
  have hbyte (k : ℕ) : (UInt8.ofNat (v >>> k &&& 255)).toNat = v / 2 ^ k % 2 ^ 8 := by
    rw [Nat.and_two_pow_sub_one_eq_mod _ 8, Nat.shiftRight_eq_div_pow]
    exact UInt8.toNat_ofNat_of_lt (Nat.mod_lt _ (by decide))
  have hlow := hbyte 0
  rw [Nat.shiftRight_zero] at hlow
  have hread : rdU32 (putU32 v ++ rest) = keyWord (UInt8.ofNat (v &&& 255))
      (UInt8.ofNat (v >>> 8 &&& 255)) (UInt8.ofNat (v >>> 16 &&& 255))
      (UInt8.ofNat (v >>> 24 &&& 255)) := rfl
  rw [hread, keyWord_eq, hlow, hbyte, hbyte, hbyte]
  omega

theorem take_header (s : Size) (fps count : ℕ) (out : List UInt8) :
    (header s fps count ++ out).take 16 = header s fps count := List.take_left' rfl

theorem drop_header (s : Size) (fps count : ℕ) (out : List UInt8) :
    (header s fps count ++ out).drop 16 = out := List.drop_left' rfl

theorem blobWidth_header (s : Size) (fps count : ℕ) (out : List UInt8) :
    blobWidth (header s fps count ++ out) = s.width % 2 ^ 16 := by
  rw [blobWidth, take_header]
  exact rdU16_putU16 s.width _

theorem blobHeight_header (s : Size) (fps count : ℕ) (out : List UInt8) :
    blobHeight (header s fps count ++ out) = s.height % 2 ^ 16 := by
  rw [blobHeight, take_header]
  exact rdU16_putU16 s.height _

theorem blobFps_header (s : Size) (fps count : ℕ) (out : List UInt8) :
    blobFps (header s fps count ++ out) = fps % 2 ^ 16 := by
  rw [blobFps, take_header]
  exact rdU16_putU16 fps _

theorem blobFrames_header (s : Size) (fps count : ℕ) (out : List UInt8) :
    blobFrames (header s fps count ++ out) = count % 2 ^ 32 := by
  rw [blobFrames, take_header]
  exact rdU32_putU32 count []

/-- What a run leaves. -/
theorem packSized_cases (s : Size) (fps threshold : ℕ) (stdin : List UInt8) :
    (stdin.length % s.pixels = 0 ∧ stdin.length / s.pixels < 2 ^ 32 ∧
      packSized s fps threshold stdin = (none, header s fps (stdin.length / s.pixels) ++
        (packedFrames s threshold stdin).flatten)) ∨
    (¬ (stdin.length % s.pixels = 0 ∧ stdin.length / s.pixels < 2 ^ 32) ∧
      ∃ e out, packSized s fps threshold stdin = (some e, header s fps 0 ++ out)) := by
  obtain ⟨hok, hover⟩ := packFrames_eq s threshold 0 stdin []
  rw [Nat.zero_add] at hok hover
  by_cases hmany : stdin.length / s.pixels ≤ 0xffffffff
  · rw [packSized, hok hmany]
    by_cases hrest : stdin.length % s.pixels = 0
    · rw [if_pos hrest]
      exact .inl ⟨hrest, by omega, rfl⟩
    · rw [if_neg hrest]
      exact .inr ⟨fun h => hrest h.1, _, _, rfl⟩
  · have hfail := hover (Nat.zero_le _) (by omega)
    refine .inr ⟨fun h => hmany (by omega), .tooManyFrames,
      (packFrames s threshold 0 stdin []).2.2, ?_⟩
    rw [packSized]
    generalize packFrames s threshold 0 stdin [] = r at hfail
    obtain ⟨e, count, out⟩ := r
    obtain rfl : e = some .tooManyFrames := hfail
    rfl

theorem length_packedFrames (s : Size) (threshold : ℕ) (stdin : List UInt8) :
    (packedFrames s threshold stdin).flatten.length = stdin.length / s.pixels * s.fbLen := by
  rw [packedFrames, ← List.flatMap_def]
  exact Memory.length_pieces (fun _ => length_packFrame s threshold _) _

/-- No field of a header wraps in front of frames of at most 1024 bytes. -/
theorem Size.small (s : Size) (h : s.fbLen ≤ 1024) : s.width < 2 ^ 16 ∧ s.height < 2 ^ 16 := by
  have hwidth := s.width_pos
  have hheight := s.height_pos
  have hrows := s.rows
  rw [s.fbLen_eq] at h
  constructor
  · have := Nat.mul_le_mul_right s.width (show 1 ≤ s.height / 8 by omega)
    omega
  · have := Nat.mul_le_mul_left (s.height / 8) (show 1 ≤ s.width from hwidth)
    omega

/-- **What gets through both**: a video of whole frames that fit, and nothing that the packer
refused. -/
theorem whole_packed_iff (s : Size) {fps : ℕ} (hfps : 0 < fps) (hfps' : fps < 2 ^ 16)
    (threshold : ℕ) (stdin : List UInt8) :
    Whole (packSized s fps threshold stdin).2 ↔ (packSized s fps threshold stdin).1 = none ∧
      stdin ≠ [] ∧ s.fbLen % 4 = 0 ∧ s.fbLen ≤ 1024 := by
  have hpos := s.pixels_pos
  rcases packSized_cases s fps threshold stdin with ⟨hrest, hcount, heq⟩ | ⟨-, e, out, heq⟩
  · rw [heq]
    dsimp only
    have hmod : stdin.length / s.pixels % 2 ^ 32 = stdin.length / s.pixels := Nat.mod_eq_of_lt hcount
    have hsome : stdin.length / s.pixels ≠ 0 ↔ stdin ≠ [] := by
      rw [← List.length_pos_iff]
      have := Nat.div_add_mod' stdin.length s.pixels
      constructor
      · intro h
        have := Nat.mul_le_mul_right s.pixels (Nat.one_le_iff_ne_zero.mpr h)
        omega
      · intro hlen hzero
        rw [hzero, Nat.zero_mul] at this
        omega
    have hlen : (header s fps (stdin.length / s.pixels) ++
        (packedFrames s threshold stdin).flatten).length =
          16 + stdin.length / s.pixels * s.fbLen := by
      rw [List.length_append, length_packedFrames]
      rfl
    constructor
    · intro h
      have hframes := h.frames
      have hlength := h.length
      rw [blobFrames_header, hmod] at hframes hlength
      have hfb : s.fbLen = blobFbLen (header s fps (stdin.length / s.pixels) ++
          (packedFrames s threshold stdin).flatten) := by
        refine Nat.eq_of_mul_eq_mul_left (Nat.pos_of_ne_zero hframes) ?_
        omega
      exact ⟨rfl, hsome.mp hframes, hfb ▸ h.multiple, hfb ▸ h.bound⟩
    · rintro ⟨-, hne, hmult, hbound⟩
      obtain ⟨hwidth, hheight⟩ := s.small hbound
      have hfb : blobFbLen (header s fps (stdin.length / s.pixels) ++
          (packedFrames s threshold stdin).flatten) = s.fbLen := by
        rw [blobFbLen, blobWidth_header, blobHeight_header, Nat.mod_eq_of_lt hwidth,
          Nat.mod_eq_of_lt hheight, s.fbLen_eq, Nat.mul_comm]
      refine ⟨rfl, ?_, ?_, ?_, ?_, ?_, hfb ▸ hmult, hfb ▸ hbound, ?_⟩
      · rw [blobWidth_header, Nat.mod_eq_of_lt hwidth]
        exact s.width_pos.ne'
      · rw [blobHeight_header, Nat.mod_eq_of_lt hheight]
        exact s.height_pos.ne'
      · rw [blobHeight_header, Nat.mod_eq_of_lt hheight]
        exact s.multiple
      · rw [blobFps_header, Nat.mod_eq_of_lt hfps']
        exact hfps.ne'
      · rw [blobFrames_header, hmod]
        exact hsome.mpr hne
      · rw [blobFrames_header, hmod, hfb, hlen]
  · rw [heq]
    exact iff_of_false (fun h => h.frames ((blobFrames_header s fps 0 out).trans (Nat.zero_mod _)))
      fun h => by cases h.1

/-- The frames of a blob that gets through both are those of the video. -/
theorem blobFrame_packSized {stdin : List UInt8} (hwhole : Whole (packSized s fps threshold stdin).2)
    (hfps : 0 < fps) (hfps' : fps < 2 ^ 16) :
    blobWidth (packSized s fps threshold stdin).2 = s.width ∧
    blobHeight (packSized s fps threshold stdin).2 = s.height ∧
    blobFps (packSized s fps threshold stdin).2 = fps ∧
    blobFrames (packSized s fps threshold stdin).2 = stdin.length / s.pixels ∧
    ∀ k < stdin.length / s.pixels, blobFrame (packSized s fps threshold stdin).2 k =
      bitmap s.width (s.height / 8) (s.on threshold (nthFrame s.pixels stdin k)) := by
  obtain ⟨hnone, -, -, hbound⟩ := (whole_packed_iff s hfps hfps' threshold stdin).mp hwhole
  obtain ⟨hwidth, hheight⟩ := s.small hbound
  rcases packSized_cases s fps threshold stdin with ⟨-, hcount, heq⟩ | ⟨-, e, out, heq⟩
  · rw [heq]
    dsimp only
    have hfb : blobFbLen (header s fps (stdin.length / s.pixels) ++
        (packedFrames s threshold stdin).flatten) = s.fbLen := by
      rw [blobFbLen, blobWidth_header, blobHeight_header, Nat.mod_eq_of_lt hwidth,
        Nat.mod_eq_of_lt hheight, s.fbLen_eq, Nat.mul_comm]
    refine ⟨?_, ?_, ?_, ?_, fun k hk => ?_⟩
    · rw [blobWidth_header, Nat.mod_eq_of_lt hwidth]
    · rw [blobHeight_header, Nat.mod_eq_of_lt hheight]
    · rw [blobFps_header, Nat.mod_eq_of_lt hfps']
    · rw [blobFrames_header, Nat.mod_eq_of_lt hcount]
    · have hlen : ∀ l ∈ packedFrames s threshold stdin, l.length = s.fbLen := by
        intro l hl
        obtain ⟨j, -, rfl⟩ := List.mem_map.mp hl
        exact length_packFrame s threshold _
      have hk' : k < (packedFrames s threshold stdin).length := by
        rw [packedFrames, List.length_map, List.length_range]
        exact hk
      rw [blobFrame, hfb, drop_header, nthFrame, Packing.slice_flatten hlen hk', ← packFrame_eq]
      simp only [packedFrames, List.getElem_map, List.getElem_range]
  · rw [heq] at hnone
    cases hnone

/-- **The screen of a packed video.** -/
theorem emitted_of_packSized {stdin : List UInt8} {scr : Screen} (hfps : 0 < fps)
    (hfps' : fps < 2 ^ 16) (h : emitDelta keyint (packSized s fps threshold stdin).2 = .ok scr) :
    scr.nframes * s.pixels = stdin.length ∧ scr.nextMs = max 1 (1000 / fps) ∧
    ∀ k < scr.nframes, blobFrame (packSized s fps threshold stdin).2 k =
      bitmap s.width (s.height / 8) (s.on threshold (nthFrame s.pixels stdin k)) := by
  obtain ⟨⟨-, hwhole⟩, hframes, hms⟩ := whole_of_emitDelta h
  obtain ⟨-, -, hrate, hcount, hget⟩ := blobFrame_packSized hwhole hfps hfps'
  have hrest : stdin.length % s.pixels = 0 := by
    rcases packSized_cases s fps threshold stdin with ⟨hrest, -⟩ | ⟨-, e, out, heq⟩
    · exact hrest
    · have hnone := ((whole_packed_iff s hfps hfps' threshold stdin).mp hwhole).1
      rw [heq] at hnone
      cases hnone
  rw [hcount] at hframes
  rw [hrate] at hms
  refine ⟨?_, hms, fun k hk => hget k (hframes ▸ hk)⟩
  rw [hframes]
  exact Nat.div_mul_cancel (Nat.dvd_of_mod_eq_zero hrest)

/-- A pixel of frame `k` of the input. -/
theorem on_nthFrame (s : Size) (threshold : ℕ) (stdin : List UInt8) (k : ℕ) {x y : ℕ}
    (hx : x < s.width) (hy : y < s.height) :
    s.on threshold (nthFrame s.pixels stdin k) x y =
      decide (threshold ≤ (stdin.getD (k * s.pixels + (y * s.width + x)) 0).toNat) := by
  have hlt : y * s.width + x < s.pixels := by
    have := Nat.mul_le_mul_right s.width (Nat.succ_le_of_lt hy)
    rw [Nat.succ_mul, Nat.mul_comm s.height] at this
    rw [Size.pixels]
    omega
  rw [Size.on, nthFrame, List.getD_eq_getElem?_getD, List.getD_eq_getElem?_getD,
    List.getElem?_take_of_lt hlt, List.getElem?_drop]

/-- The runs of `main` that end well. -/
structure Packs (width height fps threshold : ℤ) (stdin : List UInt8) : Prop where
  width_pos : 0 < width
  height_pos : 0 < height
  multiple : height % 8 = 0
  fps_pos : 0 < fps
  fps_le : fps ≤ 65535
  threshold_nonneg : 0 ≤ threshold
  threshold_le : threshold ≤ 255
  whole : stdin.length % (width * height) = 0
  count : stdin.length / (width * height) < 2 ^ 32

/-- What the checks of `main` leave to its loop. -/
theorem pack_cases (width height fps threshold : ℤ) (stdin : List UInt8) :
    (∃ s : Size, ∃ f t : ℕ, 0 < f ∧ f < 2 ^ 16 ∧ t < 256 ∧ width = s.width ∧ height = s.height ∧
      fps = f ∧ threshold = t ∧ pack width height fps threshold stdin = packSized s f t stdin) ∨
    (¬ Packs width height fps threshold stdin ∧
      ∃ e, pack width height fps threshold stdin = (some e, [])) := by
  unfold pack
  split
  · rename_i hbad
    refine .inr ⟨fun h => ?_, _, rfl⟩
    have := h.width_pos
    have := h.height_pos
    have := h.multiple
    have := h.fps_pos
    have := h.fps_le
    have := h.threshold_nonneg
    have := h.threshold_le
    omega
  · rename_i hgood
    exact .inl ⟨⟨width.toNat, height.toNat, by omega, by omega, by omega⟩, fps.toNat,
      threshold.toNat, by omega, by omega, by omega, by dsimp only; omega, by dsimp only; omega,
      by omega, by omega, rfl⟩

theorem packs_size_iff (s : Size) (hfps : 0 < fps) (hfps' : fps < 2 ^ 16)
    (hthreshold : threshold < 256) {stdin : List UInt8} :
    Packs s.width s.height fps threshold stdin ↔
      stdin.length % s.pixels = 0 ∧ stdin.length / s.pixels < 2 ^ 32 := by
  have hpixels : (s.width : ℤ) * s.height = s.pixels := by
    rw [Size.pixels, Nat.cast_mul]
  have hwidth := s.width_pos
  have hheight := s.height_pos
  have hmult := s.multiple
  constructor
  · intro h
    have hrest := h.whole
    have hcount := h.count
    rw [hpixels] at hrest hcount
    exact ⟨by exact_mod_cast hrest, by exact_mod_cast hcount⟩
  · rintro ⟨hrest, hcount⟩
    refine ⟨by omega, by omega, by omega, by omega, by omega, by omega, by omega, ?_, ?_⟩
    · rw [hpixels]
      exact_mod_cast hrest
    · rw [hpixels]
      exact_mod_cast hcount

/-- **What the packer takes.** -/
theorem packs_iff (width height fps threshold : ℤ) (stdin : List UInt8) :
    (pack width height fps threshold stdin).1 = none ↔ Packs width height fps threshold stdin := by
  rcases pack_cases width height fps threshold stdin with
    ⟨s, f, t, hf, hf', ht, rfl, rfl, rfl, rfl, hout⟩ | ⟨hbad, e, hout⟩
  · rw [hout, packs_size_iff s hf hf' ht]
    rcases packSized_cases s f t stdin with ⟨hrest, hcount, heq⟩ | ⟨hno, e, o, heq⟩
    · rw [heq]
      exact iff_of_true rfl ⟨hrest, hcount⟩
    · rw [heq]
      exact iff_of_false (fun h => by cases h) hno
  · rw [hout]
    exact iff_of_false (fun h => by cases h) hbad

/-- The screen of a video that gets through both. -/
theorem emitted_of_pack {width height fps threshold : ℤ} {stdin : List UInt8} {scr : Screen}
    (h : emitDelta keyint (pack width height fps threshold stdin).2 = .ok scr) :
    let out := (pack width height fps threshold stdin).2
    (blobWidth out : ℤ) = width ∧ (blobHeight out : ℤ) = height ∧
    scr.nframes * (width * height) = stdin.length ∧ (scr.nextMs : ℤ) = max 1 (1000 / fps) ∧
    ∀ k < scr.nframes, ∀ x y : ℕ, x < width → y < height →
      lit width.toNat (blobFrame out k) x y = decide (threshold ≤
        ((stdin.getD (k * (width * height).toNat + (y * width.toNat + x)) 0).toNat : ℤ)) := by
  rcases pack_cases width height fps threshold stdin with
    ⟨s, f, t, hf, hf', ht, rfl, rfl, rfl, rfl, hout⟩ | ⟨-, e, hout⟩
  · have hpixels : (s.width : ℤ) * s.height = s.pixels := by
      rw [Size.pixels, Nat.cast_mul]
    rw [hout] at h
    dsimp only
    rw [hout, hpixels]
    obtain ⟨hcount, hms, hget⟩ := emitted_of_packSized hf hf' h
    obtain ⟨hwidth, hheight, -⟩ := blobFrame_packSized (whole_of_emitDelta h).1.2 hf hf'
    refine ⟨by rw [hwidth], by rw [hheight], by exact_mod_cast hcount,
      by rw [hms]; push_cast; rfl, ?_⟩
    intro k hk x y hx hy
    have hx' : x < s.width := by exact_mod_cast hx
    have hy' : y < s.height := by exact_mod_cast hy
    rw [hget k hk, Int.toNat_natCast, Int.toNat_natCast, lit_bitmap hx' (s.rows.symm ▸ hy'),
      on_nthFrame s t stdin k hx' hy']
    exact decide_eq_decide.mpr Nat.cast_le.symm
  · rw [hout] at h
    have hmagic := (whole_of_emitDelta h).1.2.magic
    cases hmagic

/-- **From a video to a screen.**  The packer ends well just for inputs of whole frames that it can
count, and the encoder takes its output just when it ended well, with a frame at all, and the
frames fit; the screen then has the video's frames, with the pixels that are bright enough. -/
theorem packed_emits_iff (width height fps threshold : ℤ) (stdin : List UInt8) :
    let out := pack width height fps threshold stdin
    (out.1 = none ↔ Packs width height fps threshold stdin) ∧
    ∀ keyint, ((∃ scr, emitDelta keyint out.2 = .ok scr) ↔ 0 < keyint ∧ out.1 = none ∧ stdin ≠ [] ∧
        width * height / 8 % 4 = 0 ∧ width * height / 8 ≤ 1024) ∧
      ∀ scr, emitDelta keyint out.2 = .ok scr →
        scr.Encodes (blobFrame out.2) ∧ scr.nframes * (width * height) = stdin.length ∧
        (scr.nextMs : ℤ) = max 1 (1000 / fps) ∧
        ∀ k < scr.nframes, ∀ x y : ℕ, x < width → y < height →
          lit width.toNat (blobFrame out.2 k) x y = decide (threshold ≤
            ((stdin.getD (k * (width * height).toNat + (y * width.toNat + x)) 0).toNat : ℤ)) := by
  intro out
  refine ⟨packs_iff width height fps threshold stdin, fun keyint => ⟨?_, fun scr hscr =>
    ⟨(emitDelta_encodes hscr).1, (emitted_of_pack hscr).2.2⟩⟩⟩
  rcases pack_cases width height fps threshold stdin with
    ⟨s, f, t, hf, hf', -, rfl, rfl, rfl, rfl, hout⟩ | ⟨-, e, hout⟩
  · have hpixels : (s.width : ℤ) * s.height = s.pixels := by
      rw [Size.pixels, Nat.cast_mul]
    have hfb : (s.pixels : ℤ) / 8 = s.fbLen := by
      rw [Size.fbLen]
      norm_cast
    have hout' : out = packSized s f t stdin := hout
    rw [emitDelta_ok_iff, hout', hpixels, hfb, whole_packed_iff s hf hf']
    norm_cast
  · have hout' : out = (some e, []) := hout
    have hrefused : ¬ Whole [] := fun h => by
      have := h.magic
      cases this
    rw [emitDelta_ok_iff, hout']
    exact iff_of_false (fun h => hrefused h.2) fun h => by cases h.2.1

end BadgeOS.BadApple
