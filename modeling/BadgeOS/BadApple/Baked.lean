import BadgeOS.BadApple.PackVideo
import BadgeOS.Content.Bake
import Mathlib

/-!
# A blob of either make

`oled.nix` builds in Nix the blob that `pack.c` packs from a video.  Of one picture sequence they
make the same bytes, so that whoever reads the one reads the other.

* `blob_header` — the builder's bytes, behind the packer's header;
* `baked_blob` — what is baked, and what the encoder reads of it;
* `baked_eq_packed` — the two makes agree.
-/

namespace BadgeOS.BadApple

open Content Content.Bake

theorem putU16_eq (v : ℕ) : putU16 v = toBytes (u16 v) := by
  have hlow (m : ℕ) : UInt8.ofNat (m &&& 0xff) = UInt8.ofNat (Bake.mod m 256) := by
    rw [Nat.and_two_pow_sub_one_eq_mod m 8, Bake.mod_eq]
  rw [putU16, hlow, hlow, Nat.shiftRight_eq_div_pow]
  rfl

theorem putU32_eq (v : ℕ) : putU32 v = toBytes (u32 v) := by
  have hlow (m : ℕ) : UInt8.ofNat (m &&& 0xff) = UInt8.ofNat (Bake.mod m 256) := by
    rw [Nat.and_two_pow_sub_one_eq_mod m 8, Bake.mod_eq]
  rw [putU32, hlow, hlow, hlow, hlow, Nat.shiftRight_eq_div_pow, Nat.shiftRight_eq_div_pow,
    Nat.shiftRight_eq_div_pow]
  rfl

/-- The animation of a list of pictures. -/
def Size.spec (s : Size) (fps : ℕ) (frames : List (ℕ → ℕ → Bool)) : Spec :=
  { width := s.width, height := s.height, fps, frames }

theorem blob_header (s : Size) (fps : ℕ) (frames : List (ℕ → ℕ → Bool)) :
    toBytes (badaBytes (s.spec fps frames)) =
      header s fps frames.length ++ frames.flatMap (bitmap s.width (s.height / 8)) := by
  rw [toBytes_badaBytes, header, putU16_eq, putU16_eq, putU16_eq, putU16_eq, putU32_eq]
  simp only [List.append_assoc]
  rfl

/-- **What is baked**: any pictures, if their number and size fit the header; and then the encoder
reads the pictures back, and takes the blob if it has a rate and the frames fit. -/
theorem baked_blob (s : Size) (fps : ℕ) (frames : List (ℕ → ℕ → Bool)) :
    ((∃ blob, bake (badaHex (s.spec fps frames)) = .ok blob) ↔ frames = [] ∨
      frames.length < 2 ^ 32 ∧ s.width < 2 ^ 16 ∧ s.height < 2 ^ 16) ∧
    ∀ blob, bake (badaHex (s.spec fps frames)) = .ok blob → frames ≠ [] →
      blobWidth blob = s.width ∧ blobHeight blob = s.height ∧ blobFps blob = fps % 2 ^ 16 ∧
      blobFrames blob = frames.length ∧
      (∀ k, ∀ hk : k < frames.length, ∀ x < s.width, ∀ y < s.height,
        lit s.width (blobFrame blob k) x y = frames[k] x y) ∧
      ∀ keyint, (∃ scr, emitDelta keyint blob = .ok scr) ↔
        0 < keyint ∧ fps % 2 ^ 16 ≠ 0 ∧ s.fbLen % 4 = 0 ∧ s.fbLen ≤ 1024 := by
  have hwidth := s.width_pos
  have hheight := s.height_pos
  have hmultiple := s.multiple
  have hbake := bake_badaHex (s.spec fps frames) hwidth (show 8 ≤ s.height by omega)
  refine ⟨hbake, fun blob hblob hframes => ?_⟩
  obtain ⟨hcount, hwidth', hheight'⟩ := (hbake.mp ⟨blob, hblob⟩).resolve_left hframes
  have hcount : frames.length < 2 ^ 32 := hcount
  have hblob := baked_bytes (badaBytes_lt _) hblob
  rw [blob_header] at hblob
  subst hblob
  have hlen : ∀ l ∈ frames.map (bitmap s.width (s.height / 8)), l.length = s.fbLen := by
    intro l hl
    obtain ⟨px, -, rfl⟩ := List.mem_map.mp hl
    rw [length_bitmap, s.fbLen_eq]
  have hw : blobWidth _ = s.width :=
    (blobWidth_header s fps frames.length
      (frames.flatMap (bitmap s.width (s.height / 8)))).trans (Nat.mod_eq_of_lt hwidth')
  have hh : blobHeight _ = s.height :=
    (blobHeight_header s fps frames.length
      (frames.flatMap (bitmap s.width (s.height / 8)))).trans (Nat.mod_eq_of_lt hheight')
  have hfps := blobFps_header s fps frames.length
    (frames.flatMap (bitmap s.width (s.height / 8)))
  have hn : blobFrames _ = frames.length :=
    (blobFrames_header s fps frames.length
      (frames.flatMap (bitmap s.width (s.height / 8)))).trans (Nat.mod_eq_of_lt hcount)
  have hfb : blobFbLen (header s fps frames.length ++
      frames.flatMap (bitmap s.width (s.height / 8))) = s.fbLen := by
    rw [blobFbLen, hw, hh, s.fbLen_eq, Nat.mul_comm]
  refine ⟨hw, hh, hfps, hn, fun k hk x hx y hy => ?_, fun keyint => ?_⟩
  · have hk' : k < (frames.map (bitmap s.width (s.height / 8))).length := by
      rwa [List.length_map]
    rw [blobFrame, hfb, drop_header, nthFrame, List.flatMap_def, Packing.slice_flatten hlen hk',
      List.getElem_map, lit_bitmap hx (s.rows.symm ▸ hy)]
  · rw [emitDelta_ok_iff]
    refine and_congr_right fun _ => ⟨fun h => ?_, fun h => ?_⟩
    · exact ⟨hfps ▸ h.fps, hfb ▸ h.multiple, hfb ▸ h.bound⟩
    · refine ⟨rfl, hw ▸ hwidth.ne', hh ▸ hheight.ne', by rw [hh]; exact hmultiple, hfps ▸ h.1, ?_,
        hfb ▸ h.2.1, hfb ▸ h.2.2, ?_⟩
      · rw [hn]
        exact (List.length_pos_iff.mpr hframes).ne'
      · have hbody : (frames.flatMap (bitmap s.width (s.height / 8))).length =
            frames.length * s.fbLen := by
          rw [length_bitmaps, s.fbLen_eq]
        rw [hn, hfb, List.length_append, hbody]
        rfl

/-- The pictures in a stream of grey pixels, lit from a threshold on. -/
def pictures (width height threshold : ℤ) (stdin : List UInt8) : List (ℕ → ℕ → Bool) :=
  let px := (width * height).toNat
  (List.range (stdin.length / px)).map fun k x y =>
    decide (threshold ≤ ((stdin.getD (k * px + (y * width.toNat + x)) 0).toNat : ℤ))

/-- **The two makes agree.** -/
theorem baked_eq_packed (width height fps threshold : ℤ) (stdin : List UInt8)
    (hpack : (pack width height fps threshold stdin).1 = none) :
    Hex.decode (badaHex ⟨width.toNat, height.toNat, fps.toNat,
        pictures width height threshold stdin⟩) =
      some (pack width height fps threshold stdin).2 := by
  rw [badaHex, decode_hex (badaBytes_lt _), pictures]
  rcases pack_cases width height fps threshold stdin with
    ⟨s, f, t, -, -, -, rfl, rfl, rfl, rfl, hout⟩ | ⟨-, e, hout⟩
  · have hpixels : ((s.width : ℤ) * s.height).toNat = s.pixels := by
      rw [Size.pixels, ← Nat.cast_mul, Int.toNat_natCast]
    rw [hout] at hpack ⊢
    rcases packSized_cases s f t stdin with ⟨-, -, heq⟩ | ⟨-, e, out, heq⟩
    · have hblob := blob_header s f ((List.range (stdin.length / s.pixels)).map
        fun k x y => decide ((t : ℤ) ≤ ((stdin.getD
          (k * s.pixels + (y * s.width + x)) 0).toNat : ℤ)))
      rw [Size.spec, List.length_map, List.length_range] at hblob
      rw [heq, hpixels, Int.toNat_natCast, Int.toNat_natCast, Int.toNat_natCast, hblob,
        List.flatMap_map, packedFrames, ← List.flatMap_def]
      congr 2
      refine List.flatMap_congr fun k _ => ?_
      rw [BadApple.packFrame_eq]
      refine bitmap_congr fun x hx y hy => ?_
      rw [on_nthFrame s t stdin k hx (s.rows ▸ hy)]
      exact decide_eq_decide.mpr Nat.cast_le
    · rw [heq] at hpack
      cases hpack
  · rw [hout] at hpack
    cases hpack

/-- Two dark frames and a bright one, two columns wide. -/
def blink : List UInt8 := List.replicate 32 0 ++ List.replicate 16 255

theorem baked_eq_packed_blink :
    Hex.decode (badaHex ⟨2, 8, 30, pictures 2 8 128 blink⟩) = some (pack 2 8 30 128 blink).2 :=
  baked_eq_packed 2 8 30 128 blink
    ((packs_iff _ _ _ _ _).mpr ⟨by decide, by decide, by decide, by decide, by decide, by decide,
      by decide, by decide, by decide⟩)

end BadgeOS.BadApple
