import BadgeOS.CodaCube.SliceMacroblock
import Mathlib

/-!
# The slice is read back

* `meant`, `partsOf` — what a macroblock is to be, and its records in the list of parts;
* `Step`, `macroblock_step` — a macroblock is left to the next skip run, or it is sent;
* `reads_rest` — the macroblocks from any one on;
* `slice_read` — the whole slice.
-/

namespace BadgeOS.CodaCube.Slice

open BW ExpGolomb BitField AvcHeaders AvcMotion AvcSlice

/-! ### One macroblock -/

/-- What macroblock `m` is to be, behind `mbs`. -/
def meant (S : Setting) (mbs : List Macroblock) (m : ℕ) : Macroblock :=
  match S.pcm m with
  | some pcm => .pcm (pcm.map UInt8.toNat)
  | none =>
      if S.any m then .inter ((S.blocks m).map Block.partition)
      else if skipMotion S.WMB (mbs.map Macroblock.field) = (0, 0) then .skip (0, 0)
      else .inter [⟨0, 0, 4, 0, (0, 0)⟩]

/-- The records of a macroblock; samples have reference -1. -/
def partsOf (S : Setting) (m : ℕ) : Macroblock → List Part
  | .skip mv => [partOf S m ⟨0, 0, 4, 0, mv⟩]
  | .inter parts => parts.map (partOf S m)
  | .pcm _ => [⟨int16 (S.x4 m * 4), int16 (S.y4 m * 4), 16, 16, -1, 0, 0⟩]
  | .bi _ _ => []

/-- A macroblock of a slice: it is left to the next skip run, or it is sent behind the last. -/
inductive Step (S : Setting) (mbs : List Macroblock) (e e' : Enc) (mb : Macroblock) : Prop
  | skipped (hmb : mb = .skip (skipMotion S.WMB (mbs.map Macroblock.field))) (hbw : e'.bw = e.bw)
      (hskip : e'.skip = e.skip + 1)
  | sent (code : List Bool) (hcode : code ≠ [])
      (hbits : e'.bw.bits = e.bw.bits ++ (ue e.skip ++ code)) (hn : e'.bw.n < 8)
      (hskip : e'.skip = 0)
      (hreads : Reads (readMacroblockP S.WMB S.refs.NREF mbs)
        (e.bw.bits.length + (ue e.skip).length) code mb)

section Macroblock

variable {D : Drawing} {mbs : List Macroblock} {e : Enc}

theorem writes_te {r : ℕ} (hNREF : 0 < D.refs.NREF) :
    Writes (bwTe D.toSetting r) (te (D.refs.NREF - 1) r) := by
  intro b hb
  rw [bwTe, te]
  by_cases htwo : D.refs.NREF = 2
  · have hone : D.refs.NREF - 1 = 1 := by omega
    rw [if_pos htwo, hone, if_neg one_ne_zero, if_pos rfl]
    have hflag := writes_flag (decide (r = 0)) b hb
    by_cases hr : r = 0
    · simpa [hr] using hflag
    · simpa [hr] using hflag
  · rw [if_neg htwo]
    by_cases hmany : D.refs.NREF > 2
    · rw [if_pos hmany, if_neg (by omega), if_neg (by omega)]
      exact writes_ue r b hb
    · rw [if_neg hmany, if_pos (by omega)]
      exact ⟨(List.append_nil _).symm, hb⟩

/-- A macroblock that is set as a whole. -/
theorem drawn_whole (h : Drawn D.toSetting mbs [] e.grid) {mb : Macroblock} {r : ℤ} (hr : -1 ≤ r)
    (hr' : r ≤ 0) (hmb : mb.field = fun _ _ => some ⟨r, (0, 0)⟩) :
    Drawn D.toSetting (mbs ++ [mb]) []
      (setblk e.grid (D.x4 mbs.length) (D.y4 mbs.length) 4 r (0, 0)) := by
  have hgrid := @Agrees.whole _ _ _ _ h r hr (by omega) (0, 0) ⟨is16_zero, is16_zero⟩
  rw [List.length_map] at hgrid
  rw [Drawn, List.map_append, List.map_singleton, hmb]
  exact hgrid

/-- Samples. -/
theorem pcm_step (h : Drawn D.toSetting mbs [] e.grid) (hn : e.bw.n < 8) {pcm : List UInt8}
    (hpcm : D.pcm mbs.length = some pcm) :
    let e' := macroblock D.toSetting e mbs.length
    let mb := Macroblock.pcm (pcm.map UInt8.toNat)
    Step D.toSetting mbs e e' mb ∧ Drawn D.toSetting (mbs ++ [mb]) [] e'.grid ∧
      e'.parts = e.parts ++ partsOf D.toSetting mbs.length mb := by
  have hlen : pcm.length = 384 := by
    rw [Setting.pcm] at hpcm
    split at hpcm
    · exact D.samples hpcm
    · cases hpcm
  obtain ⟨hbits, hn'⟩ := (writes_ue e.skip).comp (writes_ue 30) e.bw hn
  obtain ⟨halign, hzero⟩ := align_bits _ hn'
  obtain ⟨hcopy, hzero'⟩ := copy_bits pcm hzero
  rw [macroblock, hpcm]
  refine ⟨.sent _ (ue_ne_nil _ _) ?_ (by simp only [hzero']; decide) rfl
    (reads_pcmMacroblock mbs hlen _ _ _), drawn_whole h le_rfl (by decide) rfl, rfl⟩
  simp only [hcopy, halign, hbits, samplesCode, bits_eq_flatMap, List.length_append,
    List.append_assoc, Nat.add_assoc]

/-- One partition for the whole macroblock. -/
theorem sixteen_step (h : Drawn D.toSetting mbs [] e.grid) (hlt : mbs.length < D.mbs)
    (hn : e.bw.n < 8) {k : Block} (hx : k.x = 0) (hy : k.y = 0) (hw : k.w = 4)
    (hk : k.Fits D.toSetting) {e' : Enc}
    (he' : e' =
      let e₁ := block D.toSetting mbs.length
        { e with bw := bwTe D.toSetting k.ref (bwUe 0 (bwUe e.skip e.bw)), skip := 0 } k
      { e₁ with bw := bwUe 0 e₁.bw }) :
    Step D.toSetting mbs e e' (.inter [k.partition]) ∧
      Drawn D.toSetting (mbs ++ [.inter [k.partition]]) [] e'.grid ∧
      e'.parts = e.parts ++ partsOf D.toSetting mbs.length (.inter [k.partition]) := by
  obtain ⟨hbits, hn₁⟩ := ((writes_ue e.skip).comp ((writes_ue 0).comp
    (writes_te (r := k.ref) D.NREF_pos))) e.bw hn
  obtain ⟨⟨hblock, hn₂⟩, hdrawn, hparts, hskip⟩ := block_write (S := D.toSetting)
    (e := { e with bw := bwTe D.toSetting k.ref (bwUe 0 (bwUe e.skip e.bw)), skip := 0 })
    h hlt D.NREF_le hk hn₁
  obtain ⟨hbits', hn₃⟩ := writes_ue 0 _ hn₂
  subst he'
  refine ⟨.sent (sixteenCode D.toSetting mbs k) (ue_ne_nil _ _) ?_ hn₃ hskip
    (reads_sixteen _ _ hx hy hw hk.ref_lt _), hdrawn.next, hparts⟩
  simp only [hbits', hblock, hbits, sixteenCode, motionCode, List.append_assoc, List.append_nil]

/-- Four 8x8 blocks. -/
theorem eights_step (h : Drawn D.toSetting mbs [] e.grid) (hlt : mbs.length < D.mbs)
    (hn : e.bw.n < 8) (hpart : D.part ≠ .p16) {e' : Enc}
    (he' : e' =
      let bw := bwUe 3 (bwUe e.skip e.bw)
      let bw := (List.range 4).foldl (fun b p => bwUe (D.block8 mbs.length p).1 b) bw
      let bw := (List.range 4).foldl (fun b p => bwTe D.toSetting (D.block8 mbs.length p).2.1 b) bw
      let e₁ := (D.blocks mbs.length).foldl (block D.toSetting mbs.length)
        { e with bw := bw, skip := 0 }
      { e₁ with bw := bwUe 0 e₁.bw }) :
    let mb := Macroblock.inter ((D.blocks mbs.length).map Block.partition)
    Step D.toSetting mbs e e' mb ∧ Drawn D.toSetting (mbs ++ [mb]) [] e'.grid ∧
      e'.parts = e.parts ++ partsOf D.toSetting mbs.length mb := by
  obtain ⟨hbits, hn₁⟩ := ((writes_ue e.skip).comp ((writes_ue 3).comp
    ((writes_foldl (fun p => writes_ue (D.block8 mbs.length p).1) (List.range 4)).comp
      (writes_foldl (fun p => writes_te (r := (D.block8 mbs.length p).2.1) D.NREF_pos)
        (List.range 4))))) e.bw hn
  simp only at hbits hn₁ he'
  generalize hbw : (List.range 4).foldl (fun b p => bwTe D.toSetting (D.block8 mbs.length p).2.1 b)
    ((List.range 4).foldl (fun b p => bwUe (D.block8 mbs.length p).1 b)
      (bwUe 3 (bwUe e.skip e.bw))) = bw at hbits hn₁ he'
  obtain ⟨⟨hblock, hn₂⟩, hdrawn, hparts, hskip⟩ := blocks_write (S := D.toSetting)
    (e := { e with bw := bw, skip := 0 }) h hlt D.NREF_le
    (fun k hk => blocks_fit D hlt hk) hn₁
  obtain ⟨hbits', hn₃⟩ := writes_ue 0 _ hn₂
  subst he'
  refine ⟨.sent (eightsCode D.toSetting mbs mbs.length) (ue_ne_nil _ _) ?_ hn₃ hskip
    (reads_eights D _ hpart _), hdrawn.next, hparts⟩
  simp only [hbits', hblock, hbits, eightsCode, List.append_assoc]

/-- **One macroblock.** -/
theorem macroblock_step (h : Drawn D.toSetting mbs [] e.grid) (hlt : mbs.length < D.mbs)
    (hn : e.bw.n < 8) :
    let e' := macroblock D.toSetting e mbs.length
    let mb := meant D.toSetting mbs mbs.length
    Step D.toSetting mbs e e' mb ∧ Drawn D.toSetting (mbs ++ [mb]) [] e'.grid ∧
      e'.parts = e.parts ++ partsOf D.toSetting mbs.length mb := by
  have hpskip := pskipMv_eq h (by rwa [List.length_map])
  rw [List.length_map] at hpskip
  rw [meant]
  rcases hpcm : D.pcm mbs.length with _ | pcm
  · cases hany : D.any mbs.length with
    | false =>
        by_cases hskip : skipMotion D.WMB (mbs.map Macroblock.field) = (0, 0)
        · have he' : macroblock D.toSetting e mbs.length =
              { e with
                skip := e.skip + 1
                grid := setblk e.grid (D.x4 mbs.length) (D.y4 mbs.length) 4 0 (0, 0)
                parts := e.parts ++ partsOf D.toSetting mbs.length (.skip (0, 0)) } := by
            rw [macroblock, hpcm]
            simp only [hany, hpskip, hskip, if_true]
            rfl
          simp only [Bool.false_eq_true, if_false, hskip, if_true, he']
          exact ⟨.skipped (by rw [hskip]) rfl rfl, drawn_whole h (by decide) le_rfl rfl, trivial⟩
        · simp only [Bool.false_eq_true, if_false, hskip]
          have hfits : (⟨0, 0, 4, 0, (0, 0)⟩ : Block).Fits D.toSetting :=
            ⟨le_rfl, le_rfl, by decide, D.NREF_pos, ⟨by decide, by decide⟩, by decide, by decide⟩
          refine sixteen_step h hlt hn rfl rfl rfl hfits ?_
          rw [macroblock, hpcm]
          simp only [hany, hpskip, hskip, if_true, if_false, block, Nat.add_zero, Nat.cast_zero,
            zero_sub]
          rfl
    | true =>
        simp only [if_true]
        by_cases hpart : D.part = .p16
        · have hblocks : D.blocks mbs.length =
              [⟨0, 0, 4, (D.face mbs.length 0).getD 0, D.mvFor mbs.length 0⟩] := by
            rw [Setting.blocks, if_pos hpart]
          have hfits := blocks_fit D hlt (k := ⟨0, 0, 4, (D.face mbs.length 0).getD 0,
            D.mvFor mbs.length 0⟩) (by rw [hblocks]; exact List.mem_singleton_self _)
          rw [hblocks]
          refine sixteen_step h hlt hn rfl rfl rfl hfits ?_
          rw [macroblock, hpcm]
          simp only [hany, hpart, hblocks, if_true]
          rfl
        · refine eights_step h hlt hn hpart ?_
          rw [macroblock, hpcm]
          simp only [hany, hpart, if_false]
          rfl
  · exact pcm_step h hn hpcm

end Macroblock

/-! ### The macroblocks of a picture -/

section Picture

variable (S : Setting)

/-- The first `m` macroblocks. -/
def picture : ℕ → List Macroblock
  | 0 => []
  | m + 1 => picture m ++ [meant S (picture m) m]

@[simp] theorem length_picture (m : ℕ) : (picture S m).length = m := by
  induction m with
  | zero => rfl
  | succ m ih => rw [picture, List.length_append, ih, List.length_singleton]

/-- The records of macroblocks, one after another. -/
def partsIn (mbs : List Macroblock) : List Part := mbs.zipIdx.flatMap fun p => partsOf S p.2 p.1

theorem partsIn_append (mbs : List Macroblock) (mb : Macroblock) :
    partsIn S (mbs ++ [mb]) = partsIn S mbs ++ partsOf S mbs.length mb := by
  simp [partsIn, List.zipIdx_append]

/-- What is pending at the end is written. -/
def finish (e : Enc) : BW := if e.skip ≠ 0 then bwUe e.skip e.bw else e.bw

/-- Before macroblock `m`, with `coded` sent and the rest left to a skip run. -/
structure Pending (D : Drawing) (m : ℕ) (coded : List Macroblock) (e : Enc) : Prop where
  drawn : Drawn D.toSetting (picture D.toSetting m) [] e.grid
  n_lt : e.bw.n < 8
  parts : e.parts = partsIn D.toSetting (picture D.toSetting m)
  pending : picture D.toSetting m = skipped D.WMB coded e.skip

/-- **The macroblocks from `m` on.** -/
theorem reads_rest {D : Drawing} (k : ℕ) {m : ℕ} {coded : List Macroblock} {e : Enc}
    (h : Pending D m coded e) (hm : m + k = D.mbs) :
    let e' := (List.range' m k).foldl (macroblock D.toSetting) e
    let all := picture D.toSetting D.mbs
    (finish e').n < 8 ∧ e'.parts = partsIn D.toSetting all ∧
      ∃ code, (finish e').bits = e.bw.bits ++ code ∧ ∀ fuel, k < fuel →
        Rest D.WMB (D.refs.NREF, 0) .P fuel e.bw.bits.length coded code all := by
  induction k generalizing m coded e with
  | zero =>
      have hall : m = D.mbs := by omega
      subst hall
      simp only [List.range'_zero, List.foldl_nil]
      rw [finish]
      by_cases hskip : e.skip = 0
      · rw [if_neg (not_not_intro hskip)]
        have hcoded := h.pending
        rw [hskip, skipped] at hcoded
        exact ⟨h.n_lt, h.parts, [], (List.append_nil _).symm, fun _ _ => .inl ⟨rfl, hcoded.symm⟩⟩
      · obtain ⟨hbits, hn⟩ := writes_ue e.skip e.bw h.n_lt
        rw [if_pos hskip]
        refine ⟨hn, h.parts, ue e.skip, hbits, fun fuel hfuel => .inr ⟨?_, ?_⟩⟩
        · simpa using ue_ne_nil e.skip []
        · obtain ⟨fuel, rfl⟩ := Nat.exists_eq_succ_of_ne_zero hfuel.ne'
          rw [h.pending]
          exact ends_skipped (reads_skipRun _ _) (Nat.pos_of_ne_zero hskip)
  | succ k ih =>
      obtain ⟨hstep, hdrawn, hparts⟩ := macroblock_step (D := D) (e := e) h.drawn
        (by rw [length_picture]; omega) h.n_lt
      rw [length_picture] at hstep hdrawn hparts
      rw [List.range'_succ, List.foldl_cons]
      generalize macroblock D.toSetting e m = e₁ at *
      generalize hmb : meant D.toSetting (picture D.toSetting m) m = mb at *
      have hnext : picture D.toSetting (m + 1) = picture D.toSetting m ++ [mb] := by
        rw [picture, hmb]
      have hparts' : e₁.parts = partsIn D.toSetting (picture D.toSetting (m + 1)) := by
        rw [hparts, h.parts, hnext, partsIn_append, length_picture]
      cases hstep with
      | skipped hskipMb hbw hskip =>
          have hpending : Pending D (m + 1) coded e₁ :=
            { drawn := by rw [hnext]; exact hdrawn
              n_lt := by rw [hbw]; exact h.n_lt
              parts := hparts'
              pending := by rw [hnext, hskipMb, hskip, skipped, ← h.pending] }
          obtain ⟨hn, hall, code, hbits, hcode⟩ := ih hpending (by omega)
          rw [hbw] at hbits hcode
          exact ⟨hn, hall, code, hbits, fun fuel hfuel => hcode fuel (by omega)⟩
      | sent code hne hbits hn hskip hreads =>
          have hpending : Pending D (m + 1) (picture D.toSetting (m + 1)) e₁ :=
            { drawn := by rw [hnext]; exact hdrawn
              n_lt := hn
              parts := hparts'
              pending := by rw [hskip, skipped] }
          obtain ⟨hn', hall, code', hbits', hcode'⟩ := ih hpending (by omega)
          refine ⟨hn', hall, (ue e.skip ++ code) ++ code', ?_, ?_⟩
          · rw [hbits', hbits, List.append_assoc]
          · intro fuel hfuel
            obtain ⟨fuel, rfl⟩ :=
              Nat.exists_eq_succ_of_ne_zero (Nat.ne_of_gt (Nat.zero_lt_of_lt hfuel))
            have hrest := hcode' fuel (by omega)
            rw [hbits, hnext, h.pending, List.length_append] at hrest
            exact hrest.sent (reads_skipRun e.skip _) (h.pending ▸ hreads) hne

end Picture

/-! ### The whole slice -/

/-- Before the first macroblock. -/
theorem pending_begin (D : Drawing) (old : Kept) (frameNum poc : ℕ) (isRef : Bool) :
    let e := begin D.toSetting old frameNum poc isRef
    Pending D 0 [] e ∧ e.bw.bits = headerCode D.toSetting frameNum poc isRef := by
  obtain ⟨hbits, hn⟩ := writes_sliceHeader D.toSetting D.NREF_pos frameNum poc isRef .empty
    (by decide)
  refine ⟨⟨agrees_nil old.grid, hn, rfl, rfl⟩, ?_⟩
  rw [show (BW.empty).bits = [] from rfl, List.nil_append] at hbits
  exact hbits

/-- **The slice that `encode_frame` writes** is read back, up to the last bit: its header with the
list and the weights, and in each macroblock what was meant.  It does not end in a zero byte. -/
theorem slice_read (D : Drawing) (o : Pictures.Options) (old : Kept) (frameNum poc : ℕ)
    (isRef : Bool) :
    let out := encodeFrame D.toSetting old frameNum poc isRef
    let mbs := picture D.toSetting D.mbs
    readSlice (Bitstream.parameterSets D.toMbSize o) false (if isRef then 2 else 0)
        ⟨0, BitField.bits out.1⟩ =
      some ((header D.toSetting frameNum poc isRef, mbs), ⟨(BitField.bits out.1).length, []⟩) ∧
      out.1.getLast? ≠ some 0 ∧ out.2.1 = partsIn D.toSetting mbs := by
  obtain ⟨hbegin, hheader⟩ := pending_begin D old frameNum poc isRef
  obtain ⟨hn, hparts, code, hbits, hcode⟩ := reads_rest D.mbs hbegin (Nat.zero_add _)
  rw [hheader] at hbits hcode
  obtain ⟨-, hends⟩ := (hcode (D.mbs + 1) (Nat.lt_succ_self _)).resolve_left fun h => by
    have hlen := congrArg List.length h.2
    rw [length_picture] at hlen
    exact D.mbs_pos.ne hlen
  have hbytes := trailing_bytes _ hn
  rw [hbits] at hbytes
  have hout : (encodeFrame D.toSetting old frameNum poc isRef).1 = (bwTrailing (finish
      ((List.range' 0 D.mbs).foldl (macroblock D.toSetting)
        (begin D.toSetting old frameNum poc isRef)))).buf := by
    rw [encodeFrame, List.range_eq_range']
    rfl
  refine ⟨?_, ?_, ?_⟩
  · rw [hout, hbytes]
    exact readSlice_eq (reads_header D.toSetting D.NREF_pos o frameNum poc isRef 0)
      hends (length_picture _ _)
  · rw [hout]
    exact getLast?_ne_zero hbytes
  · rw [encodeFrame, List.range_eq_range']
    exact hparts

end BadgeOS.CodaCube.Slice
