import BadgeOS.CodaCube.ReferenceChoice
import BadgeOS.CodaCube.SliceHeader
import BadgeOS.Lib.AvcSlice
import Mathlib

/-!
# A macroblock is read back

* `blocks_fit` — the partitions of a macroblock lie in it, and their entries in the list;
* `motionCode` — the vectors of a macroblock, written by `blocks_write`, read by `reads_motion`.
-/

namespace BadgeOS.CodaCube.Slice

open BW ExpGolomb BitField AvcHeaders AvcMotion AvcSlice

/-- A partition that a decoder finds. -/
def Block.partition (k : Block) : Partition := ⟨k.x, k.y, k.w, k.ref, k.mv⟩

def Block.shape (k : Block) : Shape := ⟨k.x, k.y, k.w, k.ref⟩

/-- In the macroblock, with an entry of the list, and a vector of 16 bits. -/
structure Block.Fits (S : Setting) (k : Block) : Prop where
  right : k.x + k.w ≤ 4
  bottom : k.y + k.w ≤ 4
  width_pos : 0 < k.w
  ref_lt : k.ref < S.refs.NREF
  mv : Is16 k.mv.1 ∧ Is16 k.mv.2

/-! ### The partitions of a macroblock -/

section Blocks

variable (D : Drawing)

theorem face_lt {m q r : ℕ} (h : D.face m q = some r) : 1 ≤ r ∧ r < D.refs.NREF := by
  rw [Setting.face] at h
  split at h
  · exact D.entry_lt h
  · cases h

/-- The entry that most of an 8x8 block uses is one of the list. -/
theorem mostCommon_lt {es : List ℕ} (hne : es ≠ []) (hes : ∀ e ∈ es, 1 ≤ e ∧ e < D.refs.NREF) :
    (References.Frame.mostCommon D.refs (es.map fun (e : ℕ) => (e : ℤ))).toNat < D.refs.NREF := by
  obtain ⟨e, he⟩ := List.exists_mem_of_ne_nil es hne
  obtain ⟨hpos, hlt⟩ := hes e he
  rcases References.Frame.mostCommon_mem (es.map fun (e : ℕ) => (e : ℤ))
    (List.range' 1 (D.refs.NREF - 1)) with ⟨-, hnone⟩ | ⟨i, hi, hbr⟩
  · exact absurd (List.mem_map_of_mem he) (hnone e (List.mem_range'_1.mpr (by omega)))
  · have hrange := List.mem_range'_1.mp hi
    rw [References.Frame.mostCommon, hbr, Int.toNat_natCast]
    omega

theorem block8_ref_lt (m p : ℕ) : (D.block8 m p).2.1 < D.refs.NREF := by
  rw [Setting.block8]
  split
  · split
    · exact D.NREF_pos
    · rename_i r hface
      exact (face_lt D hface).2
  · simp only
    split
    · exact D.NREF_pos
    · rename_i hne
      refine mostCommon_lt D hne ?_
      intro e he
      obtain ⟨q, -, hq⟩ := List.mem_filterMap.mp he
      exact face_lt D hq

theorem block8_sub (m p : ℕ) : (D.block8 m p).1 = 0 ∨ (D.block8 m p).1 = 3 := by
  rw [Setting.block8]
  split
  · split <;> exact .inl rfl
  · simp only
    split
    · exact .inl rfl
    · exact .inr rfl

/-- The partitions of an 8x8 block, as a decoder divides it. -/
theorem subShapes_eq (m p : ℕ) :
    subShapes p (D.block8 m p).1 (D.block8 m p).2.1 = some ((D.blocks8 m p).map Block.shape) := by
  rw [subShapes, Setting.blocks8]
  rcases block8_sub D m p with h | h <;> simp only [h] <;> rfl

theorem blocks8_place {m p : ℕ} (hp : p < 4) {k : Block} (hk : k ∈ D.blocks8 m p) :
    k.x + k.w ≤ 4 ∧ k.y + k.w ≤ 4 ∧ 0 < k.w ∧ k.ref = (D.block8 m p).2.1 := by
  rw [Setting.blocks8] at hk
  simp only at hk
  split at hk
  · rw [List.mem_singleton] at hk
    subst hk
    exact ⟨by simp only; omega, by simp only; omega, by simp only; omega, rfl⟩
  · obtain ⟨s, hs, rfl⟩ := List.mem_map.mp hk
    have hlt := List.mem_range.mp hs
    exact ⟨by simp only; omega, by simp only; omega, by simp only; omega, rfl⟩

/-- **The partitions of a macroblock** lie in it. -/
theorem blocks_fit {m : ℕ} (hm : m < D.mbs) {k : Block} (hk : k ∈ D.blocks m) :
    k.Fits D.toSetting := by
  have hmv := D.vectors m hm k hk
  rw [Setting.blocks] at hk
  split at hk
  · rw [List.mem_singleton] at hk
    subst hk
    refine ⟨le_rfl, le_rfl, by simp only; omega, ?_, hmv⟩
    rcases hface : D.face m 0 with _ | r
    · exact D.NREF_pos
    · exact (face_lt D hface).2
  · obtain ⟨p, hp, hk⟩ := List.mem_flatMap.mp hk
    obtain ⟨hright, hbottom, hwidth, href⟩ := blocks8_place D (List.mem_range.mp hp) hk
    exact ⟨hright, hbottom, hwidth, href ▸ block8_ref_lt D m p, hmv⟩

end Blocks

/-! ### The vectors -/

section Motion

variable {S : Setting} {mbs : List Macroblock} {parts : List Partition} {g : Grid}

/-- The record of a partition. -/
def partOf (S : Setting) (m : ℕ) (p : Partition) : Part :=
  ⟨int16 ((S.x4 m + p.x : ℕ) * 4), int16 ((S.y4 m + p.y : ℕ) * 4), p.w * 4, p.w * 4, int16 p.ref,
    int16 p.mv.1, int16 p.mv.2⟩

/-- The differences of the vectors. -/
def motionCode (S : Setting) (mbs : List Macroblock) : List Block → List Partition → List Bool
  | [], _ => []
  | k :: ks, parts =>
      let p := predict S.WMB (mbs.map Macroblock.field) (motionIn parts) k.x k.y k.w k.ref
      (se (k.mv.1 - p.1) ++ se (k.mv.2 - p.2)) ++ motionCode S mbs ks (parts ++ [k.partition])

theorem reads_motion (ks : List Block) (pos : ℕ) :
    Reads (readMotion S.WMB mbs (ks.map Block.shape) parts) pos (motionCode S mbs ks parts)
      (parts ++ ks.map Block.partition) := by
  induction ks generalizing parts pos with
  | nil =>
      rw [List.map_nil, List.map_nil, List.append_nil]
      exact .pure parts pos
  | cons k ks ih =>
      have hsum (p : ℤ × ℤ) : (p.1 + (k.mv.1 - p.1), p.2 + (k.mv.2 - p.2)) = k.mv :=
        Prod.ext (by simp) (by simp)
      refine (reads_pair _ _ pos).bind ?_
      have hrest (pos : ℕ) := @ih (parts ++ [k.partition]) pos
      simp only [List.append_assoc] at hrest
      simp only [Block.shape, hsum]
      exact hrest _

/-- The grid holds the motion of `mbs`, and of `parts` of the next macroblock. -/
def Drawn (S : Setting) (mbs : List Macroblock) (parts : List Partition) (g : Grid) : Prop :=
  Agrees S.toMbSize (mbs.map Macroblock.field) (motionIn parts) g

theorem Drawn.next (h : Drawn S mbs parts g) : Drawn S (mbs ++ [.inter parts]) [] g := by
  rw [Drawn, List.map_append]
  exact Agrees.next h

/-- One vector is written, and the grid goes along. -/
theorem block_write {e : Enc} (h : Drawn S mbs parts e.grid) (hlt : mbs.length < S.mbs)
    (hNREF : S.refs.NREF ≤ References.MAXREF) {k : Block} (hk : k.Fits S) (hn : e.bw.n < 8) :
    let e' := block S mbs.length e k
    let p := predict S.WMB (mbs.map Macroblock.field) (motionIn parts) k.x k.y k.w k.ref
    (e'.bw.bits = e.bw.bits ++ (se (k.mv.1 - p.1) ++ se (k.mv.2 - p.2)) ∧ e'.bw.n < 8) ∧
      Drawn S mbs (parts ++ [k.partition]) e'.grid ∧
      e'.parts = e.parts ++ [partOf S mbs.length k.partition] ∧ e'.skip = e.skip := by
  obtain ⟨hright, hbottom, hwidth, href, hmv⟩ := hk
  have hpred := mvp_eq h (by rwa [List.length_map]) hright (show k.y < 4 by omega) k.ref
  have href' : ((k.ref : ℕ) : ℤ) < 2 ^ 7 := by
    have hle := lt_of_lt_of_le href hNREF
    rw [References.MAXREF] at hle
    omega
  have hparts : ∀ i < 4, ∀ j < 4, motionIn (parts ++ [k.partition]) i j =
      if k.x ≤ i ∧ i < k.x + k.w ∧ k.y ≤ j ∧ j < k.y + k.w then some ⟨k.ref, k.mv⟩
      else motionIn parts i j := by
    intro i _ j _
    rw [motionIn_append]
    exact if_congr (k.partition.covers_iff i j) rfl rfl
  have hgrid := Agrees.setblk h hright hbottom (r := k.ref) (by omega) href' hmv hparts
  rw [List.length_map] at hpred hgrid
  refine ⟨?_, hgrid, rfl, rfl⟩
  simp only [block, Nat.cast_add, hpred]
  exact (writes_se _).comp (writes_se _) e.bw hn

/-- **The vectors of a macroblock** are written. -/
theorem blocks_write {e : Enc} (h : Drawn S mbs parts e.grid) (hlt : mbs.length < S.mbs)
    (hNREF : S.refs.NREF ≤ References.MAXREF) {ks : List Block} (hks : ∀ k ∈ ks, k.Fits S)
    (hn : e.bw.n < 8) :
    let e' := ks.foldl (block S mbs.length) e
    (e'.bw.bits = e.bw.bits ++ motionCode S mbs ks parts ∧ e'.bw.n < 8) ∧
      Drawn S mbs (parts ++ ks.map Block.partition) e'.grid ∧
      e'.parts = e.parts ++ (ks.map Block.partition).map (partOf S mbs.length) ∧
      e'.skip = e.skip := by
  induction ks generalizing parts e with
  | nil => exact ⟨⟨(List.append_nil _).symm, hn⟩, by simpa using h, by simp, rfl⟩
  | cons k ks ih =>
      obtain ⟨⟨hbits, hn'⟩, hgrid, hparts, hskip⟩ :=
        block_write h hlt hNREF (hks k List.mem_cons_self) hn
      obtain ⟨⟨hbits', hn''⟩, hdrawn, hparts', hskip'⟩ :=
        ih hgrid (fun k' hk' => hks k' (List.mem_cons_of_mem _ hk')) hn'
      rw [List.foldl_cons]
      refine ⟨⟨?_, hn''⟩, ?_, ?_, hskip'.trans hskip⟩
      · rw [hbits', hbits, motionCode, List.append_assoc]
      · simpa using hdrawn
      · rw [hparts', hparts, List.append_assoc]
        rfl

end Motion

/-! ### What a macroblock is read as -/

section Reading

variable (S : Setting) (mbs : List Macroblock)

/-- One partition, with the list entry in front. -/
def sixteenCode (k : Block) : List Bool :=
  ue 0 ++ (te (S.refs.NREF - 1) k.ref ++ (motionCode S mbs [k] [] ++ ue 0))

/-- Four 8x8 blocks. -/
def eightsCode (m : ℕ) : List Bool :=
  ue 3 ++ ((List.range 4).flatMap (fun p => ue (S.block8 m p).1) ++
    ((List.range 4).flatMap (fun p => te (S.refs.NREF - 1) (S.block8 m p).2.1) ++
      (motionCode S mbs (S.blocks m) [] ++ ue 0)))

theorem reads_sixteen {k : Block} (hx : k.x = 0) (hy : k.y = 0) (hw : k.w = 4)
    (href : k.ref < S.refs.NREF) (pos : ℕ) :
    Reads (readMacroblockP S.WMB S.refs.NREF mbs) pos (sixteenCode S mbs k)
      (.inter [k.partition]) := by
  have hmotion (pos : ℕ) : Reads (readMotion S.WMB mbs [⟨0, 0, 4, k.ref⟩] []) pos
      (motionCode S mbs [k] []) [k.partition] := by
    have hread := @reads_motion S mbs [] [k] pos
    rwa [List.map_singleton, Block.shape, hx, hy, hw] at hread
  refine (reads_ue 0 pos).bind ?_
  rw [if_pos rfl]
  refine (reads_te (by omega) _).bind ?_
  refine (hmotion _).bind ?_
  exact (reads_noResidual _).last rfl

theorem reads_pcmMacroblock {samples : List UInt8} (hlen : samples.length = 384)
    (width active pos : ℕ) :
    Reads (readMacroblockP width active mbs) pos
      (ue 30 ++ samplesCode (pos + (ue 30).length) (samples.map UInt8.toNat))
      (.pcm (samples.map UInt8.toNat)) := by
  refine (reads_ue 30 pos).bind ?_
  rw [if_neg (by decide), if_neg (by decide), if_pos rfl]
  refine reads_pcm (by rw [List.length_map, hlen]) ?_ _
  intro v hv
  obtain ⟨b, -, rfl⟩ := List.mem_map.mp hv
  exact b.toNat_lt

end Reading

section Drawn

variable (D : Drawing) (mbs : List Macroblock)

theorem mapM_subShapes (m : ℕ) :
    (List.range 4).mapM (fun p => subShapes p
        (((List.range 4).map fun p => (D.block8 m p).1).getD p 0)
        (((List.range 4).map fun p => (D.block8 m p).2.1).getD p 0)) =
      some ((List.range 4).map fun p => (D.blocks8 m p).map Block.shape) := by
  have hrange : List.range 4 = [0, 1, 2, 3] := rfl
  have hshapes := subShapes_eq D m
  rw [hrange]
  simp [hshapes]

theorem reads_eights {m : ℕ} (hpart : D.part ≠ .p16) (pos : ℕ) :
    Reads (readMacroblockP D.WMB D.refs.NREF mbs) pos (eightsCode D.toSetting mbs m)
      (.inter ((D.blocks m).map Block.partition)) := by
  have hshapes : ((List.range 4).map fun p => (D.blocks8 m p).map Block.shape).flatten =
      (D.blocks m).map Block.shape := by
    rw [Setting.blocks, if_neg hpart, List.map_flatMap]
    rfl
  refine (reads_ue 3 pos).bind ?_
  rw [if_neg (by decide), if_pos rfl]
  refine (reads_mapM (fun p => reads_ue (D.block8 m p).1) _ _).bind ?_
  refine (reads_mapM (fun p => reads_te (Nat.le_sub_one_of_lt (block8_ref_lt D m p))) _ _).bind ?_
  refine Reads.skip (x := (List.range 4).map fun p => (D.blocks8 m p).map Block.shape) ?_ ?_
  · funext s
    rw [mapM_subShapes]
    rfl
  rw [hshapes]
  refine (@reads_motion _ _ [] (D.blocks m) _).bind ?_
  exact (reads_noResidual _).last rfl

end Drawn

end BadgeOS.CodaCube.Slice
