import BadgeOS.Lib.AvcHeaders
import BadgeOS.Lib.AvcMotion
import Mathlib

/-!
# A slice of H.264

The macroblocks of a slice without arithmetic coding: those that are sent as samples; in P slices
those that are predicted whole, in 8x8 and in 4x4 blocks, and skipped ones; in B slices those that
are predicted whole.  A macroblock with a residual, or of another kind, ends the reading.

* `Macroblock`, `Macroblock.field` — a macroblock, and its motion in each list;
* `readMacroblock`, `readSliceData` — a macroblock, and the runs of skipped ones between them;
* `readSlice` — a slice, up to the end of its bits;
* `Ends`, `Rest.sent`, `ends_skipped` — what a loop of the decoder reads;
* `sent_all`, `readSlice_eq` — a slice that an encoder writes macroblock after macroblock.
-/

namespace AvcSlice

open ExpGolomb AvcHeaders AvcMotion
open Avc (SliceType)

/-- A partition of a macroblock, in blocks of 4x4 samples. -/
structure Partition where
  x : ℕ
  y : ℕ
  w : ℕ
  ref : ℕ
  mv : ℤ × ℤ
  deriving DecidableEq, Repr

inductive Macroblock
  /-- P_Skip -/
  | skip (mv : ℤ × ℤ)
  /-- P_L0_16x16 or P_8x8 -/
  | inter (parts : List Partition)
  /-- B_L0_16x16, B_L1_16x16 or B_Bi_16x16 -/
  | bi (list0 list1 : Option Motion)
  /-- I_PCM -/
  | pcm (samples : List ℕ)
  deriving DecidableEq, Repr

def Partition.covers (p : Partition) (x y : ℕ) : Bool :=
  p.x ≤ x && x < p.x + p.w && p.y ≤ y && y < p.y + p.w

theorem Partition.covers_iff (p : Partition) (x y : ℕ) :
    p.covers x y = true ↔ p.x ≤ x ∧ x < p.x + p.w ∧ p.y ≤ y ∧ y < p.y + p.w := by
  simp only [covers, Bool.and_eq_true, decide_eq_true_eq, and_assoc]

/-- The motion of a block of `parts`, if its partition is among them. -/
def motionIn (parts : List Partition) : Field := fun x y =>
  (parts.reverse.find? fun p => p.covers x y).map fun p => ⟨p.ref, p.mv⟩

/-- Of a macroblock that does not use the list. -/
def unused : Motion := ⟨-1, (0, 0)⟩

/-- The motion in list 0, and in list 1. -/
def Macroblock.field : Macroblock → Field
  | .skip mv => fun _ _ => some ⟨0, mv⟩
  | .inter parts => motionIn parts
  | .bi list0 _ => fun _ _ => some (list0.getD unused)
  | .pcm _ => fun _ _ => some unused

def Macroblock.field1 : Macroblock → Field
  | .bi _ list1 => fun _ _ => some (list1.getD unused)
  | _ => fun _ _ => some unused

/-! ### Macroblocks -/

/-- A partition without its motion: its corner, its width and its reference. -/
structure Shape where
  x : ℕ
  y : ℕ
  w : ℕ
  ref : ℕ
  deriving DecidableEq, Repr

/-- The differences of the motion vectors, one partition after another. -/
def readMotion (width : ℕ) (mbs : List Macroblock) :
    List Shape → List Partition → Reader (List Partition)
  | [], parts => pure parts
  | s :: shapes, parts => do
      let mvd ← readPair
      let mvp := predict width (mbs.map Macroblock.field) (motionIn parts) s.x s.y s.w s.ref
      readMotion width mbs shapes
        (parts ++ [⟨s.x, s.y, s.w, s.ref, (mvp.1 + mvd.1, mvp.2 + mvd.2)⟩])

/-- The partitions of an 8x8 block, for `sub_mb_type` 0 and 3. -/
def subShapes (p sub ref : ℕ) : Option (List Shape) :=
  let x := p % 2 * 2
  let y := p / 2 * 2
  if sub = 0 then some [⟨x, y, 2, ref⟩]
  else if sub = 3 then
    some [⟨x, y, 1, ref⟩, ⟨x + 1, y, 1, ref⟩, ⟨x, y + 1, 1, ref⟩, ⟨x + 1, y + 1, 1, ref⟩]
  else none

/-- `coded_block_pattern`, with nothing coded. -/
def readNoResidual : Reader Unit := do
  let pattern ← readUe
  require (pattern = 0)

def readPcm : Reader Macroblock := do
  readAlignment
  let samples ← (List.range 384).mapM fun _ => readBits 8
  pure (.pcm samples)

/-- The vector of a macroblock that is predicted whole from one list. -/
def readWhole (width : ℕ) (done : List Field) (ref : ℕ) : Reader Motion := do
  let mvd ← readPair
  let mvp := predict width done undecoded 0 0 4 ref
  pure ⟨ref, (mvp.1 + mvd.1, mvp.2 + mvd.2)⟩

def readMacroblockP (width active : ℕ) (mbs : List Macroblock) : Reader Macroblock := do
  let mbType ← readUe
  if mbType = 0 then do
    let ref ← readTe (active - 1)
    let parts ← readMotion width mbs [⟨0, 0, 4, ref⟩] []
    readNoResidual
    pure (.inter parts)
  else if mbType = 3 then do
    let subs ← (List.range 4).mapM fun _ => readUe
    let refs ← (List.range 4).mapM fun _ => readTe (active - 1)
    let shapes ← fun s =>
      ((List.range 4).mapM fun p => subShapes p (subs.getD p 0) (refs.getD p 0)).map (·, s)
    let parts ← readMotion width mbs shapes.flatten []
    readNoResidual
    pure (.inter parts)
  else if mbType = 30 then readPcm
  else fun _ => none

def readMacroblockB (width : ℕ) (active : ℕ × ℕ) (mbs : List Macroblock) : Reader Macroblock := do
  let mbType ← readUe
  if mbType = 1 then do
    let ref ← readTe (active.1 - 1)
    let m ← readWhole width (mbs.map Macroblock.field) ref
    readNoResidual
    pure (.bi (some m) none)
  else if mbType = 2 then do
    let ref ← readTe (active.2 - 1)
    let m ← readWhole width (mbs.map Macroblock.field1) ref
    readNoResidual
    pure (.bi none (some m))
  else if mbType = 3 then do
    let ref0 ← readTe (active.1 - 1)
    let ref1 ← readTe (active.2 - 1)
    let m0 ← readWhole width (mbs.map Macroblock.field) ref0
    let m1 ← readWhole width (mbs.map Macroblock.field1) ref1
    readNoResidual
    pure (.bi (some m0) (some m1))
  else if mbType = 48 then readPcm
  else fun _ => none

def readMacroblockI : Reader Macroblock := do
  let mbType ← readUe
  if mbType = 25 then readPcm else fun _ => none

def readMacroblock (width : ℕ) (active : ℕ × ℕ) (mbs : List Macroblock) :
    SliceType → Reader Macroblock
  | .I => readMacroblockI
  | .P => readMacroblockP width active.1 mbs
  | .B => readMacroblockB width active mbs

/-! ### Slice data -/

/-- `more_rbsp_data`: the last one is not the next bit. -/
def moreRbspData (bs : List Bool) : Bool := bs.tail.contains true

def readMore : Reader Bool := fun s => some (moreRbspData s.rest, s)

def skipped (width : ℕ) (mbs : List Macroblock) : ℕ → List Macroblock
  | 0 => mbs
  | run + 1 =>
      let mbs := skipped width mbs run
      mbs ++ [.skip (skipMotion width (mbs.map Macroblock.field))]

/-- The macroblocks that are skipped behind `mbs`. -/
def readSkipped (width : ℕ) (mbs : List Macroblock) : SliceType → Reader (ℕ × List Macroblock)
  | .I => pure (0, mbs)
  | .P => do
      let run ← readUe
      pure (run, skipped width mbs run)
  | .B => do
      let run ← readUe
      require (run = 0)
      pure (run, mbs)

/-- The macroblocks behind `mbs`. -/
def readSliceData (width : ℕ) (active : ℕ × ℕ) (t : SliceType) :
    ℕ → List Macroblock → Reader (List Macroblock)
  | 0, _ => fun _ => none
  | fuel + 1, mbs => do
      let (run, mbs) ← readSkipped width mbs t
      let more ← readMore
      if 0 < run ∧ more = false then pure mbs
      else do
        let mb ← readMacroblock width active mbs t
        let more ← readMore
        if more then readSliceData width active t fuel (mbs ++ [mb]) else pure (mbs ++ [mb])

/-- A slice that is the whole picture, in a NAL unit of type 1, or of type 5. -/
def readSlice (P : ParameterSets) (idr : Bool) (refIdc : ℕ) :
    Reader (SliceHeader × List Macroblock) := readRbsp do
  let h ← readHeader P idr refIdc
  let size := P.sps.picWidthInMbs * P.sps.picHeightInMbs
  let mbs ← readSliceData P.sps.picWidthInMbs (h.picture.active0, h.picture.active1)
    h.picture.sliceType (size + 1) []
  require (mbs.length = size)
  pure (h, mbs)

/-! ### Reading -/

theorem motionIn_append (parts : List Partition) (p : Partition) (x y : ℕ) :
    motionIn (parts ++ [p]) x y =
      if p.covers x y then some ⟨p.ref, p.mv⟩ else motionIn parts x y := by
  rw [motionIn, List.reverse_append, List.reverse_singleton, List.singleton_append,
    List.find?_cons]
  cases p.covers x y <;> rfl

theorem reads_noResidual (pos : ℕ) : Reads readNoResidual pos (ue 0) () :=
  (reads_ue 0 pos).last rfl

/-- The samples of a macroblock, from a whole byte on. -/
def samplesCode (pos : ℕ) (samples : List ℕ) : List Bool :=
  List.replicate ((8 - pos % 8) % 8) false ++ samples.flatMap (BitField.toBits 8)

theorem reads_samples {samples : List ℕ} (h : ∀ v ∈ samples, v < 2 ^ 8) (pos : ℕ) :
    Reads ((List.range samples.length).mapM fun _ => readBits 8) pos
      (samples.flatMap (BitField.toBits 8)) samples := by
  have hget : samples = (List.range samples.length).map fun i => samples.getD i 0 := by
    refine List.ext_getElem (by simp) ?_
    intro i hi _
    simp [hi]
  have hlt (i : ℕ) : samples.getD i 0 < 2 ^ 8 := by
    rcases Nat.lt_or_ge i samples.length with hi | hi
    · rw [List.getD_eq_getElem _ _ hi]
      exact h _ (List.getElem_mem hi)
    · rw [List.getD_eq_default _ _ hi]
      decide
  have hread : Reads ((List.range samples.length).mapM fun _ => readBits 8) pos
      ((List.range samples.length).flatMap fun i => BitField.toBits 8 (samples.getD i 0))
      ((List.range samples.length).map fun i => samples.getD i 0) :=
    reads_mapM (fun i pos => reads_bits 8 _ pos (hlt i)) _ pos
  rw [← hget, ← List.flatMap_map, ← hget] at hread
  exact hread

theorem reads_pcm {samples : List ℕ} (hlen : samples.length = 384) (h : ∀ v ∈ samples, v < 2 ^ 8)
    (pos : ℕ) : Reads readPcm pos (samplesCode pos samples) (.pcm samples) := by
  refine (reads_alignment pos).bind ?_
  rw [← hlen]
  exact (reads_samples h _).last rfl

/-- A vector, behind the difference from its prediction. -/
theorem reads_whole {width : ℕ} {done : List Field} {ref : ℕ} (mv : ℤ × ℤ) (pos : ℕ) :
    let p := predict width done undecoded 0 0 4 ref
    Reads (readWhole width done ref) pos (se (mv.1 - p.1) ++ se (mv.2 - p.2)) ⟨ref, mv⟩ := by
  intro p
  have hsum : (p.1 + (mv.1 - p.1), p.2 + (mv.2 - p.2)) = mv := Prod.ext (by simp) (by simp)
  refine (reads_pair _ _ pos).last ?_
  show (Pure.pure ⟨ref, (p.1 + (mv.1 - p.1), p.2 + (mv.2 - p.2))⟩ : Reader Motion) = _
  rw [hsum]

theorem moreRbspData_append {code rest : List Bool} (hcode : code ≠ []) (hrest : true ∈ rest) :
    moreRbspData (code ++ rest) = true := by
  rw [moreRbspData, List.tail_append_of_ne_nil hcode]
  simp [hrest]

theorem moreRbspData_trailing (pos : ℕ) : moreRbspData (trailing pos) = false := by
  simp [moreRbspData, trailing]

section SliceData

variable {width fuel run pos : ℕ} {active : ℕ × ℕ} {t : SliceType} {mbs mbs' : List Macroblock}
  {code rest skips : List Bool}

theorem readSliceData_succ (s : Stream) :
    readSliceData width active t (fuel + 1) mbs s = (readSkipped width mbs t s).bind fun r =>
      if 0 < r.1.1 ∧ moreRbspData r.2.rest = false then some (r.1.2, r.2)
      else (readMacroblock width active r.1.2 t r.2).bind fun q =>
        if moreRbspData q.2.rest then
          readSliceData width active t fuel (r.1.2 ++ [q.1]) q.2
        else some (r.1.2 ++ [q.1], q.2) := by
  rw [readSliceData]
  refine Option.bind_congr fun r _ => ?_
  refine Eq.trans (apply_ite (fun p : Reader (List Macroblock) => p r.2) _ _ _) ?_
  refine if_congr Iff.rfl rfl (Option.bind_congr fun q _ => ?_)
  exact apply_ite (fun p : Reader (List Macroblock) => p q.2) _ _ _

/-- `code` ends a slice: behind `mbs` it is read as the rest of `all`, up to the trailing bits. -/
def Ends (width : ℕ) (active : ℕ × ℕ) (t : SliceType) (fuel pos : ℕ) (mbs : List Macroblock)
    (code : List Bool) (all : List Macroblock) : Prop :=
  ∀ len, readSliceData width active t fuel mbs ⟨pos, code ++ trailing len⟩ =
    some (all, ⟨pos + code.length, trailing len⟩)

/-- `code` is the rest of a slice, which may be nothing. -/
def Rest (width : ℕ) (active : ℕ × ℕ) (t : SliceType) (fuel pos : ℕ) (mbs : List Macroblock)
    (code : List Bool) (all : List Macroblock) : Prop :=
  code = [] ∧ mbs = all ∨ code ≠ [] ∧ Ends width active t fuel pos mbs code all

/-- **A skip run and a macroblock** in front of the rest. -/
theorem Rest.sent {mb : Macroblock} {all : List Macroblock} {code' : List Bool}
    (h : Rest width active t fuel (pos + (skips ++ code).length) (mbs' ++ [mb]) code' all)
    (hskips : Reads (readSkipped width mbs t) pos skips (run, mbs'))
    (hmb : Reads (readMacroblock width active mbs' t) (pos + skips.length) code mb)
    (hcode : code ≠ []) :
    Rest width active t (fuel + 1) pos mbs ((skips ++ code) ++ code') all := by
  refine .inr ⟨by simp [hcode], ?_⟩
  intro len
  have hmore : moreRbspData (code ++ (code' ++ trailing len)) = true :=
    moreRbspData_append hcode (by simp [trailing])
  rw [List.append_assoc, List.append_assoc, readSliceData_succ, hskips, Option.bind_some]
  simp only [hmore, Bool.true_eq_false, and_false, if_false, hmb _, Option.bind_some]
  rcases h with ⟨rfl, rfl⟩ | ⟨hne, hends⟩
  · rw [List.nil_append, moreRbspData_trailing, if_neg Bool.false_ne_true]
    simp only [List.append_nil, List.length_append, Nat.add_assoc]
  · have hmore' : moreRbspData (code' ++ trailing len) = true :=
      moreRbspData_append hne (by simp [trailing])
    rw [hmore', if_pos rfl]
    have hread := hends len
    simp only [List.length_append, Nat.add_assoc] at hread ⊢
    exact hread

/-- The last skip run. -/
theorem ends_skipped (hskips : Reads (readSkipped width mbs t) pos skips (run, mbs'))
    (hrun : 0 < run) : Ends width active t (fuel + 1) pos mbs skips mbs' := by
  intro len
  rw [readSliceData_succ, hskips, Option.bind_some, if_pos ⟨hrun, moreRbspData_trailing len⟩]

theorem reads_skipRun (run pos : ℕ) :
    Reads (readSkipped width mbs .P) pos (ue run) (run, skipped width mbs run) :=
  (reads_ue run pos).last rfl

theorem reads_noSkip (pos : ℕ) : Reads (readSkipped width mbs .B) pos (ue 0) (0, mbs) :=
  (reads_ue 0 pos).last rfl

/-- **An encoder that sends every macroblock**, each behind `skips`: from any one on, what it
appends is the rest of the slice. -/
theorem sent_run {E : Type*} (bits : E → List Bool) {step : E → ℕ → E} {Inv : ℕ → E → Prop}
    (mb : ℕ → Macroblock) {n : ℕ}
    (hskips : ∀ mbs pos, Reads (readSkipped width mbs t) pos skips (0, mbs))
    (hstep : ∀ m e, m < n → Inv m e → Inv (m + 1) (step e m) ∧
      ∃ code, code ≠ [] ∧ bits (step e m) = bits e ++ (skips ++ code) ∧
        Reads (readMacroblock width active ((List.range m).map mb) t)
          ((bits e).length + skips.length) code (mb m))
    (k : ℕ) {m : ℕ} {e : E} (he : Inv m e) (hm : m + k = n) :
    let e' := (List.range' m k).foldl step e
    Inv n e' ∧ ∃ code, bits e' = bits e ++ code ∧ ∀ fuel, k < fuel →
      Rest width active t fuel (bits e).length ((List.range m).map mb) code
        ((List.range n).map mb) := by
  induction k generalizing m e with
  | zero =>
      obtain rfl : m = n := hm
      exact ⟨he, [], (List.append_nil _).symm, fun _ _ => .inl ⟨rfl, rfl⟩⟩
  | succ k ih =>
      obtain ⟨he', code, hne, hbits, hreads⟩ := hstep m e (by omega) he
      obtain ⟨hn, code', hbits', hrest⟩ := ih he' (by omega)
      rw [List.range'_succ, List.foldl_cons]
      refine ⟨hn, (skips ++ code) ++ code', ?_, ?_⟩
      · rw [hbits', hbits, List.append_assoc]
      · intro fuel hfuel
        obtain ⟨fuel, rfl⟩ := Nat.exists_eq_succ_of_ne_zero (Nat.ne_of_gt (Nat.zero_lt_of_lt hfuel))
        have h := hrest fuel (Nat.lt_of_succ_lt_succ hfuel)
        rw [hbits, List.range_succ, List.map_append, List.length_append] at h
        exact Rest.sent h (hskips _ _) hreads hne

/-- From the first macroblock on it is the slice data. -/
theorem sent_all {E : Type*} (bits : E → List Bool) {step : E → ℕ → E} {Inv : ℕ → E → Prop}
    (mb : ℕ → Macroblock) {n : ℕ} (hn : 0 < n)
    (hskips : ∀ mbs pos, Reads (readSkipped width mbs t) pos skips (0, mbs))
    (hstep : ∀ m e, m < n → Inv m e → Inv (m + 1) (step e m) ∧
      ∃ code, code ≠ [] ∧ bits (step e m) = bits e ++ (skips ++ code) ∧
        Reads (readMacroblock width active ((List.range m).map mb) t)
          ((bits e).length + skips.length) code (mb m))
    {e : E} (he : Inv 0 e) :
    let e' := (List.range n).foldl step e
    Inv n e' ∧ ∃ code, bits e' = bits e ++ code ∧
      Ends width active t (n + 1) (bits e).length [] code ((List.range n).map mb) := by
  obtain ⟨hinv, code, hbits, hrest⟩ := sent_run bits mb hskips hstep n he (Nat.zero_add n)
  rw [← List.range_eq_range'] at hinv hbits
  refine ⟨hinv, code, hbits, ?_⟩
  rcases hrest (n + 1) (Nat.lt_succ_self n) with ⟨-, hnone⟩ | ⟨-, hends⟩
  · have hlen := congrArg List.length hnone
    rw [List.length_map, List.length_map, List.length_range, List.length_range] at hlen
    exact absurd hlen hn.ne
  · exact hends

/-- **A slice**, from its header and its macroblocks. -/
theorem readSlice_eq {P : ParameterSets} {idr : Bool} {refIdc : ℕ} {h : SliceHeader}
    {front : List Bool} (hheader : Reads (readHeader P idr refIdc) 0 front h)
    (hdata : Ends P.sps.picWidthInMbs (h.picture.active0, h.picture.active1) h.picture.sliceType
      (P.sps.picWidthInMbs * P.sps.picHeightInMbs + 1) front.length [] code mbs)
    (hmbs : mbs.length = P.sps.picWidthInMbs * P.sps.picHeightInMbs) :
    readSlice P idr refIdc ⟨0, (front ++ code) ++ trailing (front ++ code).length⟩ =
      some ((h, mbs), ⟨((front ++ code) ++ trailing (front ++ code).length).length, []⟩) := by
  have hfront := hheader (code ++ trailing (front ++ code).length)
  rw [Nat.zero_add, ← List.append_assoc] at hfront
  rw [readSlice, @List.length_append _ (front ++ code)]
  refine readRbsp_eq ?_
  show (readHeader P idr refIdc ⟨0, (front ++ code) ++ trailing (front ++ code).length⟩).bind _ = _
  rw [hfront, Option.bind_some]
  show (readSliceData P.sps.picWidthInMbs (h.picture.active0, h.picture.active1)
    h.picture.sliceType (P.sps.picWidthInMbs * P.sps.picHeightInMbs + 1) []
    ⟨front.length, code ++ trailing (front ++ code).length⟩).bind _ = _
  rw [hdata (front ++ code).length, Option.bind_some]
  show ((require (mbs.length = P.sps.picWidthInMbs * P.sps.picHeightInMbs) : Reader Unit)
    ⟨front.length + code.length, trailing (front ++ code).length⟩).bind _ = _
  rw [hmbs, require, if_pos (by simp), ← List.length_append]
  rfl

end SliceData

end AvcSlice
