import BadgeOS.Lib.Avc
import BadgeOS.Lib.ExpGolomb
import Mathlib

/-!
# The headers of H.264

The syntax of the parameter sets of a Main profile stream of frames, and of the headers of its
slices.  What such a stream can say and these readers cannot follow ends the reading.

* `Sps`, `Pps`, `readSps`, `readPps` — the parameter sets;
* `SliceHeader`, `readHeader` — a slice header, with `Avc.Header` for what decides the references;
* `reads_modifications`, `reads_operations` — the lists in it.
-/

namespace AvcHeaders

open ExpGolomb
open Avc (Modification Operation SliceType)

def require (ok : Bool) : Reader Unit := if ok then pure () else fun _ => none

/-- Zeros up to a whole byte. -/
def readAlignment : Reader Unit := fun s => do
  let (zeros, s) ← readBits ((8 - s.pos % 8) % 8) s
  require (zeros = 0) s

/-- `rbsp_trailing_bits`, and nothing behind them. -/
def readTrailing : Reader Unit := do
  let stop ← readFlag
  require stop
  readAlignment
  fun s => if s.rest = [] then some ((), s) else none

/-- What an RBSP says. -/
def readRbsp {α : Type} (p : Reader α) : Reader α := do
  let x ← p
  readTrailing
  pure x

/-! ### Parameter sets -/

/-- What the sequence parameter set says. -/
structure Sps where
  profile : ℕ
  level : ℕ
  /-- Of `frame_num` and of `pic_order_cnt_lsb`. -/
  frameNumBits : ℕ
  pocLsbBits : ℕ
  maxNumRefFrames : ℕ
  picWidthInMbs : ℕ
  picHeightInMbs : ℕ
  deriving DecidableEq, Repr

def Sps.params (sps : Sps) : Avc.Params :=
  ⟨2 ^ sps.frameNumBits, 2 ^ sps.pocLsbBits, sps.maxNumRefFrames⟩

/-- Frames only, without cropping and without usability information. -/
def readSps : Reader Sps := do
  let profile ← readBits 8
  require (profile = 66 ∨ profile = 77 ∨ profile = 88)
  let _constraints ← readBits 8
  let level ← readBits 8
  let id ← readUe
  require (id = 0)
  let frameNum ← readUe
  let pocType ← readUe
  require (pocType = 0)
  let pocLsb ← readUe
  let refs ← readUe
  let _gapsAllowed ← readFlag
  let width ← readUe
  let height ← readUe
  let frameMbsOnly ← readFlag
  require frameMbsOnly
  let _direct8x8Inference ← readFlag
  let cropping ← readFlag
  require (!cropping)
  let vui ← readFlag
  require (!vui)
  pure ⟨profile, level, frameNum + 4, pocLsb + 4, refs, width + 1, height + 1⟩

/-- What the picture parameter set says. -/
structure Pps where
  /-- The active entries of each list, unless a slice says otherwise. -/
  active0 : ℕ
  active1 : ℕ
  weightedPred : Bool
  weightedBipredIdc : ℕ
  picInitQp : ℤ
  chromaQpOffset : ℤ
  deblockingFilterControl : Bool
  deriving DecidableEq, Repr

/-- Without arithmetic coding, slice groups, fields and redundant slices. -/
def readPps : Reader Pps := do
  let id ← readUe
  require (id = 0)
  let sps ← readUe
  require (sps = 0)
  let cabac ← readFlag
  require (!cabac)
  let bottomField ← readFlag
  require (!bottomField)
  let sliceGroups ← readUe
  require (sliceGroups = 0)
  let active0 ← readUe
  let active1 ← readUe
  let weightedPred ← readFlag
  let weightedBipredIdc ← readBits 2
  let qp ← readSe
  let _qs ← readSe
  let chromaQpOffset ← readSe
  let deblockingFilterControl ← readFlag
  let _constrainedIntra ← readFlag
  let redundant ← readFlag
  require (!redundant)
  pure ⟨active0 + 1, active1 + 1, weightedPred, weightedBipredIdc, 26 + qp, chromaQpOffset,
    deblockingFilterControl⟩

structure ParameterSets where
  sps : Sps
  pps : Pps
  deriving DecidableEq, Repr

/-! ### The slice header -/

/-- The weights and offsets of one entry. -/
structure Weight where
  luma : ℤ × ℤ
  cb : ℤ × ℤ
  cr : ℤ × ℤ
  deriving DecidableEq, Repr

structure Weights where
  lumaLog2Denom : ℕ
  chromaLog2Denom : ℕ
  entries : List Weight
  deriving DecidableEq, Repr

structure SliceHeader where
  picture : Avc.Header
  firstMb : ℕ
  parameterSet : ℕ
  idrPicId : Option ℕ
  directSpatial : Bool
  weights : Option Weights
  qp : ℤ
  /-- `none` without the loop filter. -/
  filterOffsets : Option (ℤ × ℤ)
  deriving DecidableEq, Repr

/-- `slice_type`; from 5 on it promises the same for the whole picture. -/
def readSliceType : Reader SliceType := do
  let n ← readUe
  if n % 5 = 0 then pure .P
  else if n % 5 = 1 then pure .B
  else if n % 5 = 2 then pure .I
  else fun _ => none

def readIdrPicId (idr : Bool) : Reader (Option ℕ) := if idr then some <$> readUe else pure none

def readDirect : SliceType → Reader Bool
  | .B => readFlag
  | _ => pure false

/-- The active entries of both lists. -/
def readActive (pps : Pps) : SliceType → Reader (ℕ × ℕ)
  | .I => pure (0, 0)
  | .P => do
      let override ← readFlag
      if override then do
        let active0 ← readUe
        pure (active0 + 1, 0)
      else pure (pps.active0, 0)
  | .B => do
      let override ← readFlag
      if override then do
        let active0 ← readUe
        let active1 ← readUe
        pure (active0 + 1, active1 + 1)
      else pure (pps.active0, pps.active1)

/-- The modifications of a list, up to the one that ends them. -/
def readModifications : ℕ → Reader (List Modification)
  | 0 => fun _ => none
  | fuel + 1 => do
      let idc ← readUe
      if idc = 3 then pure []
      else do
        let v ← readUe
        let m ← if idc = 0 then pure (Modification.subtract (v + 1))
          else if idc = 1 then pure (Modification.add (v + 1))
          else if idc = 2 then pure (Modification.longTerm v)
          else fun _ => none
        let ms ← readModifications fuel
        pure (m :: ms)

def readList (active : ℕ) : Reader (List Modification) := do
  let modified ← readFlag
  if modified then readModifications (active + 1) else pure []

def readLists : SliceType → ℕ × ℕ → Reader (List Modification × List Modification)
  | .I, _ => pure ([], [])
  | .P, active => do
      let mods0 ← readList active.1
      pure (mods0, [])
  | .B, active => do
      let mods0 ← readList active.1
      let mods1 ← readList active.2
      pure (mods0, mods1)

def readPair : Reader (ℤ × ℤ) := do
  let w ← readSe
  let o ← readSe
  pure (w, o)

/-- One entry of `pred_weight_table`, with the defaults of what it leaves out. -/
def readWeight (lumaLog2Denom chromaLog2Denom : ℕ) : Reader Weight := do
  let there ← readFlag
  let luma ← if there then readPair else pure (2 ^ lumaLog2Denom, 0)
  let there ← readFlag
  if there then do
    let cb ← readPair
    let cr ← readPair
    pure ⟨luma, cb, cr⟩
  else pure ⟨luma, (2 ^ chromaLog2Denom, 0), (2 ^ chromaLog2Denom, 0)⟩

def readWeights (active : ℕ) : Reader Weights := do
  let luma ← readUe
  let chroma ← readUe
  let entries ← (List.range active).mapM fun _ => readWeight luma chroma
  pure ⟨luma, chroma, entries⟩

/-- `pred_weight_table`, of a P slice. -/
def readPredWeights (pps : Pps) : SliceType → ℕ → Reader (Option Weights)
  | .I, _ => pure none
  | .P, active => if pps.weightedPred then some <$> readWeights active else pure none
  | .B, _ => if pps.weightedBipredIdc = 1 then fun _ => none else pure none

/-- The operations 4 and 6, up to the one that ends them. -/
def readOperations : ℕ → Reader (List Operation)
  | 0 => fun _ => none
  | fuel + 1 => do
      let op ← readUe
      if op = 0 then pure []
      else do
        let v ← readUe
        let o ← if op = 4 then pure (Operation.maxLongTermFrameIdx v)
          else if op = 6 then pure (Operation.currentLongTerm v)
          else fun _ => none
        let os ← readOperations fuel
        pure (o :: os)

/-- `dec_ref_pic_marking`: `long_term_reference_flag` of an IDR picture, the operations of any
other. -/
def readMarking (idr : Bool) (refIdc : ℕ) : Reader (Bool × Option (List Operation)) :=
  if refIdc = 0 then pure (false, none)
  else if idr then do
    let _noOutputOfPriorPics ← readFlag
    let longTerm ← readFlag
    pure (longTerm, none)
  else do
    let adaptive ← readFlag
    if adaptive then do
      let ops ← fun s => readOperations s.rest.length s
      pure (false, some ops)
    else pure (false, none)

/-- `disable_deblocking_filter_idc` and the offsets. -/
def readFilter (pps : Pps) : Reader (Option (ℤ × ℤ)) :=
  if pps.deblockingFilterControl then do
    let idc ← readUe
    if idc = 1 then pure none else some <$> readPair
  else pure (some (0, 0))

/-- The header of a slice in a NAL unit of type 1, or of type 5 for an IDR picture. -/
def readHeader (P : ParameterSets) (idr : Bool) (refIdc : ℕ) : Reader SliceHeader := do
  let firstMb ← readUe
  let sliceType ← readSliceType
  let parameterSet ← readUe
  let frameNum ← readBits P.sps.frameNumBits
  let idrPicId ← readIdrPicId idr
  let pocLsb ← readBits P.sps.pocLsbBits
  let directSpatial ← readDirect sliceType
  let active ← readActive P.pps sliceType
  let mods ← readLists sliceType active
  let weights ← readPredWeights P.pps sliceType active.1
  let marking ← readMarking idr refIdc
  let qpDelta ← readSe
  let filterOffsets ← readFilter P.pps
  pure
    { picture :=
        { sliceType := sliceType
          idr := idr
          refIdc := refIdc
          frameNum := frameNum
          pocLsb := pocLsb
          active0 := active.1
          active1 := active.2
          mods0 := mods.1
          mods1 := mods.2
          longTermReference := marking.1
          operations := marking.2 }
      firstMb := firstMb
      parameterSet := parameterSet
      idrPicId := idrPicId
      directSpatial := directSpatial
      weights := weights
      qp := P.pps.picInitQp + qpDelta
      filterOffsets := filterOffsets }

/-! ### Codes that are read -/

theorem reads_require {ok : Bool} (h : ok = true) (pos : ℕ) : Reads (require ok) pos [] () := by
  rw [require, if_pos h]
  exact .pure () pos

theorem reads_pair (w o : ℤ) (pos : ℕ) : Reads readPair pos (se w ++ se o) (w, o) :=
  (reads_se w pos).bind ((reads_se o _).last rfl)

theorem reads_alignment (pos : ℕ) :
    Reads readAlignment pos (List.replicate ((8 - pos % 8) % 8) false) () := by
  intro rest
  have hread := reads_bits ((8 - pos % 8) % 8) 0 pos (by positivity) rest
  rw [toBits_zero] at hread
  rw [readAlignment]
  simp only [hread]
  rfl

/-- The bits that end an RBSP, of which `pos` bits are there. -/
def trailing (pos : ℕ) : List Bool :=
  true :: List.replicate ((8 - (pos + 1) % 8) % 8) false

/-- **The end** of an RBSP. -/
theorem readTrailing_eq (pos : ℕ) :
    readTrailing ⟨pos, trailing pos⟩ = some ((), ⟨pos + (trailing pos).length, []⟩) := by
  have halign := reads_alignment (pos + 1) []
  rw [List.append_nil] at halign
  have hread : readTrailing ⟨pos, trailing pos⟩ =
      (readAlignment ⟨pos + 1, List.replicate ((8 - (pos + 1) % 8) % 8) false⟩).bind fun r =>
        if r.2.rest = [] then some ((), r.2) else none := rfl
  rw [hread, halign, Option.bind_some, if_pos rfl, trailing, List.length_cons, Nat.add_right_comm,
    Nat.add_assoc]

/-- An RBSP does not end in a byte of zero. -/
theorem getLast?_ne_zero {bytes : List UInt8} {code : List Bool}
    (h : BitField.bits bytes = code ++ trailing code.length) : bytes.getLast? ≠ some 0 := by
  intro hzero
  obtain ⟨init, rfl⟩ := List.getLast?_eq_some_iff.mp hzero
  have hbits : BitField.bits (init ++ [0]) = BitField.bits init ++ List.replicate 8 false :=
    List.flatMap_append
  rw [hbits, trailing] at h
  generalize hk : (8 - (code.length + 1) % 8) % 8 = k at h
  have hreverse := congrArg List.reverse h
  rw [List.reverse_append, List.reverse_append, List.reverse_cons, List.reverse_replicate,
    List.reverse_replicate, List.append_assoc, List.singleton_append] at hreverse
  have hat := congrArg (·[k]?) hreverse
  rw [List.getElem?_append_left (by rw [List.length_replicate]; omega),
    List.getElem?_append_right (by rw [List.length_replicate]), List.length_replicate, Nat.sub_self,
    List.getElem?_replicate_of_lt (by omega)] at hat
  cases hat

/-- What is read up to the trailing bits is the RBSP. -/
theorem readRbsp_eq {α : Type} {p : Reader α} {code : List Bool} {x : α}
    (h : p ⟨0, code ++ trailing code.length⟩ = some (x, ⟨code.length, trailing code.length⟩)) :
    readRbsp p ⟨0, code ++ trailing code.length⟩ =
      some (x, ⟨code.length + (trailing code.length).length, []⟩) := by
  have hrun : readRbsp p ⟨0, code ++ trailing code.length⟩ =
      (p ⟨0, code ++ trailing code.length⟩).bind fun r =>
        (readTrailing r.2).bind fun q => some (r.1, q.2) := rfl
  rw [hrun, h, Option.bind_some, readTrailing_eq, Option.bind_some]

theorem Reads.rbsp {α : Type} {p : Reader α} {code : List Bool} {x : α} (h : Reads p 0 code x) :
    readRbsp p ⟨0, code ++ trailing code.length⟩ =
      some (x, ⟨code.length + (trailing code.length).length, []⟩) := by
  refine readRbsp_eq ?_
  have hread := h (trailing code.length)
  rwa [Nat.zero_add] at hread

/-- The code of a modification. -/
def modificationCode : Modification → List Bool
  | .subtract d => ue 0 ++ ue (d - 1)
  | .add d => ue 1 ++ ue (d - 1)
  | .longTerm n => ue 2 ++ ue n

/-- A difference is never 0. -/
def IsCoded : Modification → Prop
  | .subtract d => 0 < d
  | .add d => 0 < d
  | .longTerm _ => True

theorem reads_modifications (l : List Modification) (hl : ∀ m ∈ l, IsCoded m) {fuel : ℕ}
    (hfuel : l.length < fuel) (pos : ℕ) :
    Reads (readModifications fuel) pos (l.flatMap modificationCode ++ ue 3) l := by
  induction l generalizing fuel pos with
  | nil =>
      obtain ⟨fuel, rfl⟩ := Nat.exists_eq_succ_of_ne_zero hfuel.ne'
      exact (reads_ue 3 pos).last rfl
  | cons m l ih =>
      obtain ⟨fuel, rfl⟩ := Nat.exists_eq_succ_of_ne_zero (Nat.ne_of_gt (Nat.zero_lt_of_lt hfuel))
      have hm := hl m List.mem_cons_self
      have hrest (pos : ℕ) := ih (fun m' hm' => hl m' (List.mem_cons_of_mem _ hm'))
        (Nat.lt_of_succ_lt_succ hfuel) pos
      rw [List.flatMap_cons, List.append_assoc]
      cases m with
      | subtract d =>
          rw [modificationCode, List.append_assoc]
          refine (reads_ue 0 pos).bind ((reads_ue (d - 1) _).bind ?_)
          refine Reads.skip (x := .subtract d) ?_ ((hrest _).last rfl)
          rw [Nat.sub_add_cancel hm]
      | add d =>
          rw [modificationCode, List.append_assoc]
          refine (reads_ue 1 pos).bind ((reads_ue (d - 1) _).bind ?_)
          refine Reads.skip (x := .add d) ?_ ((hrest _).last rfl)
          rw [Nat.sub_add_cancel hm]
      | longTerm n =>
          rw [modificationCode, List.append_assoc]
          refine (reads_ue 2 pos).bind ((reads_ue n _).bind ?_)
          exact Reads.skip (x := .longTerm n) rfl ((hrest _).last rfl)

theorem reads_list (l : List Modification) (hl : ∀ m ∈ l, IsCoded m) {active : ℕ}
    (hactive : l.length ≤ active) (pos : ℕ) :
    Reads (readList active) pos ([true] ++ (l.flatMap modificationCode ++ ue 3)) l :=
  (reads_flag true pos).bind (reads_modifications l hl (Nat.lt_succ_of_le hactive) _)

/-- The code of an operation. -/
def operationCode : Operation → List Bool
  | .maxLongTermFrameIdx plus1 => ue 4 ++ ue plus1
  | .currentLongTerm idx => ue 6 ++ ue idx

theorem reads_operations_of_lt (l : List Operation) {fuel : ℕ} (hfuel : l.length < fuel)
    (pos : ℕ) : Reads (readOperations fuel) pos (l.flatMap operationCode ++ ue 0) l := by
  induction l generalizing fuel pos with
  | nil =>
      obtain ⟨fuel, rfl⟩ := Nat.exists_eq_succ_of_ne_zero hfuel.ne'
      exact (reads_ue 0 pos).last rfl
  | cons o l ih =>
      obtain ⟨fuel, rfl⟩ := Nat.exists_eq_succ_of_ne_zero (Nat.ne_of_gt (Nat.zero_lt_of_lt hfuel))
      rw [List.flatMap_cons, List.append_assoc]
      cases o with
      | maxLongTermFrameIdx n =>
          rw [operationCode, List.append_assoc]
          refine (reads_ue 4 pos).bind ((reads_ue n _).bind ?_)
          exact Reads.skip (x := .maxLongTermFrameIdx n) rfl
            ((ih (Nat.lt_of_succ_lt_succ hfuel) _).last rfl)
      | currentLongTerm n =>
          rw [operationCode, List.append_assoc]
          refine (reads_ue 6 pos).bind ((reads_ue n _).bind ?_)
          exact Reads.skip (x := .currentLongTerm n) rfl
            ((ih (Nat.lt_of_succ_lt_succ hfuel) _).last rfl)

theorem length_operations (l : List Operation) :
    l.length < (l.flatMap operationCode ++ ue 0).length := by
  have hpos (v : ℕ) : 0 < (ue v).length := by
    rw [ue_cons]
    simp
  rw [List.length_append]
  induction l with
  | nil => exact hpos 0
  | cons o l ih =>
      have ho : 0 < (operationCode o).length := by
        cases o <;> rw [operationCode, List.length_append] <;> exact Nat.add_pos_left (hpos _) _
      rw [List.flatMap_cons, List.length_append, List.length_cons]
      omega

theorem reads_operations (l : List Operation) (pos : ℕ) :
    Reads (fun s => readOperations s.rest.length s) pos (l.flatMap operationCode ++ ue 0) l := by
  intro rest
  refine reads_operations_of_lt l ?_ pos rest
  have hlen := length_operations l
  rw [List.length_append]
  omega

end AvcHeaders
