import BadgeOS.CodaCube.BitWriter
import BadgeOS.CodaCube.MotionGrid
import BadgeOS.CodaCube.Pictures
import Mathlib

/-!
# The parameter sets

* `spsRbsp`, `ppsRbsp` — the two payloads of `sps_pps`;
* `parameterSets` — what they say, `readSps_spsRbsp` and `readPps_ppsRbsp`.
-/

namespace BadgeOS.CodaCube.Bitstream

open BW ExpGolomb BitField AvcHeaders
open Pictures (Options)

variable (S : MbSize) (o : Options)

/-- The sequence parameter set of `sps_pps`. -/
def spsRbsp : List UInt8 :=
  let b := bwUe 0 (bwU 8 30 (bwU 8 0 (bwU 8 77 .empty)))
  let b := bwUe 12 (bwUe 0 (bwUe 12 b))
  let b := bwU 1 0 (bwUe (1 + o.K + o.smooth.value + o.extra) b)
  let b := bwUe (S.HMB - 1) (bwUe (S.WMB - 1) b)
  (bwTrailing (bwU 1 0 (bwU 1 0 (bwU 1 1 (bwU 1 1 b))))).buf

/-- Its picture parameter set. -/
def ppsRbsp : List UInt8 :=
  let b := bwU 1 0 (bwU 1 0 (bwUe 0 (bwUe 0 .empty)))
  let b := bwUe 0 (bwUe 0 (bwUe 0 b))
  let b := bwU 2 0 (bwU 1 1 b)
  let b := bwSe 0 (bwSe 0 (bwSe 0 b))
  (bwTrailing (bwU 1 0 (bwU 1 0 (bwU 1 1 b)))).buf

/-- What they say. -/
def parameterSets : ParameterSets where
  sps :=
    { profile := 77
      level := 30
      frameNumBits := 16
      pocLsbBits := 16
      maxNumRefFrames := 1 + o.K + o.smooth.value + o.extra
      picWidthInMbs := S.WMB
      picHeightInMbs := S.HMB }
  pps :=
    { active0 := 1
      active1 := 1
      weightedPred := true
      weightedBipredIdc := 0
      picInitQp := 26
      chromaQpOffset := 0
      deblockingFilterControl := true }

/-- The rules for the references get the numbers that are written. -/
theorem params_sps : (parameterSets S o).sps.params = Pictures.spsPps o := rfl

def spsCode : List Bool :=
  toBits 8 77 ++ (toBits 8 0 ++ (toBits 8 30 ++ (ue 0 ++ (ue 12 ++ (ue 0 ++ (ue 12 ++
    (ue (1 + o.K + o.smooth.value + o.extra) ++ ([false] ++ (ue (S.WMB - 1) ++ (ue (S.HMB - 1) ++
      ([true] ++ ([true] ++ ([false] ++ [false])))))))))))))

theorem bits_spsRbsp :
    BitField.bits (spsRbsp S o) = spsCode S o ++ trailing (spsCode S o).length := by
  have hwrites := (writes_u 8 77).comp ((writes_u 8 0).comp ((writes_u 8 30).comp
    ((writes_ue 0).comp ((writes_ue 12).comp ((writes_ue 0).comp ((writes_ue 12).comp
      ((writes_ue (1 + o.K + o.smooth.value + o.extra)).comp ((writes_flag false).comp
        ((writes_ue (S.WMB - 1)).comp ((writes_ue (S.HMB - 1)).comp ((writes_flag true).comp
          ((writes_flag true).comp ((writes_flag false).comp (writes_flag false))))))))))))))
  exact hwrites.bytes

theorem reads_sps (pos : ℕ) : Reads readSps pos (spsCode S o) (parameterSets S o).sps := by
  refine (reads_bits 8 77 pos (by decide)).bind ?_
  refine Reads.skip (x := ()) rfl ?_
  refine (reads_bits 8 0 _ (by decide)).bind ?_
  refine (reads_bits 8 30 _ (by decide)).bind ?_
  refine (reads_ue 0 _).bind ?_
  refine Reads.skip (x := ()) rfl ?_
  refine (reads_ue 12 _).bind ?_
  refine (reads_ue 0 _).bind ?_
  refine Reads.skip (x := ()) rfl ?_
  refine (reads_ue 12 _).bind ?_
  refine (reads_ue _ _).bind ?_
  refine (reads_flag false _).bind ?_
  refine (reads_ue (S.WMB - 1) _).bind ?_
  refine (reads_ue (S.HMB - 1) _).bind ?_
  refine (reads_flag true _).bind ?_
  refine Reads.skip (x := ()) rfl ?_
  refine (reads_flag true _).bind ?_
  refine (reads_flag false _).bind ?_
  refine Reads.skip (x := ()) rfl ?_
  refine (reads_flag false _).last ?_
  rw [Nat.sub_add_cancel S.WMB_pos, Nat.sub_add_cancel S.HMB_pos]
  rfl

def ppsCode : List Bool :=
  ue 0 ++ (ue 0 ++ ([false] ++ ([false] ++ (ue 0 ++ (ue 0 ++ (ue 0 ++ ([true] ++ (toBits 2 0 ++
    (se 0 ++ (se 0 ++ (se 0 ++ ([true] ++ ([false] ++ [false])))))))))))))

theorem bits_ppsRbsp : BitField.bits ppsRbsp = ppsCode ++ trailing ppsCode.length := by
  have hwrites := (writes_ue 0).comp ((writes_ue 0).comp ((writes_flag false).comp
    ((writes_flag false).comp ((writes_ue 0).comp ((writes_ue 0).comp ((writes_ue 0).comp
      ((writes_flag true).comp ((writes_u 2 0).comp ((writes_se 0).comp ((writes_se 0).comp
        ((writes_se 0).comp ((writes_flag true).comp ((writes_flag false).comp
          (writes_flag false))))))))))))))
  exact hwrites.bytes

theorem reads_pps (pos : ℕ) : Reads readPps pos ppsCode (parameterSets S o).pps := by
  refine (reads_ue 0 pos).bind ?_
  refine Reads.skip (x := ()) rfl ?_
  refine (reads_ue 0 _).bind ?_
  refine Reads.skip (x := ()) rfl ?_
  refine (reads_flag false _).bind ?_
  refine Reads.skip (x := ()) rfl ?_
  refine (reads_flag false _).bind ?_
  refine Reads.skip (x := ()) rfl ?_
  refine (reads_ue 0 _).bind ?_
  refine Reads.skip (x := ()) rfl ?_
  refine (reads_ue 0 _).bind ?_
  refine (reads_ue 0 _).bind ?_
  refine (reads_flag true _).bind ?_
  refine (reads_bits 2 0 _ (by decide)).bind ?_
  refine (reads_se 0 _).bind ?_
  refine (reads_se 0 _).bind ?_
  refine (reads_se 0 _).bind ?_
  refine (reads_flag true _).bind ?_
  refine (reads_flag false _).bind ?_
  refine (reads_flag false _).bind ?_
  refine Reads.skip (x := ()) rfl ?_
  exact .pure _ _

end BadgeOS.CodaCube.Bitstream
