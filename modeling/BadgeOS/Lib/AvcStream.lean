import BadgeOS.Lib.AnnexB
import BadgeOS.Lib.AvcSlice
import Mathlib

/-!
# The NAL units of H.264

A stream of parameter sets, and of slices that are each a whole picture.  What such a stream can
say and these readers cannot follow ends the reading.

* `NalUnit`, `CodedPicture` — a unit, and a picture with the parameter sets that it uses;
* `readNal` — a unit from its bytes;
* `readUnit`, `readUnits` — what a unit says, and all of them;
* `readUnits_eq` — the parameter sets, and the slices behind them.
-/

namespace AvcStream

open ExpGolomb AvcHeaders AvcSlice

/-- A NAL unit, with its payload as it was before emulation prevention. -/
structure NalUnit where
  refIdc : ℕ
  type : ℕ
  rbsp : List UInt8
  deriving DecidableEq, Repr

/-- `forbidden_zero_bit`, `nal_ref_idc` and `nal_unit_type`, and what follows. -/
def readNal : List UInt8 → Option NalUnit
  | [] => none
  | b :: payload =>
      if b.toNat < 2 ^ 7 then some ⟨b.toNat / 2 ^ 5, b.toNat % 2 ^ 5, AnnexB.unescape payload⟩
      else none

structure CodedPicture where
  sets : ParameterSets
  header : SliceHeader
  mbs : List Macroblock
  deriving DecidableEq, Repr

/-- The parameter sets that were sent. -/
structure Active where
  sps : Option Sps
  pps : Option Pps

/-- What a payload says. -/
def whole {α : Type} (p : Reader α) (rbsp : List UInt8) : Option α :=
  (p ⟨0, BitField.bits rbsp⟩).map Prod.fst

/-- One unit, which may be a picture. -/
def readUnit (a : Active) (u : NalUnit) : Option (Active × List CodedPicture) :=
  if u.type = 7 then (whole (readRbsp readSps) u.rbsp).map fun sps => (⟨some sps, a.pps⟩, [])
  else if u.type = 8 then
    (whole (readRbsp readPps) u.rbsp).map fun pps => (⟨a.sps, some pps⟩, [])
  else if u.type = 1 ∨ u.type = 5 then do
    let sps ← a.sps
    let pps ← a.pps
    let (h, mbs) ← whole (readSlice ⟨sps, pps⟩ (u.type = 5) u.refIdc) u.rbsp
    some (a, [⟨⟨sps, pps⟩, h, mbs⟩])
  else none

/-- The pictures of a stream. -/
def readUnits : Active → List NalUnit → Option (List CodedPicture)
  | _, [] => some []
  | a, u :: us => do
      let (a, ps) ← readUnit a u
      let rest ← readUnits a us
      some (ps ++ rest)

/-! ### Reading -/

variable {P : ParameterSets} {u : NalUnit} {us : List NalUnit} {p : CodedPicture}
  {ps : List CodedPicture}

/-- The unit is the slice of `p`. -/
structure IsSlice (P : ParameterSets) (u : NalUnit) (p : CodedPicture) : Prop where
  type : u.type = 1 ∨ u.type = 5
  sets : p.sets = P
  reads : whole (readSlice P (u.type = 5) u.refIdc) u.rbsp = some (p.header, p.mbs)

theorem readUnit_slice (h : IsSlice P u p) :
    readUnit ⟨some P.sps, some P.pps⟩ u = some (⟨some P.sps, some P.pps⟩, [p]) := by
  rw [readUnit, if_neg (by rcases h.type with h | h <;> rw [h] <;> decide),
    if_neg (by rcases h.type with h | h <;> rw [h] <;> decide), if_pos h.type]
  show (whole (readSlice P (u.type = 5) u.refIdc) u.rbsp).bind _ = _
  rw [h.reads, ← h.sets]
  rfl

theorem readUnits_slices (h : List.Forall₂ (IsSlice P) us ps) :
    readUnits ⟨some P.sps, some P.pps⟩ us = some ps := by
  induction h with
  | nil => rfl
  | cons hu _ ih =>
      rw [readUnits, readUnit_slice hu]
      show (readUnits _ _).bind _ = _
      rw [ih]
      rfl

/-- **The parameter sets, and the slices behind them.** -/
theorem readUnits_eq {refIdc : ℕ} {sps pps : List UInt8}
    (hsps : whole (readRbsp readSps) sps = some P.sps)
    (hpps : whole (readRbsp readPps) pps = some P.pps) (h : List.Forall₂ (IsSlice P) us ps) :
    readUnits ⟨none, none⟩ (⟨refIdc, 7, sps⟩ :: ⟨refIdc, 8, pps⟩ :: us) = some ps := by
  rw [readUnits, readUnit, if_pos rfl]
  simp only [hsps]
  show (readUnits ⟨some P.sps, none⟩ (⟨refIdc, 8, pps⟩ :: us)).bind _ = _
  rw [readUnits, readUnit, if_neg (show 8 ≠ 7 by decide), if_pos rfl]
  simp only [hpps]
  show ((readUnits ⟨some P.sps, some P.pps⟩ us).bind _).bind _ = _
  rw [readUnits_slices h]
  rfl

end AvcStream
