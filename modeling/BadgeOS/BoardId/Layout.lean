import BadgeOS.Lib.BitField
import Mathlib

/-!
# The identity record

The 40 bytes of the USER area are one record of 320 bits, the highest bit first: a format
version, the 32 characters of a hash by their index, the 15 characters of a name, a version, a
date and a commit.  What the encoder writes and both decoders read is this one record.

* `Fields`, `Fields.Fits` — the fields as numbers, each within its width;
* `Fields.bits`, `Fields.ofBits` — the record of the fields, and the fields of a record;
* `Fields.ofBits_bits`, `Fields.bits_ofBits` — each is the other's inverse.
-/

namespace BadgeOS.BoardId

open BitField

/-- The fields, in their order. -/
structure Fields where
  epoch : ℕ
  hash : List ℕ
  name : List ℕ
  version : ℕ
  tapeout : ℕ
  git : ℕ
  deriving DecidableEq, Repr

structure Fields.Fits (f : Fields) : Prop where
  epoch : f.epoch < 2 ^ 3
  hash_length : f.hash.length = 32
  hash : ∀ v ∈ f.hash, v < 2 ^ 5
  name_length : f.name.length = 15
  name : ∀ v ∈ f.name, v < 2 ^ 7
  version : f.version < 2 ^ 7
  tapeout : f.tapeout < 2 ^ 17
  git : f.git < 2 ^ 28

/-- The record of the fields. -/
def Fields.bits (f : Fields) : List Bool :=
  toBits 3 f.epoch ++ (f.hash.flatMap (toBits 5) ++ (f.name.flatMap (toBits 7) ++
    (toBits 7 f.version ++ (toBits 17 f.tapeout ++ toBits 28 f.git))))

/-- The fields of a record, each at its place. -/
def Fields.ofBits (bs : List Bool) : Fields where
  epoch := BitField.ofBits (bs.take 3)
  hash := group 5 32 (bs.drop 3)
  name := group 7 15 (bs.drop 163)
  version := BitField.ofBits ((bs.drop 268).take 7)
  tapeout := BitField.ofBits ((bs.drop 275).take 17)
  git := BitField.ofBits ((bs.drop 292).take 28)

/-- The fields of a USER blob. -/
def Fields.ofBlob (blob : List UInt8) : Fields := Fields.ofBits (BitField.bits blob)

variable {f : Fields} {bs : List Bool}

theorem Fields.length_bits (h : f.Fits) : f.bits.length = 320 := by
  simp [Fields.bits, h.hash_length, h.name_length]

theorem Fields.ofBits_fits (bs : List Bool) : (Fields.ofBits bs).Fits := by
  have hlt (w : ℕ) (cs : List Bool) : BitField.ofBits (cs.take w) < 2 ^ w :=
    (ofBits_lt _).trans_le (Nat.pow_le_pow_right Nat.two_pos (List.length_take_le w cs))
  constructor
  · exact hlt 3 bs
  · exact length_group 5 32 _
  · exact group_lt 5 32 _
  · exact length_group 7 15 _
  · exact group_lt 7 15 _
  · exact hlt 7 _
  · exact hlt 17 _
  · exact hlt 28 _

/-- **Reading back** the record of fields that fit. -/
theorem Fields.ofBits_bits (h : f.Fits) : Fields.ofBits f.bits = f := by
  have hhash : (f.hash.flatMap (toBits 5)).length = 160 := by
    rw [length_flatMap_toBits, h.hash_length]
  have hname : (f.name.flatMap (toBits 7)).length = 105 := by
    rw [length_flatMap_toBits, h.name_length]
  have hepoch := length_toBits 3 f.epoch
  have hversion := length_toBits 7 f.version
  have htapeout := length_toBits 17 f.tapeout
  have hgit := length_toBits 28 f.git
  -- what stands behind the fields in front of each
  have h₃ : f.bits.drop 3 = f.hash.flatMap (toBits 5) ++ (f.name.flatMap (toBits 7) ++
      (toBits 7 f.version ++ (toBits 17 f.tapeout ++ toBits 28 f.git))) :=
    drop_behind hepoch 0 _
  have h₁₆₃ : f.bits.drop 163 = f.name.flatMap (toBits 7) ++
      (toBits 7 f.version ++ (toBits 17 f.tapeout ++ toBits 28 f.git)) := by
    rw [Fields.bits, drop_behind hepoch 160, drop_behind hhash 0, List.drop_zero]
  have h₂₆₈ : f.bits.drop 268 = toBits 7 f.version ++
      (toBits 17 f.tapeout ++ toBits 28 f.git) := by
    rw [Fields.bits, drop_behind hepoch 265, drop_behind hhash 105, drop_behind hname 0,
      List.drop_zero]
  have h₂₇₅ : f.bits.drop 275 = toBits 17 f.tapeout ++ toBits 28 f.git := by
    rw [Fields.bits, drop_behind hepoch 272, drop_behind hhash 112, drop_behind hname 7,
      drop_behind hversion 0, List.drop_zero]
  have h₂₉₂ : f.bits.drop 292 = toBits 28 f.git := by
    rw [Fields.bits, drop_behind hepoch 289, drop_behind hhash 129, drop_behind hname 24,
      drop_behind hversion 17, drop_behind htapeout 0, List.drop_zero]
  have hgroup : group 5 32 (f.bits.drop 3) = f.hash := by
    rw [h₃, group_append hhash, ← h.hash_length, group_flatMap h.hash]
  have hchars : group 7 15 (f.bits.drop 163) = f.name := by
    rw [h₁₆₃, group_append hname, ← h.name_length, group_flatMap h.name]
  have hfirst : f.bits.take 3 = toBits 3 f.epoch := List.take_left' hepoch
  rw [Fields.ofBits, hgroup, hchars, hfirst, h₂₆₈, h₂₇₅, h₂₉₂, List.take_left' hversion,
    List.take_left' htapeout, List.take_of_length_le hgit.le, ofBits_toBits_of_lt h.epoch,
    ofBits_toBits_of_lt h.version, ofBits_toBits_of_lt h.tapeout, ofBits_toBits_of_lt h.git]

/-- **Writing back** the fields of a record. -/
theorem Fields.bits_ofBits (h : bs.length = 320) : (Fields.ofBits bs).bits = bs := by
  have hjoin (i k : ℕ) : (bs.drop i).take k ++ bs.drop (i + k) = bs.drop i := by
    rw [← List.drop_drop, List.take_append_drop]
  have hlast : (bs.drop 292).take 28 = bs.drop 292 := List.take_of_length_le (by simp [h])
  have hhash : (group 5 32 (bs.drop 3)).flatMap (toBits 5) = (bs.drop 3).take 160 :=
    flatMap_group_append (by simp [h])
  have hname : (group 7 15 (bs.drop 163)).flatMap (toBits 7) = (bs.drop 163).take 105 :=
    flatMap_group_append (by simp [h])
  have hfield (i k : ℕ) (hik : i + k ≤ 320) :
      toBits k (BitField.ofBits ((bs.drop i).take k)) = (bs.drop i).take k :=
    toBits_take (by rw [List.length_drop, h]; omega)
  have hepoch : toBits 3 (BitField.ofBits (bs.take 3)) = (bs.drop 0).take 3 :=
    hfield 0 3 (by decide)
  unfold Fields.bits Fields.ofBits
  rw [hepoch, hhash, hname, hfield 268 7 (by decide), hfield 275 17 (by decide),
    hfield 292 28 (by decide), hlast, hjoin 275 17, hjoin 268 7, hjoin 163 105, hjoin 3 160,
    hjoin 0 3, List.drop_zero]

/-- A blob's fields are the record's, and their record the blob. -/
theorem Fields.bits_ofBlob {blob : List UInt8} (h : blob.length = 40) :
    (Fields.ofBlob blob).bits = BitField.bits blob :=
  Fields.bits_ofBits (by rw [BitField.length_bits, h])

theorem Fields.ofBlob_toBytes (h : f.Fits) : Fields.ofBlob (toBytes f.bits) = f := by
  rw [Fields.ofBlob, bits_toBytes ⟨40, Fields.length_bits h⟩, Fields.ofBits_bits h]

end BadgeOS.BoardId
