import BadgeOS.CodaCube.ParameterSets
import BadgeOS.Lib.AvcSlice
import Mathlib

/-!
# The slice of a page

`pcm_page`: a picture that is sent sample by sample, as the black IDR or as the next long-term
picture.

* `pcmPage` — what is written;
* `pageHeader`, `reads_pageHeader` — the slice header, read back;
* `page_read` — the whole slice.
-/

namespace BadgeOS.CodaCube.Pages

open BW ExpGolomb BitField AvcHeaders AvcSlice
open Bitstream (parameterSets)
open Pictures (Options)

/-! ### What is written -/

/-- The planes of a page, `W` and `W / 2` samples in a row. -/
structure Planes where
  Y : ℕ → UInt8
  U : ℕ → UInt8
  V : ℕ → UInt8

section Writing

variable (S : MbSize) (P : Planes)

/-- The bytes that one `memcpy` takes. -/
def row (plane : ℕ → UInt8) (start n : ℕ) : List UInt8 :=
  (List.range n).map fun i => plane (start + i)

/-- The samples of a macroblock. -/
def samples (m : ℕ) : List UInt8 :=
  let mx := m % S.WMB
  let my := m / S.WMB
  (List.range 16).flatMap (fun y => row P.Y ((my * 16 + y) * S.W + mx * 16) 16) ++
    (List.range 8).flatMap (fun y => row P.U ((my * 8 + y) * (S.W / 2) + mx * 8) 8) ++
    (List.range 8).flatMap (fun y => row P.V ((my * 8 + y) * (S.W / 2) + mx * 8) 8)

def bwMacroblock (b : BW) (m : ℕ) : BW := copy (samples S P m) (align (bwUe 25 b))

def pageFront (o : Options) (k : ℕ) (b : BW) : BW :=
  let b := bwU 16 k (bwUe 0 (bwUe 7 (bwUe 0 b)))
  let b := if k = 0 then bwUe 0 b else b
  let b := bwU 16 (2 * k) b
  let b :=
    if k = 0 then bwU 1 1 (bwU 1 0 b)
    else
      let b := bwU 1 1 b
      let b := if k = 1 then bwUe (o.K + 1) (bwUe 4 b) else b
      bwUe 0 (bwUe k (bwUe 6 b))
  bwUe 1 (bwSe 0 b)

/-- `pcm_page`: the RBSP. -/
def pcmPage (o : Options) (k : ℕ) : List UInt8 :=
  (bwTrailing ((List.range S.mbs).foldl (bwMacroblock S P) (pageFront o k .empty))).buf

end Writing

/-! ### The slice header -/

def idrCode (k : ℕ) : List Bool := if k = 0 then ue 0 else []

/-- The operations of a page behind the first. -/
def operations (o : Options) (k : ℕ) : List Avc.Operation :=
  (if k = 1 then [.maxLongTermFrameIdx (o.K + 1)] else []) ++ [.currentLongTerm k]

def markingCode (o : Options) (k : ℕ) : List Bool :=
  if k = 0 then [false] ++ [true]
  else [true] ++ ((operations o k).flatMap operationCode ++ ue 0)

def frontCode (o : Options) (k : ℕ) : List Bool :=
  ue 0 ++ (ue 7 ++ (ue 0 ++ (toBits 16 (k % 2 ^ 16) ++ (idrCode k ++
    (toBits 16 (2 * k % 2 ^ 16) ++ (markingCode o k ++ (se 0 ++ ue 1)))))))

theorem writes_marking (o : Options) (k : ℕ) :
    Writes (fun b =>
      if k = 0 then bwU 1 1 (bwU 1 0 b)
      else bwUe 0 (bwUe k (bwUe 6 (if k = 1 then bwUe (o.K + 1) (bwUe 4 (bwU 1 1 b))
        else bwU 1 1 b)))) (markingCode o k) := by
  have hidr := (writes_flag false).comp (writes_flag true)
  have hindex := ((writes_ue 4).comp (writes_ue (o.K + 1))).ite (k = 1) .id
  have hops := (writes_flag true).comp (hindex.comp ((writes_ue 6).comp ((writes_ue k).comp
    (writes_ue 0))))
  have hcode : markingCode o k = if k = 0 then [false] ++ [true]
      else [true] ++
        ((if k = 1 then ue 4 ++ ue (o.K + 1) else []) ++ (ue 6 ++ (ue k ++ ue 0))) := by
    rw [markingCode, operations]
    by_cases hone : k = 1
    · simp [hone, operationCode]
    · simp [hone, operationCode]
  rw [hcode]
  exact hidr.ite (k = 0) hops

theorem writes_pageFront (o : Options) (k : ℕ) :
    Writes (pageFront o k) (frontCode o k) := by
  have hidr := (writes_ue 0).ite (k = 0) .id
  have hfront := (writes_ue 0).comp ((writes_ue 7).comp ((writes_ue 0).comp
    ((writes_u 16 k).comp (hidr.comp ((writes_u 16 (2 * k)).comp ((writes_marking o k).comp
      ((writes_se 0).comp (writes_ue 1))))))))
  rw [frontCode, toBits_mod, toBits_mod]
  exact hfront

def pageHeader (o : Options) (k : ℕ) : SliceHeader where
  picture := Pictures.pcmPage o k
  firstMb := 0
  parameterSet := 0
  idrPicId := if k = 0 then some 0 else none
  directSpatial := false
  weights := none
  qp := 26
  filterOffsets := none

/-- **The header is read back.** -/
theorem reads_pageHeader (S : MbSize) (o : Options) (k pos : ℕ) :
    Reads (readHeader (parameterSets S o) (k = 0) 3) pos (frontCode o k) (pageHeader o k) := by
  have hmarking (pos : ℕ) : Reads (readMarking (k = 0) 3) pos (markingCode o k)
      (k = 0, if k = 0 then none else some (operations o k)) := by
    rw [markingCode]
    by_cases hk : k = 0
    · simp only [hk, decide_true, if_true]
      exact (reads_flag false pos).bind ((reads_flag true _).last rfl)
    · simp only [hk, decide_false, if_false]
      refine (reads_flag true pos).bind ?_
      exact (reads_operations (operations o k) _).last rfl
  refine (reads_ue 0 pos).bind ?_
  refine Reads.bind (x := Avc.SliceType.I) ((reads_ue 7 _).last rfl) ?_
  refine (reads_ue 0 _).bind ?_
  refine (reads_bits 16 _ _ (Nat.mod_lt _ (by positivity))).bind ?_
  refine Reads.bind (x := if k = 0 then some 0 else none) ?_ ?_
  · rw [idrCode]
    by_cases hk : k = 0
    · simp only [hk, decide_true, if_true]
      exact (reads_ue 0 _).map
    · simp only [hk, decide_false, if_false]
      exact .pure _ _
  refine (reads_bits 16 _ _ (Nat.mod_lt _ (by positivity))).bind ?_
  refine Reads.skip (x := false) rfl ?_
  refine Reads.skip (x := (0, 0)) rfl ?_
  refine Reads.skip (x := ([], [])) rfl ?_
  refine Reads.skip (x := none) rfl ?_
  refine (hmarking _).bind ?_
  refine (reads_se 0 _).bind ?_
  refine Reads.last (x := none) ?_ rfl
  exact (reads_ue 1 _).last rfl

/-! ### The macroblocks -/

section Macroblocks

variable (S : MbSize) (P : Planes)

theorem length_row (plane : ℕ → UInt8) (start n : ℕ) : (row plane start n).length = n := by
  rw [row, List.length_map, List.length_range]

theorem length_samples (m : ℕ) : (samples S P m).length = 384 := by
  simp [samples, List.length_flatMap, length_row]

/-- What macroblock `m` is to be. -/
def pageMb (m : ℕ) : Macroblock := .pcm ((samples S P m).map UInt8.toNat)

def pageMbs : List Macroblock := (List.range S.mbs).map (pageMb S P)

/-- One macroblock. -/
theorem bwMacroblock_step (m : ℕ) {b : BW} (hb : b.n < 8) :
    (bwMacroblock S P b m).n < 8 ∧ ∃ code, code ≠ [] ∧
      (bwMacroblock S P b m).bits = b.bits ++ code ∧
        Reads readMacroblockI b.bits.length code (pageMb S P m) := by
  obtain ⟨hbits, hn⟩ := writes_ue 25 b hb
  obtain ⟨halign, hzero⟩ := align_bits _ hn
  obtain ⟨hcopy, hzero'⟩ := copy_bits (samples S P m) hzero
  refine ⟨by rw [bwMacroblock, hzero']; decide,
    ue 25 ++ samplesCode (b.bits.length + (ue 25).length) ((samples S P m).map UInt8.toNat),
    ue_ne_nil _ _, ?_, ?_⟩
  · rw [bwMacroblock, hcopy, halign, hbits, samplesCode, bits_eq_flatMap, List.length_append]
    simp only [List.append_assoc]
  · refine (reads_ue 25 _).bind ?_
    rw [if_pos rfl]
    refine reads_pcm (by rw [List.length_map, length_samples]) ?_ _
    intro v hv
    obtain ⟨c, -, rfl⟩ := List.mem_map.mp hv
    exact c.toNat_lt

/-- **The slice that `pcm_page` writes** is read back, up to the last bit: the operation that makes
the picture long-term, and every sample.  It does not end in a zero byte. -/
theorem page_read (o : Options) (k : ℕ) :
    let rbsp := pcmPage S P o k
    readSlice (parameterSets S o) (k = 0) 3 ⟨0, BitField.bits rbsp⟩ =
      some ((pageHeader o k, pageMbs S P), ⟨(BitField.bits rbsp).length, []⟩) ∧
      rbsp.getLast? ≠ some 0 := by
  obtain ⟨hfront, hn⟩ := writes_pageFront o k .empty (by decide)
  rw [show (BW.empty).bits = [] from rfl, List.nil_append] at hfront
  have hskips (mbs : List Macroblock) (pos : ℕ) :
      Reads (readSkipped S.WMB mbs .I) pos [] (0, mbs) :=
    .pure (0, mbs) pos
  have hstep (m : ℕ) (b : BW) (_ : m < S.mbs) (hb : b.n < 8) :
      (bwMacroblock S P b m).n < 8 ∧ ∃ code, code ≠ [] ∧
        (bwMacroblock S P b m).bits = b.bits ++ ([] ++ code) ∧
        Reads (readMacroblock S.WMB (0, 0) ((List.range m).map (pageMb S P)) .I)
          (b.bits.length + 0) code (pageMb S P m) := bwMacroblock_step S P m hb
  obtain ⟨hn', code, hbits, hends⟩ := sent_all BW.bits (pageMb S P) S.mbs_pos hskips hstep hn
  rw [hfront] at hbits hends
  have hbytes := trailing_bytes _ hn'
  rw [hbits] at hbytes
  refine ⟨?_, getLast?_ne_zero hbytes⟩
  rw [pcmPage]
  simp only [hbytes]
  refine readSlice_eq (reads_pageHeader S o k 0) hends ?_
  rw [pageMbs, List.length_map, List.length_range]
  rfl

end Macroblocks

end BadgeOS.CodaCube.Pages
