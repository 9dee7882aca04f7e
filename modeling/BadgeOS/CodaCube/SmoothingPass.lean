import BadgeOS.CodaCube.ParameterSets
import BadgeOS.Lib.AvcSlice
import Mathlib

/-!
# The slice of a smoothing pass

`encode_bpic`: a B-picture that averages the render with itself, a little apart, in the macroblocks
with an edge, and copies it in all others.

* `encodeBpic` — what is written;
* `bpicHeader`, `reads_bpicHeader` — the slice header, read back;
* `passMb`, `bpic_read` — the macroblocks that are meant, and the whole slice.
-/

namespace BadgeOS.CodaCube.Bpic

open BW ExpGolomb BitField AvcHeaders AvcMotion AvcSlice
open Bitstream (parameterSets)

/-! ### What is written -/

/-- The edges, and the vectors of both lists. -/
structure Pass extends MbSize where
  /-- `g_edge[m]` -/
  edge : ℕ → Bool
  m0 : ℤ × ℤ
  m1 : ℤ × ℤ
  m0_is16 : Is16 m0.1 ∧ Is16 m0.2
  m1_is16 : Is16 m1.1 ∧ Is16 m1.2

/-- The neighbour state of the lists, `sref` and `smv`, and `bref1` and `bmv1`; `sdone` is set for
both. -/
structure Enc where
  bw : BW
  grid0 : Grid
  grid1 : Grid

section Writing

variable (S : Pass)

def bpicFront (frameNum poc : ℕ) (isRef : Bool) (b : BW) : BW :=
  let b := bwUe 0 (bwUe 6 (bwUe 0 b))
  let b := bwU 16 (poc % 2 ^ 16) (bwU 16 (frameNum % 2 ^ 16) b)
  let b := bwU 1 1 b
  let b := bwUe 0 (bwUe 0 (bwU 1 1 b))
  let b := (List.range 2).foldl (fun b _ => bwUe 3 (bwUe 0 (bwUe 0 (bwU 1 1 b)))) b
  let b := if isRef then bwU 1 0 b else b
  bwUe 1 (bwSe 0 b)

/-- One macroblock. -/
def macroblock (e : Enc) (m : ℕ) : Enc :=
  let x4 := S.x4 m
  let y4 := S.y4 m
  let bi := S.edge m
  let a := if bi then S.m0 else (0, 0)
  let bw := bwUe (if bi then 3 else 1) (bwUe 0 e.bw)
  let p := mvp S.toMbSize e.grid0 x4 y4 4 0
  let bw := bwSe (a.2 - p.2) (bwSe (a.1 - p.1) bw)
  let bw :=
    if bi then
      let p := mvp S.toMbSize e.grid1 x4 y4 4 0
      bwSe (S.m1.2 - p.2) (bwSe (S.m1.1 - p.1) bw)
    else bw
  { bw := bwUe 0 bw
    grid0 := setblk e.grid0 x4 y4 4 0 a
    grid1 := setblk e.grid1 x4 y4 4 (if bi then 0 else -1) (if bi then S.m1 else (0, 0)) }

/-- `encode_bpic`: the RBSP, and the neighbour state that it leaves. -/
def encodeBpic (old0 old1 : Grid) (frameNum poc : ℕ) (isRef : Bool) :
    List UInt8 × Grid × Grid :=
  let clear (g : Grid) : Grid := fun i j => { g i j with done := false }
  let e := (List.range S.mbs).foldl (macroblock S)
    ⟨bpicFront frameNum poc isRef .empty, clear old0, clear old1⟩
  ((bwTrailing e.bw).buf, e.grid0, e.grid1)

end Writing

/-! ### The slice header -/

def markingCode (isRef : Bool) : List Bool := if isRef then [false] else []

/-- The picture just before, in one list. -/
def listCode : List Bool := [true] ++ (([.subtract 1] : List Avc.Modification).flatMap
  modificationCode ++ ue 3)

def frontCode (frameNum poc : ℕ) (isRef : Bool) : List Bool :=
  ue 0 ++ (ue 6 ++ (ue 0 ++ (toBits 16 (frameNum % 2 ^ 16) ++ (toBits 16 (poc % 2 ^ 16) ++
    ([true] ++ (([true] ++ (ue 0 ++ ue 0)) ++ ((listCode ++ listCode) ++
      (markingCode isRef ++ (se 0 ++ ue 1)))))))))

theorem writes_bpicFront (frameNum poc : ℕ) (isRef : Bool) :
    Writes (bpicFront frameNum poc isRef) (frontCode frameNum poc isRef) := by
  have hlist := (writes_flag true).comp (((writes_ue 0).comp (writes_ue 0)).comp (writes_ue 3))
  have hmarking := (writes_flag false).ite (isRef = true) .id
  have hfront := (writes_ue 0).comp ((writes_ue 6).comp ((writes_ue 0).comp
    ((writes_u 16 (frameNum % 2 ^ 16)).comp ((writes_u 16 (poc % 2 ^ 16)).comp
      ((writes_flag true).comp (((writes_flag true).comp ((writes_ue 0).comp (writes_ue 0))).comp
        ((hlist.comp hlist).comp (hmarking.comp ((writes_se 0).comp (writes_ue 1))))))))))
  exact hfront

def bpicHeader (frameNum poc : ℕ) (isRef : Bool) : SliceHeader where
  picture := Pictures.encodeBpic frameNum poc isRef
  firstMb := 0
  parameterSet := 0
  idrPicId := none
  directSpatial := true
  weights := none
  qp := 26
  filterOffsets := none

/-- **The header is read back.** -/
theorem reads_bpicHeader (S : MbSize) (o : Pictures.Options) (frameNum poc : ℕ) (isRef : Bool)
    (pos : ℕ) :
    Reads (readHeader (parameterSets S o) false (if isRef then 2 else 0)) pos
      (frontCode frameNum poc isRef) (bpicHeader frameNum poc isRef) := by
  have hlist (pos : ℕ) : Reads (readList 1) pos listCode [.subtract 1] := by
    rw [listCode]
    exact reads_list [.subtract 1] (by simp [IsCoded]) (by decide) pos
  refine (reads_ue 0 pos).bind ?_
  refine Reads.bind (x := Avc.SliceType.B) ((reads_ue 6 _).last rfl) ?_
  refine (reads_ue 0 _).bind ?_
  refine (reads_bits 16 _ _ (Nat.mod_lt _ (by positivity))).bind ?_
  refine Reads.skip (x := none) rfl ?_
  refine (reads_bits 16 _ _ (Nat.mod_lt _ (by positivity))).bind ?_
  refine (reads_flag true _).bind ?_
  refine Reads.bind (x := (1, 1)) ?_ ?_
  · exact (reads_flag true _).bind ((reads_ue 0 _).bind ((reads_ue 0 _).last rfl))
  refine Reads.bind (x := ([.subtract 1], [.subtract 1])) ?_ ?_
  · exact (hlist _).bind ((hlist _).last rfl)
  refine Reads.skip (x := none) rfl ?_
  refine Reads.bind (x := (false, none)) ?_ ?_
  · cases isRef with
    | true => exact (reads_flag false _).last rfl
    | false => exact .pure _ _
  refine (reads_se 0 _).bind ?_
  refine Reads.last (x := none) ?_ rfl
  exact (reads_ue 1 _).last rfl

/-! ### The macroblocks -/

section Macroblocks

variable (S : Pass)

/-- What macroblock `m` is to be. -/
def passMb (m : ℕ) : Macroblock :=
  if S.edge m then .bi (some ⟨0, S.m0⟩) (some ⟨0, S.m1⟩) else .bi (some ⟨0, (0, 0)⟩) none

def passMbs (m : ℕ) : List Macroblock := (List.range m).map (passMb S)

@[simp] theorem length_passMbs (m : ℕ) : (passMbs S m).length = m := by
  rw [passMbs, List.length_map, List.length_range]

/-- The difference of a vector from its prediction. -/
def wholeCode (done : List Field) (mv : ℤ × ℤ) : List Bool :=
  let p := predict S.WMB done undecoded 0 0 4 0
  se (mv.1 - p.1) ++ se (mv.2 - p.2)

def macroblockCode (m : ℕ) : List Bool :=
  let done0 := (passMbs S m).map Macroblock.field
  let done1 := (passMbs S m).map Macroblock.field1
  if S.edge m then ue 3 ++ (wholeCode S done0 S.m0 ++ (wholeCode S done1 S.m1 ++ ue 0))
  else ue 1 ++ (wholeCode S done0 (0, 0) ++ ue 0)

theorem macroblockCode_ne_nil (m : ℕ) : macroblockCode S m ≠ [] := by
  rw [macroblockCode]
  split <;> exact ue_ne_nil _ _

theorem reads_passMb (m pos : ℕ) :
    Reads (readMacroblockB S.WMB (1, 1) (passMbs S m)) pos (macroblockCode S m) (passMb S m) := by
  rw [macroblockCode, passMb]
  cases S.edge m with
  | true =>
      refine (reads_ue 3 pos).bind ?_
      rw [if_neg (by decide), if_neg (by decide), if_pos rfl]
      refine Reads.skip (x := 0) rfl (Reads.skip (x := 0) rfl ?_)
      refine (reads_whole S.m0 _).bind ?_
      refine (reads_whole S.m1 _).bind ?_
      exact (reads_noResidual _).last rfl
  | false =>
      refine (reads_ue 1 pos).bind ?_
      rw [if_pos rfl]
      refine Reads.skip (x := 0) rfl ?_
      refine (reads_whole (0, 0) _).bind ?_
      exact (reads_noResidual _).last rfl

/-- Before macroblock `m`. -/
structure Going (m : ℕ) (e : Enc) : Prop where
  agrees0 : Agrees S.toMbSize ((passMbs S m).map Macroblock.field) undecoded e.grid0
  agrees1 : Agrees S.toMbSize ((passMbs S m).map Macroblock.field1) undecoded e.grid1
  n_lt : e.bw.n < 8

theorem passMbs_succ (m : ℕ) : passMbs S (m + 1) = passMbs S m ++ [passMb S m] := by
  rw [passMbs, List.range_succ, List.map_append]
  rfl

/-- Both grids go along. -/
theorem grids_step {m : ℕ} {e : Enc} (h : Going S m e) :
    let e' := macroblock S e m
    Agrees S.toMbSize ((passMbs S (m + 1)).map Macroblock.field) undecoded e'.grid0 ∧
      Agrees S.toMbSize ((passMbs S (m + 1)).map Macroblock.field1) undecoded e'.grid1 := by
  have hset0 {mv : ℤ × ℤ} (hmv : Is16 mv.1 ∧ Is16 mv.2) :=
    h.agrees0.whole (r := 0) (by decide) (by decide) hmv
  have hset1 {r : ℤ} {mv : ℤ × ℤ} (hr : -1 ≤ r) (hr' : r ≤ 0)
      (hmv : Is16 mv.1 ∧ Is16 mv.2) :=
    h.agrees1.whole hr (by omega) hmv
  simp only [List.length_map, length_passMbs] at hset0 hset1
  simp only [passMbs_succ, List.map_append, List.map_singleton, macroblock, passMb]
  cases S.edge m with
  | true => exact ⟨hset0 S.m0_is16, hset1 (by decide) le_rfl S.m1_is16⟩
  | false => exact ⟨hset0 ⟨is16_zero, is16_zero⟩, hset1 le_rfl (by decide) ⟨is16_zero, is16_zero⟩⟩

/-- **One macroblock.** -/
theorem macroblock_step {m : ℕ} {e : Enc} (hm : m < S.mbs) (h : Going S m e) :
    let e' := macroblock S e m
    Going S (m + 1) e' ∧ e'.bw.bits = e.bw.bits ++ (ue 0 ++ macroblockCode S m) := by
  have hpred0 := mvp_eq h.agrees0 (by simpa using hm) (x := 0) (y := 0) (w := 4) le_rfl
    (by decide) 0
  have hpred1 := mvp_eq h.agrees1 (by simpa using hm) (x := 0) (y := 0) (w := 4) le_rfl
    (by decide) 0
  simp only [List.length_map, length_passMbs, Nat.cast_zero, add_zero] at hpred0 hpred1
  obtain ⟨hgrid0, hgrid1⟩ := grids_step S h
  have hwrites : (macroblock S e m).bw.bits = e.bw.bits ++ (ue 0 ++ macroblockCode S m) ∧
      (macroblock S e m).bw.n < 8 := by
    simp only [macroblock, macroblockCode, hpred0, hpred1]
    cases S.edge m with
    | true =>
        exact ((writes_ue 0).comp ((writes_ue 3).comp (((writes_se _).comp (writes_se _)).comp
          (((writes_se _).comp (writes_se _)).comp (writes_ue 0))))) e.bw h.n_lt
    | false =>
        exact ((writes_ue 0).comp ((writes_ue 1).comp (((writes_se _).comp (writes_se _)).comp
          (writes_ue 0)))) e.bw h.n_lt
  exact ⟨⟨hgrid0, hgrid1, hwrites.2⟩, hwrites.1⟩

/-- **The slice that `encode_bpic` writes** is read back, up to the last bit: in a macroblock with
an edge the vectors of both lists, in every other one a copy from list 0.  It does not end in a zero
byte. -/
theorem bpic_read (o : Pictures.Options) (old0 old1 : Grid) (frameNum poc : ℕ) (isRef : Bool) :
    let rbsp := (encodeBpic S old0 old1 frameNum poc isRef).1
    readSlice (parameterSets S.toMbSize o) false (if isRef then 2 else 0)
        ⟨0, BitField.bits rbsp⟩ =
      some ((bpicHeader frameNum poc isRef, passMbs S S.mbs),
        ⟨(BitField.bits rbsp).length, []⟩) ∧
      rbsp.getLast? ≠ some 0 := by
  obtain ⟨hfront, hn⟩ := writes_bpicFront frameNum poc isRef .empty (by decide)
  rw [show (BW.empty).bits = [] from rfl, List.nil_append] at hfront
  have hbegin : Going S 0 ⟨bpicFront frameNum poc isRef .empty,
      fun i j => { old0 i j with done := false }, fun i j => { old1 i j with done := false }⟩ :=
    ⟨agrees_nil old0, agrees_nil old1, hn⟩
  have hstep (m : ℕ) (e : Enc) (hm : m < S.mbs) (h : Going S m e) :
      Going S (m + 1) (macroblock S e m) ∧ ∃ code, code ≠ [] ∧
        (macroblock S e m).bw.bits = e.bw.bits ++ (ue 0 ++ code) ∧
        Reads (readMacroblock S.WMB (1, 1) (passMbs S m) .B) (e.bw.bits.length + (ue 0).length)
          code (passMb S m) :=
    ⟨(macroblock_step S hm h).1, _, macroblockCode_ne_nil S m, (macroblock_step S hm h).2,
      reads_passMb S m _⟩
  obtain ⟨hgoing, code, hbits, hends⟩ :=
    sent_all (fun e => e.bw.bits) (passMb S) S.mbs_pos (fun _ pos => reads_noSkip pos) hstep hbegin
  simp only [hfront] at hbits hends
  have hbytes := trailing_bytes _ hgoing.n_lt
  rw [hbits] at hbytes
  refine ⟨?_, getLast?_ne_zero hbytes⟩
  rw [encodeBpic]
  simp only [hbytes]
  exact readSlice_eq (reads_bpicHeader S.toMbSize o frameNum poc isRef 0) hends (length_passMbs S _)

end Macroblocks

end BadgeOS.CodaCube.Bpic
