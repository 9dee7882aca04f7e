import BadgeOS.CodaCube.ParameterSets
import BadgeOS.CodaCube.Slice
import Mathlib

/-!
# The slice header of a render is read back

* `headerCode` — the bits of the slice header, `writes_sliceHeader`;
* `header` — what they say, `reads_header`.
-/

namespace BadgeOS.CodaCube.Slice

open BW ExpGolomb BitField AvcHeaders
open Bitstream (parameterSets)

variable (S : Setting)

/-! ### The bits -/

/-- The list, entry after entry. -/
def modifications : List Avc.Modification :=
  (List.range S.refs.NREF).map fun i => .longTerm (S.refs.REFPAGE i).toNat

def weightCode (i : ℕ) : List Bool :=
  if i = 0 then [false] ++ [false]
  else
    [true] ++ (se (S.WY i) ++ se (S.OY i)) ++ ([true] ++ ((se (S.WC i) ++ se (S.OC i)) ++
      (se (S.WC i) ++ se (S.OC i))))

def markingCode (isRef : Bool) : List Bool := if isRef then [false] else []

def filterCode : List Bool := if S.dbk then ue 0 ++ (se S.abo ++ se S.abo) else ue 1

/-- The bits of the slice header. -/
def headerCode (frameNum poc : ℕ) (isRef : Bool) : List Bool :=
  ue 0 ++ (ue 5 ++ (ue 0 ++ (toBits 16 (frameNum % 2 ^ 16) ++ (toBits 16 (poc % 2 ^ 16) ++
    (([true] ++ ue (S.refs.NREF - 1)) ++ (([true] ++ ((modifications S).flatMap modificationCode ++
      ue 3)) ++ ((ue 6 ++ (ue 6 ++ (List.range S.refs.NREF).flatMap (weightCode S))) ++
        (markingCode isRef ++ (se (S.qp - 26) ++ filterCode S)))))))))

theorem writes_weight {i : ℕ} (hi : i ≠ 0) : Writes (bwWeight S i) (weightCode S i) := by
  have h := ((writes_flag true).comp ((writes_se (S.WY i)).comp (writes_se (S.OY i)))).comp
    ((writes_flag true).comp (((writes_se (S.WC i)).comp (writes_se (S.OC i))).comp
      ((writes_se (S.WC i)).comp (writes_se (S.OC i)))))
  rw [weightCode, if_neg hi]
  exact h

theorem writes_weights (h : 0 < S.refs.NREF) :
    Writes (fun b => (List.range' 1 (S.refs.NREF - 1)).foldl (fun b i => bwWeight S i b)
      (bwU 1 0 (bwU 1 0 b))) ((List.range S.refs.NREF).flatMap (weightCode S)) := by
  obtain ⟨n, hn⟩ := Nat.exists_eq_succ_of_ne_zero h.ne'
  have hrest (l : List ℕ) (hl : ∀ i ∈ l, i ≠ 0) :
      Writes (fun b => l.foldl (fun b i => bwWeight S i b) b) (l.flatMap (weightCode S)) := by
    induction l with
    | nil => exact .id
    | cons i l ih =>
        have hi := writes_weight S (hl i List.mem_cons_self)
        exact hi.comp (ih fun j hj => hl j (List.mem_cons_of_mem _ hj))
  have hfirst : (List.range S.refs.NREF).flatMap (weightCode S) =
      ([false] ++ [false]) ++ (List.range' 1 (S.refs.NREF - 1)).flatMap (weightCode S) := by
    rw [hn, List.range_eq_range', List.range'_succ, List.flatMap_cons]
    rfl
  rw [hfirst]
  refine ((writes_flag false).comp (writes_flag false)).comp (hrest _ ?_)
  intro i hi
  have hle := (List.mem_range'_1.mp hi).1
  omega

/-- **What is written of the header.** -/
theorem writes_sliceHeader (h : 0 < S.refs.NREF) (frameNum poc : ℕ) (isRef : Bool) :
    Writes (sliceHeader S frameNum poc isRef) (headerCode S frameNum poc isRef) := by
  have hpages : Writes (fun b => (List.range S.refs.NREF).foldl
      (fun b i => bwUe (S.refs.REFPAGE i).toNat (bwUe 2 b)) b)
      ((modifications S).flatMap modificationCode) := by
    rw [modifications, List.flatMap_map]
    exact writes_foldl (fun i => (writes_ue 2).comp (writes_ue (S.refs.REFPAGE i).toNat)) _
  have hmarking := (writes_flag false).ite (isRef = true) .id
  have hfilter := ((writes_ue 0).comp ((writes_se S.abo).comp (writes_se S.abo))).ite
    (S.dbk = true) (writes_ue 1)
  have hlist := (writes_flag true).comp (hpages.comp (writes_ue 3))
  have hweights := (writes_ue 6).comp ((writes_ue 6).comp (writes_weights S h))
  have hparts := hlist.comp (hweights.comp
    (hmarking.comp ((writes_se (S.qp - 26)).comp hfilter)))
  have hnumbers := (writes_ue 0).comp ((writes_ue 5).comp ((writes_ue 0).comp
    ((writes_u 16 (frameNum % 2 ^ 16)).comp ((writes_u 16 (poc % 2 ^ 16)).comp
      (((writes_flag true).comp (writes_ue (S.refs.NREF - 1))).comp hparts)))))
  exact hnumbers

/-! ### What they say -/

/-- Entry `i` of the weights; the black page has the default. -/
def weight (i : ℕ) : Weight :=
  if i = 0 then ⟨(2 ^ 6, 0), (2 ^ 6, 0), (2 ^ 6, 0)⟩
  else ⟨(S.WY i, S.OY i), (S.WC i, S.OC i), (S.WC i, S.OC i)⟩

def header (frameNum poc : ℕ) (isRef : Bool) : SliceHeader where
  picture := Pictures.encodeFrame frameNum poc isRef S.refs
  firstMb := 0
  parameterSet := 0
  idrPicId := none
  directSpatial := false
  weights := some ⟨6, 6, (List.range S.refs.NREF).map (weight S)⟩
  qp := S.qp
  filterOffsets := if S.dbk then some (S.abo, S.abo) else none

theorem reads_weight (i pos : ℕ) : Reads (readWeight 6 6) pos (weightCode S i) (weight S i) := by
  rw [weightCode, weight]
  split
  · refine (reads_flag false pos).bind ?_
    refine Reads.skip (x := (2 ^ 6, 0)) rfl ?_
    exact (reads_flag false _).last rfl
  · simp only [List.append_assoc]
    refine (reads_flag true pos).bind ?_
    have hluma := reads_pair (S.WY i) (S.OY i) (pos + [true].length)
    rw [← List.append_assoc]
    refine Reads.bind hluma ?_
    refine (reads_flag true _).bind ?_
    rw [← List.append_assoc]
    exact (reads_pair _ _ _).bind ((reads_pair _ _ _).last rfl)

theorem reads_weights (pos : ℕ) : Reads (readWeights S.refs.NREF) pos
    (ue 6 ++ (ue 6 ++ (List.range S.refs.NREF).flatMap (weightCode S)))
    ⟨6, 6, (List.range S.refs.NREF).map (weight S)⟩ := by
  refine (reads_ue 6 pos).bind ((reads_ue 6 _).bind ?_)
  exact (reads_mapM (fun i pos => reads_weight S i pos) _ _).last rfl

theorem reads_filter (o : Pictures.Options) (pos : ℕ) :
    Reads (readFilter (parameterSets S.toMbSize o).pps) pos (filterCode S)
      (if S.dbk then some (S.abo, S.abo) else none) := by
  rw [filterCode]
  cases S.dbk with
  | true =>
      refine (reads_ue 0 pos).bind ?_
      exact (reads_pair S.abo S.abo _).map
  | false => exact (reads_ue 1 pos).last rfl

theorem reads_marking (isRef : Bool) (pos : ℕ) :
    Reads (readMarking false (if isRef then 2 else 0)) pos (markingCode isRef) (false, none) := by
  cases isRef with
  | true => exact (reads_flag false pos).last rfl
  | false => exact .pure _ pos

/-- **The header is read back.** -/
theorem reads_header (h : 0 < S.refs.NREF) (o : Pictures.Options) (frameNum poc : ℕ)
    (isRef : Bool) (pos : ℕ) :
    Reads (readHeader (parameterSets S.toMbSize o) false (if isRef then 2 else 0)) pos
      (headerCode S frameNum poc isRef) (header S frameNum poc isRef) := by
  refine (reads_ue 0 pos).bind ?_
  refine Reads.bind (x := Avc.SliceType.P) ((reads_ue 5 _).last rfl) ?_
  refine (reads_ue 0 _).bind ?_
  refine (reads_bits 16 _ _ (Nat.mod_lt _ (by positivity))).bind ?_
  refine Reads.skip (x := none) rfl ?_
  refine (reads_bits 16 _ _ (Nat.mod_lt _ (by positivity))).bind ?_
  refine Reads.skip (x := false) rfl ?_
  refine Reads.bind (x := (S.refs.NREF, 0)) ?_ ?_
  · refine (reads_flag true _).bind ((reads_ue _ _).last ?_)
    rw [Nat.sub_add_cancel h]
  refine Reads.bind (x := (modifications S, [])) ?_ ?_
  · refine (reads_list (modifications S) ?_ ?_ _).last rfl
    · intro m hm
      obtain ⟨i, -, rfl⟩ := List.mem_map.mp hm
      exact trivial
    · simp [modifications]
  refine (reads_weights S _).map.bind ?_
  refine (reads_marking isRef _).bind ?_
  refine (reads_se (S.qp - 26) _).bind ?_
  refine (reads_filter S o _).last ?_
  rw [header, show (parameterSets S.toMbSize o).pps.picInitQp + (S.qp - 26) = S.qp by
    rw [parameterSets]; ring]
  rfl

end BadgeOS.CodaCube.Slice
