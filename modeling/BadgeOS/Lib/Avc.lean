import Mathlib

/-!
# Reference pictures of H.264

What a decoder does with the headers of a stream of frames, as far as it decides which picture
predicts from which: `frame_num` and its wrap, the picture order count of type 0, the initial
reference lists and their modification, and the marking of reference pictures by a sliding window
or by the operations for long-term pictures.  A stream that breaks a rule has no result.

* `Header`, `Dpb`, `Decoded` — a picture's header, the decoder, and what it makes of a picture;
* `step`, `run` — one picture, and a stream;
* `pocOf_eq` — the order count that was meant, when it is near the last reference picture's;
* `modify_longTerm`, `modify_previous` — lists that are written out, and the picture just before;
* `recent`, `slide_recent` — the last pictures of a stream that counts `frame_num` on.
-/

namespace Avc

/-! ### Headers -/

/-- What the sequence parameter set says. -/
structure Params where
  maxFrameNum : ℕ
  maxPicOrderCntLsb : ℕ
  maxNumRefFrames : ℕ

inductive SliceType
  | I
  | P
  | B
  deriving DecidableEq, Repr

/-- A modification of a reference list. -/
inductive Modification
  | subtract (absDiffPicNum : ℕ)
  | add (absDiffPicNum : ℕ)
  | longTerm (longTermPicNum : ℕ)
  deriving DecidableEq, Repr

/-- The memory management control operations 4 and 6. -/
inductive Operation
  | maxLongTermFrameIdx (plus1 : ℕ)
  | currentLongTerm (longTermFrameIdx : ℕ)
  deriving DecidableEq, Repr

structure Header where
  sliceType : SliceType
  idr : Bool := false
  /-- `nal_ref_idc` -/
  refIdc : ℕ
  frameNum : ℕ
  pocLsb : ℕ
  /-- The active entries of each list. -/
  active0 : ℕ := 0
  active1 : ℕ := 0
  mods0 : List Modification := []
  mods1 : List Modification := []
  /-- Of an IDR picture. -/
  longTermReference : Bool := false
  /-- Of any other reference picture; `none` for the sliding window. -/
  operations : Option (List Operation) := none
  deriving DecidableEq, Repr

/-- A picture that is used for reference. -/
structure Ref where
  /-- Its place in decoding order. -/
  pic : ℕ
  frameNum : ℕ
  poc : ℤ
  /-- `LongTermFrameIdx`; `none` of a short-term picture. -/
  longTerm : Option ℕ
  deriving DecidableEq, Repr

structure Dpb where
  refs : List Ref
  /-- `MaxLongTermFrameIdx + 1` -/
  longTermIndices : ℕ
  prevRefFrameNum : ℕ
  prevPocMsb : ℤ
  prevPocLsb : ℕ
  decoded : ℕ
  deriving DecidableEq, Repr

/-- Before the first picture. -/
def Dpb.start : Dpb := ⟨[], 0, 0, 0, 0, 0⟩

inductive Fault
  | noIdr
  | idrFrameNum
  | repeatedFrameNum
  | frameNumGap
  | manyModifications
  | noSuchPicture
  | longTermIndex
  | noShortTerm
  | overfull
  deriving DecidableEq, Repr

structure Decoded where
  pic : ℕ
  poc : ℤ
  /-- An entry may be "no reference picture". -/
  list0 : List (Option Ref)
  list1 : List (Option Ref)
  after : Dpb
  deriving DecidableEq, Repr

def require (ok : Bool) (f : Fault) : Except Fault Unit := if ok then .ok () else .error f

section Rules

variable (P : Params) (h : Header)

/-! ### Numbers -/

/-- `frame_num` counts on from the last reference picture's. -/
def checkFrameNum (s : Dpb) : Except Fault Unit :=
  if h.idr then require (h.frameNum = 0) .idrFrameNum
  else do
    require (s.decoded ≠ 0) .noIdr
    require (h.frameNum ≠ s.prevRefFrameNum) .repeatedFrameNum
    require (h.frameNum = (s.prevRefFrameNum + 1) % P.maxFrameNum) .frameNumGap

/-- `PicOrderCntMsb`, from that of the last reference picture. -/
def pocMsb (s : Dpb) : ℤ :=
  let prevMsb := if h.idr then 0 else s.prevPocMsb
  let prevLsb := if h.idr then 0 else s.prevPocLsb
  if h.pocLsb < prevLsb ∧ P.maxPicOrderCntLsb / 2 ≤ prevLsb - h.pocLsb then
    prevMsb + P.maxPicOrderCntLsb
  else if prevLsb < h.pocLsb ∧ P.maxPicOrderCntLsb / 2 < h.pocLsb - prevLsb then
    prevMsb - P.maxPicOrderCntLsb
  else prevMsb

def pocOf (s : Dpb) : ℤ := pocMsb P h s + h.pocLsb

/-- `FrameNumWrap`, which is also the picture number of a short-term frame. -/
def frameNumWrap (r : Ref) : ℤ :=
  if h.frameNum < r.frameNum then r.frameNum - P.maxFrameNum else r.frameNum

/-! ### Lists -/

def shortTerm (refs : List Ref) : List Ref := refs.filter fun r => r.longTerm.isNone

def longTerm (refs : List Ref) : List Ref :=
  (refs.filter fun r => r.longTerm.isSome).mergeSort fun a b =>
    decide (a.longTerm.getD 0 ≤ b.longTerm.getD 0)

/-- The short-term pictures before and after an order count, the nearest first. -/
def earlier (refs : List Ref) (poc : ℤ) : List Ref :=
  ((shortTerm refs).filter fun r => decide (r.poc < poc)).mergeSort fun a b =>
    decide (b.poc ≤ a.poc)

def later (refs : List Ref) (poc : ℤ) : List Ref :=
  ((shortTerm refs).filter fun r => decide (poc < r.poc)).mergeSort fun a b =>
    decide (a.poc ≤ b.poc)

/-- The initial lists. -/
def initial (refs : List Ref) (poc : ℤ) : List Ref × List Ref :=
  match h.sliceType with
  | .I => ([], [])
  | .P =>
      ((shortTerm refs).mergeSort (fun a b => decide (frameNumWrap P h b ≤ frameNumWrap P h a)) ++
        longTerm refs, [])
  | .B =>
      let list0 := earlier refs poc ++ later refs poc ++ longTerm refs
      let list1 := later refs poc ++ earlier refs poc ++ longTerm refs
      match list1 with
      | a :: b :: rest => if list1 = list0 then (list0, b :: a :: rest) else (list0, list1)
      | _ => (list0, list1)

/-- A list with as many entries as are active. -/
def entries (active : ℕ) (l : List Ref) : List (Option Ref) :=
  (l.map some ++ List.replicate active none).take active

/-- The picture that a modification names, and the prediction for the next one. -/
def target (refs : List Ref) (pred : ℤ) : Modification → Option (Ref × ℤ)
  | .longTerm n => (refs.find? fun r => decide (r.longTerm = some n)).map fun r => (r, pred)
  | .subtract d => do
      let noWrap := if pred - d < 0 then pred - d + P.maxFrameNum else pred - d
      let picNum := if h.frameNum < noWrap then noWrap - P.maxFrameNum else noWrap
      let r ← refs.find? fun r => decide (r.longTerm = none ∧ frameNumWrap P h r = picNum)
      some (r, noWrap)
  | .add d => do
      let noWrap :=
        if pred + d ≥ P.maxFrameNum then pred + d - P.maxFrameNum else pred + d
      let picNum := if h.frameNum < noWrap then noWrap - P.maxFrameNum else noWrap
      let r ← refs.find? fun r => decide (r.longTerm = none ∧ frameNumWrap P h r = picNum)
      some (r, noWrap)

/-- A picture is put in place `i`; what was there moves back, and the picture goes from there. -/
def place (active i : ℕ) (r : Ref) (l : List (Option Ref)) : List (Option Ref) :=
  (l.take i ++ some r :: (l.drop i).filter fun e => decide (e ≠ some r)).take active

def modify (refs : List Ref) (active : ℕ) :
    List Modification → ℕ → ℤ → List (Option Ref) → Except Fault (List (Option Ref))
  | [], _, _, l => .ok l
  | m :: ms, i, pred, l =>
      match target P h refs pred m with
      | none => .error .noSuchPicture
      | some (r, pred) => modify refs active ms (i + 1) pred (place active i r l)

def listOf (refs : List Ref) (active : ℕ) (mods : List Modification) (init : List Ref) :
    Except Fault (List (Option Ref)) := do
  require (mods.length ≤ active) .manyModifications
  modify P h refs active mods 0 h.frameNum (entries active init)

/-- Both lists. -/
def lists (refs : List Ref) (poc : ℤ) : Except Fault (List (Option Ref) × List (Option Ref)) := do
  let list0 ← listOf P h refs h.active0 h.mods0 (initial P h refs poc).1
  let list1 ← listOf P h refs h.active1 h.mods1 (initial P h refs poc).2
  .ok (list0, list1)

/-! ### Marking -/

/-- The short-term picture with the least `FrameNumWrap`. -/
def oldest (refs : List Ref) : Option Ref :=
  (shortTerm refs).find? fun r =>
    decide (∀ r' ∈ shortTerm refs, frameNumWrap P h r ≤ frameNumWrap P h r')

/-- The sliding window: the oldest short-term picture goes when there is no room. -/
def slide (refs : List Ref) : Except Fault (List Ref) :=
  if refs.length < max P.maxNumRefFrames 1 then .ok refs
  else match oldest P h refs with
    | none => .error .noShortTerm
    | some r => .ok (refs.erase r)

/-- What the marking leaves: the pictures kept, the indices, and the current picture's index. -/
structure Marked where
  refs : List Ref
  longTermIndices : ℕ
  current : Option ℕ
  deriving DecidableEq, Repr

def operate (m : Marked) : Operation → Except Fault Marked
  | .maxLongTermFrameIdx plus1 => do
      require (plus1 ≤ P.maxNumRefFrames) .longTermIndex
      .ok { m with
        refs := m.refs.filter fun r => decide (∀ idx ∈ r.longTerm, idx < plus1)
        longTermIndices := plus1 }
  | .currentLongTerm idx => do
      require (idx < m.longTermIndices) .longTermIndex
      .ok { m with
        refs := m.refs.filter fun r => decide (r.longTerm ≠ some idx)
        current := some idx }

def mark (s : Dpb) : Except Fault Marked :=
  if h.idr then
    .ok (if h.longTermReference then ⟨[], 1, some 0⟩ else ⟨[], 0, none⟩)
  else match h.operations with
    | none => do
        let refs ← slide P h s.refs
        .ok ⟨refs, s.longTermIndices, none⟩
    | some ops => ops.foldlM (operate P) ⟨s.refs, s.longTermIndices, none⟩

/-- The decoder after a picture. -/
def update (s : Dpb) : Except Fault Dpb :=
  if h.refIdc = 0 then .ok { s with decoded := s.decoded + 1 }
  else do
    let m ← mark P h s
    let refs := ⟨s.decoded, h.frameNum, pocOf P h s, m.current⟩ :: m.refs
    require (refs.length ≤ max P.maxNumRefFrames 1) .overfull
    .ok ⟨refs, m.longTermIndices, h.frameNum, pocMsb P h s, h.pocLsb, s.decoded + 1⟩

/-- One picture. -/
def step (s : Dpb) : Except Fault Decoded := do
  checkFrameNum P h s
  let (list0, list1) ← lists P h s.refs (pocOf P h s)
  let after ← update P h s
  .ok ⟨s.decoded, pocOf P h s, list0, list1, after⟩

/-- A stream of pictures. -/
def run : List Header → Dpb → Except Fault (List Decoded)
  | [], _ => .ok []
  | h :: hs, s => do
      let d ← step P h s
      let ds ← run hs d.after
      .ok (d :: ds)

end Rules

variable {P : Params} {h : Header} {s : Dpb} {refs : List Ref}

theorem require_ok {ok : Bool} {f : Fault} (hok : ok = true) : require ok f = .ok () := if_pos hok

/-- The pictures `hs` lead from `s` to `t`. -/
inductive Runs (P : Params) : Dpb → List Header → List Decoded → Dpb → Prop
  | nil (s : Dpb) : Runs P s [] [] s
  | cons {s t : Dpb} {h : Header} {hs : List Header} {d : Decoded} {ds : List Decoded} :
      step P h s = .ok d → Runs P d.after hs ds t → Runs P s (h :: hs) (d :: ds) t

theorem Runs.append {t u : Dpb} {hs hs' : List Header} {ds ds' : List Decoded}
    (hrun : Runs P s hs ds t) (hrun' : Runs P t hs' ds' u) :
    Runs P s (hs ++ hs') (ds ++ ds') u := by
  induction hrun with
  | nil s => exact hrun'
  | cons hstep _ ih => exact .cons hstep (ih hrun')

theorem Runs.run_eq {t : Dpb} {hs : List Header} {ds : List Decoded} (hrun : Runs P s hs ds t) :
    run P hs s = .ok ds := by
  induction hrun with
  | nil s => rfl
  | cons hstep _ ih =>
      rw [run, hstep]
      change (run P _ _).bind _ = _
      rw [ih]
      rfl

theorem step_eq {t : Dpb} {poc : ℤ} {list0 list1 : List (Option Ref)}
    (hnum : checkFrameNum P h s = .ok ()) (hpoc : pocOf P h s = poc)
    (hlists : lists P h s.refs poc = .ok (list0, list1)) (hafter : update P h s = .ok t) :
    step P h s = .ok ⟨s.decoded, poc, list0, list1, t⟩ := by
  rw [step, hnum]
  change (lists P h s.refs (pocOf P h s)).bind _ = _
  rw [hpoc, hlists]
  change (update P h s).bind _ = _
  rw [hafter]
  rfl

/-- Behind the first picture, `frame_num` is the next one. -/
theorem checkFrameNum_next (hidr : h.idr = false) (hdecoded : s.decoded ≠ 0)
    (hM : 1 < P.maxFrameNum) (hprev : s.prevRefFrameNum < P.maxFrameNum)
    (hnum : h.frameNum = (s.prevRefFrameNum + 1) % P.maxFrameNum) :
    checkFrameNum P h s = .ok () := by
  have hne : h.frameNum ≠ s.prevRefFrameNum := by
    rw [hnum]
    rcases Nat.lt_or_ge (s.prevRefFrameNum + 1) P.maxFrameNum with hlt | hge
    · rw [Nat.mod_eq_of_lt hlt]
      omega
    · rw [show s.prevRefFrameNum + 1 = P.maxFrameNum by omega, Nat.mod_self]
      omega
  rw [checkFrameNum, hidr, if_neg (by decide), require_ok (decide_eq_true hdecoded)]
  change (require _ _).bind _ = _
  rw [require_ok (decide_eq_true hne)]
  exact require_ok (decide_eq_true hnum)

theorem mark_slide {refs' : List Ref} (hidr : h.idr = false) (hops : h.operations = none)
    (hslide : slide P h s.refs = .ok refs') :
    mark P h s = .ok ⟨refs', s.longTermIndices, none⟩ := by
  rw [mark, hidr, hops, if_neg (by decide)]
  simp only [hslide]
  rfl

theorem update_other (hidc : h.refIdc = 0) :
    update P h s = .ok { s with decoded := s.decoded + 1 } := if_pos hidc

theorem update_of_mark {m : Marked} (hidc : h.refIdc ≠ 0) (hmark : mark P h s = .ok m)
    (hroom : m.refs.length < max P.maxNumRefFrames 1) :
    update P h s = .ok ⟨⟨s.decoded, h.frameNum, pocOf P h s, m.current⟩ :: m.refs,
      m.longTermIndices, h.frameNum, pocMsb P h s, h.pocLsb, s.decoded + 1⟩ := by
  rw [update, if_neg hidc, hmark]
  change (require _ _).bind _ = _
  rw [require_ok (decide_eq_true (by simpa using hroom))]
  rfl

/-! ### The order count -/

/-- **The order count.** With `p` the last reference picture's, the decoder finds `q` from its last
bits as long as it is less than half their range ahead. -/
theorem pocOf_eq {p q : ℕ} (hidr : h.idr = false)
    (hmsb : s.prevPocMsb = p - p % P.maxPicOrderCntLsb)
    (hlsb : s.prevPocLsb = p % P.maxPicOrderCntLsb) (hpoc : h.pocLsb = q % P.maxPicOrderCntLsb)
    (hle : p ≤ q) (hnear : q - p < P.maxPicOrderCntLsb / 2) :
    pocMsb P h s = q - q % P.maxPicOrderCntLsb ∧ pocOf P h s = q := by
  have hmsb' : pocMsb P h s = q - q % P.maxPicOrderCntLsb := by
    rw [pocMsb]
    simp only [hidr, hmsb, hlsb, hpoc, Bool.false_eq_true, if_false]
    generalize P.maxPicOrderCntLsb = l at *
    have hpos : 0 < l := by omega
    have hp := Nat.div_add_mod p l
    have hq := Nat.div_add_mod q l
    have hpl := Nat.mod_lt p hpos
    have hql := Nat.mod_lt q hpos
    have hge : p / l ≤ q / l := Nat.div_le_div_right hle
    have hlt : q / l ≤ p / l + 1 := by
      rw [← Nat.add_div_right p hpos]
      exact Nat.div_le_div_right (by omega)
    rcases Nat.eq_or_lt_of_le hge with heq | hgt
    · -- the same turn of the last bits
      rw [← heq] at hq
      split
      · omega
      · split <;> omega
    · -- the last bits have wrapped
      rw [show q / l = p / l + 1 by omega, Nat.mul_succ] at hq
      rw [if_pos (by omega)]
      omega
  refine ⟨hmsb', ?_⟩
  rw [pocOf, hmsb', hpoc]
  omega

/-! ### Lists that are written out -/

variable {active i : ℕ} {r : Ref} {l : List (Option Ref)}

theorem length_entries (active : ℕ) (init : List Ref) : (entries active init).length = active := by
  rw [entries, List.length_take, List.length_append, List.length_replicate]
  omega

theorem length_place_le : (place active i r l).length ≤ active := List.length_take_le _ _

theorem take_place (hi : i ≤ l.length) (hactive : i < active) :
    (place active i r l).take (i + 1) = l.take i ++ [some r] := by
  have hlen : (l.take i).length = i := by rw [List.length_take, min_eq_left hi]
  rw [place, List.take_take, min_eq_left (by omega), List.take_append, hlen,
    Nat.add_sub_cancel_left, List.take_of_length_le (by omega)]
  rfl

/-- **A list written out** with long-term pictures is these pictures, whatever it was before. -/
theorem modify_longTerm {ks : List ℕ} {f : ℕ → Ref}
    (hf : ∀ k ∈ ks, refs.find? (fun r => decide (r.longTerm = some k)) = some (f k)) (pred : ℤ)
    (hi : i ≤ l.length) (hl : l.length ≤ active) (hactive : active = i + ks.length) :
    modify P h refs active (ks.map .longTerm) i pred l =
      .ok (l.take i ++ ks.map fun k => some (f k)) := by
  induction ks generalizing i l with
  | nil =>
      rw [List.length_nil, Nat.add_zero] at hactive
      rw [List.map_nil, List.map_nil, modify, List.append_nil,
        List.take_of_length_le (hl.trans_eq hactive)]
  | cons k ks ih =>
      rw [List.length_cons] at hactive
      have htarget : target P h refs pred (.longTerm k) = some (f k, pred) := by
        rw [target, hf k (by simp)]
        rfl
      have htake : (place active i (f k) l).take (i + 1) = l.take i ++ [some (f k)] :=
        take_place hi (by omega)
      have hlong : i + 1 ≤ (place active i (f k) l).length := by
        have hlen := congrArg List.length htake
        rw [List.length_take, List.length_append, List.length_take, min_eq_left hi,
          List.length_singleton] at hlen
        omega
      have hrest := ih (fun k' hk' => hf k' (by simp [hk'])) hlong length_place_le (by omega)
      rw [List.map_cons, modify, htarget]
      simp only [hrest, htake]
      rw [List.append_assoc]
      rfl

/-- The list of a picture that names `ks`. -/
theorem listOf_longTerm {ks : List ℕ} {f : ℕ → Ref}
    (hf : ∀ k ∈ ks, refs.find? (fun r => decide (r.longTerm = some k)) = some (f k))
    (init : List Ref) :
    listOf P h refs ks.length (ks.map .longTerm) init = .ok (ks.map fun k => some (f k)) := by
  have hrun := modify_longTerm (P := P) (h := h) hf h.frameNum (Nat.zero_le _)
    (length_entries ks.length init).le (Nat.zero_add _).symm
  rw [listOf, require_ok (by simp)]
  exact hrun

/-- The list of a picture that names the picture one before it in `frame_num`. -/
theorem listOf_previous (hM : 1 < P.maxFrameNum)
    (hfind : refs.find? (fun r => decide (r.longTerm = none ∧
      frameNumWrap P h r = h.frameNum - 1)) = some r) (init : List Ref) :
    listOf P h refs 1 [.subtract 1] init = .ok [some r] := by
  have htarget : ∃ noWrap, target P h refs h.frameNum (.subtract 1) = some (r, noWrap) := by
    rw [target]
    generalize hno : (if (h.frameNum : ℤ) - (1 : ℕ) < 0 then
      (h.frameNum : ℤ) - (1 : ℕ) + P.maxFrameNum else (h.frameNum : ℤ) - (1 : ℕ)) = noWrap
    have hpicNum : (if h.frameNum < noWrap then noWrap - P.maxFrameNum else noWrap) =
        h.frameNum - 1 := by
      split at hno
      · rw [if_pos (by omega)]
        omega
      · rw [if_neg (by omega)]
        omega
    simp only [hpicNum, hfind]
    exact ⟨noWrap, rfl⟩
  obtain ⟨noWrap, htarget⟩ := htarget
  rw [listOf, require_ok (by simp)]
  change modify P h refs 1 [.subtract 1] 0 h.frameNum (entries 1 init) = _
  rw [modify, htarget]
  rfl

/-! ### The window -/

section Window

variable {ref : ℕ → Ref} {b j e m : ℕ} {longs : List Ref}

/-- Short-term pictures that count `frame_num` on from `b`. -/
structure Counting (M b : ℕ) (ref : ℕ → Ref) : Prop where
  shortTerm : ∀ e, (ref e).longTerm = none
  frameNum : ∀ e, (ref e).frameNum = (b + e) % M

/-- The last `m` of the first `j`, the last one in front. -/
def recent (ref : ℕ → Ref) (j m : ℕ) : List Ref := (List.range m).map fun i => ref (j - 1 - i)

@[simp] theorem length_recent (ref : ℕ → Ref) (j m : ℕ) : (recent ref j m).length = m := by
  rw [recent, List.length_map, List.length_range]

theorem recent_succ_left (ref : ℕ → Ref) (j m : ℕ) :
    recent ref (j + 1) (m + 1) = ref j :: recent ref j m := by
  rw [recent, List.range_succ_eq_map, List.map_cons, List.map_map, recent]
  congr 1
  apply List.map_congr_left
  intro i _
  show ref (j + 1 - 1 - (i + 1)) = ref (j - 1 - i)
  congr 1
  omega

theorem recent_succ_right (ref : ℕ → Ref) (j m : ℕ) :
    recent ref j (m + 1) = recent ref j m ++ [ref (j - 1 - m)] := by
  rw [recent, List.range_succ, List.map_append, List.map_singleton, ← recent]

/-- How far a picture of the window is behind. -/
theorem frameNumWrap_eq (hc : Counting P.maxFrameNum b ref)
    (hnum : h.frameNum = (b + j) % P.maxFrameNum) (he : e < j) (hnear : j - e < P.maxFrameNum) :
    frameNumWrap P h (ref e) = h.frameNum - ((j - e : ℕ) : ℤ) := by
  rw [frameNumWrap, hc.frameNum, hnum]
  generalize P.maxFrameNum = M at *
  have hlt := Nat.mod_lt (b + j) (show 0 < M by omega)
  have hlt' := Nat.mod_lt (b + e) (show 0 < M by omega)
  have hj := Nat.div_add_mod (b + j) M
  have he' := Nat.div_add_mod (b + e) M
  have hge : (b + e) / M ≤ (b + j) / M := Nat.div_le_div_right (by omega)
  have hle : (b + j) / M ≤ (b + e) / M + 1 := by
    rw [← Nat.add_div_right _ (show 0 < M by omega)]
    exact Nat.div_le_div_right (by omega)
  rcases Nat.eq_or_lt_of_le hge with heq | hgt
  · rw [heq] at he'
    rw [if_neg (by omega)]
    omega
  · -- `frame_num` has wrapped in between
    rw [show (b + j) / M = (b + e) / M + 1 by omega, Nat.mul_succ] at hj
    rw [if_pos (by omega)]
    omega

theorem shortTerm_append (hc : Counting P.maxFrameNum b ref)
    (hlongs : ∀ r ∈ longs, r.longTerm.isSome) :
    shortTerm (recent ref j m ++ longs) = recent ref j m := by
  have hshort : (recent ref j m).filter (fun r => r.longTerm.isNone) = recent ref j m := by
    rw [List.filter_eq_self]
    intro r hr
    obtain ⟨i, -, rfl⟩ := List.mem_map.mp hr
    rw [hc.shortTerm]
    rfl
  have hnone : longs.filter (fun r => r.longTerm.isNone) = [] := by
    rw [List.filter_eq_nil_iff]
    intro r hr
    rw [Option.isNone_iff_eq_none]
    exact Option.ne_none_iff_isSome.mpr (hlongs r hr)
  rw [shortTerm, List.filter_append, hshort, hnone, List.append_nil]

/-- The picture just before is found by its number. -/
theorem find_previous (hc : Counting P.maxFrameNum b ref)
    (hnum : h.frameNum = (b + j) % P.maxFrameNum) (hj : 0 < j) (hm : 0 < m)
    (hM : 1 < P.maxFrameNum) (longs : List Ref) :
    (recent ref j m ++ longs).find? (fun r => decide (r.longTerm = none ∧
      frameNumWrap P h r = h.frameNum - 1)) = some (ref (j - 1)) := by
  obtain ⟨j, rfl⟩ := Nat.exists_eq_succ_of_ne_zero hj.ne'
  obtain ⟨m, rfl⟩ := Nat.exists_eq_succ_of_ne_zero hm.ne'
  have hwrap := frameNumWrap_eq hc hnum (Nat.lt_succ_self j) (by omega)
  rw [Nat.succ_eq_add_one, Nat.add_sub_cancel_left, Nat.cast_one] at hwrap
  rw [Nat.succ_eq_add_one, recent_succ_left, List.cons_append, List.find?_cons_of_pos]
  · rfl
  · exact decide_eq_true ⟨hc.shortTerm j, hwrap⟩

/-- **The window slides.** In a full buffer the oldest short-term picture goes. -/
theorem slide_recent (hc : Counting P.maxFrameNum b ref)
    (hnum : h.frameNum = (b + j) % P.maxFrameNum) (hmj : m < j) (hM : m + 1 < P.maxFrameNum)
    (hlongs : ∀ r ∈ longs, r.longTerm.isSome)
    (hfull : m + 1 + longs.length = max P.maxNumRefFrames 1) :
    slide P h (recent ref j (m + 1) ++ longs) = .ok (recent ref j m ++ longs) := by
  have hwrap (i : ℕ) (hi : i ≤ m) :
      frameNumWrap P h (ref (j - 1 - i)) = h.frameNum - ((i + 1 : ℕ) : ℤ) := by
    rw [frameNumWrap_eq hc hnum (by omega) (by omega), show j - (j - 1 - i) = i + 1 by omega]
  have hlast (i : ℕ) (hi : i < m) :
      frameNumWrap P h (ref (j - 1 - m)) < frameNumWrap P h (ref (j - 1 - i)) := by
    rw [hwrap m le_rfl, hwrap i (by omega)]
    omega
  have hold : oldest P h (recent ref j (m + 1) ++ longs) = some (ref (j - 1 - m)) := by
    rw [oldest, shortTerm_append hc hlongs, recent_succ_right, List.find?_append]
    have hno : (recent ref j m).find? (fun r => decide (∀ r' ∈ recent ref j m ++ [ref (j - 1 - m)],
        frameNumWrap P h r ≤ frameNumWrap P h r')) = none := by
      rw [List.find?_eq_none]
      intro r hr hall
      obtain ⟨i, hi, rfl⟩ := List.mem_map.mp hr
      have hle := of_decide_eq_true hall _ (List.mem_append_right _ (List.mem_singleton_self _))
      exact absurd (hlast i (List.mem_range.mp hi)) (not_lt.mpr hle)
    rw [hno, Option.none_or, List.find?_singleton, if_pos]
    apply decide_eq_true
    intro r hr
    rcases List.mem_append.mp hr with hr | hr
    · obtain ⟨i, hi, rfl⟩ := List.mem_map.mp hr
      exact (hlast i (List.mem_range.mp hi)).le
    · rw [List.mem_singleton.mp hr]
  have hnew : ref (j - 1 - m) ∉ recent ref j m := by
    intro hmem
    obtain ⟨i, hi, heq⟩ := List.mem_map.mp hmem
    have hlt := hlast i (List.mem_range.mp hi)
    rw [heq] at hlt
    exact lt_irrefl _ hlt
  rw [slide, if_neg (by rw [List.length_append, length_recent]; omega), hold]
  simp only
  rw [recent_succ_right, List.append_assoc, List.erase_append_right _ hnew,
    List.singleton_append, List.erase_cons_head]

end Window

end Avc
