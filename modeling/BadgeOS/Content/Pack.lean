import BadgeOS.Oled.Eval
import Mathlib

/-!
# Surfaces and their bitmaps

`screens/draw.nix`: a surface is a list of bytes to be lit, each at an offset of the panel's memory,
in any order and with overlaps; `pack` makes the bitmap of it, four bytes to an integer.  A Nix
integer is a `ℤ` whose division truncates, and a byte a `ℕ`.  `genList` throws for a negative
length.

* `pack` — the function;
* `orAt` — the union of a surface's bytes at an offset;
* `pack_eq` — the bitmap has the union of each offset, as far as it goes;
* `pack_decode` — and decodes to them.
-/

namespace BadgeOS.Content

open Oled

/-- A byte to be lit. -/
structure Entry where
  off : ℤ
  byte : ℕ
  deriving DecidableEq, Repr

abbrev Surface := List Entry

/-- The finished integers in reverse, and the one that is being built. -/
structure Cursor where
  outRev : List ℕ
  curI : ℤ
  curVal : ℕ
  deriving DecidableEq, Repr

def laneMul (off : ℤ) : ℕ :=
  let l := off - off.tdiv 4 * 4
  if l = 0 then 1 else if l = 1 then 256 else if l = 2 then 65536 else 16777216

/-- Add a finished byte, with zeros for the integers that are skipped. -/
def place (st : Cursor) (off : ℤ) (byte : ℕ) : Option Cursor :=
  if byte = 0 then some st
  else
    let ti := off.tdiv 4
    let lv := byte * laneMul off
    if ti = st.curI then some { st with curVal := st.curVal + lv }
    else if ti - st.curI - 1 < 0 then none
    else some
      { outRev := List.replicate (ti - st.curI - 1).toNat 0 ++ [st.curVal] ++ st.outRev
        curI := ti
        curVal := lv }

/-- The bytes of one offset so far, and the cursor behind the offsets before. -/
structure Merge where
  curOff : ℤ
  curByte : ℕ
  place : Cursor
  deriving DecidableEq, Repr

def mergeStep (acc : Merge) (e : Entry) : Option Merge :=
  if acc.curOff = e.off then some { acc with curByte := acc.curByte ||| e.byte }
  else do
    let placed ← place acc.place acc.curOff acc.curByte
    some { curOff := e.off, curByte := e.byte, place := placed }

/-- `sort`, which is stable. -/
def sorted (surf : Surface) : Surface := surf.insertionSort fun a b => a.off ≤ b.off

/-- **`pack`** -/
def pack (width height : ℕ) (surf : Surface) : Option (List ℤ) := do
  let nInts := width * height / 8 / 4
  let start : Merge := { curOff := -1, curByte := 0, place := ⟨[], 0, 0⟩ }
  let st ← (sorted surf).foldlM mergeStep start
  let finalPlaced ← place st.place st.curOff st.curByte
  let builtInts := finalPlaced.outRev.reverse ++ [finalPlaced.curVal]
  let nBuilt := builtInts.length
  some <| (List.range nInts).map fun i => if i < nBuilt then (builtInts.getD i 0 : ℤ) else 0

/-- The union of the bytes at an offset. -/
def orAt (surf : Surface) (o : ℤ) : ℕ :=
  ((surf.filter fun e => e.off = o).map Entry.byte).foldl (· ||| ·) 0

/-! ### Integers of four bytes -/

/-- Integer `i` of the bytes `B`. -/
def lanes (B : ℕ → ℕ) (i : ℕ) : ℕ :=
  B (4 * i) + 2 ^ 8 * B (4 * i + 1) + 2 ^ 16 * B (4 * i + 2) + 2 ^ 24 * B (4 * i + 3)

/-- A byte alone. -/
def single (off : ℤ) (byte o : ℕ) : ℕ := if (o : ℤ) = off then byte else 0

theorem lanes_add (B B' : ℕ → ℕ) (i : ℕ) :
    lanes (fun o => B o + B' o) i = lanes B i + lanes B' i := by
  simp only [lanes]
  ring

theorem lanes_lt {B : ℕ → ℕ} (hB : ∀ o, B o < 256) (i : ℕ) : lanes B i < 2 ^ 32 := by
  have h0 := hB (4 * i)
  have h1 := hB (4 * i + 1)
  have h2 := hB (4 * i + 2)
  have h3 := hB (4 * i + 3)
  rw [lanes]
  omega

theorem lanes_single (o byte i : ℕ) :
    lanes (single o byte) i = if (i : ℤ) = (o : ℤ).tdiv 4 then byte * laneMul o else 0 := by
  have hdiv : (o : ℤ).tdiv 4 = (o / 4 : ℕ) := rfl
  simp only [lanes, single, laneMul, hdiv, Nat.cast_inj]
  by_cases hi : i = o / 4
  · obtain hl | hl | hl | hl : o % 4 = 0 ∨ o % 4 = 1 ∨ o % 4 = 2 ∨ o % 4 = 3 := by omega
    all_goals
      rw [if_pos hi]
      split_ifs <;> omega
  · rw [if_neg hi]
    split_ifs <;> omega

/-! ### The cursor -/

theorem getD_concat (l : List ℕ) (v i : ℕ) :
    (l ++ [v]).getD i 0 = l.getD i 0 + if i = l.length then v else 0 := by
  simp only [List.getD_eq_getElem?_getD, List.getElem?_append]
  split
  · rename_i hlt
    rw [if_neg (Nat.ne_of_lt hlt), Nat.add_zero]
  · rename_i hge
    have hnone : l[i]? = none := List.getElem?_eq_none_iff.mpr (by omega)
    rw [hnone]
    by_cases hi : i = l.length
    · simp [hi]
    · have hone : [v][i - l.length]? = none := List.getElem?_eq_none_iff.mpr (by simp; omega)
      rw [hone, if_neg hi, Nat.add_zero]

theorem getD_zeros (l : List ℕ) (n i : ℕ) :
    (l ++ List.replicate n 0).getD i 0 = l.getD i 0 := by
  induction n with
  | zero => rw [List.replicate_zero, List.append_nil]
  | succ n ih =>
      rw [List.replicate_succ', ← List.append_assoc, getD_concat, ih]
      split
      · rfl
      · rfl

namespace Cursor

/-- The integers built so far. -/
def built (c : Cursor) : List ℕ := c.outRev.reverse ++ [c.curVal]

/-- The one that is being built is behind the finished ones. -/
def Sound (c : Cursor) : Prop := c.curI = c.outRev.length

variable {c : Cursor} {off : ℤ} {byte : ℕ}

/-- **A byte is added** in its integer, at its place. -/
theorem Sound.place (hc : c.Sound) (h : byte = 0 ∨ 0 ≤ off ∧ c.curI ≤ off.tdiv 4) :
    ∃ c', place c off byte = some c' ∧ c'.Sound ∧
      (∀ i, c'.built.getD i 0 = c.built.getD i 0 + lanes (single off byte) i) ∧
        (c'.curI = c.curI ∨ c'.curI = off.tdiv 4) := by
  by_cases hbyte : byte = 0
  · refine ⟨c, if_pos hbyte, hc, fun i => ?_, Or.inl rfl⟩
    simp [lanes, single, hbyte]
  obtain ⟨hoff, hle⟩ := h.resolve_left hbyte
  obtain ⟨o, rfl⟩ := Int.eq_ofNat_of_zero_le hoff
  rw [Sound] at hc
  have hlength : c.outRev.reverse.length = c.outRev.length := List.length_reverse
  rw [Content.place, if_neg hbyte]
  dsimp only
  by_cases hcur : (o : ℤ).tdiv 4 = c.curI
  · refine ⟨_, if_pos hcur, hc, fun i => ?_, Or.inl rfl⟩
    rw [lanes_single, built, built, getD_concat, getD_concat, hlength, hcur, hc]
    by_cases hi : i = c.outRev.length
    · simp [hi]
    · simp [hi]
  · refine ⟨_, (if_neg hcur).trans (if_neg (by omega)), ?_, fun i => ?_, Or.inr rfl⟩
    · simp only [Sound, List.length_append, List.length_replicate, List.length_singleton]
      omega
    · have hplace : i = (List.replicate ((o : ℤ).tdiv 4 - c.curI - 1).toNat 0 ++ [c.curVal] ++
          c.outRev).reverse.length ↔ (i : ℤ) = (o : ℤ).tdiv 4 := by
        simp only [List.length_reverse, List.length_append, List.length_replicate,
          List.length_singleton]
        omega
      have hrest : (List.replicate ((o : ℤ).tdiv 4 - c.curI - 1).toNat 0 ++ [c.curVal] ++
          c.outRev).reverse.getD i 0 = c.built.getD i 0 := by
        rw [List.reverse_append, List.reverse_append, List.reverse_replicate,
          List.reverse_singleton, ← List.append_assoc, getD_zeros, built]
      rw [lanes_single, built, getD_concat, hrest]
      simp only [hplace]

end Cursor

/-! ### Equal offsets -/

theorem foldl_or (bytes : List ℕ) (b : ℕ) :
    bytes.foldl (· ||| ·) b = b ||| bytes.foldl (· ||| ·) 0 := by
  induction bytes generalizing b with
  | nil => exact (Nat.or_zero b).symm
  | cons c bytes ih =>
      rw [List.foldl_cons, List.foldl_cons, ih, ih (0 ||| c), Nat.zero_or, Nat.or_assoc]

theorem orAt_cons (e : Entry) (surf : Surface) (o : ℕ) :
    orAt (e :: surf) o = single e.off e.byte o ||| orAt surf o := by
  rw [orAt, orAt, single, List.filter_cons]
  by_cases he : e.off = o
  · rw [if_pos (decide_eq_true he), if_pos he.symm, List.map_cons, List.foldl_cons, foldl_or,
      Nat.zero_or]
  · rw [if_neg (by simpa using he), if_neg (Ne.symm he), Nat.zero_or]

theorem orAt_eq_zero {surf : Surface} {o : ℤ} (h : ∀ e ∈ surf, e.off ≠ o) : orAt surf o = 0 := by
  have hnone : (surf.filter fun e => e.off = o) = [] :=
    List.filter_eq_nil_iff.mpr fun e he => by simpa using h e he
  rw [orAt, hnone]
  rfl

theorem single_or (off : ℤ) (byte byte' o : ℕ) :
    single off (byte ||| byte') o = single off byte o ||| single off byte' o := by
  simp only [single]
  split
  · rfl
  · exact (Nat.zero_or 0).symm

/-- The bytes of an offset before all others. -/
theorem single_or_orAt {es : Surface} {off : ℤ} (h : ∀ e ∈ es, off < e.off) (byte o : ℕ) :
    (single off byte o ||| orAt es o) = single off byte o + orAt es o := by
  by_cases ho : (o : ℤ) = off
  · have hzero : orAt es o = 0 := orAt_eq_zero fun e he => ho ▸ (h e he).ne'
    rw [hzero, Nat.or_zero, Nat.add_zero]
  · rw [single, if_neg ho, Nat.zero_or, Nat.zero_add]

/-- **The merge.**  What is built in the end has the bytes at hand and those to come. -/
theorem foldlM_mergeStep {es : Surface} {acc : Merge}
    (hsorted : es.Pairwise fun a b => a.off ≤ b.off) (hoff : ∀ e ∈ es, 0 ≤ e.off)
    (hle : ∀ e ∈ es, acc.curOff ≤ e.off ∧ acc.place.curI ≤ e.off.tdiv 4)
    (hsound : acc.place.Sound)
    (hcur : acc.curByte = 0 ∨ 0 ≤ acc.curOff ∧ acc.place.curI ≤ acc.curOff.tdiv 4) :
    ∃ st c, es.foldlM mergeStep acc = some st ∧ place st.place st.curOff st.curByte = some c ∧
      ∀ i, c.built.getD i 0 = acc.place.built.getD i 0 +
        lanes (fun o => single acc.curOff acc.curByte o ||| orAt es o) i := by
  induction es generalizing acc with
  | nil =>
      obtain ⟨c, hplace, -, hbuilt, -⟩ := hsound.place hcur
      refine ⟨acc, c, rfl, hplace, fun i => ?_⟩
      have hnil (o : ℕ) : orAt [] o = 0 := rfl
      simp only [hnil, Nat.or_zero]
      exact hbuilt i
  | cons e es ih =>
      obtain ⟨hfirst, hrest⟩ := List.pairwise_cons.mp hsorted
      have hoff' : ∀ d ∈ es, 0 ≤ d.off := fun d hd => hoff d (List.mem_cons_of_mem e hd)
      have he : 0 ≤ e.off := hoff e List.mem_cons_self
      obtain ⟨hcurle, hIle⟩ := hle e List.mem_cons_self
      rw [List.foldlM_cons, mergeStep]
      by_cases heq : acc.curOff = e.off
      · rw [if_pos heq]
        have hle' : ∀ d ∈ es, acc.curOff ≤ d.off ∧ acc.place.curI ≤ d.off.tdiv 4 :=
          fun d hd => hle d (List.mem_cons_of_mem e hd)
        have hcur' : acc.curByte ||| e.byte = 0 ∨ 0 ≤ acc.curOff ∧
            acc.place.curI ≤ acc.curOff.tdiv 4 := by
          right
          rw [heq]
          exact ⟨he, hIle⟩
        obtain ⟨st, c, hfold, hplace, hbuilt⟩ :=
          @ih { acc with curByte := acc.curByte ||| e.byte } hrest hoff' hle' hsound hcur'
        refine ⟨st, c, hfold, hplace, fun i => ?_⟩
        have hbytes (o : ℕ) : (single acc.curOff (acc.curByte ||| e.byte) o ||| orAt es o) =
            single acc.curOff acc.curByte o ||| orAt (e :: es) o := by
          rw [single_or, Nat.or_assoc, heq, ← orAt_cons]
        rw [hbuilt i]
        simp only [hbytes]
      · rw [if_neg heq]
        obtain ⟨c', hplace', hsound', hbuilt', hI⟩ := hsound.place hcur
        have hI' : c'.curI ≤ e.off.tdiv 4 := by
          rcases hI with hI | hI
          · rw [hI]
            exact hIle
          · rw [hI]
            exact Int.tdiv_le_tdiv (by decide) hcurle
        have hle' : ∀ d ∈ es, e.off ≤ d.off ∧ c'.curI ≤ d.off.tdiv 4 := fun d hd =>
          ⟨hfirst d hd, hI'.trans (Int.tdiv_le_tdiv (by decide) (hfirst d hd))⟩
        obtain ⟨st, c, hfold, hplace, hbuilt⟩ :=
          @ih { curOff := e.off, curByte := e.byte, place := c' } hrest hoff' hle' hsound'
            (Or.inr ⟨he, hI'⟩)
        have hbehind : ∀ d ∈ e :: es, acc.curOff < d.off := by
          intro d hd
          have hstep : acc.curOff < e.off := lt_of_le_of_ne hcurle heq
          rcases List.mem_cons.mp hd with rfl | hd
          · exact hstep
          · exact hstep.trans_le (hfirst d hd)
        refine ⟨st, c, ?_, hplace, fun i => ?_⟩
        · rw [hplace']
          exact hfold
        · rw [hbuilt i, hbuilt' i]
          simp only [single_or_orAt hbehind, lanes_add, ← orAt_cons]
          rw [Nat.add_assoc]

/-! ### The bitmap -/

instance : Std.Total fun a b : Entry => a.off ≤ b.off := ⟨fun a b => le_total a.off b.off⟩

instance : IsTrans Entry fun a b => a.off ≤ b.off := ⟨fun _ _ _ hab hbc => le_trans hab hbc⟩

theorem pairwise_sorted (surf : Surface) : (sorted surf).Pairwise fun a b => a.off ≤ b.off :=
  List.pairwise_insertionSort _ surf

theorem orAt_perm {surf surf' : Surface} (h : surf.Perm surf') (o : ℤ) :
    orAt surf o = orAt surf' o := by
  have hcomm : RightCommutative fun a b : ℕ => a ||| b := ⟨Nat.or_right_comm⟩
  exact ((h.filter _).map Entry.byte).foldl_eq 0

theorem orAt_sorted (surf : Surface) (o : ℤ) : orAt (sorted surf) o = orAt surf o :=
  orAt_perm (List.perm_insertionSort _ surf) o

theorem orAt_lt {surf : Surface} (h : ∀ e ∈ surf, e.byte < 256) (o : ℕ) : orAt surf o < 256 := by
  induction surf with
  | nil => exact Nat.zero_lt_succ 255
  | cons e surf ih =>
      rw [orAt_cons]
      have hfirst : single e.off e.byte o < 2 ^ 8 := by
        rw [single]
        split
        · exact h e List.mem_cons_self
        · exact Nat.zero_lt_succ 255
      exact Nat.or_lt_two_pow hfirst (ih fun d hd => h d (List.mem_cons_of_mem e hd))

/-- **The bitmap** has the union of the bytes of each offset. -/
theorem pack_eq (width height : ℕ) {surf : Surface} (hoff : ∀ e ∈ surf, 0 ≤ e.off) :
    pack width height surf =
      some ((List.range (width * height / 8 / 4)).map fun i =>
        (lanes (fun o => orAt surf o) i : ℤ)) := by
  have hoff' : ∀ e ∈ sorted surf, 0 ≤ e.off := fun e he =>
    hoff e ((List.perm_insertionSort _ surf).mem_iff.mp he)
  have hle : ∀ e ∈ sorted surf, -1 ≤ e.off ∧ 0 ≤ e.off.tdiv 4 := fun e he =>
    ⟨by have := hoff' e he; omega, Int.tdiv_nonneg (hoff' e he) (by decide)⟩
  obtain ⟨st, c, hfold, hplace, hbuilt⟩ :=
    @foldlM_mergeStep (sorted surf) ⟨-1, 0, ⟨[], 0, 0⟩⟩ (pairwise_sorted surf) hoff' hle rfl
      (Or.inl rfl)
  rw [pack, hfold]
  simp only [Option.bind_eq_bind, Option.bind_some, hplace]
  refine congrArg some (List.map_congr_left fun i _ => ?_)
  have hstart : Cursor.built ⟨[], 0, 0⟩ = [0] := rfl
  have hzero : [0].getD i 0 = 0 := by
    rcases i with - | i
    · rfl
    · rfl
  have hsingle (o : ℕ) : single (-1) 0 o = 0 := ite_self 0
  have hvalue : c.built.getD i 0 = lanes (fun o => orAt surf o) i := by
    rw [hbuilt i, hstart, hzero, Nat.zero_add]
    simp only [hsingle, Nat.zero_or, orAt_sorted]
  change (if i < c.built.length then ((c.built.getD i 0 : ℕ) : ℤ) else 0) = _
  split
  · rw [hvalue]
  · rename_i hlong
    rw [← hvalue, List.getD_eq_default _ _ (Nat.le_of_not_lt hlong)]
    rfl

/-! ### Decoding -/

theorem wordBytes_lanes {B : ℕ → ℕ} (hB : ∀ o, B o < 256) (i : ℕ) :
    wordBytes (lanes B i : ℤ) = [UInt8.ofNat (B (4 * i)), UInt8.ofNat (B (4 * i + 1)),
      UInt8.ofNat (B (4 * i + 2)), UInt8.ofNat (B (4 * i + 3))] := by
  have hbyte (o : ℕ) : (UInt8.ofNat (B o)).toNat = B o := UInt8.toNat_ofNat_of_lt (hB o)
  rw [← wordBytes_le, hbyte, hbyte, hbyte, hbyte]
  rfl

theorem flatMap_lanes {B : ℕ → ℕ} (hB : ∀ o, B o < 256) (n : ℕ) :
    ((List.range n).map fun i => (lanes B i : ℤ)).flatMap wordBytes =
      (List.range (4 * n)).map fun o => UInt8.ofNat (B o) := by
  induction n with
  | zero => rfl
  | succ n ih =>
      rw [List.range_succ, List.map_append, List.flatMap_append, ih, Nat.mul_succ]
      simp only [List.range_succ, List.map_append, List.map_cons, List.map_nil, List.flatMap_cons,
        List.flatMap_nil, List.append_nil, wordBytes_lanes hB, List.append_assoc,
        List.cons_append, List.nil_append]

/-- What the decoder makes of a bitmap of `n` integers. -/
theorem decodeOled_lanes {B : ℕ → ℕ} (hB : ∀ o, B o < 256) {n : ℕ} {out : List UInt8}
    (hn : 4 * n ≤ out.length) :
    (decodeOled ((List.range n).map fun i => (lanes B i : ℤ)) out).2 =
      (List.range out.length).map fun o => if o < 4 * n then UInt8.ofNat (B o) else 0 := by
  have hmin : min n (out.length / 4) = n := by omega
  obtain ⟨rest, hrest⟩ := Nat.exists_eq_add_of_le hn
  rw [decodeOled]
  simp only [List.length_map, List.length_range, hmin]
  rw [List.take_of_length_le (by simp), flatMap_lanes hB, hrest, List.range_add, List.map_append,
    List.map_map]
  congr 1
  · refine List.map_congr_left fun o ho => ?_
    rw [if_pos (List.mem_range.mp ho)]
  · have hzero (o : ℕ) : ((fun o => if o < 4 * n then UInt8.ofNat (B o) else 0) ∘
        fun o => 4 * n + o) o = 0 := if_neg (Nat.not_lt.mpr (Nat.le_add_right _ _))
    have hcount : 4 * n + rest - n * 4 = rest := by omega
    rw [List.map_congr_left fun o _ => hzero o, List.map_const', List.length_range, hcount]

/-- **`pack` is the union of its entries**, integer for integer and byte for byte. -/
theorem pack_decode {width height : ℕ} {surf : Surface} {out : List UInt8}
    (hsize : 32 ∣ width * height)
    (hsurf : ∀ e ∈ surf, 0 ≤ e.off ∧ e.off < (width * height / 8 : ℕ) ∧ e.byte < 256)
    (hout : out.length = width * height / 8) :
    ∃ ints, pack width height surf = some ints ∧ ints.length = width * height / 32 ∧
      (∀ v ∈ ints, 0 ≤ v ∧ v < 2 ^ 32) ∧ (decodeOled ints out).2.length = width * height / 8 ∧
        ∀ o : ℕ, o < width * height / 8 →
          (decodeOled ints out).2[o]? = some (UInt8.ofNat (orAt surf o)) ∧ orAt surf o < 256 := by
  have hlt := orAt_lt fun e he => (hsurf e he).2.2
  have hcount : 4 * (width * height / 8 / 4) = width * height / 8 := by omega
  refine ⟨_, pack_eq width height fun e he => (hsurf e he).1, ?_, fun v hv => ?_, ?_, ?_⟩
  · rw [List.length_map, List.length_range]
    omega
  · obtain ⟨i, -, rfl⟩ := List.mem_map.mp hv
    have hvalue := lanes_lt hlt i
    exact ⟨Int.natCast_nonneg _, by exact_mod_cast hvalue⟩
  · rw [decodeOled_lanes hlt (by omega), List.length_map, List.length_range, hout]
  · intro o ho
    rw [decodeOled_lanes hlt (by omega), List.getElem?_map, List.getElem?_range (by omega),
      Option.map_some, if_pos (by omega)]
    exact ⟨rfl, hlt o⟩

/-- A panel of two integers, an overlap and a gap. -/
theorem pack_decode_overlap :
    ∃ ints, pack 8 8 [⟨6, 16⟩, ⟨1, 3⟩, ⟨1, 4⟩] = some ints ∧ ints.length = 8 * 8 / 32 ∧
      (∀ v ∈ ints, 0 ≤ v ∧ v < 2 ^ 32) ∧
        (decodeOled ints (List.replicate 8 0)).2.length = 8 * 8 / 8 ∧ ∀ o : ℕ, o < 8 * 8 / 8 →
          (decodeOled ints (List.replicate 8 0)).2[o]? =
            some (UInt8.ofNat (orAt [⟨6, 16⟩, ⟨1, 3⟩, ⟨1, 4⟩] o)) ∧
              orAt [⟨6, 16⟩, ⟨1, 3⟩, ⟨1, 4⟩] o < 256 :=
  pack_decode (by decide) (by decide) rfl

end BadgeOS.Content
