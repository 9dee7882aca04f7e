import BadgeOS.Oled.Eval
import Mathlib

/-!
# Overlays and deltas, entry by entry

`eval.zig`'s `applyOverlay` over integers that a screen chose freely.

* `entries` — the entries of a list, and `land`, what one of them does;
* `overlayLoop_foldl` — the loop is a fold over the entries it was asked for;
* `applyOverlayChecked` — the loop with every cast that can fail;
* `applyOverlay_exact` — no cast fails, the last entry for an offset is the byte there, and the
  columns of the entries that landed are marked.
-/

namespace BadgeOS.Oled

open Function Packing

/-- Entry `i` of a list, in the integer `v`: an offset and a byte. -/
def entryAt (v : ℤ) (i : ℕ) : ℕ × UInt8 :=
  let e := if i % 2 = 0 then (v >>> (18 : ℕ)) % 2 ^ 18 else v % 2 ^ 18
  ((e >>> (8 : ℕ)).toNat, byte e)

/-- The entries of a list, two to an integer. -/
def entries (packedInts : List ℤ) : List (ℕ × UInt8) :=
  packedInts.flatMap fun v => [entryAt v 0, entryAt v 1]

/-- What an entry does; one past the end of the framebuffer is skipped. -/
def land (width : ℕ) (r : Dirty × List UInt8) (e : ℕ × UInt8) : Dirty × List UInt8 :=
  if r.2.length ≤ e.1 then r else stamp width r e

theorem length_entries (packedInts : List ℤ) :
    (entries packedInts).length = 2 * packedInts.length := by
  induction packedInts with
  | nil => rfl
  | cons v vs ih =>
      rw [entries, List.flatMap_cons, List.length_append, ← entries, ih, List.length_cons,
        List.length_cons, List.length_cons, List.length_nil]
      ring

theorem entryAt_add_two (v : ℤ) (i : ℕ) : entryAt v (i + 2) = entryAt v i := by
  rw [entryAt, entryAt, Nat.add_mod_right]

theorem entries_getElem? (packedInts : List ℤ) (i : ℕ) :
    (entries packedInts)[i]? = packedInts[i / 2]?.map (entryAt · i) := by
  induction packedInts generalizing i with
  | nil => rfl
  | cons v vs ih =>
      match i with
      | 0 => rfl
      | 1 => rfl
      | i + 2 =>
          have hstep : (entries (v :: vs))[i + 2]? = (entries vs)[i]? := rfl
          have hhalf : (i + 2) / 2 = i / 2 + 1 := by omega
          rw [hstep, ih, hhalf, List.getElem?_cons_succ]
          congr 1
          funext w
          exact (entryAt_add_two w i).symm

/-! ### The loop -/

theorem overlayEntry_land (v : ℤ) (i width : ℕ) (dirty : Dirty) (out : List UInt8) :
    overlayEntry v i width dirty out = land width (dirty, out) (entryAt v i) := rfl

/-- **The loop.**  It goes through the entries in order, as far as there are any. -/
theorem overlayLoop_foldl (packedInts : List ℤ) (width count i : ℕ) (dirty : Dirty)
    (out : List UInt8) :
    overlayLoop packedInts width count i dirty out =
      (((entries packedInts).drop i).take count).foldl (land width) (dirty, out) := by
  induction count generalizing i dirty out with
  | zero => rfl
  | succ count ih =>
      have hget := entries_getElem? packedInts i
      cases hv : packedInts[i / 2]? with
      | none =>
          rw [hv, Option.map_none, List.getElem?_eq_none_iff] at hget
          rw [List.drop_eq_nil_of_le hget, List.take_nil, overlayLoop, hv]
          rfl
      | some v =>
          rw [hv, Option.map_some] at hget
          obtain ⟨hlt, he⟩ := List.getElem?_eq_some_iff.mp hget
          rw [List.drop_eq_getElem_cons hlt, he, List.take_succ_cons, List.foldl_cons, overlayLoop,
            hv]
          simp only [overlayEntry_land]
          exact ih (i + 1) _ _

theorem applyOverlay_foldl (packedInts : List ℤ) (n : ℕ) (out : List UInt8) {width : ℕ}
    (hw : 0 < width) (dirty : Dirty) :
    applyOverlay packedInts n out width dirty =
      ((entries packedInts).take n).foldl (land width) (dirty, out) := by
  rw [applyOverlay, if_neg (Nat.ne_of_gt hw), overlayLoop_foldl, List.drop_zero]

/-! ### The framebuffer -/

theorem land_out (width : ℕ) (r : Dirty × List UInt8) (e : ℕ × UInt8) :
    (land width r e).2 = r.2.set e.1 e.2 := by
  rw [land]
  split
  case isTrue h => exact (List.set_eq_of_length_le h).symm
  case isFalse => rfl

theorem foldl_land_out (width : ℕ) (es : List (ℕ × UInt8)) (r : Dirty × List UInt8) :
    (es.foldl (land width) r).2 = patch r.2 es := by
  induction es generalizing r with
  | nil => rfl
  | cons e es ih => rw [List.foldl_cons, ih, land_out, patch_cons]

/-! ### The dirty region -/

/-- Column `col` of page `page` is marked. -/
def Dirty.Marked (dirty : Dirty) (page : Fin Dirty.maxPages) (col : Fin 128) : Prop :=
  (dirty.changed page).getLsbD col = true

instance (dirty : Dirty) (page : Fin Dirty.maxPages) (col : Fin 128) :
    Decidable (dirty.Marked page col) := inferInstanceAs (Decidable (_ = true))

variable {page : Fin Dirty.maxPages} {col : Fin 128}

theorem Dirty.mark_marked (dirty : Dirty) (page' col' : ℕ) :
    (dirty.mark page' col').Marked page col ↔
      dirty.Marked page col ∨ (page' = page ∧ col' = col) := by
  rw [Dirty.mark]
  split
  case isTrue h =>
      by_cases hp : page = ⟨page', h.1⟩
      · subst hp
        simp only [Dirty.Marked, update_self, BitVec.getLsbD_or, Bool.or_eq_true, true_and]
        refine or_congr_right ?_
        rw [BitVec.getLsbD_shiftLeft, BitVec.getLsbD_one]
        have hcol := col.isLt
        simp only [Bool.and_eq_true, decide_eq_true_eq, Bool.not_eq_true', decide_eq_false_iff_not]
        omega
      · simp only [Dirty.Marked, update_of_ne hp]
        have hne : page' ≠ page := fun heq => hp (Fin.ext heq.symm)
        simp [hne]
  case isFalse h =>
      have hne : ¬(page' = page ∧ col' = col) := by
        rintro ⟨rfl, rfl⟩
        exact h ⟨page.isLt, col.isLt⟩
      exact (or_iff_left hne).symm

theorem foldl_land_full (width : ℕ) (es : List (ℕ × UInt8)) (r : Dirty × List UInt8) :
    (es.foldl (land width) r).1.full = r.1.full := by
  induction es generalizing r with
  | nil => rfl
  | cons e es ih =>
      rw [List.foldl_cons, ih, land]
      split
      · rfl
      · rw [stamp, Dirty.mark]
        split <;> rfl

/-- A column is marked if it was, or if an entry inside the framebuffer is for it. -/
theorem foldl_land_marked (width : ℕ) (es : List (ℕ × UInt8)) (r : Dirty × List UInt8) :
    (es.foldl (land width) r).1.Marked page col ↔ r.1.Marked page col ∨
      ∃ e ∈ es, e.1 < r.2.length ∧ e.1 / width = page ∧ e.1 % width = col := by
  induction es generalizing r with
  | nil => simp
  | cons e es ih =>
      have hlen : (land width r e).2.length = r.2.length := by rw [land_out, List.length_set]
      have hone : (land width r e).1.Marked page col ↔ r.1.Marked page col ∨
          (e.1 < r.2.length ∧ e.1 / width = page ∧ e.1 % width = col) := by
        rw [land]
        split
        case isTrue h => exact (or_iff_left fun hin => absurd hin.1 (Nat.not_lt.mpr h)).symm
        case isFalse h =>
            rw [stamp, Dirty.mark_marked, and_iff_right (Nat.lt_of_not_le h)]
      rw [List.foldl_cons, ih, hone, hlen, or_assoc]
      simp only [List.mem_cons, exists_eq_or_imp]

/-- The offset of a column of a page. -/
theorem div_mod_eq_iff {width offset p c : ℕ} (hw : 0 < width) :
    offset / width = p ∧ offset % width = c ↔ c < width ∧ offset = p * width + c := by
  constructor
  · rintro ⟨rfl, rfl⟩
    refine ⟨Nat.mod_lt _ hw, ?_⟩
    rw [Nat.mul_comm]
    exact (Nat.div_add_mod offset width).symm
  · rintro ⟨hc, rfl⟩
    rw [Nat.mul_comm, Nat.mul_add_div hw, Nat.mul_add_mod, Nat.div_eq_of_lt hc,
      Nat.mod_eq_of_lt hc, Nat.add_zero]
    exact ⟨rfl, rfl⟩

/-! ### The casts -/

/-- `@intCast` to an unsigned type of `bits` bits. -/
def toUnsigned (bits : ℕ) (v : ℤ) : Option ℕ :=
  if 0 ≤ v ∧ v < 2 ^ bits then some v.toNat else none

/-- `overlayEntry`, where a cast, a shift or an index can fail. -/
def overlayEntryChecked (v : ℤ) (i width : ℕ) (dirty : Dirty) (out : List UInt8) :
    Option (Dirty × List UInt8) := do
  let e := if i % 2 = 0 then (v >>> (18 : ℕ)) % 2 ^ 18 else v % 2 ^ 18
  let offset ← toUnsigned 64 (e >>> (8 : ℕ))
  if out.length ≤ offset then return (dirty, out)
  let b ← toUnsigned 8 (e % 256)
  let page := offset / width
  let col := offset % width
  if page < Dirty.maxPages ∧ col < 128 then
    let shift ← toUnsigned 7 col
    if h : page < Dirty.maxPages then
      let bits := dirty.changed ⟨page, h⟩ ||| 1#128 <<< shift
      return ({ dirty with changed := update dirty.changed ⟨page, h⟩ bits },
        out.set offset (UInt8.ofNat b))
    else none
  else return (dirty, out.set offset (UInt8.ofNat b))

def overlayLoopChecked (packedInts : List ℤ) (width : ℕ) :
    (count i : ℕ) → Dirty → List UInt8 → Option (Dirty × List UInt8)
  | 0, _, dirty, out => some (dirty, out)
  | count + 1, i, dirty, out =>
      match packedInts[i / 2]? with
      | none => some (dirty, out)
      | some v => do
          let r ← overlayEntryChecked v i width dirty out
          -- `i` is a `u32`
          let next ← toUnsigned 32 (i + 1)
          overlayLoopChecked packedInts width count next r.1 r.2

/-- `applyOverlay`, with its checks. -/
def applyOverlayChecked (packedInts : List ℤ) (n : UInt32) (out : List UInt8) (width : UInt32)
    (dirty : Dirty) : Option (Dirty × List UInt8) :=
  if width = 0 then some (dirty, out)
  else overlayLoopChecked packedInts width.toNat n.toNat 0 dirty out

theorem toUnsigned_natCast {bits m : ℕ} (h : m < 2 ^ bits) :
    toUnsigned bits (m : ℤ) = some m := by
  rw [toUnsigned, if_pos ⟨Int.natCast_nonneg m, by exact_mod_cast h⟩, Int.toNat_natCast]

/-- An entry is a number below 2^18, whatever the integer. -/
theorem entry_natCast (v : ℤ) (i : ℕ) :
    ∃ e : ℕ, e < 2 ^ 18 ∧
      (if i % 2 = 0 then (v >>> (18 : ℕ)) % 2 ^ 18 else v % 2 ^ 18) = (e : ℤ) := by
  have hmod (w : ℤ) : ∃ e : ℕ, e < 2 ^ 18 ∧ w % 2 ^ 18 = (e : ℤ) :=
    ⟨(w % 2 ^ 18).toNat, by omega, by omega⟩
  split
  · exact hmod _
  · exact hmod _

/-- **One entry** fails no check. -/
theorem overlayEntryChecked_eq (v : ℤ) (i width : ℕ) (dirty : Dirty) (out : List UInt8) :
    overlayEntryChecked v i width dirty out = some (overlayEntry v i width dirty out) := by
  obtain ⟨e, hlt, he⟩ := entry_natCast v i
  have hshift : (e : ℤ) >>> (8 : ℕ) = ((e >>> 8 : ℕ) : ℤ) := rfl
  have hoff : e >>> 8 < 2 ^ 64 := by
    rw [Nat.shiftRight_eq_div_pow]
    omega
  have hmod : (e : ℤ) % 256 = ((e % 256 : ℕ) : ℤ) := by norm_cast
  rw [overlayEntryChecked, overlayEntry]
  simp only [he, hshift, hmod, toUnsigned_natCast hoff, Int.toNat_natCast, Option.bind_eq_bind,
    Option.bind_some]
  by_cases hout : out.length ≤ e >>> 8
  · rw [if_pos hout, if_pos hout]
    rfl
  · have hbyte : byte (e : ℤ) = UInt8.ofNat (e % 256) := by rw [byte, hmod, Int.toNat_natCast]
    rw [if_neg hout, if_neg hout, toUnsigned_natCast (by omega : e % 256 < 2 ^ 8), Dirty.mark,
      hbyte]
    by_cases hin : e >>> 8 / width < Dirty.maxPages ∧ e >>> 8 % width < 128
    · rw [dif_pos hin]
      simp only [if_pos hin, toUnsigned_natCast (by omega : e >>> 8 % width < 2 ^ 7), dif_pos hin.1,
        Option.bind_some, Option.pure_def]
    · rw [dif_neg hin]
      simp only [if_neg hin, Option.bind_some, Option.pure_def]

theorem overlayLoopChecked_eq (packedInts : List ℤ) (width : ℕ) {count i : ℕ}
    (hcount : count + i < 2 ^ 32) (dirty : Dirty) (out : List UInt8) :
    overlayLoopChecked packedInts width count i dirty out =
      some (overlayLoop packedInts width count i dirty out) := by
  induction count generalizing i dirty out with
  | zero => rfl
  | succ count ih =>
      rw [overlayLoopChecked, overlayLoop]
      cases packedInts[i / 2]? with
      | none => rfl
      | some v =>
          have hnext : toUnsigned 32 ((i : ℤ) + 1) = some (i + 1) := by
            have hfits : i + 1 < 2 ^ 32 := by omega
            exact_mod_cast toUnsigned_natCast hfits
          simp only [overlayEntryChecked_eq, Option.bind_eq_bind, Option.bind_some, hnext]
          exact ih (by omega) _ _

theorem applyOverlayChecked_eq (packedInts : List ℤ) (n : UInt32) (out : List UInt8)
    (width : UInt32) (dirty : Dirty) :
    applyOverlayChecked packedInts n out width dirty =
      some (applyOverlay packedInts n.toNat out width.toNat dirty) := by
  have hzero : width = 0 ↔ width.toNat = 0 := by rw [← UInt32.toNat_inj]; rfl
  rw [applyOverlayChecked, applyOverlay]
  simp only [hzero]
  split
  · rfl
  · exact overlayLoopChecked_eq packedInts width.toNat n.toNat_lt dirty out

/-- **Exactly applied.**  No check fails; a byte is that of the last entry asked for that names
its offset, or what it was; a column is marked if it was or if an entry in the framebuffer names
its offset; and a second time changes nothing. -/
theorem applyOverlay_exact (packedInts : List ℤ) (n : UInt32) (out : List UInt8) (width : UInt32)
    (hw : 0 < width.toNat) (dirty : Dirty) :
    ∃ dirty' out', applyOverlayChecked packedInts n out width dirty = some (dirty', out') ∧
      ((entries packedInts).take n.toNat).length = min n.toNat (2 * packedInts.length) ∧
      out'.length = out.length ∧
      (∀ k < out.length,
        out'[k]? = (written ((entries packedInts).take n.toNat) k).or out[k]?) ∧
      dirty'.full = dirty.full ∧
      (∀ page col, dirty'.Marked page col ↔ dirty.Marked page col ∨ (col : ℕ) < width.toNat ∧
        ∃ e ∈ (entries packedInts).take n.toNat,
          e.1 < out.length ∧ e.1 = (page : ℕ) * width.toNat + col) ∧
      ∀ again, ∃ dirty'', applyOverlayChecked packedInts n out' width again =
        some (dirty'', out') := by
  have hrun (out : List UInt8) (dirty : Dirty) :
      applyOverlayChecked packedInts n out width dirty =
        some (((entries packedInts).take n.toNat).foldl (land width.toNat) (dirty, out)) := by
    rw [applyOverlayChecked_eq, applyOverlay_foldl _ _ _ hw]
  have hout (r : Dirty × List UInt8) :
      (((entries packedInts).take n.toNat).foldl (land width.toNat) r).2 =
        patch r.2 ((entries packedInts).take n.toNat) := foldl_land_out _ _ r
  refine ⟨(((entries packedInts).take n.toNat).foldl (land width.toNat) (dirty, out)).1,
    patch out ((entries packedInts).take n.toNat), ?_, ?_, length_patch _ _, ?_, ?_, ?_, ?_⟩
  · rw [hrun]
    exact congrArg some (Prod.ext rfl (hout _))
  · rw [List.length_take, length_entries]
  · exact fun k hk => patch_get hk _
  · exact foldl_land_full _ _ _
  · intro page col
    rw [foldl_land_marked]
    refine or_congr_right ?_
    simp only [div_mod_eq_iff hw]
    constructor
    · rintro ⟨e, he, hlt, hcol, heq⟩
      exact ⟨hcol, e, he, hlt, heq⟩
    · rintro ⟨hcol, e, he, hlt, heq⟩
      exact ⟨e, he, hlt, hcol, heq⟩
  · intro again
    refine ⟨(((entries packedInts).take n.toNat).foldl (land width.toNat) (again,
      patch out ((entries packedInts).take n.toNat))).1, ?_⟩
    rw [hrun]
    exact congrArg some (Prod.ext rfl ((hout _).trans (patch_patch out _)))

/-- Two entries of one integer for the same offset: the second is the byte there. -/
theorem applyOverlay_exact_twice_named :
    0 < (8 : UInt32).toNat ∧
      ∃ dirty' out', applyOverlayChecked [(2 * 256 + 1) * 262144 + (2 * 256 + 7)] 2
        [0, 0, 0, 0] 8 { full := false } = some (dirty', out') ∧ out'[2]? = some 7 := by
  obtain ⟨dirty', out', hrun, -, -, hget, -⟩ :=
    applyOverlay_exact [(2 * 256 + 1) * 262144 + (2 * 256 + 7)] 2 [0, 0, 0, 0] 8 (by decide)
      { full := false }
  refine ⟨by decide, dirty', out', hrun, ?_⟩
  rw [hget 2 (by decide)]
  decide

end BadgeOS.Oled
