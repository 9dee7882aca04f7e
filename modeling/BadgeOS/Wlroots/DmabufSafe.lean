import BadgeOS.Wlroots.DmabufConvert
import Mathlib

/-!
# Mappings that are long enough and given back

The conversion reads inside its mappings, and gives back what it took wherever it stops.  The one
exception is a picture of `INT_MAX` rows: behind its last row the staged converter's `row += 2`
overflows.

* `Safe` — what is asked of a conversion;
* `out_balanced` — every label `out` gives back exactly what was taken;
* `convert_safe_iff` — a conversion is safe unless it reaches that overflow.
-/

namespace BadgeOS.Wlroots.Dmabuf

open Ledger Memory Nv12

/-! ### A pointer that sees more -/

/-- `p'` reads what `p` does. -/
def Sees (p p' : Ptr) : Prop := ∀ i b, p.load i = some b → p'.load i = some b

theorem mapM_mono {α β : Type*} {f g : α → Option β} (h : ∀ x y, f x = some y → g x = some y)
    {l : List α} {ys : List β} (hf : l.mapM f = some ys) : l.mapM g = some ys := by
  induction l generalizing ys with
  | nil => exact hf
  | cons x l ih =>
      rw [List.mapM_cons] at hf ⊢
      obtain ⟨y, hy, hrest⟩ := Option.bind_eq_some_iff.mp hf
      obtain ⟨ys', hys', hout⟩ := Option.bind_eq_some_iff.mp hrest
      rw [h x y hy, ih hys']
      exact hout

theorem foldlM_mono {α σ : Type*} {f g : σ → α → Option σ}
    (h : ∀ s x t, f s x = some t → g s x = some t) {l : List α} {s t : σ}
    (hf : l.foldlM f s = some t) : l.foldlM g s = some t := by
  induction l generalizing s with
  | nil => exact hf
  | cons x l ih =>
      rw [List.foldlM_cons] at hf ⊢
      obtain ⟨s', hs', hrest⟩ := Option.bind_eq_some_iff.mp hf
      rw [h s x s' hs']
      exact ih hrest

theorem Sees.loads {p p' : Ptr} (h : Sees p p') {s n : ℕ} {bs : List UInt8}
    (hload : p.loads s n = some bs) : p'.loads s n = some bs := by
  apply mapM_mono ?_ hload
  intro i b hb
  rw [Nat.add_assoc] at hb ⊢
  exact h (s + i) b hb

theorem Sees.rowPtr {p p' : Ptr} (h : Sees p p') (row stride : ℕ) :
    Sees (rowPtr p row stride) (rowPtr p' row stride) := by
  intro i b hb
  have hshift : ∀ q : Ptr, (Nv12.rowPtr q row stride).load i = q.load (rowOffset row stride + i) :=
    fun q => congrArg q.mem.load (Nat.add_assoc _ _ _)
  rw [hshift] at hb ⊢
  exact h _ b hb

theorem copyUncached_mono {p p' : Ptr} (h : Sees p p') {m m' : Mem} {d s n : ℕ}
    (hcopy : copyUncached m d p s n = some m') : copyUncached m d p' s n = some m' := by
  induction n using Nat.strong_induction_on generalizing m d s with
  | _ n ih =>
    rw [copyUncached] at hcopy ⊢
    split at hcopy
    · rename_i hlong
      rw [if_pos hlong]
      obtain ⟨as, ha, hcopy⟩ := Option.bind_eq_some_iff.mp hcopy
      obtain ⟨bs, hb, hcopy⟩ := Option.bind_eq_some_iff.mp hcopy
      obtain ⟨m₁, hm₁, hcopy⟩ := Option.bind_eq_some_iff.mp hcopy
      obtain ⟨m₂, hm₂, hcopy⟩ := Option.bind_eq_some_iff.mp hcopy
      simp only [h.loads ha, h.loads hb, hm₁, hm₂, Option.bind_eq_bind, Option.bind_some]
      exact ih (n - 32) (by omega) hcopy
    · rename_i hshort
      rw [if_neg hshort]
      obtain ⟨bs, hb, hcopy⟩ := Option.bind_eq_some_iff.mp hcopy
      simp only [h.loads hb, Option.bind_eq_bind, Option.bind_some]
      exact hcopy

theorem stagedRows_mono {y y' uv uv' : Ptr} (hy : Sees y y') (huv : Sees uv uv')
    {yStride uvStride dstAddr dstStride width height row : ℕ} {line dst dst' : Mem}
    (hrun : stagedRows y yStride uv uvStride line dst dstAddr dstStride width height row =
      some dst') :
    stagedRows y' yStride uv' uvStride line dst dstAddr dstStride width height row = some dst' := by
  induction hn : height - row using Nat.strong_induction_on generalizing row line dst with
  | _ n ih =>
    rw [stagedRows] at hrun ⊢
    split at hrun
    · rename_i hrow
      rw [if_pos hrow]
      obtain ⟨line₁, hline₁, hrun⟩ := Option.bind_eq_some_iff.mp hrun
      obtain ⟨line₂, hline₂, hrun⟩ := Option.bind_eq_some_iff.mp hrun
      obtain ⟨dst₁, hdst₁, hrun⟩ := Option.bind_eq_some_iff.mp hrun
      have hluma := foldlM_mono (fun m i m' hcopy =>
        copyUncached_mono (hy.rowPtr (row + i) yStride) hcopy) hline₁
      have hchroma := copyUncached_mono (huv.rowPtr (row / 2) uvStride) hline₂
      simp only [hluma, hchroma, hdst₁, Option.bind_eq_bind, Option.bind_some]
      split at hrun
      · rename_i hfits
        rw [if_pos hfits]
        exact ih (height - (row + 2)) (by omega) hrun rfl
      · cases hrun
    · rename_i hrow
      rw [if_neg hrow]
      exact hrun

theorem staged_mono {allocated : Bool} {y y' uv uv' : Ptr} (hy : Sees y y') (huv : Sees uv uv')
    {yStride uvStride dstAddr dstStride width height : ℕ} {dst : Mem} {r : Bool × Mem}
    (hrun : pixmanNv12ToXrgb8888Staged allocated y yStride uv uvStride dst dstAddr dstStride width
      height = some r) :
    pixmanNv12ToXrgb8888Staged allocated y' yStride uv' uvStride dst dstAddr dstStride width
      height = some r := by
  rw [pixmanNv12ToXrgb8888Staged] at hrun ⊢
  split at hrun
  · rename_i hallocated
    rw [if_pos hallocated]
    obtain ⟨dst', hdst', hout⟩ := Option.bind_eq_some_iff.mp hrun
    simp only [stagedRows_mono hy huv hdst', Option.bind_eq_bind, Option.bind_some]
    exact hout
  · rename_i hallocated
    rw [if_neg hallocated]
    exact hrun

/-! ### What is given back -/

/-- The indices below the length are those that passed. -/
theorem of_lt_takeWhile {p : ℕ → Bool} {n i : ℕ} (h : i < ((List.range n).takeWhile p).length) :
    p i = true := by
  have hmem := List.mem_takeWhile_imp (List.getElem_mem h)
  have hget := (List.takeWhile_prefix (l := List.range n) p).getElem h
  rw [hget, List.getElem_range] at hmem
  exact hmem

theorem length_takeWhile_le (p : ℕ → Bool) (n : ℕ) :
    ((List.range n).takeWhile p).length ≤ n :=
  (List.takeWhile_prefix p).length_le.trans_eq List.length_range

theorem length_takeWhile_eq {p : ℕ → Bool} {n : ℕ} (h : ∀ i < n, p i = true) :
    ((List.range n).takeWhile p).length = n := by
  rw [List.takeWhile_eq_self_iff.mpr fun i hi => h i (List.mem_range.mp hi), List.length_range]

theorem filter_lt_range {m n : ℕ} (h : m ≤ n) :
    ((List.range n).filter fun i => decide (i < m)) = List.range m := by
  obtain ⟨k, rfl⟩ := Nat.exists_eq_add_of_le h
  have hlow : ((List.range m).filter fun i => decide (i < m)) = List.range m :=
    List.filter_eq_self.mpr fun i hi => by simpa using hi
  have hhigh : (((List.range k).map (m + ·)).filter fun i => decide (i < m)) = [] := by
    simp
  rw [List.range_add, List.filter_append, hlow, hhigh, List.append_nil]

section Out

variable {a : Attribs} (w : World a)

theorem maps_ne_zero_iff (i : ℕ) : w.maps i ≠ 0 ↔ i < w.mapped := by
  rw [World.maps]
  split
  · rename_i hi
    obtain ⟨addr, haddr⟩ := Option.isSome_iff_exists.mp (of_lt_takeWhile hi)
    refine iff_of_true ?_ hi
    rw [haddr, Option.getD_some]
    rintro rfl
    exact w.mmap_ne i haddr
  · rename_i hi
    exact iff_of_false (fun h => h rfl) hi

theorem out_balanced (end0 end1 synced : ℕ) (ok : Bool) (t : Texture) :
    Balanced (out a w end0 end1 synced ok t).entries := by
  have hle : w.mapped ≤ w.nFiles := length_takeWhile_le _ _
  have hfilter : ((List.range w.nFiles).filter fun i => decide (w.maps i ≠ 0)) =
      List.range w.mapped := by
    rw [← filter_lt_range hle]
    exact List.filter_congr fun i _ => by simp only [maps_ne_zero_iff]
  have hnested := balanced_nested
    ((List.range w.mapped).map fun i => Held.mapping (w.maps i) (w.ends end0 end1 i))
    ((List.range synced).map fun i => Held.access (a.fd i))
  simp only [List.map_map] at hnested
  rw [out, hfilter]
  exact hnested

end Out

/-! ### How far the planes reach -/

/-- The bytes of a plane's row. -/
def rowBytes (a : Attribs) (plane : ℕ) : ℕ :=
  if plane = 0 then a.width.toNat else (a.width.toNat + 1) / 2 * 2

/-- The rows of a plane. -/
def planeRows (a : Attribs) (plane : ℕ) : ℕ :=
  if plane = 0 then a.height.toNat else (a.height.toNat + 1) / 2

/-- The end of the last byte that is read of a plane, in its file. -/
def lastRead (a : Attribs) (plane : ℕ) : ℕ :=
  a.offset plane + a.stride plane * (planeRows a plane - 1) + rowBytes a plane

/-- What `pixman_texture_from_dmabuf` accepts. -/
structure Accepted (a : Attribs) : Prop where
  width_pos : 0 < a.width
  height_pos : 0 < a.height
  y_row : a.width.toNat ≤ a.stride 0
  uv_row : (a.width.toNat + 1) / 2 * 2 ≤ a.stride 1

theorem u32_of_pos {x : ℤ} (hpos : 0 < x) (hlt : x < 2 ^ 31) : u32 x = x.toNat := by
  rw [u32, Int.emod_eq_of_lt hpos.le (by omega)]

theorem pairBytes_eq {width : ℕ} (h : width < 2 ^ 31) : pairBytes width = (width + 1) / 2 * 2 := by
  rw [pairBytes]
  omega

theorem accepted_of {formats : ℕ → ℕ → Bool} {created : Bool} {a : Attribs} {t : Texture}
    (h : fromDmabuf formats created a = some t) : Accepted a ∧ t = ⟨none⟩ := by
  rw [fromDmabuf] at h
  split at h
  · cases h
  · split at h
    · cases h
    · rename_i hlayout
      split at h
      · cases h
        have hlt := a.width_lt
        rw [not_or, not_or, not_or, not_or] at hlayout
        obtain ⟨-, hwidth, hheight, hy, huv⟩ := hlayout
        rw [u32_of_pos (not_le.mp hwidth) hlt] at hy huv
        rw [pairBytes_eq (by omega)] at huv
        exact ⟨⟨not_le.mp hwidth, not_le.mp hheight, not_lt.mp hy, not_lt.mp huv⟩, rfl⟩
      · cases h

/-- No length is computed modulo `2 ^ 64`. -/
theorem planeEnd_eq {a : Attribs} {plane rows len : ℕ} (hpos : 0 < rows) (hrows : rows ≤ 2 ^ 31)
    (hlen : len ≤ 2 ^ 31) :
    planeEnd a plane rows len = some (a.offset plane + a.stride plane * (rows - 1) + len) := by
  have hoffset := a.offset_lt plane
  have hmod : (rows + (2 ^ 32 - 1)) % 2 ^ 32 = rows - 1 := by omega
  have hproduct : a.stride plane * (rows - 1) ≤ 2 ^ 32 * 2 ^ 31 :=
    Nat.mul_le_mul (a.stride_lt plane).le (by omega)
  rw [planeEnd, hmod, Nat.mod_eq_of_lt (show a.stride plane * (rows - 1) < 2 ^ 64 by omega),
    Nat.mod_eq_of_lt (by omega)]
  exact if_neg (by omega)

section Accepted

variable {a : Attribs} (ha : Accepted a)

include ha in
theorem widths : u32 a.width = a.width.toNat ∧ u32 a.height = a.height.toNat ∧
    a.width.toNat < 2 ^ 31 ∧ a.height.toNat < 2 ^ 31 ∧ 0 < a.width.toNat ∧
      0 < a.height.toNat := by
  obtain ⟨hwidth, hheight, -, -⟩ := ha
  have hw := a.width_lt
  have hh := a.height_lt
  exact ⟨u32_of_pos hwidth hw, u32_of_pos hheight hh, by omega, by omega, by omega, by omega⟩

include ha in
theorem planeEnd_luma :
    planeEnd a 0 (u32 a.height) (u32 a.width) = some (lastRead a 0) := by
  obtain ⟨hwidth, hheight, hw, hh, -, hpos⟩ := widths ha
  rw [hwidth, hheight, planeEnd_eq hpos hh.le hw.le]
  rfl

include ha in
theorem planeEnd_chroma :
    planeEnd a 1 ((u32 a.height + 1) % 2 ^ 32 / 2) (pairBytes (u32 a.width)) =
      some (lastRead a 1) := by
  obtain ⟨hwidth, hheight, hw, hh, -, hpos⟩ := widths ha
  rw [hwidth, hheight, pairBytes_eq hw,
    show (a.height.toNat + 1) % 2 ^ 32 / 2 = (a.height.toNat + 1) / 2 by omega,
    planeEnd_eq (by omega) (by omega) (by omega)]
  rfl

end Accepted

theorem covers (a : Attribs) (w : World a) (end0 end1 : ℕ) :
    end0 ≤ w.ends end0 end1 0 ∧ end1 ≤ w.ends end0 end1 (w.nFiles - 1) := by
  rcases hsame : w.sameFile with _ | _
  · simp [World.ends, World.nFiles, hsame]
  · simp only [World.ends, World.nFiles, hsame, if_true, true_and, Nat.sub_self]
    split <;> omega

/-! ### The planes in their mappings -/

/-- A plane behind `offset` bytes of a mapping that reaches its last byte. -/
theorem sees_plane {a : Attribs} (w : World a) (file offset : ℕ) {rows stride len total : ℕ}
    (hrows : 0 < rows) (hreach : offset + stride * (rows - 1) + len ≤ total) :
    Sees ⟨plane rows stride len fun x => some (w.file file (offset + x)), 0⟩
      ⟨w.mapping total file, w.maps file + offset⟩ := by
  intro i b hb
  rw [Ptr.load, Mem.load, Nat.zero_add] at hb
  split at hb
  · rename_i hvalid
    simp only [plane, Bool.and_eq_true, decide_eq_true_eq] at hvalid hb
    have hsplit := Nat.div_add_mod i stride
    have hrow : stride * (i / stride) ≤ stride * (rows - 1) :=
      Nat.mul_le_mul_left stride (by omega)
    have hin : w.maps file ≤ w.maps file + offset + i ∧
        w.maps file + offset + i < w.maps file + total := by omega
    rw [Ptr.load, Mem.load, if_pos (by simpa [World.mapping] using hin)]
    show some (w.file file (w.maps file + offset + i - w.maps file)) = some b
    rw [show w.maps file + offset + i - w.maps file = offset + i by omega]
    exact hb
  · cases hb

/-- The call of the converter. -/
def frameOf {a : Attribs} (ha : Accepted a) (w : World a) {img : Image}
    (himg : w.image = some img) : Frame where
  width := a.width.toNat
  height := a.height.toNat
  yStride := a.stride 0
  uvStride := a.stride 1
  dstStride := img.stride
  width_pos := (widths ha).2.2.2.2.1
  width_lt := (widths ha).2.2.1
  height_pos := (widths ha).2.2.2.2.2
  height_lt := (widths ha).2.2.2.1
  y_row := ha.y_row
  uv_row := ha.uv_row
  dst_row := by
    have hrow := (w.image_row img himg).1
    rwa [(widths ha).1] at hrow
  y_plane := by
    have hh := (widths ha).2.2.2.1
    have hle : (a.height.toNat - 1) * a.stride 0 ≤ 2 ^ 31 * 2 ^ 32 :=
      Nat.mul_le_mul (by omega) (a.stride_lt 0).le
    omega
  uv_plane := by
    have hh := (widths ha).2.2.2.1
    have hle : (a.height.toNat - 1) / 2 * a.stride 1 ≤ 2 ^ 31 * 2 ^ 32 :=
      Nat.mul_le_mul (by omega) (a.stride_lt 1).le
    omega
  dst_plane := by
    have hh := (widths ha).2.2.2.1
    have hle : (a.height.toNat - 1) * img.stride ≤ 2 ^ 31 * 2 ^ 31 :=
      Nat.mul_le_mul (by omega) (w.image_row img himg).2.le
    omega

/-- The converter's call out of the mappings. -/
def staged (a : Attribs) (w : World a) (img : Image) : Option (Bool × Mem) :=
  pixmanNv12ToXrgb8888Staged w.line
    ⟨w.mapping (w.ends (lastRead a 0) (lastRead a 1) 0) 0, w.maps 0 + a.offset 0⟩ (a.stride 0)
    ⟨w.mapping (w.ends (lastRead a 0) (lastRead a 1) (w.nFiles - 1)) (w.nFiles - 1),
      w.maps (w.nFiles - 1) + a.offset 1⟩ (a.stride 1)
    (plane (u32 a.height) img.stride (4 * u32 a.width) img.bytes) 0 img.stride
    (u32 a.width) (u32 a.height)

/-- It reads only inside them. -/
theorem staged_run {a : Attribs} (ha : Accepted a) {w : World a} {img : Image}
    (himg : w.image = some img) (hline : w.line = true) (hheight : a.height < 2 ^ 31 - 1) :
    ∃ dst, staged a w img = some (true, dst) := by
  obtain ⟨hu, hv, hw, hh, hwpos, hhpos⟩ := widths ha
  have hreach := covers a w (lastRead a 0) (lastRead a 1)
  have hstride := (w.image_row img himg)
  have hy := sees_plane w 0 (a.offset 0) hhpos hreach.1
  have huv := sees_plane w (w.nFiles - 1) (a.offset 1)
    (show 0 < (a.height.toNat + 1) / 2 by omega) hreach.2
  have hrun : (frameOf ha w himg).runStaged (fun x => w.file 0 (a.offset 0 + x))
      (fun x => w.file (w.nFiles - 1) (a.offset 1 + x)) img.bytes = some (true, _) :=
    runStaged_eq (show a.width.toNat < 2 ^ 31 - 16 by omega)
      (show a.height.toNat < 2 ^ 31 - 1 by omega)
  have hmapped := staged_mono hy huv hrun
  rw [staged, hline, hu, hv]
  exact ⟨_, hmapped⟩

theorem staged_no_line {a : Attribs} {w : World a} (img : Image) (hline : w.line = false) :
    ∃ dst, staged a w img = some (false, dst) := by
  rw [staged, hline, pixmanNv12ToXrgb8888Staged, if_neg (by decide)]
  exact ⟨_, rfl⟩

theorem staged_overflow {a : Attribs} (ha : Accepted a) {w : World a} (img : Image)
    (hline : w.line = true) (hheight : a.height = 2 ^ 31 - 1) : staged a w img = none := by
  have hrows : u32 a.height = 2 ^ 31 - 1 := by
    rw [(widths ha).2.1, hheight]
    rfl
  rw [staged, hline, pixmanNv12ToXrgb8888Staged, if_pos rfl]
  simp only [stagedRows_overflow hrows rfl (Nat.zero_le _), Option.bind_eq_bind, Option.bind_none]

/-! ### The conversion -/

/-- The converter is called, and has its line buffer. -/
def World.Converts {a : Attribs} (w : World a) : Prop :=
  w.getDmabuf = true ∧ (∀ i < w.nFiles, (w.mmap i).isSome = true) ∧
    (∀ i < w.nFiles, w.syncStart i = true) ∧ w.image.isSome = true ∧ w.line = true

theorem length_takeWhile_iff {p : ℕ → Bool} {n : ℕ} :
    ((List.range n).takeWhile p).length < n ↔ ¬ ∀ i < n, p i = true := by
  constructor
  · intro hlt hall
    rw [length_takeWhile_eq hall] at hlt
    exact lt_irrefl n hlt
  · intro hno
    refine lt_of_le_of_ne (length_takeWhile_le p n) fun heq => hno fun i hi => ?_
    exact of_lt_takeWhile (heq ▸ hi)

theorem mapped_lt_iff {a : Attribs} (w : World a) :
    w.mapped < w.nFiles ↔ ¬ ∀ i < w.nFiles, (w.mmap i).isSome = true :=
  length_takeWhile_iff

theorem synced_lt_iff {a : Attribs} (w : World a) :
    w.synced < w.nFiles ↔ ¬ ∀ i < w.nFiles, w.syncStart i = true :=
  length_takeWhile_iff

theorem convert_eq {a : Attribs} (ha : Accepted a) {w : World a} (t : Texture)
    (hget : w.getDmabuf = true) :
    convertNv12Dmabuf a w t =
      if w.mapped < w.nFiles then some (out a w (lastRead a 0) (lastRead a 1) 0 false t)
      else if w.synced < w.nFiles then
        some (out a w (lastRead a 0) (lastRead a 1) w.synced false t)
      else
        match w.image with
        | none => some (out a w (lastRead a 0) (lastRead a 1) w.synced false ⟨none⟩)
        | some img => (staged a w img).bind fun r => some (out a w (lastRead a 0) (lastRead a 1)
            w.synced r.1 ⟨if r.1 then some r.2 else none⟩) := by
  rw [convertNv12Dmabuf, hget]
  simp only [Bool.not_true, Bool.false_eq_true, if_false, planeEnd_luma ha, planeEnd_chroma ha]
  rfl

/-- What is asked of a conversion: no length is computed modulo `2 ^ 64`, each plane lies in its
mapping, and the conversion ends, having given back what it took, with a picture exactly when it
says so. -/
structure Safe (a : Attribs) (w : World a) (t : Texture) : Prop where
  lengths : planeEnd a 0 (u32 a.height) (u32 a.width) = some (lastRead a 0) ∧
    planeEnd a 1 ((u32 a.height + 1) % 2 ^ 32 / 2) (pairBytes (u32 a.width)) =
      some (lastRead a 1)
  covered : lastRead a 0 ≤ w.ends (lastRead a 0) (lastRead a 1) 0 ∧
    lastRead a 1 ≤ w.ends (lastRead a 0) (lastRead a 1) (w.nFiles - 1)
  returns : ∃ d, convertNv12Dmabuf a w t = some d ∧ Balanced d.entries ∧
    (d.texture.image.isSome = true ↔ d.ok = true)

/-- What the conversion does, by where it stops. -/
theorem convert_cases {a : Attribs} (ha : Accepted a) (w : World a) :
    (w.Converts ∧ convertNv12Dmabuf a w ⟨none⟩ =
      (w.image.bind fun img => staged a w img).bind fun r =>
        some (out a w (lastRead a 0) (lastRead a 1) w.synced r.1
          ⟨if r.1 then some r.2 else none⟩)) ∨
    (¬ w.Converts ∧ ∃ d, convertNv12Dmabuf a w ⟨none⟩ = some d ∧ Balanced d.entries ∧
      d.texture.image = none ∧ d.ok = false) := by
  by_cases hget : w.getDmabuf = true
  · rw [convert_eq ha _ hget]
    by_cases hmap : ∀ i < w.nFiles, (w.mmap i).isSome = true
    · rw [if_neg fun hlt => (mapped_lt_iff w).mp hlt hmap]
      by_cases hsync : ∀ i < w.nFiles, w.syncStart i = true
      · rw [if_neg fun hlt => (synced_lt_iff w).mp hlt hsync]
        cases himg : w.image with
        | none =>
            refine Or.inr ⟨fun h => ?_, _, rfl, out_balanced w _ _ _ _ _, rfl, rfl⟩
            have hsome := h.2.2.2.1
            rw [himg] at hsome
            cases hsome
        | some img =>
            by_cases hline : w.line = true
            · exact Or.inl ⟨⟨hget, hmap, hsync, by rw [himg]; rfl, hline⟩, rfl⟩
            · obtain ⟨dst, hdst⟩ := staged_no_line (a := a) (w := w) img (by simpa using hline)
              refine Or.inr ⟨fun h => hline h.2.2.2.2, ?_⟩
              simp only [hdst, Option.bind_some]
              exact ⟨_, rfl, out_balanced w _ _ _ _ _, rfl, rfl⟩
      · rw [if_pos ((synced_lt_iff w).mpr hsync)]
        exact Or.inr ⟨fun h => hsync h.2.2.1, _, rfl, out_balanced w _ _ _ _ _, rfl, rfl⟩
    · rw [if_pos ((mapped_lt_iff w).mpr hmap)]
      exact Or.inr ⟨fun h => hmap h.2.1, _, rfl, out_balanced w _ _ _ _ _, rfl, rfl⟩
  · refine Or.inr ⟨fun h => hget h.1, ⟨false, ⟨none⟩, []⟩, ?_, rfl, rfl, rfl⟩
    rw [convertNv12Dmabuf, if_pos (by simpa using hget)]

theorem convert_safe_iff {formats : ℕ → ℕ → Bool} {created : Bool} {a : Attribs} {t : Texture}
    (h : fromDmabuf formats created a = some t) (w : World a) :
    Safe a w t ↔ ¬ (w.Converts ∧ a.height = 2 ^ 31 - 1) := by
  obtain ⟨ha, rfl⟩ := accepted_of h
  have hlt := a.height_lt
  constructor
  · rintro ⟨-, -, d, hd, -, -⟩ ⟨hconverts, hheight⟩
    rcases convert_cases ha w with ⟨-, hrun⟩ | ⟨hno, -⟩
    · obtain ⟨img, himg⟩ := Option.isSome_iff_exists.mp hconverts.2.2.2.1
      rw [himg, Option.bind_some, staged_overflow ha img hconverts.2.2.2.2 hheight] at hrun
      rw [hrun] at hd
      cases hd
    · exact hno hconverts
  · intro hno
    refine ⟨⟨planeEnd_luma ha, planeEnd_chroma ha⟩, covers a w _ _, ?_⟩
    rcases convert_cases ha w with ⟨hconverts, hrun⟩ | ⟨-, d, hd, hbalanced, himage, hok⟩
    · have hheight : a.height < 2 ^ 31 - 1 := by
        by_contra hlarge
        exact hno ⟨hconverts, by omega⟩
      obtain ⟨img, himg⟩ := Option.isSome_iff_exists.mp hconverts.2.2.2.1
      obtain ⟨dst, hdst⟩ := staged_run ha himg hconverts.2.2.2.2 hheight
      rw [himg, Option.bind_some, hdst, Option.bind_some] at hrun
      exact ⟨_, hrun, out_balanced w _ _ _ _ _, by simp [out]⟩
    · exact ⟨d, hd, hbalanced, by rw [himage, hok]; decide⟩

/-! ### A picture of one column -/

/-- Two planes in one file, one byte wide and `height` rows high. -/
def column (height : ℤ) (hlt : height < 2 ^ 31) : Attribs where
  format := 0x3231564e
  modifier := 0
  nPlanes := 2
  width := 1
  height := height
  offset := fun i => if i = 0 then 0 else 2 ^ 31
  stride := fun i => if i = 0 then 1 else 2
  fd := fun i => 7 + i
  width_lt := by decide
  height_lt := hlt
  offset_lt := by
    intro i
    split <;> decide
  stride_lt := by
    intro i
    split <;> decide

/-- Everything succeeds. -/
def granted (height : ℤ) (hlt : height < 2 ^ 31) : World (column height hlt) where
  getDmabuf := true
  sameFile := true
  mmap := fun _ => some 4096
  file := fun _ _ => 0
  syncStart := fun _ => true
  image := some ⟨4, fun _ => none⟩
  line := true
  mmap_ne := by
    intro i h
    cases h
  image_row := by
    rintro img ⟨⟩
    show 4 * u32 1 ≤ 4 ∧ 4 < 2 ^ 31
    decide

theorem convert_safe_small :
    fromDmabuf (fun _ _ => true) true (column 3 (by decide)) = some ⟨none⟩ ∧
      Safe (column 3 (by decide)) (granted 3 (by decide)) ⟨none⟩ :=
  have h : fromDmabuf (fun _ _ => true) true (column 3 (by decide)) = some ⟨none⟩ := rfl
  ⟨h, (convert_safe_iff h (granted 3 (by decide))).mpr fun hboth => absurd hboth.2 (by decide)⟩

/-- `INT_MAX` rows, in a file that has them. -/
theorem tallest_unsafe :
    fromDmabuf (fun _ _ => true) true (column 2147483647 (by decide)) = some ⟨none⟩ ∧
      ¬ Safe (column 2147483647 (by decide)) (granted 2147483647 (by decide)) ⟨none⟩ := by
  have h : fromDmabuf (fun _ _ => true) true (column 2147483647 (by decide)) = some ⟨none⟩ := rfl
  refine ⟨h, ?_⟩
  rintro ⟨-, -, d, hd, -, -⟩
  obtain ⟨ha, -⟩ := accepted_of h
  rw [convert_eq ha _ rfl, if_neg (by decide), if_neg (by decide)] at hd
  have hover := staged_overflow ha (w := granted 2147483647 (by decide)) ⟨4, fun _ => none⟩ rfl rfl
  have hnone : (staged (column 2147483647 (by decide)) (granted 2147483647 (by decide))
      ⟨4, fun _ => none⟩).bind _ = some d := hd
  rw [hover] at hnone
  cases hnone

end BadgeOS.Wlroots.Dmabuf
