import BadgeOS.CodaCube.CpuModel
import Mathlib

/-!
# A render of the CPU model

`model_p` against a decoder: a partition paints the samples that the decoder predicts for it, the
last one that covers a block is the one whose motion the decoder takes, and together they cover the
picture.

* `paint`, `paint_eq` — one partition in one plane;
* `find_part` — the partition that shows at a sample;
* `modelP_eq` — the picture that the decoder makes of the macroblocks.
-/

namespace BadgeOS.CodaCube.CpuModel

open Raster Cells Buffers AvcSamples AvcSlice
open Pages (Planes)
open Slice (Part Setting partOf partsOf partsIn)

section Paint

variable (S : Setting) (pages : ℕ → Planes) (store : ℕ → UInt8)

/-- A sample of a partition. -/
def partSample (P : Page) : Component → Part → ℕ → ℕ → Option UInt8
  | .luma => luma S P
  | .cb => chroma S P P.U
  | .cr => chroma S P P.V

/-- One partition in one plane. -/
def paint (c : Component) (plane : ℕ → UInt8) (p : Part) : Option (ℕ → UInt8) :=
  let n := 16 / c.scale
  let x := p.x.tdiv c.scale
  let y := p.y.tdiv c.scale
  if p.ref < 0 then
    rect (S.WMB * n * (S.HMB * n)) (S.WMB * n) x y n n (sent S store c.first n p) plane
  else do
    let pg ← get References.MAXREF S.refs.REFPAGE p.ref
    let P ← get 16 (fun k => page S.toMbSize (pages k)) pg
    rect (S.WMB * n * (S.HMB * n)) (S.WMB * n) x y (p.w.tdiv c.scale).toNat
      (p.h.tdiv c.scale).toNat (partSample S P c p) plane

theorem modelPart_eq (b : Planes) (p : Part) : modelPart S pages store b p = (do
    let Y ← paint S pages store .luma b.Y p
    let U ← paint S pages store .cb b.U p
    let V ← paint S pages store .cr b.V p
    some ⟨Y, U, V⟩) := by
  have hchroma : chromaSize S.toMbSize = S.WMB * 8 * (S.HMB * 8) := by
    rw [chromaSize, half_W, half_H]
  rw [modelPart]
  by_cases hsent : p.ref < 0
  · simp only [paint, if_pos hsent, hchroma, half_W, Component.scale, Component.first]
    simp only [Nat.cast_one, Int.tdiv_one]
    rfl
  · simp only [paint, if_neg hsent, hchroma, half_W, Component.scale]
    simp only [Nat.cast_one, Int.tdiv_one]
    cases get References.MAXREF S.refs.REFPAGE p.ref with
    | none => rfl
    | some pg =>
        cases hpage : get 16 (fun k => page S.toMbSize (pages k)) pg with
        | none =>
            show (get 16 _ pg).bind _ = ((get 16 _ pg).bind _).bind _
            rw [hpage]
            rfl
        | some P =>
            simp only [Option.bind_eq_bind, Option.bind_some, hpage]
            rfl

/-- The partition lies in the picture; in units of 4 samples. -/
structure Sits (p : Part) (x y w : ℕ) : Prop where
  x_eq : p.x = (4 * x : ℕ)
  y_eq : p.y = (4 * y : ℕ)
  w_eq : p.w = (4 * w : ℕ)
  h_eq : p.h = (4 * w : ℕ)
  right : x + w ≤ 4 * S.WMB
  bottom : y + w ≤ 4 * S.HMB

/-- The list entries are pages in memory. -/
structure Listed : Prop where
  NREF_le : S.refs.NREF ≤ References.MAXREF
  page : ∀ i < S.refs.NREF, 0 ≤ S.refs.REFPAGE i ∧ S.refs.REFPAGE i < 16

/-- The picture that an entry of the list is. -/
def listed (i : ℕ) : Picture := picture S.toMbSize (pages (S.refs.REFPAGE i).toNat)

/-- A sample that is predicted, with the weights of its entry. -/
def predictedByte (c : Component) (ref : ℕ) (mv : ℤ × ℤ) (x y : ℕ) : UInt8 :=
  let v := c.fetch (listed S pages ref) mv x y
  UInt8.ofInt (if ref = 0 then v
    else wp6 v (c.weight (Slice.weight S ref)).1 (c.weight (Slice.weight S ref)).2)

/-- Where a sample is in `g_pcmstore`. -/
def place (c : Component) (x y : ℕ) : ℕ :=
  let n := 16 / c.scale
  (y / n * S.WMB + x / n) * 384 + (c.first + y % n * n + x % n)

/-- What a partition shows at `(x, y)`. -/
def shown (c : Component) (p : Part) (x y : ℕ) : UInt8 :=
  if p.ref < 0 then store (place S c x y)
  else predictedByte S pages c p.ref.toNat (p.mvx, p.mvy) x y

/-- Units of 4 samples of luma. -/
def unit (c : Component) : ℕ := 4 / c.scale

variable {S}

theorem tdiv_scale (c : Component) (x : ℕ) :
    ((4 * x : ℕ) : ℤ).tdiv c.scale = (x * unit c : ℕ) := by
  rw [← Int.ofNat_tdiv]
  refine congrArg Nat.cast ?_
  cases c <;> simp only [Component.scale, unit] <;> omega

/-- The weights of an entry; the black page has none. -/
theorem weighted_eq (ref : ℕ) (c : Component) (v : ℤ) (w : ℤ × ℤ)
    (hw : ref ≠ 0 → c.weight (Slice.weight S ref) = w) :
    (if (ref : ℤ) = 0 then v else wp6 v w.1 w.2) =
      if ref = 0 then v
      else wp6 v (c.weight (Slice.weight S ref)).1 (c.weight (Slice.weight S ref)).2 := by
  by_cases hzero : ref = 0
  · rw [if_pos (by omega), if_pos hzero]
  · rw [if_neg (by omega), if_neg hzero, hw hzero]

theorem chroma_eq {p : Part} {c : Component} (hc : c ≠ .luma) {k x y i j : ℕ}
    (hx : p.x = (4 * x : ℕ)) (hy : p.y = (4 * y : ℕ)) {ref : ℕ} (href : p.ref = ref)
    (hk : S.refs.REFPAGE ref = k) :
    chroma S (page S.toMbSize (pages k)) ⟨(page S.toMbSize (pages k)).mem, offset S.toMbSize c⟩
      p i j = some (predictedByte S pages c ref (p.mvx, p.mvy) (x * 2 + i) (y * 2 + j)) := by
  have hhalf (v : ℕ) : ((4 * v : ℕ) : ℤ).tdiv 2 = (v * 2 : ℕ) := tdiv_scale .cb v
  have hread := chromaPred_page S.toMbSize (pages k) hc (p.mvx, p.mvy) (x * 2 + i) (y * 2 + j)
  have hweight (hzero : ref ≠ 0) : c.weight (Slice.weight S ref) = (S.WC ref, S.OC ref) := by
    rw [Slice.weight, if_neg hzero]
    cases c with
    | luma => exact absurd rfl hc
    | cb => rfl
    | cr => rfl
  rw [Nat.cast_add, Nat.cast_add] at hread
  rw [predictedByte, listed, hk, Int.toNat_natCast, ← weighted_eq ref c _ _ hweight]
  simp only [chroma, hx, hy, hhalf, hread, href, Option.bind_eq_bind, Option.bind_some,
    Int.toNat_natCast]

theorem partSample_eq {p : Part} {c : Component} {k x y i j : ℕ} (hx : p.x = (4 * x : ℕ))
    (hy : p.y = (4 * y : ℕ)) {ref : ℕ} (href : p.ref = ref) (hk : S.refs.REFPAGE ref = k) :
    partSample S (page S.toMbSize (pages k)) c p i j = some
      (predictedByte S pages c ref (p.mvx, p.mvy) (x * unit c + i) (y * unit c + j)) := by
  cases c with
  | luma =>
      have hread := lumaQpel_page S.toMbSize (pages k) (p.mvx, p.mvy) (4 * x + i) (4 * y + j)
      have hweight (hzero : ref ≠ 0) :
          Component.luma.weight (Slice.weight S ref) = (S.WY ref, S.OY ref) := by
        rw [Slice.weight, if_neg hzero]
        rfl
      rw [Nat.cast_add, Nat.cast_add] at hread
      rw [predictedByte, listed, hk, Int.toNat_natCast, ← weighted_eq ref .luma _ _ hweight, unit,
        Component.scale, Nat.div_one, Nat.mul_comm x, Nat.mul_comm y]
      simp only [partSample, luma, hx, hy, hread, href, Option.bind_eq_bind, Option.bind_some,
        Int.toNat_natCast]
  | cb => exact chroma_eq pages (c := .cb) (by decide) hx hy href hk
  | cr => exact chroma_eq pages (c := .cr) (by decide) hx hy href hk

/-- The width of a macroblock, in samples of a component. -/
theorem width_eq (c : Component) : 16 / c.scale = 4 * unit c := by
  cases c <;> rfl

theorem unit_pos (c : Component) : 0 < unit c := by
  cases c <;> decide

theorem first_le (c : Component) : c.first + 4 * unit c * (4 * unit c) ≤ 384 := by
  cases c <;> decide

theorem sent_eq {p : Part} {c : Component} {a b i j : ℕ} (hx : p.x = (4 * (4 * a) : ℕ))
    (hy : p.y = (4 * (4 * b) : ℕ)) (ha : a < S.WMB) (hb : b < S.HMB) (hi : i < 4 * unit c)
    (hj : j < 4 * unit c) : sent S store c.first (16 / c.scale) p i j =
      some (store (place S c (4 * a * unit c + i) (4 * b * unit c + j))) := by
  have hfirst := first_le c
  have hdiv (v : ℕ) : ((4 * (4 * v) : ℕ) : ℤ).tdiv 16 = v :=
    (Int.ofNat_tdiv _ 16).symm.trans (congrArg Nat.cast (by omega))
  have hquot {v k : ℕ} (hk : k < 4 * unit c) :
      (4 * v * unit c + k) / (4 * unit c) = v ∧ (4 * v * unit c + k) % (4 * unit c) = k := by
    rw [show 4 * v * unit c + k = k + 4 * unit c * v by ring, Nat.add_mul_div_left _ _ (by omega),
      Nat.div_eq_of_lt hk, Nat.add_mul_mod_self_left, Nat.mod_eq_of_lt hk, Nat.zero_add]
    exact ⟨rfl, rfl⟩
  have hrow : 4 * unit c * j + i < 4 * unit c * (4 * unit c) := by
    have hle : 4 * unit c * (j + 1) ≤ 4 * unit c * (4 * unit c) := Nat.mul_le_mul_left _ hj
    rw [Nat.mul_succ] at hle
    omega
  have hmb : b * S.WMB + a < S.mbs := by
    rw [MbSize.mbs, Nat.mul_comm S.WMB]
    exact index_lt_size ha hb le_rfl
  have hindex : (p.y.tdiv 16 * S.WMB + p.x.tdiv 16) * 384 +
      ((c.first + 4 * unit c * j + i : ℕ) : ℤ) =
      ((b * S.WMB + a) * 384 + (c.first + j * (4 * unit c) + i) : ℕ) := by
    rw [hx, hy, hdiv, hdiv, Nat.mul_comm j]
    push_cast
    ring
  rw [sent, place, width_eq, (hquot hi).1, (hquot hi).2, (hquot hj).1, (hquot hj).2, hindex]
  refine get_of_lt store ?_
  rw [Nat.mul_comm j]
  omega

/-- **A partition in one plane.** -/
theorem paint_eq {p : Part} {x y w : ℕ} (hp : Sits S p x y w) (hlist : Listed S)
    (hkind : p.ref < 0 ∧ w = 4 ∧ x % 4 = 0 ∧ y % 4 = 0 ∨ ∃ ref : ℕ, p.ref = ref ∧ ref < S.refs.NREF)
    (c : Component) (plane : ℕ → UInt8) :
    paint S pages store c plane p = some fun a =>
      if Inside (S.WMB * (4 * unit c)) (x * unit c) (y * unit c) (w * unit c) (w * unit c) a then
        shown S pages store c p (a % (S.WMB * (4 * unit c))) (a / (S.WMB * (4 * unit c)))
      else plane a := by
  have hu := unit_pos c
  have hright : x * unit c + w * unit c ≤ S.WMB * (4 * unit c) := by
    rw [← Nat.add_mul, ← Nat.mul_assoc, Nat.mul_comm S.WMB]
    exact Nat.mul_le_mul_right _ hp.right
  have hsize : (y * unit c + w * unit c) * (S.WMB * (4 * unit c)) ≤
      S.WMB * (4 * unit c) * (S.HMB * (4 * unit c)) := by
    rw [Nat.mul_comm _ (S.HMB * (4 * unit c)), ← Nat.add_mul, ← Nat.mul_assoc S.HMB,
      Nat.mul_comm S.HMB]
    exact Nat.mul_le_mul_right _ (Nat.mul_le_mul_right _ hp.bottom)
  rw [paint]
  simp only [hp.x_eq, hp.y_eq, tdiv_scale, width_eq]
  rcases hkind with ⟨hsent, rfl, hx, hy⟩ | ⟨ref, href, hlt⟩
  · rw [if_pos hsent]
    obtain ⟨a, rfl⟩ : ∃ a, x = 4 * a := ⟨x / 4, by omega⟩
    obtain ⟨b, rfl⟩ : ∃ b, y = 4 * b := ⟨y / 4, by omega⟩
    have hleft := hp.right
    have htop := hp.bottom
    refine rect_at hright hsize (fun i hi j hj => ?_) plane
    rw [shown, if_pos hsent]
    have hread := sent_eq (S := S) (c := c) store hp.x_eq hp.y_eq (by omega) (by omega) hi hj
    rwa [width_eq c] at hread
  · obtain ⟨hnonneg, hpage⟩ := hlist.page ref hlt
    obtain ⟨k, hk⟩ := Int.eq_ofNat_of_zero_le hnonneg
    have hget : get References.MAXREF S.refs.REFPAGE p.ref = some (k : ℤ) := by
      rw [href, get_of_lt _ (lt_of_lt_of_le hlt hlist.NREF_le)]
      exact congrArg some hk
    have hpageGet : get 16 (fun k => page S.toMbSize (pages k)) (k : ℤ) =
        some (page S.toMbSize (pages k)) := get_of_lt _ (by omega)
    rw [if_neg (by omega), hget, Option.bind_eq_bind, Option.bind_some, hpageGet,
      Option.bind_eq_bind, Option.bind_some, hp.w_eq, hp.h_eq, tdiv_scale, Int.toNat_natCast]
    refine rect_at hright hsize (fun i _ j _ => ?_) plane
    rw [shown, if_neg (by omega), href, Int.toNat_natCast]
    exact partSample_eq pages hp.x_eq hp.y_eq href hk

/-! ### The partition that shows -/

/-- Block and macroblock of a sample, by its place in the plane. -/
def column (S : MbSize) (c : Component) (a : ℕ) : ℕ := a % (S.WMB * (4 * unit c)) / unit c

def row (S : MbSize) (c : Component) (a : ℕ) : ℕ := a / (S.WMB * (4 * unit c)) / unit c

def mbAt (S : MbSize) (c : Component) (a : ℕ) : ℕ :=
  row S c a / 4 * S.WMB + column S c a / 4

variable (S) in
/-- The partition covers the sample. -/
def covers (c : Component) (p : Part) (a : ℕ) : Bool :=
  decide (Inside (S.WMB * (4 * unit c)) ((p.x / 4).toNat * unit c) ((p.y / 4).toNat * unit c)
    ((p.w / 4).toNat * unit c) ((p.w / 4).toNat * unit c) a)

theorem Sits.covers_iff {p : Part} {x y w : ℕ} (hp : Sits S p x y w) (c : Component) (a : ℕ) :
    covers S c p a = true ↔
      Inside (S.WMB * (4 * unit c)) (x * unit c) (y * unit c) (w * unit c) (w * unit c) a := by
  have hquot (v : ℕ) : (((4 * v : ℕ) : ℤ) / 4).toNat = v := by omega
  rw [covers, decide_eq_true_iff, hp.x_eq, hp.y_eq, hp.w_eq, hquot, hquot, hquot]

theorem inside_blocks {stride x y w u a : ℕ} (hu : 0 < u) :
    Inside stride (x * u) (y * u) (w * u) (w * u) a ↔
      (x ≤ a % stride / u ∧ a % stride / u < x + w) ∧
        y ≤ a / stride / u ∧ a / stride / u < y + w := by
  rw [Inside, ← Nat.add_mul, ← Nat.add_mul, Nat.le_div_iff_mul_le hu, Nat.le_div_iff_mul_le hu,
    Nat.div_lt_iff_lt_mul hu, Nat.div_lt_iff_lt_mul hu]

/-- A partition of macroblock `m` covers nothing else. -/
theorem covers_partition {p : Part} {m : ℕ} {q : Partition} (hx : q.x + q.w ≤ 4)
    (hy : q.y + q.w ≤ 4) (hp : Sits S p (S.x4 m + q.x) (S.y4 m + q.y) q.w) (c : Component) (a : ℕ) :
    covers S c p a = true ↔
      mbAt S.toMbSize c a = m ∧ q.covers (column S.toMbSize c a % 4) (row S.toMbSize c a % 4) := by
  have hu := unit_pos c
  have hstride : 0 < S.WMB * (4 * unit c) := Nat.mul_pos S.WMB_pos (by omega)
  have hcolumn : column S.toMbSize c a < 4 * S.WMB := by
    rw [column, Nat.div_lt_iff_lt_mul hu]
    exact lt_of_lt_of_eq (Nat.mod_lt a hstride) (by ring)
  have hblock := inside_iff (W := S.WMB) (m := m) (j := row S.toMbSize c a) hcolumn hx hy
  rw [hp.covers_iff, inside_blocks hu, q.covers_iff, mbAt, MbSize.x4, MbSize.y4, and_assoc]
  exact hblock

/-- **The partition that shows** is one of the sample's own macroblock. -/
theorem find_part {mbs : List Macroblock} {c : Component} {a : ℕ}
    (hown : ∀ k mb, mbs[k]? = some mb → ∀ p ∈ partsOf S k mb, covers S c p a = true →
      mbAt S.toMbSize c a = k) :
    (partsIn S mbs).reverse.find? (covers S c · a) =
      mbs[mbAt S.toMbSize c a]?.bind fun mb =>
        (partsOf S (mbAt S.toMbSize c a) mb).reverse.find? (covers S c · a) := by
  induction mbs using List.reverseRec with
  | nil => rfl
  | append_singleton mbs mb ih =>
      have hrest := ih fun k mb' hk => hown k mb' (by
        obtain ⟨hlt, rfl⟩ := List.getElem?_eq_some_iff.mp hk
        rw [List.getElem?_append_left hlt, hk])
      have hlast := hown mbs.length mb (List.getElem?_concat_length)
      rw [Slice.partsIn_append, List.reverse_append, List.find?_append, hrest]
      rcases Nat.lt_trichotomy (mbAt S.toMbSize c a) mbs.length with hlt | heq | hgt
      · have hnone : (partsOf S mbs.length mb).reverse.find? (covers S c · a) = none := by
          rw [List.find?_eq_none]
          intro p hp hcovers
          exact hlt.ne (hlast p (List.mem_reverse.mp hp) hcovers)
        rw [hnone, Option.none_or, List.getElem?_append_left hlt]
      · rw [heq, List.getElem?_concat_length, List.getElem?_eq_none le_rfl, Option.bind_none,
          Option.or_none, Option.bind_some]
      · have hnone : (partsOf S mbs.length mb).reverse.find? (covers S c · a) = none := by
          rw [List.find?_eq_none]
          intro p hp hcovers
          exact hgt.ne' (hlast p (List.mem_reverse.mp hp) hcovers)
        rw [hnone, Option.none_or, List.getElem?_eq_none hgt.le, List.getElem?_eq_none (by
          rw [List.length_append, List.length_singleton]
          omega)]

/-! ### The records of a macroblock -/

variable (S) in
/-- The places in the picture keep in 16 bits. -/
structure Small : Prop where
  W_le : S.W ≤ 2 ^ 13
  H_le : S.H ≤ 2 ^ 13

theorem int16_place {v n : ℕ} (hn : n * 16 ≤ 2 ^ 13) (hv : v < 4 * n) :
    int16 ((v : ℤ) * 4) = (4 * v : ℕ) := by
  have hkeep : Is16 ((v : ℤ) * 4) := ⟨by omega, by omega⟩
  rw [int16_eq hkeep]
  omega

theorem partOf_sits (hsmall : Small S) {m : ℕ} (hm : m < S.mbs) {q : Partition}
    (hx : q.x + q.w ≤ 4) (hy : q.y + q.w ≤ 4) (hw : 0 < q.w) :
    Sits S (partOf S m q) (S.x4 m + q.x) (S.y4 m + q.y) q.w := by
  obtain ⟨hcol, hrow⟩ := place_lt hm
  have hleft := int16_place (v := S.x4 m + q.x) hsmall.W_le (by rw [MbSize.x4]; omega)
  have htop := int16_place (v := S.y4 m + q.y) hsmall.H_le (by rw [MbSize.y4]; omega)
  refine ⟨?_, ?_, ?_, ?_, ?_, ?_⟩
  · simp only [partOf, hleft]
  · simp only [partOf, htop]
  · simp only [partOf]
    omega
  · simp only [partOf]
    omega
  · rw [MbSize.x4]
    omega
  · rw [MbSize.y4]
    omega

theorem partOf_ref (m : ℕ) {q : Partition} (href : q.ref < References.MAXREF)
    (hmv : Is16 q.mv.1 ∧ Is16 q.mv.2) : (partOf S m q).ref = q.ref ∧
      ((partOf S m q).mvx, (partOf S m q).mvy) = q.mv := by
  rw [References.MAXREF] at href
  have hkeep : Is16 (q.ref : ℤ) := ⟨by omega, by omega⟩
  have hsame := int16_eq hkeep
  have hx := int16_eq hmv.1
  have hy := int16_eq hmv.2
  refine ⟨?_, ?_⟩
  · simp only [partOf, hsame]
  · simp only [partOf, hx, hy]

/-- A partition that a decoder can predict. -/
structure Sound (S : Setting) (q : Partition) : Prop where
  right : q.x + q.w ≤ 4
  bottom : q.y + q.w ≤ 4
  width_pos : 0 < q.w
  ref_lt : q.ref < S.refs.NREF
  mv : Is16 q.mv.1 ∧ Is16 q.mv.2

/-- The partitions of a macroblock that is predicted. -/
def partitions : Macroblock → List Partition
  | .skip mv => [⟨0, 0, 4, 0, mv⟩]
  | .inter parts => parts
  | _ => []

/-- What a macroblock of a render can be. -/
inductive Renders (S : Setting) (m : ℕ) : Macroblock → Prop
  | predicted {mb : Macroblock} (hmb : (∃ mv, mb = .skip mv) ∨ ∃ parts, mb = .inter parts)
      (hsound : ∀ q ∈ partitions mb, Sound S q)
      (hcovers : ∀ i < 4, ∀ j < 4, ∃ q ∈ partitions mb, q.covers i j = true) : Renders S m mb
  | sent {pcm : List UInt8} (hpcm : S.pcm m = some pcm) : Renders S m (.pcm (pcm.map UInt8.toNat))

theorem blocks8_cover (m : ℕ) {p i j : ℕ} (hi : i / 2 = p % 2) (hj : j / 2 = p / 2) :
    ∃ k ∈ S.blocks8 m p, k.partition.covers i j = true := by
  rw [Setting.blocks8]
  simp only
  split
  · refine ⟨_, List.mem_singleton_self _, (Partition.covers_iff _ i j).mpr ?_⟩
    simp only [Slice.Block.partition]
    omega
  · have hs : j % 2 * 2 + i % 2 < 4 := by omega
    refine ⟨_, List.mem_map_of_mem (List.mem_range.mpr hs), (Partition.covers_iff _ i j).mpr ?_⟩
    simp only [Slice.Block.partition]
    omega

/-- **Every block** of a macroblock has a partition. -/
theorem blocks_cover (m : ℕ) {i j : ℕ} (hi : i < 4) (hj : j < 4) :
    ∃ k ∈ S.blocks m, k.partition.covers i j = true := by
  rw [Setting.blocks]
  split
  · refine ⟨_, List.mem_singleton_self _, (Partition.covers_iff _ i j).mpr ?_⟩
    simp only [Slice.Block.partition]
    omega
  · obtain ⟨k, hk, hcovers⟩ := blocks8_cover (S := S) m (p := j / 2 * 2 + i / 2) (i := i) (j := j)
      (by omega) (by omega)
    have hp : j / 2 * 2 + i / 2 < 4 := by omega
    exact ⟨k, List.mem_flatMap.mpr ⟨_, List.mem_range.mpr hp, hk⟩, hcovers⟩

/-- **What is meant** by a macroblock. -/
theorem renders_meant (D : Slice.Drawing) {m : ℕ} (hm : m < D.mbs) (mbs : List Macroblock) :
    Renders D.toSetting m (Slice.meant D.toSetting mbs m) := by
  have hwhole {q : Partition} (hq : q ∈ [(⟨0, 0, 4, 0, (0, 0)⟩ : Partition)]) :
      Sound D.toSetting q := by
    rw [List.mem_singleton] at hq
    subst hq
    exact ⟨le_rfl, le_rfl, by decide, D.NREF_pos, is16_zero, is16_zero⟩
  have hall (i j : ℕ) (hi : i < 4) (hj : j < 4) :
      ∃ q ∈ [(⟨0, 0, 4, 0, (0, 0)⟩ : Partition)], q.covers i j = true :=
    ⟨_, List.mem_singleton_self _, (Partition.covers_iff _ i j).mpr (by simp only; omega)⟩
  rw [Slice.meant]
  split
  · rename_i pcm hpcm
    exact .sent hpcm
  · split
    · refine .predicted (.inr ⟨_, rfl⟩) ?_ ?_
      · intro q hq
        obtain ⟨k, hk, rfl⟩ := List.mem_map.mp hq
        have hfits := Slice.blocks_fit D hm hk
        exact ⟨hfits.right, hfits.bottom, hfits.width_pos, hfits.ref_lt, hfits.mv⟩
      · intro i hi j hj
        obtain ⟨k, hk, hcovers⟩ := blocks_cover (S := D.toSetting) m hi hj
        exact ⟨_, List.mem_map_of_mem hk, hcovers⟩
    · split
      · exact .predicted (.inl ⟨_, rfl⟩) (fun q hq => hwhole hq) fun i hi j hj => hall i j hi hj
      · exact .predicted (.inr ⟨_, rfl⟩) (fun q hq => hwhole hq) fun i hi j hj => hall i j hi hj

/-- A record, and the partition that it is of. -/
structure Record (S : Setting) (m : ℕ) (p : Part) (q : Partition) : Prop where
  sits : Sits S p (S.x4 m + q.x) (S.y4 m + q.y) q.w
  right : q.x + q.w ≤ 4
  bottom : q.y + q.w ≤ 4
  kind : p.ref < 0 ∧ q.x = 0 ∧ q.y = 0 ∧ q.w = 4 ∨ ∃ ref : ℕ, p.ref = ref ∧ ref < S.refs.NREF

theorem Sound.record (hsmall : Small S) (hlist : Listed S) {m : ℕ} (hm : m < S.mbs) {q : Partition}
    (hq : Sound S q) : Record S m (partOf S m q) q where
  sits := partOf_sits hsmall hm hq.right hq.bottom hq.width_pos
  right := hq.right
  bottom := hq.bottom
  kind := .inr ⟨q.ref, (partOf_ref m (lt_of_lt_of_le hq.ref_lt hlist.NREF_le) hq.mv).1, hq.ref_lt⟩

/-- The record of samples is that of the whole macroblock. -/
theorem sent_record (hsmall : Small S) {m : ℕ} (hm : m < S.mbs) :
    Record S m ⟨int16 (S.x4 m * 4), int16 (S.y4 m * 4), 16, 16, -1, 0, 0⟩ ⟨0, 0, 4, 0, (0, 0)⟩ := by
  have hsits := partOf_sits (q := ⟨0, 0, 4, 0, (0, 0)⟩) hsmall hm le_rfl le_rfl (by decide)
  exact ⟨⟨hsits.x_eq, hsits.y_eq, rfl, rfl, hsits.right, hsits.bottom⟩, le_rfl, le_rfl,
    .inl ⟨show (-1 : ℤ) < 0 by decide, rfl, rfl, rfl⟩⟩

theorem partsOf_predicted {m : ℕ} {mb : Macroblock}
    (hmb : (∃ mv, mb = .skip mv) ∨ ∃ parts, mb = .inter parts) :
    partsOf S m mb = (partitions mb).map (partOf S m) := by
  rcases hmb with ⟨mv, rfl⟩ | ⟨parts, rfl⟩ <;> rfl

theorem Renders.record (hsmall : Small S) (hlist : Listed S) {m : ℕ} (hm : m < S.mbs)
    {mb : Macroblock} (h : Renders S m mb) {p : Part} (hp : p ∈ partsOf S m mb) :
    ∃ q, Record S m p q := by
  cases h with
  | predicted hmb hsound _ =>
      rw [partsOf_predicted hmb] at hp
      obtain ⟨q, hq, rfl⟩ := List.mem_map.mp hp
      exact ⟨q, (hsound q hq).record hsmall hlist hm⟩
  | sent hpcm =>
      obtain rfl := List.mem_singleton.mp hp
      exact ⟨_, sent_record hsmall hm⟩

/-- A record in one plane. -/
theorem Record.paint_eq {m : ℕ} {p : Part} {q : Partition} (h : Record S m p q) (hlist : Listed S)
    (c : Component) (plane : ℕ → UInt8) :
    paint S pages store c plane p = some fun a => if covers S c p a then
      shown S pages store c p (a % (S.WMB * (4 * unit c))) (a / (S.WMB * (4 * unit c)))
      else plane a := by
  have hkind : p.ref < 0 ∧ q.w = 4 ∧ (S.x4 m + q.x) % 4 = 0 ∧ (S.y4 m + q.y) % 4 = 0 ∨
      ∃ ref : ℕ, p.ref = ref ∧ ref < S.refs.NREF := by
    refine h.kind.imp (fun hsent => ⟨hsent.1, hsent.2.2.2, ?_, ?_⟩) id
    · rw [hsent.2.1, MbSize.x4]
      omega
    · rw [hsent.2.2.1, MbSize.y4]
      omega
  rw [CpuModel.paint_eq pages store h.sits hlist hkind]
  exact congrArg some (funext fun a => if_congr (h.sits.covers_iff c a).symm rfl rfl)

/-! ### A sample of the decoder -/

theorem getElem?_picture (S : Setting) {n m : ℕ} (hm : m < n) :
    (Slice.picture S n)[m]? = some (Slice.meant S (Slice.picture S m) m) := by
  induction n with
  | zero => omega
  | succ n ih =>
      rw [Slice.picture]
      rcases Nat.lt_or_ge m n with hlt | hge
      · rw [List.getElem?_append_left (by rwa [Slice.length_picture]), ih hlt]
      · obtain rfl : m = n := by omega
        rw [List.getElem?_append_right (Slice.length_picture S m).le, Slice.length_picture,
          Nat.sub_self]
        rfl

theorem partitions_field {mb : Macroblock}
    (hmb : (∃ mv, mb = .skip mv) ∨ ∃ parts, mb = .inter parts) {i j : ℕ} (hi : i < 4) (hj : j < 4) :
    mb.field i j = motionIn (partitions mb) i j ∧ mb.field1 i j = some unused := by
  rcases hmb with ⟨mv, rfl⟩ | ⟨parts, rfl⟩
  · have hcovers : (⟨0, 0, 4, 0, mv⟩ : Partition).covers i j = true :=
      (Partition.covers_iff _ i j).mpr (by simp only; omega)
    refine ⟨?_, rfl⟩
    rw [partitions, motionIn, List.reverse_singleton, List.find?_cons, hcovers]
    rfl
  · exact ⟨rfl, rfl⟩

variable (S) in
/-- The reference list of a render. -/
def listPictures : List (Option Picture) :=
  (List.range S.refs.NREF).map fun i => some (listed S pages i)

/-- **A predicted sample**, weighted. -/
theorem fromOne_eq {ref : ℕ} (href : ref < S.refs.NREF) (c : Component) (mv : ℤ × ℤ) (x y : ℕ) :
    fromOne c (some ⟨6, 6, (List.range S.refs.NREF).map (Slice.weight S)⟩) (listPictures S pages)
      ⟨ref, mv⟩ x y = some ((predictedByte S pages c ref mv x y).toNat : ℤ) := by
  have hentry : entry (listPictures S pages) ⟨ref, mv⟩ = some (listed S pages ref) := by
    rw [entry, Int.toNat_natCast, listPictures, List.getElem?_map, List.getElem?_range href]
    rfl
  have hweight : ((List.range S.refs.NREF).map (Slice.weight S))[ref]? =
      some (Slice.weight S ref) := by
    rw [List.getElem?_map, List.getElem?_range href]
    rfl
  have hv : 0 ≤ c.fetch (listed S pages ref) mv x y ∧ c.fetch (listed S pages ref) mv x y ≤ 255 :=
    fetch_bounds S.toMbSize (pages (S.refs.REFPAGE ref).toNat) c mv x y
  rw [fromOne, hentry, Option.bind_eq_bind, Option.bind_some]
  simp only [Int.toNat_natCast, hweight, Option.bind_eq_bind, Option.bind_some]
  refine congrArg some ?_
  have hdenom : c.log2Denom ⟨6, 6, (List.range S.refs.NREF).map (Slice.weight S)⟩ = 6 := by
    cases c <;> rfl
  rw [hdenom, predictedByte]
  by_cases hzero : ref = 0
  · have hdefault : c.weight (Slice.weight S ref) = (2 ^ 6, 0) := by
      rw [Slice.weight, if_pos hzero]
      cases c <;> rfl
    rw [if_pos hzero, hdefault, (weigh_eq hv 0 0).1]
    exact (toNat_ofInt hv).symm
  · rw [if_neg hzero, wp6, toNat_ofInt (clip1_bounds _)]
    exact (weigh_eq hv _ _).2

/-- A picture that was read from the slice of a render. -/
structure Coded (D : Slice.Drawing) (p : AvcStream.CodedPicture) : Prop where
  width : p.sets.sps.picWidthInMbs = D.WMB
  height : p.sets.sps.picHeightInMbs = D.HMB
  weights : p.header.weights = some ⟨6, 6, (List.range D.refs.NREF).map (Slice.weight D.toSetting)⟩
  filter : p.header.filterOffsets = none
  mbs : p.mbs = Slice.picture D.toSetting D.mbs

/-- The samples that were sent are in `g_pcmstore`. -/
def Stored (S : Setting) (store : ℕ → UInt8) : Prop :=
  ∀ m < S.mbs, ∀ pcm, S.pcm m = some pcm → ∀ i < 384, pcm[i]? = some (store (m * 384 + i))

theorem unit_div (c : Component) (v : ℕ) :
    v / (4 * unit c) = v / unit c / 4 ∧ v % (4 * unit c) / unit c = v / unit c % 4 := by
  refine ⟨?_, ?_⟩
  · rw [Nat.mul_comm, Nat.div_div_eq_div_mul]
  · rw [Nat.mul_comm, Nat.mod_mul_right_div_self]

/-- The sample of a macroblock that is predicted. -/
theorem decodeSample_predicted {p : AvcStream.CodedPicture} {L : Lists} {c : Component} {x y : ℕ}
    {mb : Macroblock} (hmb : (∃ mv, mb = .skip mv) ∨ ∃ parts, mb = .inter parts)
    (hget : p.mbs[y / (16 / c.scale) * p.sets.sps.picWidthInMbs + x / (16 / c.scale)]? = some mb)
    {m0 m1 : AvcMotion.Motion}
    (h0 : mb.field (x % (16 / c.scale) / unit c) (y % (16 / c.scale) / unit c) = some m0)
    (h1 : mb.field1 (x % (16 / c.scale) / unit c) (y % (16 / c.scale) / unit c) = some m1) :
    decodeSample p L c x y = predicted c p.header.weights L m0 m1 x y := by
  rw [unit] at h0 h1
  rw [decodeSample]
  simp only [hget, Option.bind_eq_bind, Option.bind_some]
  rcases hmb with ⟨mv, rfl⟩ | ⟨parts, rfl⟩
  · simp only [h0, h1, Option.bind_some]
  · simp only [h0, h1, Option.bind_some]

theorem inner_lt (c : Component) (x y : ℕ) :
    c.first + y % (4 * unit c) * (4 * unit c) + x % (4 * unit c) < 384 := by
  have hu := unit_pos c
  have hfirst := first_le c
  have hrow := index_lt_size (Nat.mod_lt x (show 0 < 4 * unit c by omega))
    (Nat.mod_lt y (show 0 < 4 * unit c by omega)) le_rfl
  omega

theorem mbAt_lt {S : MbSize} {c : Component} {a : ℕ}
    (ha : a < S.WMB * (4 * unit c) * (S.HMB * (4 * unit c))) :
    mbAt S c a < S.mbs := by
  have hu := unit_pos c
  have hstride : 0 < S.WMB * (4 * unit c) := Nat.mul_pos S.WMB_pos (by omega)
  have hcolumn : column S c a / 4 < S.WMB := by
    rw [column, ← (unit_div c _).1, Nat.div_lt_iff_lt_mul (by omega)]
    exact Nat.mod_lt a hstride
  have hrow : row S c a / 4 < S.HMB := by
    rw [row, ← (unit_div c _).1, Nat.div_lt_iff_lt_mul (by omega)]
    exact Nat.div_lt_of_lt_mul ha
  rw [mbAt, MbSize.mbs, Nat.mul_comm S.WMB]
  exact index_lt_size hcolumn hrow le_rfl

section Sample

variable {D : Slice.Drawing} {p : AvcStream.CodedPicture} {L : Lists} {c : Component} {a : ℕ}

/-- The partition that shows, and the motion that the decoder takes. -/
theorem find_partition (hlist : Listed D.toSetting) (hsmall : Small D.toSetting)
    (ha : a < D.WMB * (4 * unit c) * (D.HMB * (4 * unit c))) {mb : Macroblock}
    (hsound : ∀ q ∈ partitions mb, Sound D.toSetting q)
    (hcovers : ∀ i < 4, ∀ j < 4, ∃ q ∈ partitions mb, q.covers i j = true) :
    let i := column D.toMbSize c a % 4
    let j := row D.toMbSize c a % 4
    ∃ q, Sound D.toSetting q ∧ motionIn (partitions mb) i j = some ⟨q.ref, q.mv⟩ ∧
      ((partitions mb).map (partOf D.toSetting (mbAt D.toMbSize c a))).reverse.find?
        (covers D.toSetting c · a) = some (partOf D.toSetting (mbAt D.toMbSize c a) q) := by
  intro i j
  have hm := mbAt_lt ha
  obtain ⟨q₀, hq₀, hcovers₀⟩ := hcovers i (Nat.mod_lt _ (by decide)) j (Nat.mod_lt _ (by decide))
  have hsome : ((partitions mb).reverse.find? (·.covers i j)).isSome :=
    List.find?_isSome.mpr ⟨q₀, List.mem_reverse.mpr hq₀, hcovers₀⟩
  obtain ⟨q, hfound⟩ := Option.isSome_iff_exists.mp hsome
  have hq := hsound q (List.mem_reverse.mp (List.mem_of_find?_eq_some hfound))
  refine ⟨q, hq, by rw [motionIn, hfound]; rfl, ?_⟩
  have hsame : ∀ q ∈ (partitions mb).reverse,
      covers D.toSetting c (partOf D.toSetting (mbAt D.toMbSize c a) q) a = q.covers i j := by
    intro q hq
    have hrecord := (hsound q (List.mem_reverse.mp hq)).record hsmall hlist hm
    have hiff := covers_partition hrecord.right hrecord.bottom hrecord.sits c a
    rw [Bool.eq_iff_iff, hiff]
    exact and_iff_right rfl
  rw [← List.map_reverse, List.find?_map]
  refine (congrArg (Option.map _) (List.find?_congr hsame)).trans ?_
  rw [hfound]
  rfl

theorem decodeSample_sent {x y : ℕ} {pcm : List UInt8}
    (hget : p.mbs[y / (16 / c.scale) * p.sets.sps.picWidthInMbs + x / (16 / c.scale)]? =
      some (.pcm (pcm.map UInt8.toNat))) {byte : UInt8}
    (hbyte : pcm[c.first + y % (16 / c.scale) * (16 / c.scale) + x % (16 / c.scale)]? =
      some byte) : decodeSample p L c x y = some (byte.toNat : ℤ) := by
  rw [decodeSample]
  simp only [hget, Option.bind_eq_bind, Option.bind_some, List.getElem?_map, hbyte]
  rfl

theorem find_sent (hsmall : Small D.toSetting)
    (ha : a < D.WMB * (4 * unit c) * (D.HMB * (4 * unit c))) {samples : List ℕ} :
    (partsOf D.toSetting (mbAt D.toMbSize c a) (.pcm samples)).reverse.find?
        (covers D.toSetting c · a) =
      some ⟨int16 (D.x4 (mbAt D.toMbSize c a) * 4), int16 (D.y4 (mbAt D.toMbSize c a) * 4), 16, 16,
        -1, 0, 0⟩ := by
  have hrecord := sent_record (S := D.toSetting) hsmall (mbAt_lt ha)
  have hwhole : (⟨0, 0, 4, 0, (0, 0)⟩ : Partition).covers (column D.toMbSize c a % 4)
      (row D.toMbSize c a % 4) = true := (Partition.covers_iff _ _ _).mpr (by simp only; omega)
  have hcovers := (covers_partition hrecord.right hrecord.bottom hrecord.sits c a).mpr
    ⟨rfl, hwhole⟩
  exact List.find?_cons_of_pos hcovers

/-- **A sample**: what the partitions show is what the decoder makes of the macroblocks. -/
theorem sample_eq (hlist : Listed D.toSetting) (hsmall : Small D.toSetting)
    (hstore : Stored D.toSetting store) (hp : Coded D p)
    (hL : L.list0 = listPictures D.toSetting pages)
    (ha : a < D.WMB * (4 * unit c) * (D.HMB * (4 * unit c))) :
    let x := a % (D.WMB * (4 * unit c))
    let y := a / (D.WMB * (4 * unit c))
    ∃ byte, ((partsIn D.toSetting (Slice.picture D.toSetting D.mbs)).reverse.find?
        (covers D.toSetting c · a)).map (shown D.toSetting pages store c · x y) = some byte ∧
      decodeSample p L c x y = some (byte.toNat : ℤ) := by
  intro x y
  have hm := mbAt_lt ha
  have hmb := getElem?_picture D.toSetting hm
  have hown : ∀ k mb, (Slice.picture D.toSetting D.mbs)[k]? = some mb →
      ∀ p ∈ partsOf D.toSetting k mb, covers D.toSetting c p a = true →
        mbAt D.toMbSize c a = k := by
    intro k mb hk p hp hcovers
    have hlt : k < D.mbs := by
      obtain ⟨hlt, -⟩ := List.getElem?_eq_some_iff.mp hk
      rwa [Slice.length_picture] at hlt
    rw [getElem?_picture D.toSetting hlt] at hk
    obtain rfl := Option.some.inj hk
    obtain ⟨q, hq⟩ := (renders_meant D hlt _).record hsmall hlist hlt hp
    exact ((covers_partition hq.right hq.bottom hq.sits c a).mp hcovers).1
  rw [find_part hown, hmb, Option.bind_some]
  have hrenders := renders_meant D hm (Slice.picture D.toSetting (mbAt D.toMbSize c a))
  generalize Slice.meant D.toSetting (Slice.picture D.toSetting (mbAt D.toMbSize c a))
    (mbAt D.toMbSize c a) = mb at *
  have hget : p.mbs[y / (16 / c.scale) * p.sets.sps.picWidthInMbs + x / (16 / c.scale)]? =
      some mb := by
    rw [hp.mbs, hp.width, width_eq c, (unit_div c y).1, (unit_div c x).1]
    exact hmb
  cases hrenders with
  | predicted hkind hsound hcovers =>
      obtain ⟨q, hq, hmotion, hfind⟩ := find_partition hlist hsmall ha hsound hcovers
      obtain ⟨hfield, hfield1⟩ := partitions_field hkind
        (Nat.mod_lt (column D.toMbSize c a) (show 0 < 4 by decide))
        (Nat.mod_lt (row D.toMbSize c a) (show 0 < 4 by decide))
      have hplace (v : ℕ) : v % (16 / c.scale) / unit c = v / unit c % 4 := by
        rw [width_eq c]
        exact (unit_div c v).2
      obtain ⟨href, hmv⟩ := partOf_ref (S := D.toSetting) (mbAt D.toMbSize c a)
        (lt_of_lt_of_le hq.ref_lt hlist.NREF_le) hq.mv
      refine ⟨predictedByte D.toSetting pages c q.ref q.mv x y, ?_, ?_⟩
      · rw [partsOf_predicted hkind, hfind, Option.map_some, shown, href, if_neg (by omega), hmv,
          Int.toNat_natCast]
      · rw [decodeSample_predicted hkind hget
          (by rw [hplace, hplace]; exact hfield.trans hmotion)
          (by rw [hplace, hplace]; exact hfield1), predicted, if_neg (by simp only; omega),
          if_pos (show unused.ref < 0 by decide), hp.weights, hL]
        exact fromOne_eq pages hq.ref_lt c q.mv x y
  | sent hpcm =>
      refine ⟨store (place D.toSetting c x y), ?_, ?_⟩
      · rw [find_sent hsmall ha, Option.map_some, shown, if_pos (show (-1 : ℤ) < 0 by decide)]
      · refine decodeSample_sent hget ?_
        rw [width_eq c, hstore _ hm _ hpcm _ (inner_lt c x y), place, width_eq c,
          (unit_div c y).1, (unit_div c x).1]
        rfl

/-- What the partitions leave in a plane. -/
def painted (S : Setting) (pages : ℕ → Planes) (store : ℕ → UInt8) (parts : List Part)
    (c : Component) (plane : ℕ → UInt8) (a : ℕ) : UInt8 :=
  ((parts.reverse.find? (covers S c · a)).map
    (shown S pages store c · (a % (S.WMB * (4 * unit c))) (a / (S.WMB * (4 * unit c))))).getD
    (plane a)

theorem paint_run (hlist : Listed D.toSetting) (hsmall : Small D.toSetting) (c : Component)
    (plane : ℕ → UInt8) :
    let parts := partsIn D.toSetting (Slice.picture D.toSetting D.mbs)
    parts.foldlM (paint D.toSetting pages store c) plane =
      some (painted D.toSetting pages store parts c plane) := by
  refine layers_eq (f := fun p a => shown D.toSetting pages store c p
    (a % (D.WMB * (4 * unit c))) (a / (D.WMB * (4 * unit c)))) ?_ plane
  intro p hp plane
  obtain ⟨⟨mb, k⟩, hmb, hp⟩ := List.mem_flatMap.mp hp
  have hk : (Slice.picture D.toSetting D.mbs)[k]? = some mb :=
    List.mem_zipIdx_iff_getElem?.mp hmb
  have hlt : k < D.mbs := by
    obtain ⟨hlt, -⟩ := List.getElem?_eq_some_iff.mp hk
    rwa [Slice.length_picture] at hlt
  rw [getElem?_picture D.toSetting hlt] at hk
  obtain rfl := Option.some.inj hk
  obtain ⟨q, hq⟩ := (renders_meant D hlt _).record hsmall hlist hlt hp
  exact hq.paint_eq pages store hlist c plane

theorem decodePlane_render (hlist : Listed D.toSetting) (hsmall : Small D.toSetting)
    (hstore : Stored D.toSetting store) (hp : Coded D p)
    (hL : L.list0 = listPictures D.toSetting pages) (c : Component) (old : ℕ → UInt8) :
    decodePlane p L c = some (plane (D.WMB * (4 * unit c)) (D.HMB * (4 * unit c))
      (painted D.toSetting pages store (partsIn D.toSetting (Slice.picture D.toSetting D.mbs))
        c old)) := by
  have hsamples (i : ℕ) (hi : i < D.WMB * (4 * unit c) * (D.HMB * (4 * unit c))) :
      decodeSample p L c (i % (D.WMB * (4 * unit c))) (i / (D.WMB * (4 * unit c))) =
        some (((painted D.toSetting pages store
          (partsIn D.toSetting (Slice.picture D.toSetting D.mbs)) c old i).toNat : ℕ) : ℤ) := by
    obtain ⟨byte, hshown, hdecode⟩ := sample_eq pages store hlist hsmall hstore hp hL hi
    rw [hdecode, painted, hshown]
    rfl
  rw [decodePlane, hp.width, hp.height, width_eq c]
  simp only [mapM_range hsamples]
  rfl

/-- **A render of the CPU model** is what the decoder makes of the slice. -/
theorem modelP_eq (hlist : Listed D.toSetting) (hsmall : Small D.toSetting)
    (hstore : Stored D.toSetting store) (hp : Coded D p)
    (hL : L.list0 = listPictures D.toSetting pages) (b : Planes) :
    ∃ b', modelP D.toSetting pages store
        (partsIn D.toSetting (Slice.picture D.toSetting D.mbs)) b = some b' ∧
      decodePicture p L = some (picture D.toMbSize b') := by
  let after (c : Component) : ℕ → UInt8 := painted D.toSetting pages store
    (partsIn D.toSetting (Slice.picture D.toSetting D.mbs)) c (bytes b c)
  refine ⟨⟨after .luma, after .cb, after .cr⟩, ?_, ?_⟩
  · refine planes_run (modelPart_eq D.toSetting pages store) fun c => ?_
    have hrun := paint_run pages store hlist hsmall c (bytes b c)
    cases c <;> exact hrun
  · have hplane (c : Component) :=
      decodePlane_render pages store hlist hsmall hstore hp hL c (bytes b c)
    rw [decodePicture, hp.filter, if_neg (by decide), hplane, hplane, hplane, picture, half_W,
      half_H]
    rfl

end Sample

end Paint

end BadgeOS.CodaCube.CpuModel
