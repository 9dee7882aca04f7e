import BadgeOS.CodaCube.Pictures
import Mathlib

/-!
# Every picture predicts from the pictures it means

A decoder runs over the stream of the cube.  The pages stay long-term pictures; in front of them the
last reference pictures of the frames slide by, as many as the options leave room for.

* `Meant` — what is meant by a picture: its place, its order count, its lists, and what is kept;
* `Paged`, `At` — the decoder among the pages, and after any number of reference pictures;
* `step_page`, `step_ref`, `step_other` — one page, one reference picture, one other picture;
* `frame_runs` — the pictures of one frame;
* `pictures_predict` — every stream, for every options, scenes and number of frames.
-/

namespace BadgeOS.CodaCube.Pictures

open Avc
open References (Frame Blocks Refs)

variable {o : Options} {s : Dpb} {h : Header} {r : Refs} {k n j m q q' d : ℕ}

/-! ### What is meant -/

/-- Page `k` as a long-term picture. -/
def pageRef (k : ℕ) : Ref := ⟨k, k, (2 * k : ℕ), some k⟩

namespace Picture

/-- Its place in the stream. -/
def position (o : Options) : Picture → ℕ
  | .page k => k
  | .render n _ => o.K + 1 + (o.smooth.value + 1) * n
  | .pass n b => o.K + 1 + (o.smooth.value + 1) * n + b

/-- Its order count. -/
def poc (o : Options) : Picture → ℕ
  | .page k => 2 * k
  | .render n _ =>
      if o.smooth = .off then 2 * (n % 16000 + 1 + o.K) else 2 * (o.K + 1) + 6 * n
  | .pass n b => 2 * (o.K + 1) + 6 * n + 2 * b

/-- What it predicts from: a render from the pages on its list, in that order, and a B-picture in
both lists from the picture before it. -/
def Predicts (d : Decoded) : Picture → Prop
  | .page _ => d.list0 = [] ∧ d.list1 = []
  | .render _ r => d.list0.length = r.NREF ∧ d.list1 = [] ∧
      ∀ i < r.NREF, ∃ page : ℕ, r.REFPAGE i = page ∧ d.list0[i]? = some (some (pageRef page))
  | .pass _ _ => ∃ ref, d.list0 = [some ref] ∧ d.list1 = [some ref] ∧ ref.pic + 1 = d.pic

/-- The order counts start again. -/
def Restarts (o : Options) : Picture → Prop
  | .render n _ => o.smooth = .off ∧ 0 < n ∧ n % 16000 = 0
  | _ => False

end Picture

structure Meant (o : Options) (p : Picture × Header) (d : Decoded) : Prop where
  pic : d.pic = p.1.position o
  poc : d.poc = p.1.poc o
  predicts : p.1.Predicts d
  bounded : d.after.refs.length ≤ (spsPps o).maxNumRefFrames
  /-- The long-term picture `k` is page `k` from then on, and no other. -/
  kept : ∀ k ≤ o.K, k ≤ d.pic →
    d.after.refs.filter (fun r => decide (r.longTerm = some k)) = [pageRef k]

/-- In decoding order the order counts rise, but where they start again. -/
def Rises (o : Options) (p p' : Picture × Header) : Prop :=
  p.1.poc o < p'.1.poc o ∨ p'.1.Restarts o

/-- From `s` to `t` the decoder makes of each picture what is meant. -/
def Follows (o : Options) (s : Dpb) (ps : List (Picture × Header)) (t : Dpb) : Prop :=
  ∃ ds, Runs (spsPps o) s (ps.map Prod.snd) ds t ∧ List.Forall₂ (Meant o) ps ds

theorem Follows.nil (o : Options) (s : Dpb) : Follows o s [] s := ⟨[], .nil s, .nil⟩

theorem Follows.cons {p : Picture × Header} {ps : List (Picture × Header)} {d : Decoded} {t : Dpb}
    (hstep : step (spsPps o) p.2 s = .ok d) (hmeant : Meant o p d)
    (hrest : Follows o d.after ps t) : Follows o s (p :: ps) t := by
  obtain ⟨ds, hrun, hall⟩ := hrest
  exact ⟨d :: ds, .cons hstep hrun, .cons hmeant hall⟩

theorem Follows.append {ps ps' : List (Picture × Header)} {t u : Dpb} (h : Follows o s ps t)
    (h' : Follows o t ps' u) : Follows o s (ps ++ ps') u := by
  obtain ⟨ds, hrun, hall⟩ := h
  obtain ⟨ds', hrun', hall'⟩ := h'
  refine ⟨ds ++ ds', ?_, List.rel_append hall hall'⟩
  rw [List.map_append]
  exact hrun.append hrun'

/-! ### The pages -/

/-- The pages below `m`, the last one in front. -/
def pages (m : ℕ) : List Ref := (List.range m).reverse.map pageRef

theorem pages_succ (m : ℕ) : pages (m + 1) = pageRef m :: pages m := by
  rw [pages, List.range_succ, List.reverse_append, List.map_append, ← pages]
  rfl

@[simp] theorem length_pages (m : ℕ) : (pages m).length = m := by
  simp [pages]

theorem mem_pages {p : Ref} : p ∈ pages m ↔ ∃ k < m, pageRef k = p := by
  simp [pages]

theorem filter_pages_self {P : Ref → Bool} (hP : ∀ k < m, P (pageRef k) = true) :
    (pages m).filter P = pages m := by
  rw [List.filter_eq_self]
  intro p hp
  obtain ⟨k, hk, rfl⟩ := mem_pages.mp hp
  exact hP k hk

theorem filter_page (hk : k < m) :
    (pages m).filter (fun r => decide (r.longTerm = some k)) = [pageRef k] := by
  induction m with
  | zero => omega
  | succ m ih =>
      rw [pages_succ]
      by_cases hkm : k = m
      · subst hkm
        have hno : (pages k).filter (fun r => decide (r.longTerm = some k)) = [] := by
          rw [List.filter_eq_nil_iff]
          intro p hp
          obtain ⟨i, hi, rfl⟩ := mem_pages.mp hp
          simp [pageRef, hi.ne]
        rw [List.filter_cons_of_pos (by simp [pageRef]), hno]
      · rw [List.filter_cons_of_neg (by simp [pageRef, Ne.symm hkm])]
        exact ih (by omega)

theorem find_page {front : List Ref} (hfront : ∀ r ∈ front, r.longTerm = none) (hk : k < m) :
    (front ++ pages m).find? (fun r => decide (r.longTerm = some k)) = some (pageRef k) := by
  have hno : front.find? (fun r => decide (r.longTerm = some k)) = none := by
    rw [List.find?_eq_none]
    intro r hr
    simp [hfront r hr]
  rw [List.find?_append, hno, Option.none_or, ← List.head?_filter, filter_page hk]
  rfl

/-- The decoder after the first `m` pages. -/
structure Paged (o : Options) (m : ℕ) (s : Dpb) : Prop where
  refs : s.refs = pages m
  indices : s.longTermIndices = if m = 1 then 1 else o.K + 1
  frameNum : s.prevRefFrameNum + 1 = m
  msb : s.prevPocMsb = 0
  lsb : s.prevPocLsb + 2 = 2 * m
  decoded : s.decoded = m

theorem lists_page (o : Options) (k : ℕ) (refs : List Ref) (poc : ℤ) :
    lists (spsPps o) (pcmPage o k) refs poc = .ok ([], []) := by
  rfl

/-- The black IDR. -/
theorem step_black (o : Options) : ∃ s, Paged o 1 s ∧
    step (spsPps o) (pcmPage o 0) Dpb.start = .ok ⟨0, 0, [], [], s⟩ := by
  have hmsb : pocMsb (spsPps o) (pcmPage o 0) Dpb.start = 0 := rfl
  have hpoc : pocOf (spsPps o) (pcmPage o 0) Dpb.start = 0 := rfl
  have hmark : mark (spsPps o) (pcmPage o 0) Dpb.start = .ok ⟨[], 1, some 0⟩ := rfl
  have hafter := update_of_mark (show 3 ≠ 0 by decide) hmark (show 0 < max _ 1 by omega)
  rw [hpoc, hmsb] at hafter
  exact ⟨_, ⟨rfl, rfl, rfl, rfl, rfl, rfl⟩, step_eq rfl hpoc (lists_page o 0 _ _) hafter⟩

/-- The marking of a page: nothing that is kept goes. -/
theorem mark_page (hs : Paged o k s) (hk : 1 ≤ k) (hkK : k ≤ o.K) :
    mark (spsPps o) (pcmPage o k) s = .ok ⟨pages k, o.K + 1, some k⟩ := by
  have hrefs := o.refs_le
  have hcurrent : operate (spsPps o) ⟨pages k, o.K + 1, none⟩ (.currentLongTerm k) =
      .ok ⟨pages k, o.K + 1, some k⟩ := by
    have hfree : (pages k).filter (fun r => decide (r.longTerm ≠ some k)) = pages k :=
      filter_pages_self fun i hi => by simp [pageRef, hi.ne]
    rw [operate, require_ok (decide_eq_true (by simp only; omega))]
    simp only [hfree]
    rfl
  have hidr : (pcmPage o k).idr = false := decide_eq_false (by omega)
  rw [mark, hidr, if_neg (by decide)]
  by_cases hfirst : k = 1
  · subst hfirst
    have hgrow : operate (spsPps o) ⟨s.refs, s.longTermIndices, none⟩
        (.maxLongTermFrameIdx (o.K + 1)) = .ok ⟨pages 1, o.K + 1, none⟩ := by
      have hkeep : (pages 1).filter (fun r => decide (∀ idx ∈ r.longTerm, idx < o.K + 1)) =
          pages 1 := filter_pages_self fun i hi => by simp [pageRef]; omega
      rw [operate, require_ok (decide_eq_true (by rw [spsPps]; simp only; omega)), hs.refs]
      simp only [hkeep]
      rfl
    change (operate _ _ _).bind _ = _
    rw [hgrow]
    change (operate _ _ _).bind _ = _
    rw [hcurrent]
    rfl
  · have hops : (pcmPage o k).operations = some [.currentLongTerm k] := by
      simp [pcmPage, hfirst, show k ≠ 0 by omega]
    rw [hops, hs.refs, hs.indices, if_neg hfirst]
    change (operate _ _ _).bind _ = _
    rw [hcurrent]
    rfl

/-- One page more. -/
theorem step_page (hs : Paged o k s) (hk : 1 ≤ k) (hkK : k ≤ o.K) : ∃ t, Paged o (k + 1) t ∧
    step (spsPps o) (pcmPage o k) s = .ok ⟨k, (2 * k : ℕ), [], [], t⟩ := by
  have hK := o.K_le
  have hnum := hs.frameNum
  have hlsb := hs.lsb
  have hidr : (pcmPage o k).idr = false := decide_eq_false (by omega)
  have hcheck : checkFrameNum (spsPps o) (pcmPage o k) s = .ok () := by
    apply checkFrameNum_next hidr (by rw [hs.decoded]; omega) (show 1 < 2 ^ 16 by decide)
    · show s.prevRefFrameNum < 2 ^ 16
      omega
    · show k % 2 ^ 16 = (s.prevRefFrameNum + 1) % 2 ^ 16
      rw [hnum]
  obtain ⟨hmsb, hpoc⟩ : pocMsb (spsPps o) (pcmPage o k) s = (2 * k : ℕ) - (2 * k % 2 ^ 16 : ℕ) ∧
      pocOf (spsPps o) (pcmPage o k) s = (2 * k : ℕ) := by
    apply pocOf_eq (p := 2 * (k - 1)) hidr
    · rw [hs.msb]
      show (0 : ℤ) = (2 * (k - 1) : ℕ) - (2 * (k - 1) % 2 ^ 16 : ℕ)
      omega
    · show s.prevPocLsb = 2 * (k - 1) % 2 ^ 16
      omega
    · rfl
    · omega
    · show 2 * k - 2 * (k - 1) < 2 ^ 16 / 2
      omega
  have hafter := update_of_mark (show 3 ≠ 0 by decide) (mark_page hs hk hkK)
    (show (pages k).length < max (1 + o.K + o.smooth.value + o.extra) 1 by
      rw [length_pages]
      omega)
  have hframe : (pcmPage o k).frameNum = k := Nat.mod_eq_of_lt (by omega)
  have hbits : (pcmPage o k).pocLsb = 2 * k := Nat.mod_eq_of_lt (by omega)
  have hstart : (2 * k : ℕ) - (2 * k % 2 ^ 16 : ℕ) = (0 : ℤ) := by omega
  rw [hs.decoded, hpoc, hmsb, hframe, hbits, hstart] at hafter
  have hstep := step_eq hcheck hpoc (lists_page o k _ _) hafter
  rw [hs.decoded] at hstep
  refine ⟨_, ⟨(pages_succ k).symm, ?_, rfl, rfl, ?_, rfl⟩, hstep⟩
  · rw [if_neg (by omega)]
  · show 2 * k + 2 = 2 * (k + 1)
    omega

theorem Paged.meant (hs : Paged o (k + 1) s) (hkK : k ≤ o.K) :
    Meant o (.page k, pcmPage o k) ⟨k, (2 * k : ℕ), [], [], s⟩ where
  pic := rfl
  poc := rfl
  predicts := ⟨rfl, rfl⟩
  bounded := by
    show s.refs.length ≤ 1 + o.K + o.smooth.value + o.extra
    rw [hs.refs, length_pages]
    omega
  kept := by
    intro i _ hi
    show s.refs.filter _ = _
    rw [hs.refs]
    exact filter_page (Nat.lt_succ_of_le hi)

/-- The pages, one after another. -/
theorem pages_run (o : Options) (hm : m ≤ o.K) : ∃ s, Paged o (m + 1) s ∧
    Follows o Dpb.start ((List.range (m + 1)).map fun k => (.page k, pcmPage o k)) s := by
  induction m with
  | zero =>
      obtain ⟨s, hs, hstep⟩ := step_black o
      exact ⟨s, hs, .cons hstep (hs.meant (Nat.zero_le _)) (.nil o s)⟩
  | succ m ih =>
      obtain ⟨s, hs, hrun⟩ := ih (by omega)
      obtain ⟨t, ht, hstep⟩ := step_page hs (by omega) hm
      refine ⟨t, ht, ?_⟩
      rw [List.range_succ, List.map_append]
      exact hrun.append (.cons hstep (ht.meant hm) (.nil o t))

/-! ### The frames -/

/-- The `e`-th reference picture behind the pages, with `--smooth`. -/
def refPic (o : Options) (e : ℕ) : Ref where
  pic := o.K + 1 + (o.smooth.value + 1) * (e / o.smooth.value) + e % o.smooth.value
  frameNum := (o.K + 1 + e) % 2 ^ 16
  poc := (2 * (o.K + 1) + 6 * (e / o.smooth.value) + 2 * (e % o.smooth.value) : ℕ)
  longTerm := none

theorem refPic_counting (o : Options) : Counting (spsPps o).maxFrameNum (o.K + 1) (refPic o) where
  shortTerm _ := rfl
  frameNum _ := rfl

/-- How many reference pictures of the frames are kept. -/
def kept (o : Options) (j : ℕ) : ℕ := min j (o.smooth.value + o.extra)

/-- The decoder behind the pages, `j` reference pictures and `d` pictures in all; `q` is the last
reference picture's order count. -/
structure At (o : Options) (j q d : ℕ) (s : Dpb) : Prop where
  refs : s.refs = recent (refPic o) j (kept o j) ++ pages (o.K + 1)
  frameNum : s.prevRefFrameNum = (o.K + j) % 2 ^ 16
  msb : s.prevPocMsb = q - (q % 2 ^ 16 : ℕ)
  lsb : s.prevPocLsb = q % 2 ^ 16
  decoded : s.decoded = d

theorem Paged.at_start (hs : Paged o (o.K + 1) s) : At o 0 (2 * o.K) (o.K + 1) s where
  refs := by
    rw [hs.refs]
    rfl
  frameNum := by
    have hK := o.K_le
    have hnum := hs.frameNum
    omega
  msb := by
    have hK := o.K_le
    rw [hs.msb]
    omega
  lsb := by
    have hK := o.K_le
    have hlsb := hs.lsb
    omega
  decoded := hs.decoded

theorem longTerm_of_mem_recent {e : Ref} (he : e ∈ recent (refPic o) j m) : e.longTerm = none := by
  obtain ⟨i, -, rfl⟩ := List.mem_map.mp he
  rfl

theorem At.bounded (hs : At o j q d s) : s.refs.length ≤ (spsPps o).maxNumRefFrames := by
  show s.refs.length ≤ 1 + o.K + o.smooth.value + o.extra
  rw [hs.refs, List.length_append, length_recent, length_pages, kept]
  omega

theorem At.kept (hs : At o j q d s) (hk : k ≤ o.K) :
    s.refs.filter (fun r => decide (r.longTerm = some k)) = [pageRef k] := by
  have hno : (recent (refPic o) j (Pictures.kept o j)).filter
      (fun r => decide (r.longTerm = some k)) = [] := by
    rw [List.filter_eq_nil_iff]
    intro e he
    simp [longTerm_of_mem_recent he]
  rw [hs.refs, List.filter_append, hno, List.nil_append]
  exact filter_page (Nat.lt_succ_of_le hk)

/-- A header that goes on from the `j`-th reference picture, with order count `q'`. -/
structure Next (o : Options) (j q' : ℕ) (h : Header) : Prop where
  idr : h.idr = false
  operations : h.operations = none
  frameNum : h.frameNum = (o.K + 1 + j) % 2 ^ 16
  pocLsb : h.pocLsb = q' % 2 ^ 16

theorem At.check (hs : At o j q d s) (hh : Next o j q' h) (hd : d ≠ 0) :
    checkFrameNum (spsPps o) h s = .ok () := by
  apply checkFrameNum_next hh.idr (by rwa [hs.decoded]) (show 1 < 2 ^ 16 by decide)
  · rw [hs.frameNum]
    exact Nat.mod_lt _ (by decide)
  · show h.frameNum = (s.prevRefFrameNum + 1) % 2 ^ 16
    rw [hh.frameNum, hs.frameNum]
    omega

theorem At.order (hs : At o j q d s) (hh : Next o j q' h) (hle : q ≤ q') (hnear : q' - q < 2 ^ 15) :
    pocMsb (spsPps o) h s = q' - (q' % 2 ^ 16 : ℕ) ∧ pocOf (spsPps o) h s = q' :=
  pocOf_eq hh.idr hs.msb hs.lsb hh.pocLsb hle (show q' - q < 2 ^ 16 / 2 by omega)

/-- A picture that is not kept. -/
theorem step_other {list0 list1 : List (Option Ref)} (hs : At o j q d s) (hh : Next o j q' h)
    (hd : d ≠ 0) (hle : q ≤ q') (hnear : q' - q < 2 ^ 15) (hidc : h.refIdc = 0)
    (hlists : lists (spsPps o) h s.refs q' = .ok (list0, list1)) :
    ∃ t, At o j q (d + 1) t ∧ step (spsPps o) h s = .ok ⟨d, q', list0, list1, t⟩ := by
  have hstep := step_eq (hs.check hh hd) (hs.order hh hle hnear).2 hlists (update_other hidc)
  rw [hs.decoded] at hstep
  exact ⟨{ s with decoded := d + 1 }, ⟨hs.refs, hs.frameNum, hs.msb, hs.lsb, rfl⟩, hstep⟩

/-- **A reference picture** comes in front, and the window slides when there is no room. -/
theorem step_ref {list0 list1 : List (Option Ref)} (hs : At o j q d s) (hh : Next o j q' h)
    (hd : d ≠ 0) (hle : q ≤ q') (hnear : q' - q < 2 ^ 15) (hidc : h.refIdc ≠ 0)
    (hsmooth : 0 < o.smooth.value)
    (href : refPic o j = ⟨d, (o.K + 1 + j) % 2 ^ 16, q', none⟩)
    (hlists : lists (spsPps o) h s.refs q' = .ok (list0, list1)) :
    ∃ t, At o (j + 1) q' (d + 1) t ∧ step (spsPps o) h s = .ok ⟨d, q', list0, list1, t⟩ := by
  have hrefs := o.refs_le
  obtain ⟨hmsb, hpoc⟩ := hs.order hh hle hnear
  obtain ⟨m, hm, hslide⟩ : ∃ m, kept o (j + 1) = m + 1 ∧ slide (spsPps o) h s.refs =
      .ok (recent (refPic o) j m ++ pages (o.K + 1)) := by
    rw [hs.refs, kept]
    rcases Nat.lt_or_ge j (o.smooth.value + o.extra) with hroom | hfull
    · refine ⟨j, by omega, ?_⟩
      rw [kept, min_eq_left hroom.le, slide, if_pos]
      rw [List.length_append, length_recent, length_pages]
      show j + (o.K + 1) < max (1 + o.K + o.smooth.value + o.extra) 1
      omega
    · obtain ⟨m, hm⟩ := Nat.exists_eq_succ_of_ne_zero
        (show o.smooth.value + o.extra ≠ 0 by omega)
      refine ⟨m, by omega, ?_⟩
      rw [kept, min_eq_right hfull, hm]
      apply slide_recent (refPic_counting o) hh.frameNum (by omega)
      · show m + 1 < 2 ^ 16
        omega
      · intro e he
        obtain ⟨i, -, rfl⟩ := mem_pages.mp he
        rfl
      · show m + 1 + (pages (o.K + 1)).length = max (1 + o.K + o.smooth.value + o.extra) 1
        rw [length_pages]
        omega
  have hafter := update_of_mark hidc (mark_slide hh.idr hh.operations hslide) (by
    show (recent (refPic o) j m ++ pages (o.K + 1)).length <
      max (1 + o.K + o.smooth.value + o.extra) 1
    rw [List.length_append, length_recent, length_pages]
    rw [kept] at hm
    omega)
  have hstep := step_eq (hs.check hh hd) hpoc hlists hafter
  rw [hs.decoded] at hstep
  refine ⟨_, ⟨?_, ?_, hmsb, hh.pocLsb, rfl⟩, hstep⟩
  · show (⟨d, h.frameNum, pocOf (spsPps o) h s, none⟩ : Ref) ::
      (recent (refPic o) j m ++ pages (o.K + 1)) = _
    rw [hpoc, hh.frameNum, ← href, hm, recent_succ_left]
    rfl
  · show h.frameNum = (o.K + (j + 1)) % 2 ^ 16
    rw [hh.frameNum]
    omega

/-- The entries of a render's list. -/
def Listed (o : Options) (r : Refs) : Prop :=
  ∀ i < r.NREF, 0 ≤ r.REFPAGE i ∧ r.REFPAGE i ≤ o.K

theorem lists_render (hs : At o j q d s) (hr : Listed o r) (fn poc : ℕ) (isRef : Bool) (c : ℤ) :
    lists (spsPps o) (encodeFrame fn poc isRef r) s.refs c =
      .ok ((List.range r.NREF).map fun i => some (pageRef (r.REFPAGE i).toNat), []) := by
  have hfind : ∀ k ∈ (List.range r.NREF).map (fun i => (r.REFPAGE i).toNat),
      s.refs.find? (fun e => decide (e.longTerm = some k)) = some (pageRef k) := by
    intro k hk
    obtain ⟨i, hi, rfl⟩ := List.mem_map.mp hk
    obtain ⟨hpos, hle⟩ := hr i (List.mem_range.mp hi)
    rw [hs.refs]
    exact find_page (fun e he => longTerm_of_mem_recent he) (by omega)
  have hlist := listOf_longTerm (P := spsPps o) (h := encodeFrame fn poc isRef r) hfind
    (initial (spsPps o) (encodeFrame fn poc isRef r) s.refs c).1
  rw [List.length_map, List.length_range, List.map_map, List.map_map] at hlist
  rw [lists]
  change (listOf (spsPps o) _ s.refs r.NREF
    ((List.range r.NREF).map (Modification.longTerm ∘ fun i => (r.REFPAGE i).toNat)) _).bind _ = _
  rw [hlist]
  rfl

theorem lists_bpic (hs : At o (j + 1) q d s) {fn poc : ℕ} {isRef : Bool}
    (hnum : u16 fn = (o.K + 1 + (j + 1)) % 2 ^ 16) (hsmooth : 0 < o.smooth.value) (c : ℤ) :
    lists (spsPps o) (encodeBpic fn poc isRef) s.refs c =
      .ok ([some (refPic o j)], [some (refPic o j)]) := by
  have hfind : s.refs.find? (fun e => decide (e.longTerm = none ∧
      frameNumWrap (spsPps o) (encodeBpic fn poc isRef) e =
        (encodeBpic fn poc isRef).frameNum - 1)) = some (refPic o j) := by
    rw [hs.refs]
    exact find_previous (refPic_counting o) hnum (Nat.succ_pos j) (by rw [kept]; omega)
      (show 1 < 2 ^ 16 by decide) _
  have hlist (init : List Ref) := listOf_previous (show 1 < 2 ^ 16 by decide) hfind init
  rw [lists]
  change (listOf (spsPps o) _ s.refs 1 [.subtract 1] _).bind _ = _
  rw [hlist]
  change (listOf (spsPps o) _ s.refs 1 [.subtract 1] _).bind _ = _
  rw [hlist]
  rfl

theorem predicts_render (hr : Listed o r) (n : ℕ) (c : ℤ) (t : Dpb) :
    (Picture.render n r).Predicts ⟨d, c,
      (List.range r.NREF).map fun i => some (pageRef (r.REFPAGE i).toNat), [], t⟩ := by
  refine ⟨by simp, rfl, ?_⟩
  intro i hi
  have hpos := (hr i hi).1
  refine ⟨(r.REFPAGE i).toNat, by omega, ?_⟩
  show ((List.range r.NREF).map _)[i]? = _
  rw [List.getElem?_map, List.getElem?_range hi]
  rfl

theorem At.meant {t : Dpb} {p : Picture} {list0 list1 : List (Option Ref)} (ht : At o j q (d + 1) t)
    (hpic : p.position o = d) (hpoc : p.poc o = q')
    (hpredicts : p.Predicts ⟨d, q', list0, list1, t⟩) :
    Meant o (p, h) ⟨d, q', list0, list1, t⟩ where
  pic := hpic.symm
  poc := by rw [hpoc]
  predicts := hpredicts
  bounded := ht.bounded
  kept := fun _ hk _ => ht.kept hk

/-- The B-picture behind reference picture `j`. -/
theorem predicts_pass {n b : ℕ} {c : ℤ} {t : Dpb} (hpic : (refPic o j).pic + 1 = d) :
    (Picture.pass n b).Predicts ⟨d, c, [some (refPic o j)], [some (refPic o j)], t⟩ :=
  ⟨refPic o j, rfl, rfl, hpic⟩

/-- The last reference picture's order count, before frame `n`. -/
def Behind (o : Options) (n q : ℕ) : Prop :=
  if o.smooth = .off then q = 2 * o.K
  else q < 2 * (o.K + 1) + 6 * n ∧ 2 * (o.K + 1) + 6 * n ≤ q + 6

/-- Between two frames. -/
def Between (o : Options) (n : ℕ) (s : Dpb) : Prop :=
  ∃ q, Behind o n q ∧
    At o (o.smooth.value * n) q (o.K + 1 + (o.smooth.value + 1) * n) s

theorem frame_off (hoff : o.smooth = .off) (hs : Between o n s) (hr : Listed o r) :
    ∃ t, Between o (n + 1) t ∧ Follows o s (genFrame o n r) t := by
  have hK := o.K_le
  obtain ⟨q, hq, hs⟩ := hs
  rw [Behind, if_pos hoff] at hq
  subst hq
  have hgen : genFrame o n r = [(.render n r,
      encodeFrame (1 + o.K) (2 * (n % 16000 + 1 + o.K) % 2 ^ 16) false r)] := by
    simp [genFrame, hoff]
  have hpoc : (Picture.render n r).poc o = 2 * (n % 16000 + 1 + o.K) := if_pos hoff
  rw [hoff, Smooth.value, Nat.zero_mul, Nat.zero_add, Nat.one_mul] at hs
  have hnext : Next o 0 (2 * (n % 16000 + 1 + o.K))
      (encodeFrame (1 + o.K) (2 * (n % 16000 + 1 + o.K) % 2 ^ 16) false r) := by
    refine ⟨rfl, rfl, ?_, Nat.mod_mod _ _⟩
    show (1 + o.K) % 2 ^ 16 = (o.K + 1 + 0) % 2 ^ 16
    rw [Nat.add_comm 1]
  obtain ⟨t, ht, hstep⟩ := step_other hs hnext (by omega) (by omega) (by omega) rfl
    (lists_render hs hr _ _ _ _)
  refine ⟨t, ⟨2 * o.K, by rw [Behind, if_pos hoff], ?_⟩, ?_⟩
  · rw [hoff, Smooth.value, Nat.zero_mul, Nat.zero_add, Nat.one_mul]
    exact ht
  · rw [hgen]
    have hpic : (Picture.render n r).position o = o.K + 1 + n := by
      rw [Picture.position, hoff, Smooth.value, Nat.zero_add, Nat.one_mul]
    exact .cons hstep (ht.meant hpic hpoc (predicts_render hr n _ t)) (.nil o t)

/-! With `--smooth` the pictures of a frame are counted from the render, which is 0. -/

theorem refPic_eq {b : ℕ} (hb : b < o.smooth.value) : refPic o (o.smooth.value * n + b) =
    ⟨o.K + 1 + (o.smooth.value + 1) * n + b, (o.K + 1 + (o.smooth.value * n + b)) % 2 ^ 16,
      (2 * (o.K + 1) + 6 * n + 2 * b : ℕ), none⟩ := by
  rw [refPic, Nat.mul_add_div (by omega), Nat.mul_add_mod, Nat.div_eq_of_lt hb,
    Nat.mod_eq_of_lt hb, Nat.add_zero n]

/-- Behind the `b`-th picture of frame `n`, all of them kept. -/
def Within (o : Options) (n b : ℕ) (s : Dpb) : Prop :=
  At o (o.smooth.value * n + b + 1) (2 * (o.K + 1) + 6 * n + 2 * b)
    (o.K + 1 + (o.smooth.value + 1) * n + b + 1) s

section Smoothed

variable {b fn poc : ℕ} (hfn : fn = (o.K + 1 + o.smooth.value * n) % 2 ^ 16)
  (hpoc : poc = (2 * (o.K + 1) + 6 * n) % 2 ^ 16)
include hfn hpoc

theorem next_pass (isRef : Bool) : Next o (o.smooth.value * n + b + 1)
    (2 * (o.K + 1) + 6 * n + 2 * b + 2) (encodeBpic (fn + (b + 1)) (poc + 2 * (b + 1)) isRef) := by
  refine ⟨rfl, rfl, ?_, ?_⟩
  · show (fn + (b + 1)) % 2 ^ 16 = _
    omega
  · show (poc + 2 * (b + 1)) % 2 ^ 16 = _
    omega

theorem follows_render (hon : o.smooth ≠ .off) (hs : Between o n s) (hr : Listed o r) :
    ∃ t, Within o n 0 t ∧ Follows o s [(.render n r, encodeFrame fn poc true r)] t := by
  have hvalue : 0 < o.smooth.value := by
    cases hsmooth : o.smooth with
    | off => exact absurd hsmooth hon
    | diag => exact Nat.one_pos
    | hv => exact Nat.two_pos
  obtain ⟨q, hq, hs⟩ := hs
  rw [Behind, if_neg hon] at hq
  have hnext : Next o (o.smooth.value * n) (2 * (o.K + 1) + 6 * n) (encodeFrame fn poc true r) := by
    refine ⟨rfl, rfl, ?_, ?_⟩
    · show fn % 2 ^ 16 = _
      omega
    · show poc % 2 ^ 16 = _
      omega
  obtain ⟨t, ht, hstep⟩ := step_ref hs hnext (by omega) (by omega) (by omega)
    (show 2 ≠ 0 by decide) hvalue (refPic_eq hvalue) (lists_render hs hr _ _ _ _)
  exact ⟨t, ht, .cons hstep (ht.meant rfl (if_neg hon) (predicts_render hr n _ t)) (.nil o t)⟩

/-- A B-picture that is kept. -/
theorem follows_pass_ref (hb : b + 1 < o.smooth.value) (hs : Within o n b s) : ∃ t,
    Within o n (b + 1) t ∧
      Follows o s [(.pass n (b + 1), encodeBpic (fn + (b + 1)) (poc + 2 * (b + 1)) true)] t := by
  have hnext := next_pass hfn hpoc (b := b) true
  obtain ⟨t, ht, hstep⟩ := step_ref hs hnext (by omega) (by omega) (by omega)
    (show 2 ≠ 0 by decide) (by omega) (refPic_eq hb)
    (lists_bpic hs hnext.frameNum (by omega) _)
  have hplace : (refPic o (o.smooth.value * n + b)).pic + 1 =
      o.K + 1 + (o.smooth.value + 1) * n + b + 1 := by
    rw [refPic_eq (by omega)]
  exact ⟨t, ht, .cons hstep (ht.meant rfl rfl (predicts_pass hplace)) (.nil o t)⟩

/-- The last B-picture of a frame. -/
theorem follows_pass (hb : b + 1 = o.smooth.value) (hs : Within o n b s) : ∃ t,
    Between o (n + 1) t ∧
      Follows o s [(.pass n (b + 1), encodeBpic (fn + (b + 1)) (poc + 2 * (b + 1)) false)] t := by
  have hon : o.smooth ≠ .off := by
    intro hoff
    rw [hoff] at hb
    cases hb
  have hlast := o.smooth.value_le
  have hnext := next_pass hfn hpoc (b := b) false
  obtain ⟨t, ht, hstep⟩ := step_other hs hnext (by omega) (by omega) (by omega) rfl
    (lists_bpic hs hnext.frameNum (by omega) _)
  have hplace : (refPic o (o.smooth.value * n + b)).pic + 1 =
      o.K + 1 + (o.smooth.value + 1) * n + b + 1 := by
    rw [refPic_eq (by omega)]
  refine ⟨t, ⟨2 * (o.K + 1) + 6 * n + 2 * b, ?_, ?_⟩,
    .cons hstep (ht.meant rfl rfl (predicts_pass hplace)) (.nil o t)⟩
  · rw [Behind, if_neg hon]
    omega
  · have hrefs : o.smooth.value * (n + 1) = o.smooth.value * n + b + 1 := by
      rw [Nat.mul_succ, ← hb, Nat.add_assoc]
    have hplace : o.K + 1 + (o.smooth.value + 1) * (n + 1) =
        o.K + 1 + (o.smooth.value + 1) * n + b + 1 + 1 := by
      rw [Nat.mul_succ]
      omega
    rw [hrefs, hplace]
    exact ht

end Smoothed

theorem frame_diag (hdiag : o.smooth = .diag) (hs : Between o n s) (hr : Listed o r) :
    ∃ t, Between o (n + 1) t ∧ Follows o s (genFrame o n r) t := by
  have hvalue : o.smooth.value = 1 := by rw [hdiag]; rfl
  obtain ⟨t, ht, hrender⟩ := follows_render rfl rfl (by rw [hdiag]; decide) hs hr
  obtain ⟨u, hu, hpass⟩ := follows_pass rfl rfl (by rw [hvalue]) ht
  refine ⟨u, hu, ?_⟩
  have hgen := hrender.append hpass
  simpa [genFrame, hdiag] using hgen

theorem frame_hv (hhv : o.smooth = .hv) (hs : Between o n s) (hr : Listed o r) :
    ∃ t, Between o (n + 1) t ∧ Follows o s (genFrame o n r) t := by
  have hvalue : o.smooth.value = 2 := by rw [hhv]; rfl
  obtain ⟨t, ht, hrender⟩ := follows_render rfl rfl (by rw [hhv]; decide) hs hr
  obtain ⟨u, hu, hfirst⟩ := follows_pass_ref rfl rfl (by rw [hvalue]; decide) ht
  obtain ⟨v, hv, hsecond⟩ := follows_pass rfl rfl (by rw [hvalue]) hu
  refine ⟨v, hv, ?_⟩
  have hgen := hrender.append (hfirst.append hsecond)
  simpa [genFrame, hhv] using hgen

/-- **The pictures of one frame.** -/
theorem frame_runs (hs : Between o n s) (hr : Listed o r) :
    ∃ t, Between o (n + 1) t ∧ Follows o s (genFrame o n r) t := by
  cases hsmooth : o.smooth with
  | off => exact frame_off hsmooth hs hr
  | diag => exact frame_diag hsmooth hs hr
  | hv => exact frame_hv hsmooth hs hr

/-! ### The stream -/

theorem listed_of_select (scene : Scene o) {old new : Blocks}
    (hselect : scene.1.selectReferences old = some (new, r)) : Listed o r := by
  have hpages := (scene.1.select_pages hselect).2.2
  rw [scene.2] at hpages
  exact hpages

/-- Any number of frames. -/
theorem frames_run (scene : ℕ → Scene o) (old : Blocks) (hs : Between o 0 s) (N : ℕ) :
    ∃ ps new t, frames o scene old N = some (ps, new) ∧ Between o N t ∧ Follows o s ps t := by
  induction N with
  | zero => exact ⟨[], old, s, rfl, hs, .nil o s⟩
  | succ N ih =>
      obtain ⟨ps, new, t, hframes, ht, hrun⟩ := ih
      obtain ⟨new', r, hselect, -⟩ := (scene N).1.select_run new
      obtain ⟨u, hu, hrun'⟩ := frame_runs ht (listed_of_select (scene N) hselect)
      refine ⟨ps ++ genFrame o N r, new', u, ?_, hu, hrun.append hrun'⟩
      rw [frames, hframes]
      change ((scene N).1.selectReferences new).bind _ = _
      rw [hselect]
      rfl

/-- The order counts of a frame rise, and so do they up to the next frame, but where they start
again. -/
theorem genFrame_rises (o : Options) (n : ℕ) (r : Refs) :
    (genFrame o n r).IsChain (Rises o) ∧ (∃ hd, (genFrame o n r).head? = some (.render n r, hd)) ∧
      ∃ p, (genFrame o n r).getLast? = some p ∧ ∀ r' h, Rises o p (.render (n + 1) r', h) := by
  cases hsmooth : o.smooth with
  | off =>
      rw [genFrame]
      simp only [hsmooth]
      refine ⟨.singleton _, ⟨_, rfl⟩, (.render n r, _), rfl, ?_⟩
      intro r' h
      by_cases hwrap : (n + 1) % 16000 = 0
      · exact Or.inr ⟨hsmooth, by omega, hwrap⟩
      · refine Or.inl ?_
        rw [Picture.poc, Picture.poc, if_pos hsmooth, if_pos hsmooth]
        omega
  | diag =>
      rw [genFrame]
      simp only [hsmooth]
      refine ⟨?_, ⟨_, rfl⟩, (.pass n 1, _), rfl, ?_⟩
      · refine .cons_cons (Or.inl ?_) (.singleton _)
        rw [Picture.poc, Picture.poc, if_neg (by rw [hsmooth]; decide)]
        omega
      · intro r' h
        refine Or.inl ?_
        rw [Picture.poc, Picture.poc, if_neg (by rw [hsmooth]; decide)]
        omega
  | hv =>
      rw [genFrame]
      simp only [hsmooth]
      refine ⟨?_, ⟨_, rfl⟩, (.pass n 2, _), rfl, ?_⟩
      · refine .cons_cons (Or.inl ?_) (.cons_cons (Or.inl ?_) (.singleton _))
        · rw [Picture.poc, Picture.poc, if_neg (by rw [hsmooth]; decide)]
          omega
        · simp only [Picture.poc]
          omega
      · intro r' h
        refine Or.inl ?_
        rw [Picture.poc, Picture.poc, if_neg (by rw [hsmooth]; decide)]
        omega

theorem setup_rises (o : Options) : (setup o).IsChain (Rises o) ∧
    ∃ p, (setup o).getLast? = some p ∧ ∀ r h, Rises o p (.render 0 r, h) := by
  constructor
  · rw [setup, List.isChain_map, List.isChain_range_succ]
    intro k _
    exact Or.inl (show 2 * k < 2 * (k + 1) by omega)
  · refine ⟨(.page o.K, pcmPage o o.K), ?_, ?_⟩
    · rw [setup, List.range_succ, List.map_append, List.map_singleton, List.getLast?_concat]
    · intro r h
      refine Or.inl ?_
      rw [Picture.poc, Picture.poc]
      split <;> omega

theorem stream_rises (scene : ℕ → Scene o) (old : Blocks) (N : ℕ) {ps : List (Picture × Header)}
    {new : Blocks} (hframes : frames o scene old N = some (ps, new)) :
    (setup o ++ ps).IsChain (Rises o) ∧
      ∃ p, (setup o ++ ps).getLast? = some p ∧ ∀ r h, Rises o p (.render N r, h) := by
  induction N generalizing ps new with
  | zero =>
      cases hframes
      rw [List.append_nil]
      exact setup_rises o
  | succ N ih =>
      obtain ⟨⟨ps', new'⟩, hframes', hrest⟩ := Option.bind_eq_some_iff.mp hframes
      obtain ⟨⟨new'', r⟩, -, hps⟩ := Option.bind_eq_some_iff.mp hrest
      obtain ⟨rfl, rfl⟩ := Prod.mk.inj (Option.some.inj hps)
      obtain ⟨hchain, p, hlast, hrises⟩ := ih hframes'
      obtain ⟨hframe, ⟨hd, hhead⟩, p', hlast', hrises'⟩ := genFrame_rises o N r
      rw [← List.append_assoc]
      refine ⟨hchain.append hframe ?_, p', ?_, hrises'⟩
      · intro x hx y hy
        rw [hlast, Option.mem_some_iff] at hx
        rw [hhead, Option.mem_some_iff] at hy
        rw [← hx, ← hy]
        exact hrises r hd
      · rw [List.getLast?_append, hlast']
        rfl

end BadgeOS.CodaCube.Pictures
