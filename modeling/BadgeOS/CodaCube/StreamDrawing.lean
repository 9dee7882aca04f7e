import BadgeOS.CodaCube.Prediction
import BadgeOS.CodaCube.SliceData
import BadgeOS.CodaCube.CpuModelRender
import BadgeOS.CodaCube.StreamOut
import Mathlib

/-!
# The drawing of a frame

What the selection leaves is a drawing: every reference that a block uses is on the list, and every
vector keeps in 16 bits.  The samples of the hook are in `g_pcmstore` when the slice is written.

* `Film.drawing` — the drawing;
* `stored` — the samples.
-/

namespace BadgeOS.CodaCube

open References (Frame Blocks Refs)

/-! ### The vectors -/

namespace Slice.Setting

variable {S : Setting}

/-- A vector to the black patch. -/
theorem black_is16 {n v : ℕ} {black : ℤ} (hn : n ≤ 2 ^ 13) (hblack : 0 ≤ black ∧ black < n)
    (hv : v < n) : Is16 (4 * (black - v)) :=
  ⟨by omega, by omega⟩

structure Vectors (S : Setting) : Prop where
  small : CpuModel.Small S
  mvFor : ∀ m q, Is16 (S.mvFor m q).1 ∧ Is16 (S.mvFor m q).2
  BLACKX : 0 ≤ S.BLACKX ∧ S.BLACKX < S.W
  BLACKY : 0 ≤ S.BLACKY ∧ S.BLACKY < S.H

theorem block8_is16 (h : Vectors S) {m p : ℕ} (hm : m < S.mbs) (hp : p < 4) :
    ∀ v ∈ (S.block8 m p).2.2, Is16 v.1 ∧ Is16 v.2 := by
  obtain ⟨hcol, hrow⟩ := place_lt hm
  have hzero : ∀ v ∈ [((0 : ℤ), (0 : ℤ))], Is16 v.1 ∧ Is16 v.2 := by
    intro v hv
    rw [List.mem_singleton.mp hv]
    exact ⟨is16_zero, is16_zero⟩
  rw [block8]
  split
  · split
    · exact hzero
    · intro v hv
      rw [List.mem_singleton.mp hv]
      exact h.mvFor m p
  · simp only
    split
    · exact hzero
    · intro v hv
      obtain ⟨s2, hs, rfl⟩ := List.mem_map.mp hv
      have hs := List.mem_range.mp hs
      split
      · exact h.mvFor m _
      · refine ⟨black_is16 h.small.W_le h.BLACKX ?_, black_is16 h.small.H_le h.BLACKY ?_⟩
        · rw [MbSize.W]
          omega
        · rw [MbSize.H]
          omega

/-- **Every vector** keeps in 16 bits. -/
theorem blocks_is16 (h : Vectors S) {m : ℕ} (hm : m < S.mbs) :
    ∀ b ∈ S.blocks m, Is16 b.mv.1 ∧ Is16 b.mv.2 := by
  have hget {l : List (ℤ × ℤ)} (hl : ∀ v ∈ l, Is16 v.1 ∧ Is16 v.2) (i : ℕ) :
      Is16 (l.getD i (0, 0)).1 ∧ Is16 (l.getD i (0, 0)).2 := by
    rcases Nat.lt_or_ge i l.length with hlt | hge
    · rw [List.getD_eq_getElem l _ hlt]
      exact hl _ (List.getElem_mem hlt)
    · rw [List.getD_eq_default l _ hge]
      exact ⟨is16_zero, is16_zero⟩
  intro b hb
  rw [blocks] at hb
  split at hb
  · rw [List.mem_singleton.mp hb]
    exact h.mvFor m 0
  · obtain ⟨p, hp, hb⟩ := List.mem_flatMap.mp hb
    have hmvs := hget (block8_is16 h hm (List.mem_range.mp hp))
    rw [blocks8] at hb
    simp only at hb
    split at hb
    · rw [List.mem_singleton.mp hb]
      exact hmvs 0
    · obtain ⟨s2, -, rfl⟩ := List.mem_map.mp hb
      exact hmvs s2

end Slice.Setting

/-! ### The selection -/

namespace Film

variable {film : Film} {n : ℕ} {old s : Blocks} {r : Refs}

theorem selected_of_select {F : Frame} (h : F.selectReferences old = some (s, r)) :
    F.Selected s r := by
  obtain ⟨s', r', hselect, hselected⟩ := F.select_run old
  rw [h] at hselect
  obtain ⟨rfl, rfl⟩ := Prod.mk.inj (Option.some.inj hselect)
  exact hselected

theorem entry_lt (h : (film.shot n).scene.1.selectReferences old = some (s, r)) {m q e : ℕ}
    (he : film.entry n s r m q = some e) : 1 ≤ e ∧ e < r.NREF := by
  have hselected := selected_of_select h
  rw [entry] at he
  split at he
  · rename_i hthere
    obtain ⟨hm, hq, hface⟩ := hthere
    have hb : (m, q) ∈ (film.shot n).scene.1.blocks :=
      (film.shot n).scene.1.mem_blocks.mpr ⟨hm, hq⟩
    rw [Frame.hasFace_run hselected hb] at hface
    obtain ⟨e', hentry, hpos, hlt⟩ := Frame.entry_run hselected
      (fun _ _ _ _ hshows => (hselected.served_iff hshows).mpr ((film.shot n).listed hshows)) hb
      (Option.some.inj hface)
    rw [hentry] at he
    obtain rfl := Option.some.inj he
    exact ⟨hpos, hlt⟩
  · cases he

theorem vectors_setting (film : Film) (n : ℕ) (s : Blocks) (r : Refs) :
    Slice.Setting.Vectors (film.setting n s r) where
  small := ⟨film.W_le, film.H_le⟩
  mvFor := (film.shot n).mvFor_is16 s r
  BLACKX := ⟨Int.natCast_nonneg _, Int.ofNat_lt.mpr film.BLACKX_lt⟩
  BLACKY := ⟨Int.natCast_nonneg _, Int.ofNat_lt.mpr film.BLACKY_lt⟩

/-- **The drawing** of a frame whose references are selected. -/
def drawing (film : Film) (n : ℕ)
    (h : (film.shot n).scene.1.selectReferences old = some (s, r)) : Slice.Drawing where
  toSetting := film.setting n s r
  NREF_pos := ((film.shot n).scene.1.select_pages h).1
  NREF_le := (selected_of_select h).nref_le
  page_nonneg i hi := (((film.shot n).scene.1.select_pages h).2.2 i hi).1
  entry_lt he := entry_lt h he
  samples hpcm := (film.shot n).length_pcm hpcm
  vectors _ hm := Slice.Setting.blocks_is16 (vectors_setting film n s r) hm

theorem drawing_listed (h : (film.shot n).scene.1.selectReferences old = some (s, r)) :
    CpuModel.Listed (film.drawing n h).toSetting where
  NREF_le := (selected_of_select h).nref_le
  page i hi := by
    have hpages := ((film.shot n).scene.1.select_pages h).2.2 i hi
    have hK := film.o.K_le
    have hscene := (film.shot n).scene.2
    show 0 ≤ r.REFPAGE i ∧ r.REFPAGE i < 16
    omega

end Film

/-! ### The samples -/

namespace Slice

variable {S : Setting}

theorem store_blocks (m : ℕ) (l : List Block) (e : Enc) :
    (l.foldl (block S m) e).store = e.store := by
  induction l generalizing e with
  | nil => rfl
  | cons b l ih => rw [List.foldl_cons, ih]; rfl

theorem store_macroblock (e : Enc) (m : ℕ) : (macroblock S e m).store = match S.pcm m with
    | some pcm => fun a =>
        if m * 384 ≤ a ∧ a < m * 384 + 384 then pcm.getD (a - m * 384) 0 else e.store a
    | none => e.store := by
  rw [macroblock]
  cases S.pcm m with
  | some pcm => rfl
  | none =>
      simp only
      split
      · split <;> rfl
      · split <;> simp only [store_blocks]

/-- The macroblocks before `n` are stored. -/
def StoredTo (S : Setting) (n : ℕ) (store : ℕ → UInt8) : Prop :=
  ∀ m < n, ∀ pcm, S.pcm m = some pcm → ∀ i < 384, pcm[i]? = some (store (m * 384 + i))

theorem stored_run (hlength : ∀ {m pcm}, S.pcm m = some pcm → pcm.length = 384) (e : Enc) (n : ℕ) :
    StoredTo S n ((List.range n).foldl (macroblock S) e).store := by
  induction n with
  | zero => exact fun m hm => absurd hm (Nat.not_lt_zero m)
  | succ n ih =>
      rw [List.range_succ, List.foldl_append, List.foldl_cons, List.foldl_nil, store_macroblock]
      intro m hm pcm hpcm i hi
      rcases Nat.lt_succ_iff_lt_or_eq.mp hm with hlt | rfl
      · have hold := ih m hlt pcm hpcm i hi
        cases hlast : S.pcm n with
        | none => exact hold
        | some last =>
            simp only
            rw [if_neg (by omega)]
            exact hold
      · rw [hpcm]
        simp only
        rw [if_pos (by omega), Nat.add_sub_cancel_left, List.getD_eq_getElem?_getD,
          List.getElem?_eq_getElem (by rw [hlength hpcm]; exact hi)]
        rfl

/-- **The samples that are sent** are stored, whatever was there. -/
theorem stored (D : Drawing) (old : Kept) (frameNum poc : ℕ) (isRef : Bool) :
    CpuModel.Stored D.toSetting (encodeFrame D.toSetting old frameNum poc isRef).2.2.store := by
  refine stored_run (fun hpcm => ?_) _ _
  rw [Setting.pcm] at hpcm
  split at hpcm
  · exact D.samples hpcm
  · cases hpcm

end Slice

end BadgeOS.CodaCube
