import BadgeOS.CodaCube.PageDecoded
import BadgeOS.CodaCube.StreamDrawing
import BadgeOS.CodaCube.StreamUnits
import Mathlib

/-!
# What a decoder makes of the stream

The file that `--stream-out` writes goes through a decoder: its units, its slices, its references
and its samples.  Behind the pages come the pictures of `--cpu-model`, byte for byte.

* `Playing` — the decoder between two frames;
* `render_plays`, `pass_plays` — a render, and a smoothing pass;
* `gen_carries`, `frame_plays` — the access units of a frame, and its pictures;
* `frame_decoded` — one frame;
* `stream_decoded` — the whole file.
-/

namespace BadgeOS.CodaCube

open AvcStream AvcSamples
open Bitstream (parameterSets)
open References (Blocks Refs)
open Pages (Planes)

namespace Film

variable (film : Film)

def sets : AvcHeaders.ParameterSets := parameterSets film.toMbSize film.o

/-- A picture of the CPU model. -/
def shown (P : Planes) : AvcSamples.Picture := Buffers.picture film.toMbSize P

/-- The decoder in front of frame `n`. -/
structure Playing (n : ℕ) (s : State) : Prop where
  dpb : Pictures.Between film.o n s.dpb
  count : s.pictures.length = film.o.K + 1 + (film.o.smooth.value + 1) * n
  pages : ∀ k ≤ film.o.K, s.pictures[k]? = some (film.shown (film.planes k))

/-! ### The pages -/

def pageCoded (k : ℕ) : CodedPicture :=
  ⟨film.sets, Pages.pageHeader film.o k, Pages.pageMbs film.toMbSize (film.planes k)⟩

theorem pages_play (before : List AvcSamples.Picture) {l : List ℕ}
    {ds : List Avc.Decoded} (hlength : l.length = ds.length) :
    Plays before (l.map film.pageCoded) ds (l.map fun k => film.shown (film.planes k)) := by
  induction l generalizing before ds with
  | nil =>
      obtain rfl := List.length_eq_zero_iff.mp hlength.symm
      exact .nil before
  | cons k l ih =>
      obtain ⟨d, ds, rfl⟩ := List.exists_cons_of_length_pos (l := ds)
        (by rw [← hlength]; exact Nat.succ_pos _)
      exact .cons (Pages.page_decoded ⟨rfl, rfl, rfl, rfl⟩) (ih _ (Nat.succ.inj hlength))

/-! ### One picture -/

section Picture

variable {film} {n : ℕ} {old s : Blocks} {r : Refs}
  {before : List AvcSamples.Picture} {d : Avc.Decoded} {h : Avc.Header}

def renderCoded (film : Film) (n fn poc : ℕ) (isRef : Bool) (s : Blocks) (r : Refs) :
    CodedPicture :=
  ⟨film.sets, Slice.header (film.setting n s r) fn poc isRef,
    Slice.picture (film.setting n s r) film.mbs⟩

/-- The list of a render is the pages that it means. -/
theorem pictured_render
    (hpages : ∀ k ≤ film.o.K, before[k]? = some (film.shown (film.planes k)))
    (hlisted : Pictures.Listed film.o r) (hmeant : Pictures.Meant film.o (.render n r, h) d) :
    pictured before d.list0 = CpuModel.listPictures (film.setting n s r) film.planes := by
  obtain ⟨hlength, -, hentries⟩ := hmeant.predicts
  refine List.ext_getElem? fun i => ?_
  rw [pictured, CpuModel.listPictures, List.getElem?_map, List.getElem?_map]
  rcases Nat.lt_or_ge i r.NREF with hlt | hge
  · obtain ⟨page, hpage, hentry⟩ := hentries i hlt
    have hle := (hlisted i hlt).2
    rw [hpage] at hle
    have hrange : (List.range (film.setting n s r).refs.NREF)[i]? = some i :=
      List.getElem?_range hlt
    rw [hentry, hrange]
    show some (before[page]?) = some (some (film.shown (film.planes (r.REFPAGE i).toNat)))
    rw [hpages page (by exact_mod_cast hle), hpage, Int.toNat_natCast]
  · rw [List.getElem?_eq_none (by omega), List.getElem?_eq_none (by
      rw [List.length_range]
      exact hge)]
    rfl

/-- **A render** of the CPU model is what the decoder makes of it. -/
theorem render_plays (hselect : (film.shot n).scene.1.selectReferences old = some (s, r))
    (hpages : ∀ k ≤ film.o.K, before[k]? = some (film.shown (film.planes k)))
    (hmeant : Pictures.Meant film.o (.render n r, h) d) (fn poc : ℕ) (isRef : Bool)
    (kept : Slice.Kept) (b : Planes) :
    let out := Slice.encodeFrame (film.setting n s r) kept fn poc isRef
    ∃ m0, CpuModel.modelP (film.setting n s r) film.planes out.2.2.store out.2.1 b = some m0 ∧
      decodePicture (film.renderCoded n fn poc isRef s r)
        ⟨pictured before d.list0, pictured before d.list1⟩ = some (film.shown m0) := by
  have hlist := pictured_render (s := s) hpages
    (Pictures.listed_of_select (film.shot n).scene hselect) hmeant
  have hstore := Slice.stored (film.drawing n hselect) kept fn poc isRef
  obtain ⟨-, -, hparts⟩ := Slice.slice_read (film.drawing n hselect) film.o kept fn poc isRef
  have hmodel := CpuModel.modelP_eq (D := film.drawing n hselect)
    (p := film.renderCoded n fn poc isRef s r)
    (L := ⟨pictured before d.list0, pictured before d.list1⟩) film.planes _
    (drawing_listed hselect) ⟨film.W_le, film.H_le⟩ hstore ⟨rfl, rfl, rfl, rfl, rfl⟩ hlist b
  rw [← hparts] at hmodel
  exact hmodel

def passCoded (film : Film) (S : Bpic.Pass) (fn poc : ℕ) (isRef : Bool) : CodedPicture :=
  ⟨film.sets, Bpic.bpicHeader fn poc isRef, Bpic.passMbs S S.mbs⟩

/-- **A smoothing pass** takes the picture just before. -/
theorem pass_plays (S : Bpic.Pass) (hsize : S.toMbSize = film.toMbSize) {b : ℕ} (src : Planes)
    (hcount : before.length + 1 = film.o.K + 1 + (film.o.smooth.value + 1) * n + b)
    (hmeant : Pictures.Meant film.o (.pass n b, h) d) (fn poc : ℕ) (isRef : Bool)
    (plane : Planes) :
    ∃ m1, CpuModel.modelB S (Buffers.page film.toMbSize src) plane = some m1 ∧
      decodePicture (film.passCoded S fn poc isRef)
        ⟨pictured (before ++ [film.shown src]) d.list0,
          pictured (before ++ [film.shown src]) d.list1⟩ = some (film.shown m1) := by
  obtain ⟨ref, h0, h1, hplace⟩ := hmeant.predicts
  have hpic : d.pic = film.o.K + 1 + (film.o.smooth.value + 1) * n + b := hmeant.pic
  have hlast : (before ++ [film.shown src])[ref.pic]? = some (film.shown src) := by
    rw [show ref.pic = before.length by omega, List.getElem?_concat_length]
  have hlist : pictured (before ++ [film.shown src]) [some ref] = [some (film.shown src)] :=
    congrArg (fun x => [x]) hlast
  have hp : CpuModel.Smoothed S (film.passCoded S fn poc isRef) :=
    ⟨by rw [hsize]; rfl, by rw [hsize]; rfl, rfl, rfl, rfl⟩
  rw [h0, h1, hlist]
  show ∃ m1, CpuModel.modelB S (Buffers.page film.toMbSize src) plane = some m1 ∧
    decodePicture (film.passCoded S fn poc isRef)
      ⟨[some (Buffers.picture film.toMbSize src)], [some (Buffers.picture film.toMbSize src)]⟩ =
        some (Buffers.picture film.toMbSize m1)
  rw [← hsize]
  exact CpuModel.modelB_eq src hp rfl rfl plane

end Picture

/-! ### One frame -/

/-- The pictures of a frame. -/
def frameCoded (n : ℕ) (s : Blocks) (r : Refs) : List CodedPicture :=
  let fn := frameNum film.o n
  let poc := poc film.o n
  film.renderCoded n fn poc (isRef film.o) s r :: match film.o.smooth with
    | .off => []
    | .diag => [film.passCoded (film.diag n) (fn + 1) (poc + 2) false]
    | .hv =>
        [film.passCoded (film.hPass n) (fn + 1) (poc + 2) true,
          film.passCoded (film.vPass n) (fn + 2) (poc + 4) false]

theorem genFrame_eq (o : Pictures.Options) (n : ℕ) (r : Refs) : Pictures.genFrame o n r =
    (.render n r, Pictures.encodeFrame (frameNum o n) (poc o n) (isRef o) r) ::
      match o.smooth with
      | .off => []
      | .diag => [(.pass n 1, Pictures.encodeBpic (frameNum o n + 1) (poc o n + 2) false)]
      | .hv =>
          [(.pass n 1, Pictures.encodeBpic (frameNum o n + 1) (poc o n + 2) true),
            (.pass n 2, Pictures.encodeBpic (frameNum o n + 2) (poc o n + 4) false)] := by
  obtain ⟨K, smooth, extra, hpos, hle, hrefs⟩ := o
  cases smooth <;> rfl

theorem headers_frame (n : ℕ) (s : Blocks) (r : Refs) :
    (film.frameCoded n s r).map (fun p => p.header.picture) =
      (Pictures.genFrame film.o n r).map Prod.snd := by
  rw [frameCoded, genFrame_eq]
  cases film.o.smooth <;> rfl

variable {film} {n : ℕ} {s : Blocks} {r : Refs}

theorem gen_fields (old : Left) : (film.gen n old s r).setting = film.setting n s r ∧
    (film.gen n old s r).parts = (film.render n old s r).2.1 ∧
      (film.gen n old s r).kept.store = (film.render n old s r).2.2.store := by
  rw [gen]
  cases film.o.smooth <;> exact ⟨rfl, rfl, rfl⟩

/-- **The access units** of a frame are its pictures. -/
theorem gen_carries {old : Left}
    (hselect : (film.shot n).scene.1.selectReferences old.blocks = some (s, r)) :
    ∃ us, (film.gen n old s r).au = us.map wrap ∧
      List.Forall₂ (Carries film.sets) us (film.frameCoded n s r) := by
  have hrender : Carries film.sets ⟨idc (isRef film.o), 1, (film.render n old s r).1⟩
      (film.renderCoded n (frameNum film.o n) (poc film.o n) (isRef film.o) s r) :=
    render_slice film.o (film.drawing n hselect) old.kept _ _ _
  have hpass (S : Bpic.Pass) (hsize : S.toMbSize = film.toMbSize) (old0 old1 : Grid) (fn poc : ℕ)
      (isRef : Bool) :
      Carries film.sets ⟨idc isRef, 1, (Bpic.encodeBpic S old0 old1 fn poc isRef).1⟩
        (film.passCoded S fn poc isRef) := by
    rw [sets, passCoded, sets, ← hsize]
    exact pass_slice film.o S old0 old1 fn poc isRef
  rw [gen, frameCoded]
  cases film.o.smooth with
  | off =>
      refine ⟨_, ?_, .cons hrender .nil⟩
      rfl
  | diag =>
      have hfirst := hpass (film.diag n) rfl (film.render n old s r).2.2.grid old.grid1
        (frameNum film.o n + 1) (poc film.o n + 2) false
      refine ⟨_, ?_, .cons hrender (.cons hfirst .nil)⟩
      rfl
  | hv =>
      have hfirst := hpass (film.hPass n) rfl (film.render n old s r).2.2.grid old.grid1
        (frameNum film.o n + 1) (poc film.o n + 2) true
      have hsecond := hpass (film.vPass n) rfl
        (Bpic.encodeBpic (film.hPass n) (film.render n old s r).2.2.grid old.grid1
          (frameNum film.o n + 1) (poc film.o n + 2) true).2.1
        (Bpic.encodeBpic (film.hPass n) (film.render n old s r).2.2.grid old.grid1
          (frameNum film.o n + 1) (poc film.o n + 2) true).2.2
        (frameNum film.o n + 2) (poc film.o n + 4) false
      refine ⟨_, ?_, .cons hrender (.cons hfirst (.cons hsecond .nil))⟩
      rfl

/-- **The pictures of a frame**, in the CPU model and in the decoder. -/
theorem frame_plays {old : Left} {before : List AvcSamples.Picture} {ds : List Avc.Decoded}
    (hselect : (film.shot n).scene.1.selectReferences old.blocks = some (s, r))
    (hpages : ∀ k ≤ film.o.K, before[k]? = some (film.shown (film.planes k)))
    (hcount : before.length = film.o.K + 1 + (film.o.smooth.value + 1) * n)
    (hmeant : List.Forall₂ (Pictures.Meant film.o) (Pictures.genFrame film.o n r) ds) :
    ∃ pictures m0 m1 m2,
      film.cpuModel n (film.gen n old s r) old = some (pictures, m0, m1, m2) ∧
        pictures.length = film.o.smooth.value + 1 ∧
          Plays before (film.frameCoded n s r) ds (pictures.map film.shown) := by
  obtain ⟨hsetting, hparts, hstore⟩ := film.gen_fields (n := n) (s := s) (r := r) old
  rw [genFrame_eq] at hmeant
  obtain ⟨d, ds, hfirst, hrest, rfl⟩ := List.forall₂_cons_left_iff.mp hmeant
  obtain ⟨m0, hmodel, hplay⟩ := render_plays hselect hpages hfirst (frameNum film.o n)
    (poc film.o n) (isRef film.o) old.kept old.m0
  rw [cpuModel, hsetting, hparts, hstore]
  have hrender : CpuModel.modelP (film.setting n s r) film.planes
      (film.render n old s r).2.2.store (film.render n old s r).2.1 old.m0 = some m0 := hmodel
  simp only [hrender, Option.bind_eq_bind, Option.bind_some]
  rw [frameCoded]
  cases hsmooth : film.o.smooth with
  | off =>
      simp only [hsmooth] at hrest
      cases hrest
      exact ⟨_, _, _, _, rfl, rfl, .cons hplay (.nil _)⟩
  | diag =>
      simp only [hsmooth] at hrest
      obtain _ | ⟨hmeant₁, _ | _⟩ := hrest
      obtain ⟨m1, hmodel₁, hplay₁⟩ := pass_plays (film.diag n) rfl m0 (by rw [hcount])
        hmeant₁ (frameNum film.o n + 1) (poc film.o n + 2) false old.m1
      simp only [hmodel₁, Option.bind_some]
      exact ⟨_, _, _, _, rfl, rfl, .cons hplay (.cons hplay₁ (.nil _))⟩
  | hv =>
      simp only [hsmooth] at hrest
      obtain _ | ⟨hmeant₁, _ | ⟨hmeant₂, _ | _⟩⟩ := hrest
      obtain ⟨m1, hmodel₁, hplay₁⟩ := pass_plays (film.hPass n) rfl m0 (by rw [hcount])
        hmeant₁ (frameNum film.o n + 1) (poc film.o n + 2) true old.m1
      have hcount₂ : (before ++ [film.shown m0]).length + 1 =
          film.o.K + 1 + (film.o.smooth.value + 1) * n + 2 := by
        rw [List.length_append, hcount, List.length_singleton]
      obtain ⟨m2, hmodel₂, hplay₂⟩ := pass_plays (film.vPass n) rfl m1 hcount₂ hmeant₂
        (frameNum film.o n + 2) (poc film.o n + 4) false old.m2
      simp only [hmodel₁, hmodel₂, Option.bind_some]
      exact ⟨_, _, _, _, rfl, rfl, .cons hplay (.cons hplay₁ (.cons hplay₂ (.nil _)))⟩

theorem sets_params {us : List NalUnit} {cs : List CodedPicture}
    (h : List.Forall₂ (Carries film.sets) us cs) :
    ∀ c ∈ cs, c.sets.sps.params = Pictures.spsPps film.o := by
  intro c hc
  obtain ⟨i, hi, rfl⟩ := List.getElem_of_mem hc
  have hlength := h.length_eq
  have hcarries := h.get (by omega) hi
  exact congrArg (fun sets => sets.sps.params) hcarries.slice.sets

/-- **One frame**: what is written, and what the decoder and the CPU model make of it. -/
theorem frame_decoded {st : State} (h : film.Playing n st) (files : Files) (old : Left) :
    ∃ (left : Left) (us : List NalUnit) (cs : List CodedPicture) (pictures : List Planes)
      (t : State),
      film.frame n files old = some (⟨files.stream ++ us.flatMap wrap,
        files.model ++ pictures.flatMap (i420 film.toMbSize)⟩, left) ∧
      List.Forall₂ (Carries film.sets) us cs ∧ cs.foldlM decodeOne st = some t ∧
      t.pictures = st.pictures ++ pictures.map film.shown ∧ film.Playing (n + 1) t := by
  obtain ⟨s, r, hselect, -⟩ := (film.shot n).scene.1.select_run old.blocks
  obtain ⟨dpb, hbetween, ds, hruns, hmeant⟩ := Pictures.frame_runs h.dpb
    (Pictures.listed_of_select (film.shot n).scene hselect)
  obtain ⟨pictures, m0, m1, m2, hmodel, hlength, hplays⟩ :=
    frame_plays hselect h.pages h.count hmeant
  obtain ⟨us, hau, hcarries⟩ := gen_carries hselect
  rw [← headers_frame] at hruns
  have hrun := hplays.run (sets_params hcarries) hruns
  let g := film.gen n old s r
  refine ⟨⟨g.blocks, g.kept, g.grid1, m0, m1, m2⟩, us, _, pictures, _, ?_, hcarries, hrun, rfl,
    hbetween, ?_, ?_⟩
  · have hgen : film.genFrame n old = some (film.gen n old s r) := by
      rw [genFrame, hselect]
      rfl
    rw [frame, hgen, Option.bind_eq_bind, Option.bind_some]
    simp only [hmodel, hau]
    rfl
  · rw [List.length_append, h.count, List.length_map, hlength, Nat.mul_succ, Nat.add_assoc]
  · intro k hk
    rw [List.getElem?_append_left]
    · exact h.pages k hk
    · rw [h.count]
      omega

/-! ### The file -/

/-- What was written when the decoder is at `st`. -/
structure Streamed (film : Film) (N : ℕ) (files : Files) (us : List NalUnit)
    (cs : List CodedPicture) (st : State) : Prop where
  stream : files.stream = film.spsPps ++ us.flatMap wrap
  carries : List.Forall₂ (Carries film.sets) us cs
  decodes : cs.foldlM decodeOne .start = some st
  playing : film.Playing N st
  model : ∃ pictures : List Planes, files.model = pictures.flatMap (i420 film.toMbSize) ∧
    st.pictures = (List.range (film.o.K + 1)).map (fun k => film.shown (film.planes k)) ++
      pictures.map film.shown

/-- The parameter sets and the pages. -/
theorem setup_streamed (film : Film) :
    ∃ us cs st, Streamed film 0 ⟨film.setup, []⟩ us cs st := by
  obtain ⟨dpb, hpaged, ds, hruns, hmeant⟩ := Pictures.pages_run film.o (le_refl film.o.K)
  have hbetween : Pictures.Between film.o 0 dpb := by
    refine ⟨2 * film.o.K, ?_, by simpa using hpaged.at_start⟩
    rw [Pictures.Behind]
    split <;> omega
  have hlength := hmeant.length_eq
  rw [List.length_map] at hlength
  have hplays := film.pages_play [] hlength
  have hcarries : List.Forall₂ (Carries film.sets)
      ((List.range (film.o.K + 1)).map fun k => ⟨3, if k = 0 then 5 else 1,
        Pages.pcmPage film.toMbSize (film.planes k) film.o k⟩)
      ((List.range (film.o.K + 1)).map film.pageCoded) := by
    rw [List.forall₂_map_left_iff, List.forall₂_map_right_iff, List.forall₂_same]
    exact fun k _ => page_slice film.toMbSize film.o (film.planes k) k
  rw [List.map_map] at hruns
  have hrun := hplays.run (s := .start) (sets_params hcarries) (by rw [List.map_map]; exact hruns)
  refine ⟨_, _, _, ?_, hcarries, hrun, ⟨hbetween, ?_, ?_⟩, [], rfl, ?_⟩
  · rw [List.flatMap_map]
    rfl
  · simp
  · intro k hk
    rw [List.nil_append, List.getElem?_map, List.getElem?_range (by omega)]
    rfl
  · rw [List.nil_append, List.map_nil, List.append_nil]

/-- Any number of frames. -/
theorem frames_streamed (film : Film) (old : Left) (N : ℕ) : ∃ files left us cs st,
    film.streamOut old N = some (files, left) ∧ Streamed film N files us cs st := by
  induction N with
  | zero =>
      obtain ⟨us, cs, st, h⟩ := setup_streamed film
      exact ⟨_, old, us, cs, st, rfl, h⟩
  | succ N ih =>
      obtain ⟨files, left, us, cs, st, hout, h⟩ := ih
      obtain ⟨left', us', cs', pictures, t, hframe, hcarries, hrun, hpictures, hplaying⟩ :=
        frame_decoded h.playing files left
      obtain ⟨before, hmodel, hbefore⟩ := h.model
      have hnext : film.streamOut old (N + 1) =
          (film.streamOut old N).bind fun r => film.frame N r.1 r.2 := rfl
      rw [hout] at hnext
      refine ⟨_, left', us ++ us', cs ++ cs', t, hnext.trans hframe, ?_, ?_, ?_, hplaying,
        before ++ pictures, ?_, ?_⟩
      · rw [h.stream, List.flatMap_append, List.append_assoc]
      · exact List.rel_append h.carries hcarries
      · rw [List.foldlM_append, h.decodes]
        exact hrun
      · rw [hmodel, List.flatMap_append]
      · rw [hpictures, hbefore, List.map_append, List.append_assoc]

/-- The bytes of a decoded picture are those that the CPU model writes. -/
theorem i420_shown (film : Film) (P : Planes) :
    (film.shown P).i420 = i420 film.toMbSize P := by
  have hplane (width height : ℕ) (plane : ℕ → UInt8) :
      (Buffers.plane width height plane).samples.map UInt8.ofInt =
        Pages.row plane 0 (width * height) := by
    rw [Buffers.plane, Pages.row, List.map_map]
    refine List.map_congr_left fun i _ => ?_
    rw [Nat.zero_add]
    exact CpuModel.ofInt_byte (plane i)
  rw [AvcSamples.Picture.i420, List.map_append, List.map_append, i420]
  exact congrArg₂ (· ++ ·) (congrArg₂ (· ++ ·) (hplane _ _ _) (hplane _ _ _)) (hplane _ _ _)

/-- **What a decoder makes of the stream.** For every options, size, pages and frames, whatever the
memory held before: a decoder takes the whole file that `--stream-out` writes, its first pictures
are the black page and the pages of the atlas, and the bytes of all that follow are the file of
`--cpu-model`. -/
theorem stream_decoded (film : Film) (old : Left) (N : ℕ) : ∃ files left ps,
    film.streamOut old N = some (files, left) ∧ AvcSamples.decode files.stream = some ps ∧
      ps.length = film.o.K + 1 + (film.o.smooth.value + 1) * N ∧
      (ps.take (film.o.K + 1)).flatMap AvcSamples.Picture.i420 =
        (List.range (film.o.K + 1)).flatMap (fun k => i420 film.toMbSize (film.planes k)) ∧
      (ps.drop (film.o.K + 1)).flatMap AvcSamples.Picture.i420 = files.model := by
  obtain ⟨files, left, us, cs, st, hout, h⟩ := frames_streamed film old N
  obtain ⟨pictures, hmodel, hpictures⟩ := h.model
  have hread := stream_read film.toMbSize film.o h.carries
  have hbytes (l : List Planes) : (l.map film.shown).flatMap AvcSamples.Picture.i420 =
      l.flatMap (i420 film.toMbSize) := by
    rw [List.flatMap_map]
    simp only [i420_shown]
  have hpages : (List.range (film.o.K + 1)).map (fun k => film.shown (film.planes k)) =
      ((List.range (film.o.K + 1)).map film.planes).map film.shown := List.map_map.symm
  refine ⟨files, left, st.pictures, hout, ?_, h.playing.count, ?_, ?_⟩
  · have hsets : film.spsPps ++ us.flatMap wrap =
        (([⟨3, 7, Bitstream.spsRbsp film.toMbSize film.o⟩, ⟨3, 8, Bitstream.ppsRbsp⟩] :
          List NalUnit) ++ us).flatMap wrap := by
      rw [List.flatMap_append, List.flatMap_cons, List.flatMap_singleton]
      rfl
    rw [h.stream, hsets]
    have hdecode := congrArg (Option.bind · fun cs => (cs.foldlM decodeOne .start).bind fun st =>
      some st.pictures) hread
    rw [Option.bind_assoc, Option.bind_some, h.decodes] at hdecode
    exact hdecode
  · rw [hpictures, hpages, List.take_left' (by simp), hbytes, List.flatMap_map]
  · rw [hpictures, hpages, List.drop_left' (by simp), hbytes, hmodel]

end Film

end BadgeOS.CodaCube
