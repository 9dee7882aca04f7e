import BadgeOS.CodaCube.NalWrap
import BadgeOS.CodaCube.Pages
import BadgeOS.CodaCube.SliceData
import BadgeOS.CodaCube.SmoothingPass
import BadgeOS.Lib.AvcStream
import Mathlib

/-!
# The units of the stream

What `nal_wrap` writes one behind the other, taken apart again: no start code appears in a unit, and
its end is not taken for the zeros in front of the next.

* `Wrapped` — what `nal_wrap` is called for;
* `units_read` — the units of a stream;
* `sets_read`, `page_slice`, `render_slice`, `pass_slice` — what the units say;
* `stream_read` — the parameter sets, and the pictures behind them.
-/

namespace BadgeOS.CodaCube

open AvcStream AvcHeaders
open Bitstream (parameterSets spsRbsp ppsRbsp)

/-- What `nal_wrap` writes of a unit. -/
def wrap (u : NalUnit) : List UInt8 := nalWrap u.refIdc u.type u.rbsp

/-- What a stream holds of it behind the start code. -/
def unitBytes (u : NalUnit) : List UInt8 :=
  UInt8.ofNat (u.refIdc <<< 5 ||| u.type) :: Written.bytes (payload u.rbsp)

structure Wrapped (u : NalUnit) : Prop where
  refIdc_le : u.refIdc ≤ 3
  type_pos : 0 < u.type
  type_le : u.type ≤ 31
  last : u.rbsp.getLast? ≠ some 0

theorem unescape_eq (bs : List UInt8) : AnnexB.unescape bs = unescape bs := by
  induction bs using unescape.induct with
  | case1 rest ih => rw [AnnexB.unescape, unescape, ih]
  | case2 b rest hno ih =>
      rw [unescape_cons hno, ← ih, AnnexB.unescape]
      exact hno
  | case3 => rfl

/-- Nothing is put behind the last byte. -/
theorem getLast?_bytewise (z : ℕ) (rbsp : List UInt8) :
    (Written.bytes (bytewise z rbsp)).getLast? = rbsp.getLast? := by
  induction rbsp generalizing z with
  | nil => rfl
  | cons b rest ih =>
      have hone : (Written.bytes (putByte z b).1).getLast? = some b := by
        rw [putByte]
        split <;> rfl
      rw [bytewise, Written.bytes, List.map_append, List.getLast?_append]
      show (Written.bytes (bytewise _ rest)).getLast?.or
        (Written.bytes (putByte z b).1).getLast? = _
      rw [ih, hone, ← List.singleton_append, List.getLast?_append]
      rfl

theorem payload_last (rbsp : List UInt8) :
    (Written.bytes (payload rbsp)).getLast? = rbsp.getLast? := by
  rw [payload, wrapFrom_eq_bytewise, getLast?_bytewise]

variable {u : NalUnit}

/-- **A unit is plain.** -/
theorem Wrapped.plain (h : Wrapped u) : AnnexB.Plain (unitBytes u) := by
  have hheader := header_toNat h.refIdc_le h.type_le
  have hpos := h.type_pos
  have hne : UInt8.ofNat (u.refIdc <<< 5 ||| u.type) ≠ 0 := by
    intro hzero
    rw [hzero] at hheader
    change 0 = _ at hheader
    omega
  refine ⟨?_, ?_⟩
  · rintro ⟨before, rest, hsame⟩
    rw [unitBytes] at hsame
    cases before with
    | nil => exact hne (List.cons.inj hsame).1.symm
    | cons b before =>
        have hbytes : before ++ [0, 0, 1] ++ rest = Written.bytes (payload u.rbsp) :=
          (List.cons.inj hsame).2
        have hescaped := escaped_bytewise (z := 0) (by omega) u.rbsp
        rw [← wrapFrom_eq_bytewise] at hescaped
        have hfirst : (Written.bytes (payload u.rbsp))[before.length]? = some 0 := by
          simp [← hbytes]
        have hsecond : (Written.bytes (payload u.rbsp))[before.length + 1]? = some 0 := by
          simp [← hbytes]
        have hthird : (Written.bytes (payload u.rbsp))[before.length + 2]? = some 1 := by
          simp [← hbytes]
        exact absurd ((hescaped _ hfirst hsecond).1 _ hthird) (by decide)
  · rw [unitBytes, ← List.singleton_append, List.getLast?_append, payload_last]
    intro hzero
    rcases Option.or_eq_some_iff.mp hzero with hlast | ⟨-, hlast⟩
    · exact h.last hlast
    · exact hne (Option.some.inj hlast)

theorem Wrapped.readNal (h : Wrapped u) : readNal (unitBytes u) = some u := by
  have hheader := header_toNat h.refIdc_le h.type_le
  have href := h.refIdc_le
  have htype := h.type_le
  have hunescape : AnnexB.unescape (Written.bytes (payload u.rbsp)) = u.rbsp := by
    rw [unescape_eq, payload, wrapFrom_eq_bytewise]
    exact unescape_bytewise (z := 0) (by omega) u.rbsp
  have hidc : (32 * u.refIdc + u.type) / 2 ^ 5 = u.refIdc := by omega
  have hunit : (32 * u.refIdc + u.type) % 2 ^ 5 = u.type := by omega
  rw [unitBytes, AvcStream.readNal, hheader, if_pos (by omega), hunescape, hidc, hunit]

/-- **The units of a stream** are those that were wrapped. -/
theorem units_read {us : List NalUnit} (h : ∀ u ∈ us, Wrapped u) :
    (AnnexB.nalUnits (us.flatMap wrap)).mapM AvcStream.readNal = some us := by
  have hstream : us.flatMap wrap = AnnexB.stream (us.map unitBytes) := by
    rw [AnnexB.stream, List.flatMap_map]
    rfl
  have hplain : ∀ b ∈ us.map unitBytes, AnnexB.Plain b := by
    intro b hb
    obtain ⟨u, hu, rfl⟩ := List.mem_map.mp hb
    exact (h u hu).plain
  rw [hstream, AnnexB.nalUnits_stream hplain]
  clear hstream hplain
  induction us with
  | nil => rfl
  | cons u us ih =>
      rw [List.map_cons, List.mapM_cons, (h u List.mem_cons_self).readNal,
        ih fun v hv => h v (List.mem_cons_of_mem u hv)]
      rfl

/-! ### What the units say -/

section Slices

variable (S : MbSize) (o : Pictures.Options)

theorem whole_of_read {α : Type} {p : ExpGolomb.Reader α} {rbsp : List UInt8} {x : α}
    {rest : ExpGolomb.Stream} (h : p ⟨0, BitField.bits rbsp⟩ = some (x, rest)) :
    whole p rbsp = some x := by
  rw [whole, h]
  rfl

/-- **The parameter sets** are read back. -/
theorem sets_read :
    (whole (readRbsp readSps) (spsRbsp S o) = some (parameterSets S o).sps ∧
      (spsRbsp S o).getLast? ≠ some 0) ∧
    (whole (readRbsp readPps) ppsRbsp = some (parameterSets S o).pps ∧
      ppsRbsp.getLast? ≠ some 0) := by
  have hsps := Bitstream.bits_spsRbsp S o
  have hpps := Bitstream.bits_ppsRbsp
  have hreadSps := Reads.rbsp (Bitstream.reads_sps S o 0)
  have hreadPps := Reads.rbsp (Bitstream.reads_pps S o 0)
  rw [← hsps] at hreadSps
  rw [← hpps] at hreadPps
  exact ⟨⟨whole_of_read hreadSps, getLast?_ne_zero hsps⟩, whole_of_read hreadPps,
    getLast?_ne_zero hpps⟩

/-- The unit is wrapped, and it is the slice of a picture. -/
structure Carries (P : ParameterSets) (u : NalUnit) (p : CodedPicture) : Prop where
  wrapped : Wrapped u
  slice : IsSlice P u p

/-- `nal_ref_idc` of a picture behind the pages. -/
def idc (isRef : Bool) : ℕ := if isRef then 2 else 0

theorem idc_le (isRef : Bool) : idc isRef ≤ 3 := by
  cases isRef <;> decide

theorem page_slice (P : Pages.Planes) (k : ℕ) :
    Carries (parameterSets S o) ⟨3, if k = 0 then 5 else 1, Pages.pcmPage S P o k⟩
      ⟨parameterSets S o, Pages.pageHeader o k, Pages.pageMbs S P⟩ := by
  obtain ⟨hread, hlast⟩ := Pages.page_read S P o k
  by_cases hk : k = 0
  · subst hk
    exact ⟨⟨le_rfl, show 0 < 5 by decide, show 5 ≤ 31 by decide, hlast⟩, .inr rfl, rfl,
      whole_of_read hread⟩
  · rw [decide_eq_false hk] at hread
    rw [if_neg hk]
    exact ⟨⟨le_rfl, Nat.one_pos, show 1 ≤ 31 by decide, hlast⟩, .inl rfl, rfl,
      whole_of_read hread⟩

theorem render_slice (D : Slice.Drawing) (old : Slice.Kept) (frameNum poc : ℕ) (isRef : Bool) :
    Carries (parameterSets D.toMbSize o)
      ⟨idc isRef, 1, (Slice.encodeFrame D.toSetting old frameNum poc isRef).1⟩
      ⟨parameterSets D.toMbSize o, Slice.header D.toSetting frameNum poc isRef,
        Slice.picture D.toSetting D.mbs⟩ := by
  obtain ⟨hread, hlast, -⟩ := Slice.slice_read D o old frameNum poc isRef
  exact ⟨⟨idc_le isRef, Nat.one_pos, show 1 ≤ 31 by decide, hlast⟩, .inl rfl, rfl,
    whole_of_read hread⟩

theorem pass_slice (S : Bpic.Pass) (old0 old1 : Grid) (frameNum poc : ℕ) (isRef : Bool) :
    Carries (parameterSets S.toMbSize o)
      ⟨idc isRef, 1, (Bpic.encodeBpic S old0 old1 frameNum poc isRef).1⟩
      ⟨parameterSets S.toMbSize o, Bpic.bpicHeader frameNum poc isRef, Bpic.passMbs S S.mbs⟩ := by
  obtain ⟨hread, hlast⟩ := Bpic.bpic_read S o old0 old1 frameNum poc isRef
  exact ⟨⟨idc_le isRef, Nat.one_pos, show 1 ≤ 31 by decide, hlast⟩, .inl rfl, rfl,
    whole_of_read hread⟩

end Slices

/-- **The stream**: the parameter sets, and the pictures behind them. -/
theorem stream_read (S : MbSize) (o : Pictures.Options) {us : List NalUnit}
    {ps : List CodedPicture} (h : List.Forall₂ (Carries (parameterSets S o)) us ps) :
    let sets : List NalUnit := [⟨3, 7, spsRbsp S o⟩, ⟨3, 8, ppsRbsp⟩]
    ((AnnexB.nalUnits ((sets ++ us).flatMap wrap)).mapM AvcStream.readNal).bind
      (readUnits ⟨none, none⟩) = some ps := by
  intro sets
  obtain ⟨⟨hsps, hlastSps⟩, hpps, hlastPps⟩ := sets_read S o
  have hwrapped : ∀ u ∈ sets ++ us, Wrapped u := by
    intro u hu
    rcases List.mem_append.mp hu with hu | hu
    · rcases List.mem_pair.mp hu with rfl | rfl
      · exact ⟨le_rfl, show 0 < 7 by decide, show 7 ≤ 31 by decide, hlastSps⟩
      · exact ⟨le_rfl, show 0 < 8 by decide, show 8 ≤ 31 by decide, hlastPps⟩
    · obtain ⟨i, hi, rfl⟩ := List.getElem_of_mem hu
      have hlength := h.length_eq
      exact (h.get (by omega) (by omega)).wrapped
  rw [units_read hwrapped, Option.bind_some]
  exact readUnits_eq hsps hpps (h.imp fun _ _ hc => hc.slice)

end BadgeOS.CodaCube
