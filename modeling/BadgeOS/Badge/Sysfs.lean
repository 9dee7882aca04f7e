import BadgeOS.Bling.Config
import BadgeOS.Lib.Cells
import BadgeOS.Lib.Median
import Mathlib

/-!
# The raw count of a rail

`sysfs.zig`: a rail is read 33 times, the counts are kept in ascending order as they come, and the
one in the middle is taken.  A read that fails is left out.  The program is built with its safety
checks, so an index out of range and a value that is no `i64` end it.

* `insertSorted` — the insertion, in place;
* `findIioDir` — the directory of a device;
* `samplesAfter`, `medianRaw` — the loop over the reads, and its result;
* `rail` — the count of a rail, as its three callers find it;
* `samplesAfter_spec` — what the buffer holds after any number of reads;
* `medianRaw_settles` — over every sequence of reads.
-/

namespace BadgeOS.Badge

open Bling (Bytes ascii)
open Cells Median

/-! ### The code -/

section Insertion

variable {T : Type*} [LinearOrder T]

/-- The loop of `insertSorted`: the cells above the value move up, and `j` is left. -/
def shift (n : ℕ) (value : T) : ℕ → (ℕ → T) → Option (ℕ × (ℕ → T))
  | 0, buf => some (0, buf)
  | j + 1, buf => do
      let left ← get n buf j
      if left > value then
        let buf ← put n buf (j + 1) left
        shift n value j buf
      else some (j + 1, buf)

/-- `insertSorted` in a buffer of `n`. -/
def insertSorted (n : ℕ) (buf : ℕ → T) (count : ℕ) (value : T) : Option ((ℕ → T) × ℕ) := do
  let (j, buf) ← shift n value count buf
  let buf ← put n buf j value
  some (buf, count + 1)

end Insertion

/-- An `f64`. -/
inductive F64
  | nan
  | infinite (negative : Bool)
  | finite (value : ℚ)
  deriving DecidableEq, Repr

/-- `@intFromFloat` to an `i64`. -/
def intFromFloat : F64 → Option ℤ
  | .finite value =>
      let i := if 0 ≤ value then ⌊value⌋ else ⌈value⌉
      if -2 ^ 63 ≤ i ∧ i < 2 ^ 63 then some i else none
  | _ => none

/-- What sysfs answers. -/
structure Io where
  /-- The content of an attribute. -/
  file : Bytes → Option Bytes
  /-- The `n`-th `read(f64, io, path)`. -/
  read : Bytes → ℕ → Option F64

def bufPrint (size : ℕ) (text : Bytes) : Option Bytes :=
  if text.length ≤ size then some text else none

/-- What `findIioDir` has written into a `[64]u8`. -/
abbrev Dir := {dir : Bytes // dir.length ≤ 64}

/-- `{iio_root}/iio:device{i}` -/
def iioDevice (i : ℕ) : Bytes := ascii "/sys/bus/iio/devices/iio:device" ++ Text.decimal i

def findIioDir (io : Io) (attr needle : Bytes) : Option Dir := do
  let i ← (List.range 16).find? fun i => Option.isSome do
    let dir ← bufPrint 64 (iioDevice i)
    let attrPath ← bufPrint 96 (dir ++ ascii "/" ++ attr)
    let val ← io.file attrPath
    if needle <:+: val then some () else none
  if h : (iioDevice i).length ≤ 64 then some ⟨iioDevice i, h⟩ else none

def median_samples : ℕ := 33

/-- `samples` and `count`. -/
structure Samples where
  samples : ℕ → ℤ
  count : ℕ

/-- One turn of the loop: a read that fails is left out. -/
def takeSample (s : Samples) (raw : Option F64) : Option Samples :=
  match raw with
  | none => some s
  | some raw => do
      let value ← intFromFloat raw
      let (samples, count) ← insertSorted median_samples s.samples s.count value
      some ⟨samples, count⟩

/-- The first `k` reads of an attribute. -/
def reads (io : Io) (path : Bytes) (k : ℕ) : List (Option F64) := (List.range k).map (io.read path)

/-- The loop after `k` turns, from what the stack held. -/
def samplesAfter (stack : ℕ → ℤ) (io : Io) (path : Bytes) (k : ℕ) : Option Samples :=
  (reads io path k).foldlM takeSample ⟨stack, 0⟩

/-- `{dir}/in_voltage{channel}_raw` -/
def rawPath (dir : Dir) (channel : UInt32) : Bytes :=
  dir.1 ++ ascii "/in_voltage" ++ Text.decimal channel.toNat ++ ascii "_raw"

/-- `medianRaw`: no count, or one; `none` when a check ends the program. -/
def medianRaw (stack : ℕ → ℤ) (io : Io) (dir : Dir) (channel : UInt32) : Option (Option ℤ) :=
  match bufPrint 96 (rawPath dir channel) with
  | none => some none
  | some path => do
      let s ← samplesAfter stack io path median_samples
      if s.count = 0 then some none
      else (get median_samples s.samples (s.count / 2 : ℕ)).map some

/-- The raw count that `channelVolts` scales, of the device that has `needle` in its `attr`. -/
def rail (attr needle : String) (channel : UInt32) (stack : ℕ → ℤ) (io : Io) : Option (Option ℤ) :=
  match findIioDir io (ascii attr) (ascii needle) with
  | none => some none
  | some dir => (medianRaw stack io dir channel).map fun raw => raw.filter (0 ≤ ·)

/-- `readVselVolts` -/
def readVsel := rail "label" "vsel" 0

/-- `readJ6Volts` -/
def readJ6 := rail "name" "sophgo-cv1800b-adc" 2

/-- `readBattery` -/
def readVbat := rail "label" "vbat" 0

/-- Reads of 320, but for a spike and every fifth one that fails. -/
example : medianRaw (fun _ => 7)
    ⟨fun _ => none,
      fun _ n => if n % 5 = 4 then none else some (.finite (if n = 3 then 640 else 320))⟩
    ⟨iioDevice 0, by decide⟩ 2 = some (some 320) := by decide +kernel

/-! ### The insertion -/

section Insertion

variable {T : Type*} [LinearOrder T] {n : ℕ} {value : T}

/-- **One insertion.** In a buffer with room and an ascending front of `count` values, the value
gets a place among them; the cells behind are left. -/
theorem shift_spec (count : ℕ) (buf : ℕ → T) (hroom : count < n)
    (hsorted : (front buf count).Pairwise (· ≤ ·)) :
    ∃ j buf' buf'', shift n value count buf = some (j, buf') ∧ put n buf' j value = some buf'' ∧
      (front buf'' (count + 1)).Pairwise (· ≤ ·) ∧
      (front buf'' (count + 1)).Perm (value :: front buf count) ∧
      ∀ k, count < k → buf'' k = buf k := by
  induction count generalizing buf with
  | zero =>
      refine ⟨0, buf, _, rfl, put_of_lt buf value hroom, ?_, ?_, ?_⟩
      · simp [front_succ]
      · simp [front_succ]
      · intro k hk
        rw [if_neg (by omega)]
  | succ j ih =>
      have hleft : get n buf (j : ℕ) = some (buf j) := get_of_lt buf (by omega)
      have hput (a : T) := put_of_lt buf a hroom
      have hinit : (front buf j).Pairwise (· ≤ ·) := by
        rw [front_succ] at hsorted
        exact (List.pairwise_append.mp hsorted).1
      have hlast : ∀ x ∈ front buf j, x ≤ buf j := by
        rw [front_succ] at hsorted
        exact fun x hx => (List.pairwise_append.mp hsorted).2.2 x hx _ (by simp)
      by_cases hlt : value < buf j
      · -- the last value moves up, and the insertion goes on in front of it
        have hfront : front (fun i => if i = j + 1 then buf j else buf i) j = front buf j :=
          front_congr fun i hi => if_neg (by omega)
        obtain ⟨j', buf', buf'', hshift, hput', hasc, hperm, hrest⟩ :=
          ih (fun i => if i = j + 1 then buf j else buf i) (by omega) (by rwa [hfront])
        have hmoved : buf'' (j + 1) = buf j := by
          rw [hrest (j + 1) (by omega), if_pos rfl]
        rw [hfront] at hperm
        refine ⟨j', buf', buf'', ?_, hput', ?_, ?_, ?_⟩
        · rw [shift, hleft, Option.bind_eq_bind, Option.bind_some, if_pos hlt]
          rw [show ((j : ℕ) : ℤ) + 1 = ((j + 1 : ℕ) : ℤ) by push_cast; rfl, hput]
          exact hshift
        · rw [front_succ, hmoved]
          apply pairwise_concat hasc
          intro x hx
          rcases List.mem_cons.mp (hperm.mem_iff.mp hx) with rfl | hx
          · exact hlt.le
          · exact hlast x hx
        · rw [front_succ buf'' (j + 1), hmoved, front_succ buf j]
          exact hperm.append_right [buf j]
        · intro k hk
          rw [hrest k (by omega), if_neg (by omega)]
      · -- the value goes right behind it
        have hfront : front (fun i => if i = j + 1 then value else buf i) (j + 1) =
            front buf (j + 1) := front_congr fun i hi => if_neg (by omega)
        refine ⟨j + 1, buf, _, ?_, hput value, ?_, ?_, ?_⟩
        · rw [shift, hleft, Option.bind_eq_bind, Option.bind_some, if_neg hlt]
        · rw [front_succ, hfront, if_pos rfl]
          apply pairwise_concat hsorted
          intro x hx
          rw [front_succ, List.mem_append, List.mem_singleton] at hx
          rcases hx with hx | rfl
          · exact (hlast x hx).trans (not_lt.mp hlt)
          · exact not_lt.mp hlt
        · rw [front_succ, hfront, if_pos rfl]
          exact List.perm_append_singleton value (front buf (j + 1))
        · intro k hk
          exact if_neg (by omega)

/-- `insertSorted` keeps the front ascending, and adds the value to it. -/
theorem insertSorted_spec (value : T) {count : ℕ} {buf : ℕ → T} (hroom : count < n)
    (hsorted : (front buf count).Pairwise (· ≤ ·)) :
    ∃ buf', insertSorted n buf count value = some (buf', count + 1) ∧
      (front buf' (count + 1)).Pairwise (· ≤ ·) ∧
      (front buf' (count + 1)).Perm (value :: front buf count) := by
  obtain ⟨j, buf', buf'', hshift, hput, hasc, hperm, -⟩ := shift_spec count buf hroom hsorted
  refine ⟨buf'', ?_, hasc, hperm⟩
  rw [insertSorted, hshift, Option.bind_eq_bind, Option.bind_some]
  change (put n buf' j value).bind _ = _
  rw [hput, Option.bind_some]

end Insertion

/-! ### The reads -/

/-- The counts among reads, in their order. -/
def countsOf (rs : List (Option F64)) : List ℤ := rs.filterMap fun r => r.bind intFromFloat

/-- A value that `@intFromFloat` takes. -/
def F64.Fits (raw : F64) : Prop := (intFromFloat raw).isSome

instance (raw : F64) : Decidable raw.Fits := inferInstanceAs (Decidable (_ = true))

/-- A value from `lo` to `hi`. -/
def F64.Within (lo hi : ℤ) : F64 → Prop
  | .finite value => lo ≤ value ∧ value ≤ hi
  | _ => False

instance (lo hi : ℤ) : (raw : F64) → Decidable (raw.Within lo hi)
  | .finite _ => inferInstanceAs (Decidable (_ ∧ _))
  | .nan => .isFalse id
  | .infinite _ => .isFalse id

/-- The reads that did not fail. -/
def successful (rs : List (Option F64)) : List F64 := rs.filterMap id

/-- The buffer holds the values in ascending order. -/
structure Samples.Holds (s : Samples) (vs : List ℤ) : Prop where
  count : s.count = vs.length
  ascending : (front s.samples s.count).Pairwise (· ≤ ·)
  perm : (front s.samples s.count).Perm vs

variable {s s' : Samples} {vs : List ℤ} {rs : List (Option F64)} {raw : F64} {v lo hi : ℤ}

theorem takeSample_spec (hs : s.Holds vs) (hroom : vs.length < median_samples)
    (hv : intFromFloat raw = some v) :
    ∃ s', takeSample s (some raw) = some s' ∧ s'.Holds (vs ++ [v]) := by
  obtain ⟨samples, hins, hasc, hperm⟩ :=
    insertSorted_spec v (hs.count ▸ hroom) hs.ascending
  refine ⟨⟨samples, s.count + 1⟩, ?_, ?_, hasc, ?_⟩
  · rw [takeSample, hv, Option.bind_eq_bind, Option.bind_some, hins]
    rfl
  · rw [List.length_append, List.length_singleton, ← hs.count]
  · exact hperm.trans ((hs.perm.cons v).trans (List.perm_append_singleton v vs).symm)

/-- **A run of reads.** From values that are held, the counts of further reads are added to them,
as long as each read that succeeds has a count. -/
theorem foldlM_takeSample (hs : s.Holds vs) (hroom : vs.length + rs.length ≤ median_samples)
    (hfits : ∀ raw, some raw ∈ rs → raw.Fits) :
    ∃ s', rs.foldlM takeSample s = some s' ∧ s'.Holds (vs ++ countsOf rs) := by
  induction rs generalizing s vs with
  | nil => exact ⟨s, rfl, by simpa [countsOf] using hs⟩
  | cons r rs ih =>
      rw [List.length_cons] at hroom
      have hrest : ∀ raw, some raw ∈ rs → raw.Fits := fun raw h => hfits raw (by simp [h])
      rw [List.foldlM_cons]
      cases r with
      | none => exact ih hs (by omega) hrest
      | some raw =>
          obtain ⟨v, hv⟩ := Option.isSome_iff_exists.mp (hfits raw (by simp))
          obtain ⟨s₁, htake, hs₁⟩ := takeSample_spec hs (by omega) hv
          obtain ⟨s', hrun, hs'⟩ := ih hs₁ (by simp; omega) hrest
          refine ⟨s', ?_, ?_⟩
          · rw [htake]
            exact hrun
          · have hcounts : countsOf (some raw :: rs) = v :: countsOf rs := by simp [countsOf, hv]
            rw [hcounts, List.append_cons]
            exact hs'

/-- A read without a count ends the program. -/
theorem fits_of_foldlM (h : rs.foldlM takeSample s = some s') :
    ∀ raw, some raw ∈ rs → raw.Fits := by
  induction rs generalizing s with
  | nil => simp
  | cons r rs ih =>
      rw [List.foldlM_cons] at h
      obtain ⟨s₁, htake, hrun⟩ := Option.bind_eq_some_iff.mp h
      intro raw hraw
      rcases List.mem_cons.mp hraw with rfl | hraw
      · obtain ⟨v, hv, -⟩ := Option.bind_eq_some_iff.mp htake
        exact Option.isSome_iff_exists.mpr ⟨v, hv⟩
      · exact ih hrun raw hraw

/-- Cutting a value off leaves it between whole numbers. -/
theorem intFromFloat_within (hv : intFromFloat raw = some v) (h : raw.Within lo hi) :
    lo ≤ v ∧ v ≤ hi := by
  cases raw with
  | nan => cases h
  | infinite negative => cases h
  | finite value =>
      obtain ⟨hlo, hhi⟩ := h
      rw [intFromFloat] at hv
      obtain ⟨-, hcut⟩ := Option.ite_none_right_eq_some.mp hv
      rw [← Option.some.inj hcut]
      split
      · exact ⟨Int.le_floor.mpr hlo, Int.cast_le.mp ((Int.floor_le value).trans hhi)⟩
      · exact ⟨Int.cast_le.mp (hlo.trans (Int.le_ceil value)), Int.ceil_le.mpr hhi⟩

/-- Reads that have a count each: no more counts than reads are outside. -/
theorem countsOf_outside (hfits : ∀ raw, some raw ∈ rs → raw.Fits) (lo hi : ℤ) :
    (countsOf rs).length = (successful rs).length ∧
      (countsOf rs).countP (fun v => decide (v ∉ Set.Icc lo hi)) ≤
        (successful rs).countP fun raw => decide (¬ raw.Within lo hi) := by
  induction rs with
  | nil => exact ⟨rfl, le_rfl⟩
  | cons r rs ih =>
      obtain ⟨hlen, hout⟩ := ih fun raw h => hfits raw (by simp [h])
      cases r with
      | none => exact ⟨hlen, hout⟩
      | some raw =>
          obtain ⟨v, hv⟩ := Option.isSome_iff_exists.mp (hfits raw (by simp))
          have hcounts : countsOf (some raw :: rs) = v :: countsOf rs := by simp [countsOf, hv]
          have hreads : successful (some raw :: rs) = raw :: successful rs := by simp [successful]
          have hin : raw.Within lo hi → v ∈ Set.Icc lo hi := intFromFloat_within hv
          rw [hcounts, hreads, List.countP_cons, List.countP_cons]
          refine ⟨by rw [List.length_cons, List.length_cons, hlen], ?_⟩
          by_cases hraw : raw.Within lo hi
          · simp only [hin hraw, hraw, not_true_eq_false, decide_false]
            exact hout
          · simp only [hraw, not_false_eq_true, decide_true, if_true]
            split <;> omega

/-! ### The middle -/

variable {stack : ℕ → ℤ} {io : Io} {path : Bytes} {dir : Dir} {channel : UInt32} {k : ℕ}

/-- The path of a found device fits its buffer. -/
theorem rawPath_fits (dir : Dir) (channel : UInt32) :
    bufPrint 96 (rawPath dir channel) = some (rawPath dir channel) := by
  have hdigits : (Text.decimal channel.toNat).length ≤ 10 :=
    Text.length_decimal_le (by decide) (channel.toNat_lt.trans (by decide))
  have hdir := dir.2
  have hhead : (ascii "/in_voltage").length = 11 := by decide
  have htail : (ascii "_raw").length = 4 := by decide
  rw [bufPrint, if_pos]
  rw [rawPath, List.length_append, List.length_append, List.length_append, hhead, htail]
  omega

/-- What the buffer holds after the first `k` reads. -/
theorem samplesAfter_spec (stack : ℕ → ℤ) (hk : k ≤ median_samples)
    (hfits : ∀ raw, some raw ∈ reads io path k → raw.Fits) :
    ∃ s, samplesAfter stack io path k = some s ∧ s.Holds (countsOf (reads io path k)) := by
  have hstart : Samples.Holds ⟨stack, 0⟩ [] := ⟨rfl, by simp, by simp⟩
  exact foldlM_takeSample hstart (by simpa [reads] using hk) hfits

theorem mem_successful : raw ∈ successful rs ↔ some raw ∈ rs := by
  simp [successful]

theorem samplesAfter_holds (hk : k ≤ median_samples) (h : samplesAfter stack io path k = some s) :
    s.Holds (countsOf (reads io path k)) := by
  obtain ⟨s', hrun, hs'⟩ := samplesAfter_spec stack hk (fits_of_foldlM h)
  rw [Option.some.inj (h.symm.trans hrun)]
  exact hs'

/-- The middle of the buffer, when it holds anything. -/
theorem medianRaw_of_samples
    (h : samplesAfter stack io (rawPath dir channel) median_samples = some s) :
    medianRaw stack io dir channel =
      some (if s.count = 0 then none else some (s.samples (s.count / 2))) := by
  have hcount : s.count ≤ median_samples := by
    rw [(samplesAfter_holds le_rfl h).count, countsOf]
    exact (List.length_filterMap_le _ _).trans (by simp [reads])
  rw [medianRaw, rawPath_fits]
  change (samplesAfter stack io (rawPath dir channel) median_samples).bind _ = _
  rw [h, Option.bind_some]
  by_cases hzero : s.count = 0
  · rw [if_pos hzero, if_pos hzero]
  · rw [if_neg hzero, if_neg hzero, get_of_lt s.samples (by omega), Option.map_some]

theorem medianRaw_isSome_iff : (medianRaw stack io dir channel).isSome ↔
    ∀ raw ∈ successful (reads io (rawPath dir channel) median_samples), raw.Fits := by
  constructor
  · intro h raw hraw
    rw [medianRaw, rawPath_fits] at h
    obtain ⟨r, hr⟩ := Option.isSome_iff_exists.mp h
    obtain ⟨s, hs, -⟩ := Option.bind_eq_some_iff.mp hr
    exact fits_of_foldlM hs raw (mem_successful.mp hraw)
  · intro hfits
    obtain ⟨s, hs, -⟩ := samplesAfter_spec stack le_rfl
      fun raw h => hfits raw (mem_successful.mpr h)
    rw [medianRaw_of_samples hs]
    rfl

/-- There is no count in the end exactly when every read failed. -/
theorem medianRaw_eq_null_iff : medianRaw stack io dir channel = some none ↔
    ∀ n < median_samples, io.read (rawPath dir channel) n = none := by
  constructor
  · intro h n hn
    have hfits := medianRaw_isSome_iff.mp (Option.isSome_of_eq_some h)
    obtain ⟨s, hs, hholds⟩ := samplesAfter_spec stack le_rfl
      fun raw hraw => hfits raw (mem_successful.mpr hraw)
    rw [medianRaw_of_samples hs] at h
    have hzero : s.count = 0 := by
      by_contra hne
      rw [if_neg hne] at h
      cases h
    obtain ⟨hlen, -⟩ := countsOf_outside (fun raw hraw => hfits raw (mem_successful.mpr hraw)) 0 0
    rw [hholds.count, hlen, List.length_eq_zero_iff] at hzero
    by_contra hread
    obtain ⟨raw, hraw⟩ := Option.ne_none_iff_exists'.mp hread
    have hmem : some raw ∈ reads io (rawPath dir channel) median_samples :=
      List.mem_map.mpr ⟨n, List.mem_range.mpr hn, hraw⟩
    rw [← mem_successful, hzero] at hmem
    cases hmem
  · intro h
    have hnone : ∀ raw, some raw ∉ reads io (rawPath dir channel) median_samples := by
      intro raw hraw
      obtain ⟨n, hn, hread⟩ := List.mem_map.mp hraw
      rw [h n (List.mem_range.mp hn)] at hread
      cases hread
    obtain ⟨s, hs, hholds⟩ := samplesAfter_spec stack le_rfl
      fun raw hraw => absurd hraw (hnone raw)
    have hcounts : countsOf (reads io (rawPath dir channel) median_samples) = [] := by
      rw [countsOf, List.filterMap_eq_nil_iff]
      intro r hr
      cases r with
      | none => rfl
      | some raw => exact absurd hr (hnone raw)
    rw [medianRaw_of_samples hs, if_pos (by rw [hholds.count, hcounts]; rfl)]

/-- The count lies in an interval that fewer than half of the successful reads are outside of. -/
theorem medianRaw_within (h : medianRaw stack io dir channel = some (some v))
    (hfew : 2 * (successful (reads io (rawPath dir channel) median_samples)).countP
        (fun raw => decide (¬ raw.Within lo hi)) <
      (successful (reads io (rawPath dir channel) median_samples)).length) : lo ≤ v ∧ v ≤ hi := by
  have hfits := medianRaw_isSome_iff.mp (Option.isSome_of_eq_some h)
  obtain ⟨s, hs, hholds⟩ := samplesAfter_spec stack le_rfl
    fun raw hraw => hfits raw (mem_successful.mpr hraw)
  obtain ⟨hlen, hout⟩ :=
    countsOf_outside (fun raw hraw => hfits raw (mem_successful.mpr hraw)) lo hi
  have hcount : (front s.samples s.count).length = s.count := length_front _ _
  have hpos : 0 < s.count := by
    rw [hholds.count, hlen]
    omega
  have hhalf : (front s.samples s.count).length / 2 < (front s.samples s.count).length := by omega
  have hmid : (front s.samples s.count)[(front s.samples s.count).length / 2] ∈
      Set.Icc lo hi := by
    apply half_mem hholds.ascending Set.ordConnected_Icc
    rw [hholds.perm.countP_eq, hcount, hholds.count, hlen]
    omega
  rw [medianRaw_of_samples hs, if_neg (by omega)] at h
  rw [getElem_front, hcount, Option.some.inj (Option.some.inj h)] at hmid
  exact hmid

/-- A rail's count is the middle one of its device's, and is not negative. -/
theorem rail_within {attr needle : String} (h : rail attr needle channel stack io = some (some v))
    (hfew : ∀ dir, findIioDir io (ascii attr) (ascii needle) = some dir →
      2 * (successful (reads io (rawPath dir channel) median_samples)).countP
          (fun raw => decide (¬ raw.Within lo hi)) <
        (successful (reads io (rawPath dir channel) median_samples)).length) :
    0 ≤ v ∧ lo ≤ v ∧ v ≤ hi := by
  rw [rail] at h
  cases hdir : findIioDir io (ascii attr) (ascii needle) with
  | none =>
      rw [hdir] at h
      cases h
  | some dir =>
      rw [hdir] at h
      obtain ⟨raw, hraw, hpos⟩ := Option.map_eq_some_iff.mp h
      obtain ⟨rfl, hv⟩ := Option.filter_eq_some_iff.mp hpos
      exact ⟨of_decide_eq_true hv, medianRaw_within hraw (hfew dir hdir)⟩

/-- **Repeated reads settle on the middle.** After any number of reads the front of the buffer is
an ascending permutation of the counts read so far; there is no count in the end exactly when every
read failed; and the count lies in every interval that fewer than half of the successful reads are
outside of.  A check ends the program exactly when a successful read is no `i64`. -/
theorem medianRaw_settles (stack : ℕ → ℤ) (io : Io) (dir : Dir) (channel : UInt32) :
    (∀ k ≤ median_samples, ∀ s, samplesAfter stack io (rawPath dir channel) k = some s →
      (front s.samples s.count).Pairwise (· ≤ ·) ∧
        (front s.samples s.count).Perm (countsOf (reads io (rawPath dir channel) k))) ∧
    (medianRaw stack io dir channel = some none ↔
      ∀ n < median_samples, io.read (rawPath dir channel) n = none) ∧
    (∀ lo hi v, medianRaw stack io dir channel = some (some v) →
      2 * (successful (reads io (rawPath dir channel) median_samples)).countP
          (fun raw => decide (¬ raw.Within lo hi)) <
        (successful (reads io (rawPath dir channel) median_samples)).length → lo ≤ v ∧ v ≤ hi) ∧
    ((medianRaw stack io dir channel).isSome ↔
      ∀ raw ∈ successful (reads io (rawPath dir channel) median_samples), raw.Fits) := by
  refine ⟨?_, medianRaw_eq_null_iff, fun lo hi v => medianRaw_within, medianRaw_isSome_iff⟩
  intro k hk s hs
  have hholds := samplesAfter_holds hk hs
  exact ⟨hholds.ascending, hholds.perm⟩

end BadgeOS.Badge
