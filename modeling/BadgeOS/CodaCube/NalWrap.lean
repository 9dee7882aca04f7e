import BadgeOS.Lib.Swar
import Mathlib

/-!
# Emulation prevention

`nal_wrap` of `coda-cube.c`: a raw payload between a start code and the decoder, with a byte 3
inserted wherever two zero bytes would be followed by a byte of 3 at most.  Eight bytes above 3
are copied at once.  The zero count never passes two, so that the source's `int` holds it.

* `wrapFrom`, `nalWrap` — the loop of the source and its output;
* `bytewise` — the loop without the copy of eight bytes;
* `nal_wrap_exact` — what a decoder sees in the output.
-/

namespace BadgeOS.CodaCube

open Swar

/-- A byte of the payload: `out[o++] = 3` or `out[o++] = rbsp[i]`. -/
inductive Written
  | inserted
  | copied (b : UInt8)
  deriving DecidableEq, Repr

def Written.byte : Written → UInt8
  | .inserted => 3
  | .copied b => b

def Written.bytes (ws : List Written) : List UInt8 := ws.map Written.byte

/-- The test of eight bytes `x`. -/
def noEscape (x : UInt64) : Bool :=
  (x - 0x0404040404040404) &&& ~~~x &&& 0x8080808080808080 == 0

/-- One byte with the zero count `z`: what is written, and the count behind it. -/
def putByte (z : ℕ) (b : UInt8) : List Written × ℕ :=
  if z ≥ 2 ∧ b ≤ 3 then ([.inserted, .copied b], if b ≠ 0 then 0 else 0 + 1)
  else ([.copied b], if b ≠ 0 then 0 else z + 1)

/-- The loop over `rbsp` from `i` on. -/
def wrapFrom (z : ℕ) : List UInt8 → List Written
  | [] => []
  | b :: rest =>
    if 8 ≤ (b :: rest).length ∧ noEscape (UInt64.ofNat (word ((b :: rest).take 8))) then
      ((b :: rest).take 8).map .copied ++ wrapFrom 0 ((b :: rest).drop 8)
    else (putByte z b).1 ++ wrapFrom (putByte z b).2 rest
termination_by rbsp => rbsp.length
decreasing_by all_goals simp; try omega

def payload (rbsp : List UInt8) : List Written := wrapFrom 0 rbsp

def nalWrap (refIdc type : ℕ) (rbsp : List UInt8) : List UInt8 :=
  [0, 0, 0, 1, UInt8.ofNat (refIdc <<< 5 ||| type)] ++ Written.bytes (payload rbsp)

/-- `nal_wrap`, byte after byte. -/
def bytewise (z : ℕ) : List UInt8 → List Written
  | [] => []
  | b :: rest => (putByte z b).1 ++ bytewise (putByte z b).2 rest

/-! ### The copy of eight bytes -/

theorem testBit_tops : ∀ i < 64, (0x8080808080808080 : ℕ).testBit i = decide (i % 8 = 7) := by
  decide

theorem noEscape_iff {bs : List UInt8} (hlen : bs.length = 8) :
    noEscape (UInt64.ofNat (word bs)) = true ↔ ¬ Borrows 4 bs := by
  have hlt : word bs < 2 ^ 64 := by
    have h := word_lt bs
    rw [hlen] at h
    omega
  have hword : (UInt64.ofNat (word bs)).toNat = word bs := UInt64.toNat_ofNat_of_lt' hlt
  have hsub : (UInt64.ofNat (word bs) - 0x0404040404040404).toNat = lowered 4 bs := by
    have hspread : spread 4 8 = 0x0404040404040404 := by decide
    rw [UInt64.toNat_sub, hword, lowered, hlen, hspread]
    show (2 ^ 64 - 0x0404040404040404 + word bs) % 2 ^ 64 = _
    omega
  have hnot : ∀ j < 64, (~~~UInt64.ofNat (word bs)).toNat.testBit j = !(word bs).testBit j := by
    intro j hj
    rw [UInt64.toNat_not, hword, show UInt64.size - 1 - word bs = 2 ^ 64 - (word bs + 1) by
      rw [Nat.sub_sub, Nat.add_comm 1]; rfl, Nat.testBit_two_pow_sub_succ hlt]
    simp [hj]
  have hbit : ∀ j, ((UInt64.ofNat (word bs) - 0x0404040404040404) &&& ~~~UInt64.ofNat (word bs)
      &&& 0x8080808080808080).toNat.testBit j =
      (decide (j < 64) && decide (j % 8 = 7) && (lowered 4 bs).testBit j &&
        !(word bs).testBit j) := by
    intro j
    rw [UInt64.toNat_and, UInt64.toNat_and, Nat.testBit_and, Nat.testBit_and, hsub]
    by_cases hj : j < 64
    · rw [hnot j hj, show (0x8080808080808080 : UInt64).toNat = 0x8080808080808080 from rfl,
        testBit_tops j hj]
      rw [Bool.and_comm]
      simp [hj, Bool.and_assoc]
    · have htop : (0x8080808080808080 : UInt64).toNat.testBit j = false :=
        Nat.testBit_lt_two_pow (lt_of_lt_of_le (UInt64.toNat_lt _)
          (Nat.pow_le_pow_right (by omega) (by omega)))
      rw [htop]
      simp [hj]
  rw [noEscape, beq_iff_eq, ← UInt64.toNat_inj]
  constructor
  · rintro hzero ⟨k, hk, hset, hclear⟩
    have h := hbit (8 * k + 7)
    rw [hzero, hset, hclear] at h
    simp [show 8 * k + 7 < 64 by omega, show (8 * k + 7) % 8 = 7 by omega] at h
  · intro hno
    apply Nat.eq_of_testBit_eq
    intro j
    rw [hbit j]
    simp only [UInt64.toNat_zero, Nat.zero_testBit, Bool.and_eq_false_imp, Bool.not_eq_eq_eq_not,
      Bool.and_eq_true, decide_eq_true_eq]
    rintro ⟨⟨hj, htop⟩, hset⟩
    by_contra hclear
    refine hno ⟨j / 8, by omega, ?_, ?_⟩
    · rwa [show 8 * (j / 8) + 7 = j by omega]
    · rw [show 8 * (j / 8) + 7 = j by omega]
      simpa using hclear

/-- A byte above 3 ends a zero run and needs no escape. -/
theorem putByte_of_gt {b : UInt8} (hb : 4 ≤ b.toNat) (z : ℕ) : putByte z b = ([.copied b], 0) := by
  have hlarge : ¬ b ≤ 3 := by
    rw [UInt8.le_iff_toNat_le]
    show ¬ b.toNat ≤ 3
    omega
  have hzero : b ≠ 0 := by
    rintro rfl
    simp at hb
  rw [putByte, if_neg fun h => hlarge h.2, if_pos hzero]

theorem bytewise_of_gt {bs : List UInt8} (hbs : ∀ b ∈ bs, 4 ≤ b.toNat) (rest : List UInt8) :
    bytewise 0 (bs ++ rest) = bs.map .copied ++ bytewise 0 rest := by
  induction bs with
  | nil => rfl
  | cons b bs ih =>
      rw [List.cons_append, bytewise, putByte_of_gt (hbs b (by simp)),
        ih fun c hc => hbs c (by simp [hc])]
      rfl

/-- The first of the eight bytes ends the run that was there. -/
theorem bytewise_eight {bs : List UInt8} (hbs : ∀ b ∈ bs, 4 ≤ b.toNat) (hne : bs ≠ [])
    (z : ℕ) (rest : List UInt8) :
    bytewise z (bs ++ rest) = bs.map .copied ++ bytewise 0 rest := by
  cases bs with
  | nil => exact absurd rfl hne
  | cons b bs =>
      rw [List.cons_append, bytewise, putByte_of_gt (hbs b (by simp)),
        bytewise_of_gt fun c hc => hbs c (by simp [hc])]
      rfl

theorem wrapFrom_eq_bytewise (z : ℕ) (rbsp : List UInt8) : wrapFrom z rbsp = bytewise z rbsp := by
  induction z, rbsp using wrapFrom.induct with
  | case1 z => rw [wrapFrom, bytewise]
  | case2 z b rest hcopy ih =>
      rw [wrapFrom, if_pos hcopy, ih]
      obtain ⟨hlen, htest⟩ := hcopy
      have htake : ((b :: rest).take 8).length = 8 := List.length_take_of_le hlen
      rw [noEscape_iff htake, borrows_iff (by omega)] at htest
      have hall : ∀ c ∈ (b :: rest).take 8, 4 ≤ c.toNat := by
        intro c hc
        by_contra hlow
        exact htest ⟨c, hc, by omega⟩
      have hne : (b :: rest).take 8 ≠ [] := by simp
      rw [← bytewise_eight hall hne z, List.take_append_drop]
  | case3 z b rest hno ih => rw [wrapFrom, if_neg hno, ih, bytewise]

/-! ### The escapes -/

/-- Two zero bytes are followed by nothing of 2 at most, and by a 3 only where it is inserted. -/
def Escaped (ws : List Written) : Prop :=
  ∀ k : ℕ, (Written.bytes ws)[k]? = some 0 → (Written.bytes ws)[k + 1]? = some 0 →
    (∀ b, (Written.bytes ws)[k + 2]? = some b → 3 ≤ b.toNat) ∧
      ((Written.bytes ws)[k + 2]? = some 3 → ws[k + 2]? = some .inserted)

/-- The payload without the byte 3 after two zero bytes. -/
def unescape : List UInt8 → List UInt8
  | 0 :: 0 :: 3 :: rest => 0 :: 0 :: unescape rest
  | b :: rest => b :: unescape rest
  | [] => []

def zeros (z : ℕ) : List Written := List.replicate z (.copied 0)

theorem escaped_cons {w : Written} {ws : List Written} :
    Escaped (w :: ws) ↔ (w.byte = 0 → (Written.bytes ws)[0]? = some 0 →
      (∀ b, (Written.bytes ws)[1]? = some b → 3 ≤ b.toNat) ∧
        ((Written.bytes ws)[1]? = some 3 → ws[1]? = some .inserted)) ∧ Escaped ws := by
  constructor
  · intro h
    refine ⟨fun hw hnext => ?_, fun k => ?_⟩
    · simpa [Written.bytes] using h 0 (by simpa [Written.bytes] using hw)
        (by simpa [Written.bytes] using hnext)
    · simpa [Written.bytes] using h (k + 1)
  · rintro ⟨hhead, htail⟩ k
    cases k with
    | zero => simpa [Written.bytes] using hhead
    | succ k => simpa [Written.bytes] using htail k

/-- What one byte does behind at most two zero bytes. -/
theorem putByte_cases {z : ℕ} (hz : z ≤ 2) (b : UInt8) :
    (z = 2 ∧ b = 0 ∧ putByte z b = ([.inserted, .copied b], 1)) ∨
    (z = 2 ∧ b ≠ 0 ∧ putByte z b = ([.inserted, .copied b], 0)) ∨
    (z ≤ 1 ∧ b = 0 ∧ putByte z b = ([.copied b], z + 1)) ∨
    (b ≠ 0 ∧ (z = 2 → 4 ≤ b.toNat) ∧ putByte z b = ([.copied b], 0)) := by
  have hle : b ≤ 3 ↔ b.toNat ≤ 3 := by
    rw [UInt8.le_iff_toNat_le]
    rfl
  by_cases hescape : z ≥ 2 ∧ b ≤ 3
  · have hput : putByte z b = ([.inserted, .copied b], if b ≠ 0 then 0 else 0 + 1) :=
      if_pos hescape
    by_cases hb : b = 0
    · left
      refine ⟨by omega, hb, ?_⟩
      rw [hput, if_neg fun h => h hb]
    · right; left
      refine ⟨by omega, hb, ?_⟩
      rw [hput, if_pos hb]
  · have hput : putByte z b = ([.copied b], if b ≠ 0 then 0 else z + 1) := if_neg hescape
    by_cases hb : b = 0
    · right; right; left
      refine ⟨?_, hb, ?_⟩
      · by_contra hlarge
        exact hescape ⟨by omega, by simp [hb]⟩
      · rw [hput, if_neg fun h => h hb]
    · right; right; right
      refine ⟨hb, fun htwo => ?_, ?_⟩
      · by_contra hlow
        exact hescape ⟨by omega, hle.mpr (by omega)⟩
      · rw [hput, if_pos hb]

theorem zeros_concat (z : ℕ) (ws : List Written) :
    zeros z ++ .copied 0 :: ws = zeros (z + 1) ++ ws := by
  simp [zeros, List.replicate_succ']

/-- A byte that is not zero ends a run of at most two. -/
theorem escaped_run {z : ℕ} (hz : z ≤ 2) {w : Written} {ws : List Written} (hw : w.byte ≠ 0)
    (htwo : z = 2 → 3 ≤ w.byte.toNat ∧ (w.byte = 3 → w = .inserted)) (h : Escaped ws) :
    Escaped (zeros z ++ w :: ws) := by
  have hone : Escaped (w :: ws) := escaped_cons.mpr ⟨fun hzero => absurd hzero hw, h⟩
  interval_cases z
  · exact hone
  · exact escaped_cons.mpr ⟨by simp [Written.bytes, hw], hone⟩
  · refine escaped_cons.mpr ⟨?_, escaped_cons.mpr ⟨by simp [Written.bytes, hw], hone⟩⟩
    rintro - -
    have h2 := htwo rfl
    simpa [Written.bytes] using h2

theorem escaped_bytewise {z : ℕ} (hz : z ≤ 2) (rbsp : List UInt8) :
    Escaped (zeros z ++ bytewise z rbsp) := by
  induction rbsp generalizing z with
  | nil =>
      rw [bytewise, List.append_nil]
      intro k _ _
      have hnone : (Written.bytes (zeros z))[k + 2]? = none := by
        simp [Written.bytes, zeros]
        omega
      simp [hnone]
  | cons b rest ih =>
      rw [bytewise]
      rcases putByte_cases hz b with ⟨rfl, rfl, hput⟩ | ⟨rfl, hb, hput⟩ | ⟨hlow, rfl, hput⟩ |
        ⟨hb, hlarge, hput⟩
      · rw [hput]
        exact escaped_run hz (by decide) (fun _ => by decide) (ih (by omega : 1 ≤ 2))
      · rw [hput]
        exact escaped_run hz (by decide) (fun _ => by decide)
          (escaped_run (z := 0) (by omega) hb (by omega) (ih (by omega : 0 ≤ 2)))
      · rw [hput, List.singleton_append, zeros_concat]
        exact ih (by omega)
      · rw [hput]
        refine escaped_run hz hb (fun htwo => ⟨?_, fun hthree => ?_⟩) (ih (by omega : 0 ≤ 2))
        · exact (by omega : 3 ≤ 4).trans (hlarge htwo)
        · have h4 := hlarge htwo
          rw [show b = 3 from hthree] at h4
          exact absurd h4 (by decide)

/-! ### Back to the raw payload -/

theorem unescape_cons {b : UInt8} {bs : List UInt8}
    (h : ∀ rest, b = 0 → bs = 0 :: 3 :: rest → False) : unescape (b :: bs) = b :: unescape bs := by
  rw [unescape]
  exact h

theorem unescape_run {z : ℕ} (hz : z ≤ 2) {b : UInt8} (hb : b ≠ 0)
    (htwo : z = 2 → 4 ≤ b.toNat) (bs : List UInt8) :
    unescape (List.replicate z 0 ++ b :: bs) = List.replicate z 0 ++ b :: unescape bs := by
  have hzero : unescape (b :: bs) = b :: unescape bs := unescape_cons fun _ h _ => hb h
  have hone : unescape (0 :: b :: bs) = 0 :: b :: unescape bs := by
    rw [unescape_cons fun _ _ h => hb (List.cons.inj h).1, hzero]
  interval_cases z
  · exact hzero
  · exact hone
  · show unescape (0 :: 0 :: b :: bs) = 0 :: 0 :: b :: unescape bs
    rw [unescape_cons ?_, hone]
    rintro rest - h
    have h3 : b = 3 := (List.cons.inj (List.cons.inj h).2).1
    have h4 := htwo rfl
    rw [h3] at h4
    exact absurd h4 (by decide)

theorem unescape_bytewise {z : ℕ} (hz : z ≤ 2) (rbsp : List UInt8) :
    unescape (List.replicate z 0 ++ Written.bytes (bytewise z rbsp)) =
      List.replicate z 0 ++ rbsp := by
  induction rbsp generalizing z with
  | nil =>
      rw [bytewise]
      interval_cases z <;> rfl
  | cons b rest ih =>
      have hnone := ih (by omega : 0 ≤ 2)
      have hone := ih (by omega : 1 ≤ 2)
      rw [bytewise]
      rcases putByte_cases hz b with ⟨rfl, rfl, hput⟩ | ⟨rfl, hb, hput⟩ | ⟨hlow, rfl, hput⟩ |
        ⟨hb, hlarge, hput⟩
      · rw [hput]
        exact congrArg (fun bs => 0 :: 0 :: bs) hone
      · rw [hput]
        have hafter : unescape (b :: Written.bytes (bytewise 0 rest)) = b :: rest := by
          rw [unescape_cons fun _ h _ => hb h]
          exact congrArg (b :: ·) hnone
        exact congrArg (fun bs => 0 :: 0 :: bs) hafter
      · rw [hput]
        have hnext := ih (by omega : z + 1 ≤ 2)
        rw [List.replicate_succ', List.append_assoc, List.append_assoc] at hnext
        exact hnext
      · rw [hput]
        exact (unescape_run hz hb hlarge _).trans
          (congrArg (fun bs => List.replicate z 0 ++ b :: bs) hnone)

/-! ### The length -/

theorem length_bytewise (z : ℕ) (rbsp : List UInt8) :
    2 * (bytewise z rbsp).length ≤ 3 * rbsp.length + z := by
  induction rbsp generalizing z with
  | nil => simp [bytewise]
  | cons b rest ih =>
      rw [bytewise, putByte]
      split
      · rename_i hescape
        have h := ih (if b ≠ 0 then 0 else 0 + 1)
        have hcount : (if b ≠ 0 then 0 else 0 + 1) ≤ 1 := by split <;> omega
        simp only [List.length_append, List.length_cons, List.length_nil]
        omega
      · have h := ih (if b ≠ 0 then 0 else z + 1)
        have hcount : (if b ≠ 0 then 0 else z + 1) ≤ z + 1 := by split <;> omega
        simp only [List.length_append, List.length_cons, List.length_nil]
        omega

/-! ### The output -/

theorem header_toNat {refIdc type : ℕ} (href : refIdc ≤ 3) (htype : type ≤ 31) :
    (UInt8.ofNat (refIdc <<< 5 ||| type)).toNat = 32 * refIdc + type := by
  interval_cases refIdc <;> interval_cases type <;> rfl

theorem nal_wrap_exact (refIdc type : ℕ) (rbsp : List UInt8) (href : refIdc ≤ 3)
    (htype : type ≤ 31) :
    (∃ header : UInt8, header.toNat = 32 * refIdc + type ∧
      nalWrap refIdc type rbsp = [0, 0, 0, 1] ++ header :: Written.bytes (payload rbsp)) ∧
    Escaped (payload rbsp) ∧
    unescape (Written.bytes (payload rbsp)) = rbsp ∧
    payload rbsp = bytewise 0 rbsp ∧
    (nalWrap refIdc type rbsp).length ≤ 5 + 3 * rbsp.length / 2 + 1 := by
  have hplain : payload rbsp = bytewise 0 rbsp := wrapFrom_eq_bytewise 0 rbsp
  refine ⟨⟨_, header_toNat href htype, rfl⟩, ?_, ?_, hplain, ?_⟩
  · rw [hplain]
    exact escaped_bytewise (z := 0) (by omega) rbsp
  · rw [hplain]
    exact unescape_bytewise (z := 0) (by omega) rbsp
  · have hlen := length_bytewise 0 rbsp
    rw [nalWrap, hplain, List.length_append, Written.bytes, List.length_map]
    simp only [List.length_cons, List.length_nil]
    omega

theorem nal_wrap_exact_zeros : (3 ≤ 3 ∧ 7 ≤ 31) ∧
    unescape (Written.bytes (payload [0, 0, 0, 0, 3, 66])) = [0, 0, 0, 0, 3, 66] ∧
    (nalWrap 3 7 [0, 0, 0, 0, 3, 66]).length ≤ 15 :=
  have h := nal_wrap_exact 3 7 [0, 0, 0, 0, 3, 66] (by decide) (by decide)
  ⟨by decide, h.2.2.1, h.2.2.2.2⟩

example : nalWrap 3 7 [0, 0, 0, 0, 3, 66] =
    [0, 0, 0, 1, 103, 0, 0, 3, 0, 0, 3, 3, 66] := by
  rw [nalWrap, payload, wrapFrom_eq_bytewise]
  rfl

end BadgeOS.CodaCube
