import BadgeOS.Lib.AvcHeaders
import Mathlib

/-!
# The bit writer

`BW` of `coda-cube.c`: whole bytes, and up to seven bits that are not a byte yet.  The accumulator
has 64 bits, of which no write needs more than 39.

* `BW`, `BW.bits` — the writer, and the bits written so far;
* `bwU`, `bwUe`, `bwSe`, `bwTrailing` — the writes of the source;
* `Writes` — a write appends its code, whatever was written before.
-/

namespace BadgeOS.CodaCube

open BitField ExpGolomb AvcHeaders

structure BW where
  buf : List UInt8
  acc : ℕ
  n : ℕ
  deriving DecidableEq, Repr

namespace BW

/-- The bits written so far. -/
def bits (b : BW) : List Bool := BitField.bits b.buf ++ toBits b.n b.acc

/-- The loop of `bw_u`. -/
def flush (acc : ℕ) (n : ℕ) (buf : List UInt8) : List UInt8 × ℕ :=
  if 8 ≤ n then flush acc (n - 8) (buf ++ [UInt8.ofNat (acc >>> (n - 8))]) else (buf, n)

/-- `bw_u` -/
def bwU (n v : ℕ) (b : BW) : BW :=
  let acc := b.acc <<< n ||| v % 2 ^ n
  let (buf, m) := flush acc (b.n + n) b.buf
  ⟨buf, acc % 2 ^ m, m⟩

/-- `bw_ue` -/
def bwUe (v : ℕ) (b : BW) : BW :=
  let x := v + 1
  let nb := x.size
  if 2 * nb - 1 ≤ 32 then bwU (2 * nb - 1) x b else bwU nb x (bwU (nb - 1) 0 b)

/-- `bw_se` -/
def bwSe (v : ℤ) (b : BW) : BW := bwUe (if v > 0 then 2 * v - 1 else -2 * v).toNat b

/-- The zeros up to a whole byte. -/
def align (b : BW) : BW := if b.n ≠ 0 then bwU (8 - b.n) 0 b else b

/-- `bw_trailing` -/
def bwTrailing (b : BW) : BW := align (bwU 1 1 b)

/-- `memcpy` behind whole bytes. -/
def copy (bytes : List UInt8) (b : BW) : BW := { b with buf := b.buf ++ bytes }

/-! ### What a write appends -/

theorem toBits_mod (n v : ℕ) : toBits n (v % 2 ^ n) = toBits n v := by
  refine ofBits_inj (by simp) ?_
  rw [ofBits_toBits, ofBits_toBits, Nat.mod_mod]

theorem bits_append (bs cs : List UInt8) :
    BitField.bits (bs ++ cs) = BitField.bits bs ++ BitField.bits cs := List.flatMap_append

theorem bits_singleton (v : ℕ) : BitField.bits [UInt8.ofNat v] = toBits 8 v := by
  rw [BitField.bits, List.flatMap_singleton, UInt8.toNat_ofNat', toBits_mod]

theorem flush_bits (acc n : ℕ) (buf : List UInt8) :
    BitField.bits (flush acc n buf).1 ++ toBits (flush acc n buf).2 acc =
      BitField.bits buf ++ toBits n acc ∧ (flush acc n buf).2 < 8 := by
  induction n using Nat.strong_induction_on generalizing buf with
  | h n ih =>
      rw [flush]
      split
      · rename_i hn
        obtain ⟨hbits, hlt⟩ := ih (n - 8) (by omega) (buf ++ [UInt8.ofNat (acc >>> (n - 8))])
        refine ⟨?_, hlt⟩
        have hsplit := toBits_split 8 (n - 8) acc
        rw [show 8 + (n - 8) = n by omega] at hsplit
        rw [hbits, bits_append, bits_singleton, hsplit, List.append_assoc]
      · exact ⟨rfl, by omega⟩

/-- `f` appends `code`. -/
def Writes (f : BW → BW) (code : List Bool) : Prop :=
  ∀ b, b.n < 8 → (f b).bits = b.bits ++ code ∧ (f b).n < 8

theorem Writes.id : Writes (fun b => b) [] := fun _ hb => ⟨(List.append_nil _).symm, hb⟩

theorem Writes.comp {f g : BW → BW} {code code' : List Bool} (hf : Writes f code)
    (hg : Writes g code') : Writes (fun b => g (f b)) (code ++ code') := by
  intro b hb
  obtain ⟨hbits, hn⟩ := hf b hb
  obtain ⟨hbits', hn'⟩ := hg (f b) hn
  exact ⟨by rw [hbits', hbits, List.append_assoc], hn'⟩

theorem Writes.ite {f g : BW → BW} {code code' : List Bool} (p : Prop) [Decidable p]
    (hf : Writes f code) (hg : Writes g code') :
    Writes (fun b => if p then f b else g b) (if p then code else code') := by
  split
  · exact hf
  · exact hg

theorem writes_u (n v : ℕ) : Writes (bwU n v) (toBits n v) := by
  intro b _
  rw [bwU]
  generalize hacc : b.acc <<< n ||| v % 2 ^ n = acc
  obtain ⟨hbits, hlt⟩ := flush_bits acc (b.n + n) b.buf
  refine ⟨?_, hlt⟩
  have hhigh : acc >>> n = b.acc := by
    rw [← hacc, Nat.shiftRight_or_distrib, Nat.shiftLeft_shiftRight,
      Nat.shiftRight_eq_div_pow (v % 2 ^ n), Nat.div_eq_of_lt (Nat.mod_lt _ (by positivity)),
      Nat.or_zero]
  have hlow : toBits n acc = toBits n v := by
    rw [← toBits_mod n acc, ← hacc, Nat.or_mod_two_pow, Nat.shiftLeft_eq, Nat.mul_mod_left,
      Nat.zero_or, Nat.mod_mod, toBits_mod]
  have hsplit := toBits_split b.n n acc
  rw [hhigh, hlow] at hsplit
  show BitField.bits (flush acc (b.n + n) b.buf).1 ++
    toBits (flush acc (b.n + n) b.buf).2 (acc % 2 ^ (flush acc (b.n + n) b.buf).2) = _
  rw [toBits_mod, hbits, hsplit, bits, List.append_assoc]

theorem writes_flag (b : Bool) : Writes (bwU 1 b.toNat) [b] := by
  have h := writes_u 1 b.toNat
  cases b <;> exact h

theorem writes_ue (v : ℕ) : Writes (bwUe v) (ue v) := by
  intro b hb
  rw [bwUe]
  split
  · rw [ue_eq]
    exact writes_u _ _ b hb
  · rw [ue, ← toBits_zero]
    exact (writes_u _ 0).comp (writes_u _ _) b hb

theorem writes_se (v : ℤ) : Writes (bwSe v) (se v) := writes_ue _

theorem writes_foldl {α : Type} {f : α → BW → BW} {code : α → List Bool}
    (h : ∀ a, Writes (f a) (code a)) (l : List α) :
    Writes (fun b => l.foldl (fun b a => f a b) b) (l.flatMap code) := by
  induction l with
  | nil => exact .id
  | cons a l ih => exact (h a).comp ih

/-- Behind whole bytes nothing but bytes was written. -/
theorem length_bits (b : BW) : b.bits.length = 8 * b.buf.length + b.n := by
  rw [bits, List.length_append, length_toBits, BitField.length_bits, Nat.mul_comm]

theorem align_bits (b : BW) (hb : b.n < 8) :
    (align b).bits = b.bits ++ List.replicate ((8 - b.bits.length % 8) % 8) false ∧
      (align b).n = 0 := by
  have hlen : b.bits.length % 8 = b.n := by
    rw [length_bits]
    omega
  rw [align, hlen]
  split
  · rename_i hn
    have hpad : (8 - b.n) % 8 = 8 - b.n := Nat.mod_eq_of_lt (by omega)
    obtain ⟨hbits, hlt⟩ := writes_u (8 - b.n) 0 b hb
    refine ⟨by rw [hbits, hpad, toBits_zero], ?_⟩
    have hlen' := congrArg List.length hbits
    rw [length_bits, List.length_append, length_bits, length_toBits] at hlen'
    omega
  · rename_i hn
    have hzero : b.n = 0 := by omega
    rw [hzero]
    exact ⟨(List.append_nil _).symm, rfl⟩

theorem copy_bits (bytes : List UInt8) {b : BW} (hb : b.n = 0) :
    (copy bytes b).bits = b.bits ++ BitField.bits bytes ∧ (copy bytes b).n = 0 := by
  refine ⟨?_, hb⟩
  rw [bits, bits, copy, hb, bits_append]
  simp [toBits]

/-- **The bytes** of a payload that is ended. -/
theorem trailing_bytes (b : BW) (hb : b.n < 8) :
    BitField.bits (bwTrailing b).buf = b.bits ++ trailing b.bits.length := by
  obtain ⟨hbits, hn⟩ := writes_u 1 1 b hb
  obtain ⟨halign, hzero⟩ := align_bits (bwU 1 1 b) hn
  have hbytes : (bwTrailing b).bits = BitField.bits (bwTrailing b).buf := by
    rw [bits, bwTrailing, hzero, toBits, List.append_nil]
  rw [← hbytes, bwTrailing, halign, hbits, List.length_append, length_toBits, List.append_assoc]
  rfl

/-- An empty buffer. -/
def empty : BW := ⟨[], 0, 0⟩

/-- **What is written** into an empty buffer. -/
theorem Writes.bytes {f : BW → BW} {code : List Bool} (h : Writes f code) :
    BitField.bits (bwTrailing (f empty)).buf = code ++ trailing code.length := by
  obtain ⟨hbits, hn⟩ := h empty (by decide)
  rw [show empty.bits = [] from rfl, List.nil_append] at hbits
  rw [trailing_bytes _ hn, hbits]

end BW

end BadgeOS.CodaCube
