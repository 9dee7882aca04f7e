import Mathlib

/-!
# A test on every byte of a word

The bytes of a word are compared with a bound all at once: the bound is subtracted from every
byte in one subtraction, and the top bits are read off.  A byte below the bound borrows and gets
its top bit set; the borrow spoils only the bytes above it, so that the lowest such byte shows.

* `word` — little-endian bytes as a number;
* `lowered` — the word less the bound in every byte, modulo the word's size;
* `borrows_iff` — a top bit that appears, exactly when some byte is below the bound.
-/

namespace Swar

variable {t : ℕ} {b : UInt8} {bs : List UInt8}

/-- Little-endian. -/
def word : List UInt8 → ℕ
  | [] => 0
  | b :: bs => b.toNat + 256 * word bs

/-- `t` in every byte. -/
def spread (t : ℕ) : ℕ → ℕ
  | 0 => 0
  | n + 1 => t + 256 * spread t n

def lowered (t : ℕ) (bs : List UInt8) : ℕ :=
  (256 ^ bs.length + word bs - spread t bs.length) % 256 ^ bs.length

/-- Some top bit is set in the lowered word only. -/
def Borrows (t : ℕ) (bs : List UInt8) : Prop :=
  ∃ k < bs.length, (lowered t bs).testBit (8 * k + 7) = true ∧
    (word bs).testBit (8 * k + 7) = false

theorem word_lt (bs : List UInt8) : word bs < 256 ^ bs.length := by
  induction bs with
  | nil => simp [word]
  | cons b bs ih =>
      have hb := b.toNat_lt
      rw [word, List.length_cons, pow_succ]
      omega

theorem spread_lt (ht : t < 256) (n : ℕ) : spread t n < 256 ^ n := by
  induction n with
  | zero => simp [spread]
  | succ n ih =>
      rw [spread, pow_succ]
      omega

/-! ### The bytes of a word -/

theorem testBit_low {j : ℕ} (hj : j < 8) (a x : ℕ) :
    (a + 256 * x).testBit j = a.testBit j := by
  have h : (a + 256 * x) % 2 ^ 8 = a % 2 ^ 8 := by omega
  have hleft := Nat.testBit_mod_two_pow (a + 256 * x) 8 j
  have hright := Nat.testBit_mod_two_pow a 8 j
  rw [h] at hleft
  simp only [hj, decide_true, Bool.true_and] at hleft hright
  rw [← hleft, hright]

theorem testBit_high {a : ℕ} (ha : a < 256) (x k : ℕ) :
    (a + 256 * x).testBit (8 * (k + 1) + 7) = x.testBit (8 * k + 7) := by
  have h : (a + 256 * x) / 2 ^ 8 = x := by omega
  rw [show 8 * (k + 1) + 7 = 8 * k + 7 + 8 by ring, ← Nat.testBit_div_two_pow, h]

/-- A byte at or above the bound lends nothing to those above it. -/
theorem lowered_cons (ht : t < 256) (hb : t ≤ b.toNat) :
    lowered t (b :: bs) = (b.toNat - t) + 256 * lowered t bs := by
  have hword := word_lt bs
  have hspread := spread_lt ht bs.length
  have hbyte := b.toNat_lt
  have hsplit : 256 ^ (b :: bs).length + word (b :: bs) - spread t (b :: bs).length =
      (b.toNat - t) + 256 * (256 ^ bs.length + word bs - spread t bs.length) := by
    rw [List.length_cons, pow_succ, word, spread]
    omega
  rw [lowered, hsplit, List.length_cons, pow_succ, mul_comm _ 256, Nat.mod_mul, lowered]
  congr 1
  · omega
  · congr 2
    omega

/-- The lowest byte of the lowered word, when it borrows. -/
theorem lowered_low (bs : List UInt8) (ht : t < 256) (hb : b.toNat < t) :
    ∃ x, lowered t (b :: bs) = (b.toNat + 256 - t) + 256 * x := by
  have hspread := spread_lt ht (b :: bs).length
  have hpow : 256 ^ (b :: bs).length = 256 * 256 ^ bs.length := by
    rw [List.length_cons, pow_succ, mul_comm]
  refine ⟨lowered t (b :: bs) / 256, ?_⟩
  have hmod : lowered t (b :: bs) % 256 = b.toNat + 256 - t := by
    rw [lowered, hpow, Nat.mod_mul_right_mod, word, List.length_cons, spread]
    rw [List.length_cons, spread, pow_succ] at hspread
    omega
  omega

theorem borrows_cons (ht : t < 256) (hb : t ≤ b.toNat) (htop : t ≤ 128) :
    Borrows t (b :: bs) ↔ Borrows t bs := by
  have hbyte := b.toNat_lt
  have hhigh : ∀ k, (lowered t (b :: bs)).testBit (8 * (k + 1) + 7) =
      (lowered t bs).testBit (8 * k + 7) := by
    intro k
    rw [lowered_cons ht hb, testBit_high (by omega)]
  constructor
  · rintro ⟨k, hk, hset, hclear⟩
    cases k with
    | zero =>
        -- its own top bit appears only in a byte of 128 at least
        rw [lowered_cons ht hb, testBit_low (by omega)] at hset
        rw [word, testBit_low (by omega)] at hclear
        have hlarge : 128 ≤ b.toNat - t := Nat.ge_two_pow_of_testBit hset
        have hdrop := Nat.testBit_eq_decide_div_mod_eq (x := b.toNat) (i := 7)
        rw [hclear] at hdrop
        simp at hdrop
        omega
    | succ k =>
        rw [hhigh] at hset
        rw [word, testBit_high hbyte] at hclear
        exact ⟨k, by simpa using hk, hset, hclear⟩
  · rintro ⟨k, hk, hset, hclear⟩
    refine ⟨k + 1, by simpa using hk, ?_, ?_⟩
    · rw [hhigh, hset]
    · rw [word, testBit_high hbyte, hclear]

theorem borrows_iff (htop : t ≤ 128) (bs : List UInt8) :
    Borrows t bs ↔ ∃ b ∈ bs, b.toNat < t := by
  induction bs with
  | nil => simp [Borrows]
  | cons b bs ih =>
      rcases lt_or_ge b.toNat t with hlow | hhigh
      · obtain ⟨x, hx⟩ := lowered_low bs (by omega) hlow
        refine iff_of_true ⟨0, by simp, ?_, ?_⟩ ⟨b, by simp, hlow⟩
        · rw [hx, testBit_low (by omega), Nat.testBit_eq_decide_div_mod_eq]
          simp
          omega
        · rw [word, testBit_low (by omega)]
          exact Nat.testBit_lt_two_pow (by omega)
      · rw [borrows_cons (by omega) hhigh htop, ih]
        simp [not_lt.mpr hhigh]

end Swar
