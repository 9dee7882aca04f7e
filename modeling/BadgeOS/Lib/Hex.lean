import Mathlib

/-!
# Two digits to a byte

* `encode` — the digits of a list of bytes, the high one first;
* `decode` — the bytes of a text, two digits each; `none` for any other text;
* `decode_encode` — the round trip.
-/

namespace Hex

/-- The sixteen digits, in lower case. -/
def digits : List Char := "0123456789abcdef".toList

/-- The value of a digit. -/
def value (c : Char) : Option ℕ :=
  if digits.idxOf c < 16 then some (digits.idxOf c) else none

/-- The digits of a byte. -/
def pair (b : UInt8) : List Char :=
  [digits.getD (b.toNat / 16) '0', digits.getD (b.toNat % 16) '0']

def encode (bytes : List UInt8) : List Char := bytes.flatMap pair

def decode : List Char → Option (List UInt8)
  | [] => some []
  | [_] => none
  | hi :: lo :: text => do
      let h ← value hi
      let l ← value lo
      let bytes ← decode text
      return UInt8.ofNat (h * 16 + l) :: bytes

theorem value_digit : ∀ d < 16, value (digits.getD d '0') = some d := by decide

/-- A byte is its two digits. -/
theorem ofNat_digits (b : UInt8) : UInt8.ofNat (b.toNat / 16 * 16 + b.toNat % 16) = b := by
  rw [Nat.div_add_mod', UInt8.ofNat_toNat]

/-- **The round trip.** -/
theorem decode_encode (bytes : List UInt8) : decode (encode bytes) = some bytes := by
  induction bytes with
  | nil => rfl
  | cons b bytes ih =>
      have hb := b.toNat_lt
      have hhigh := value_digit (b.toNat / 16) (by omega)
      have hlow := value_digit (b.toNat % 16) (by omega)
      have hcons : encode (b :: bytes) = digits.getD (b.toNat / 16) '0' ::
          digits.getD (b.toNat % 16) '0' :: encode bytes := rfl
      rw [hcons, decode, hhigh, hlow, ih]
      simp only [Option.bind_eq_bind, Option.bind_some, Option.pure_def, ofNat_digits]

end Hex
