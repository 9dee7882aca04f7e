import BadgeOS.Lib.BitField
import Mathlib

/-!
# Codes that are read off a bit string

A reader takes what it reads off the front of a bit string, and knows how far it has come.  A code
is read by it when it takes exactly the code, whatever stands behind.

* `Stream`, `Reader` — a position and the bits from there, and what reads them;
* `Reads`, `Reads.bind` — a reader takes a code, and the codes of one reader after another;
* `ue`, `se`, `te` — Exp-Golomb codes, signed, and truncated, each with its reader.
-/

namespace ExpGolomb

open BitField

variable {α β : Type*} {n v pos : ℕ} {code code' rest : List Bool} {x : α} {y : β}

/-- The bits from a position on. -/
structure Stream where
  pos : ℕ
  rest : List Bool
  deriving DecidableEq, Repr

abbrev Reader (α : Type) := StateT Stream Option α

/-! ### Reading a code -/

section Reads

variable {α β : Type} {p : Reader α} {f : α → Reader β} {x : α} {y : β}

/-- From `pos` on, `p` takes `code` and gives `x`. -/
def Reads (p : Reader α) (pos : ℕ) (code : List Bool) (x : α) : Prop :=
  ∀ rest, p ⟨pos, code ++ rest⟩ = some (x, ⟨pos + code.length, rest⟩)

theorem Reads.pure (x : α) (pos : ℕ) : Reads (Pure.pure x : Reader α) pos [] x := fun _ => rfl

/-- **One reader after another.** -/
theorem Reads.bind (h : Reads p pos code x) (h' : Reads (f x) (pos + code.length) code' y) :
    Reads (p >>= f) pos (code ++ code') y := by
  intro rest
  have hrun : (p >>= f) ⟨pos, (code ++ code') ++ rest⟩ =
      (p ⟨pos, (code ++ code') ++ rest⟩).bind fun r => f r.1 r.2 := rfl
  rw [hrun, List.append_assoc, h, Option.bind_some, h', List.length_append, Nat.add_assoc]

theorem Reads.map {g : α → β} (h : Reads p pos code x) : Reads (g <$> p) pos code (g x) := by
  intro rest
  have hrun : (g <$> p) ⟨pos, code ++ rest⟩ =
      (p ⟨pos, code ++ rest⟩).map fun r => (g r.1, r.2) := by
    show (p ⟨pos, code ++ rest⟩).bind _ = _
    cases p ⟨pos, code ++ rest⟩ <;> rfl
  rw [hrun, h]
  rfl

/-- A reader that is the last. -/
theorem Reads.last {g : α → Reader β} (h : Reads p pos code x) (hg : g x = Pure.pure y) :
    Reads (p >>= g) pos code y := by
  have hread : Reads (p >>= g) pos (code ++ []) y := h.bind (by rw [hg]; exact .pure y _)
  rwa [List.append_nil] at hread

/-- A reader that takes nothing. -/
theorem Reads.skip (hp : p = Pure.pure x) (h : Reads (f x) pos code y) :
    Reads (p >>= f) pos code y := by
  rw [hp]
  exact h

end Reads

/-! ### Fixed width -/

/-- `u(n)` -/
def readBits (n : ℕ) : Reader ℕ := fun s =>
  if n ≤ s.rest.length then
    some (ofBits (s.rest.take n), ⟨s.pos + n, s.rest.drop n⟩)
  else none

theorem reads_bits (n v pos : ℕ) (h : v < 2 ^ n) : Reads (readBits n) pos (toBits n v) v := by
  intro rest
  rw [readBits, if_pos (by simp)]
  rw [List.take_left' (length_toBits n v), List.drop_left' (length_toBits n v),
    ofBits_toBits_of_lt h, length_toBits]

/-- `u(1)` -/
def readFlag : Reader Bool := fun s =>
  match s.rest with
  | [] => none
  | b :: rest => some (b, ⟨s.pos + 1, rest⟩)

theorem reads_flag (b : Bool) (pos : ℕ) : Reads readFlag pos [b] b := fun _ => rfl

/-! ### Exp-Golomb codes -/

/-- `ue(v)`: the number one up, behind one zero for each of its bits but the first. -/
def ue (v : ℕ) : List Bool :=
  List.replicate ((v + 1).size - 1) false ++ toBits (v + 1).size (v + 1)

/-- The zeros in front. -/
def leadingZeros (bs : List Bool) : ℕ := (bs.takeWhile fun b => !b).length

def readUe : Reader ℕ := fun s =>
  let zeros := leadingZeros s.rest
  match s.rest.drop zeros with
  | true :: rest =>
      if zeros ≤ rest.length then
        some (2 ^ zeros - 1 + ofBits (rest.take zeros),
          ⟨s.pos + 2 * zeros + 1, rest.drop zeros⟩)
      else none
  | _ => none

theorem toBits_split (k n v : ℕ) : toBits (k + n) v = toBits k (v >>> n) ++ toBits n v := by
  induction k with
  | zero => simp [toBits]
  | succ k ih =>
      rw [Nat.succ_add, toBits, toBits, ih, List.cons_append, Nat.testBit_shiftRight,
        Nat.add_comm n k]

theorem toBits_zero (n : ℕ) : toBits n 0 = List.replicate n false := by
  induction n with
  | zero => rfl
  | succ n ih => rw [toBits, ih, Nat.zero_testBit, List.replicate_succ]

/-- A number behind the zeros that its width leaves. -/
theorem toBits_of_lt {k : ℕ} (h : v < 2 ^ n) :
    toBits (k + n) v = List.replicate k false ++ toBits n v := by
  rw [toBits_split, Nat.shiftRight_eq_div_pow, Nat.div_eq_of_lt h, toBits_zero]

theorem ue_eq (v : ℕ) : ue v = toBits (2 * (v + 1).size - 1) (v + 1) := by
  have hpos : 0 < (v + 1).size := Nat.size_pos.mpr (Nat.succ_pos v)
  rw [ue, ← toBits_of_lt (Nat.lt_size_self (v + 1))]
  congr 1
  omega

/-- The width of a number, one less. -/
theorem size_bounds (v : ℕ) :
    2 ^ ((v + 1).size - 1) ≤ v + 1 ∧ v + 1 < 2 ^ ((v + 1).size - 1 + 1) ∧
      (v + 1).size - 1 + 1 = (v + 1).size := by
  have hpos : 0 < (v + 1).size := Nat.size_pos.mpr (Nat.succ_pos v)
  have hsucc : (v + 1).size - 1 + 1 = (v + 1).size := by omega
  refine ⟨?_, ?_, hsucc⟩
  · rw [← Nat.lt_size]
    omega
  · rw [hsucc]
    exact Nat.lt_size_self (v + 1)

/-- A code word: zeros, a one, and as many bits. -/
theorem ue_cons (v : ℕ) : ue v = List.replicate ((v + 1).size - 1) false ++
    true :: toBits ((v + 1).size - 1) (v + 1) := by
  obtain ⟨hlow, hhigh, hsucc⟩ := size_bounds v
  rw [ue]
  generalize hz : (v + 1).size - 1 = z at *
  rw [← hsucc, toBits]
  have hdiv : (v + 1) / 2 ^ z = 1 := by
    rw [Nat.div_eq_iff (by positivity)]
    rw [Nat.pow_succ] at hhigh
    omega
  rw [Nat.testBit_eq_decide_div_mod_eq, hdiv]
  rfl

theorem ue_ne_nil (v : ℕ) (code : List Bool) : ue v ++ code ≠ [] := by
  rw [ue_cons]
  simp

theorem leadingZeros_replicate (z : ℕ) (bs : List Bool) :
    leadingZeros (List.replicate z false ++ true :: bs) = z := by
  rw [leadingZeros, List.takeWhile_append_of_pos]
  · simp
  · intro b hb
    rw [List.eq_of_mem_replicate hb]
    rfl

theorem reads_ue (v pos : ℕ) : Reads readUe pos (ue v) v := by
  intro rest
  obtain ⟨hlow, hhigh, -⟩ := size_bounds v
  rw [ue_cons]
  generalize (v + 1).size - 1 = z at *
  have hmod : (v + 1) % 2 ^ z = v + 1 - 2 ^ z := by
    rw [Nat.mod_eq_sub_mod hlow, Nat.mod_eq_of_lt]
    rw [Nat.pow_succ] at hhigh
    omega
  have hzeros : leadingZeros (List.replicate z false ++ true :: toBits z (v + 1) ++ rest) = z := by
    rw [List.append_assoc, List.cons_append]
    exact leadingZeros_replicate z _
  have hdrop : (List.replicate z false ++ true :: toBits z (v + 1) ++ rest).drop z =
      true :: (toBits z (v + 1) ++ rest) := by
    rw [List.append_assoc, List.drop_left' (List.length_replicate)]
    rfl
  have htake : (toBits z (v + 1) ++ rest).take z = toBits z (v + 1) :=
    List.take_left' (length_toBits z _)
  have hrest : (toBits z (v + 1) ++ rest).drop z = rest := List.drop_left' (length_toBits z _)
  rw [readUe]
  simp only [hzeros, hdrop, htake, hrest]
  rw [if_pos (by simp), ofBits_toBits, hmod]
  congr 2
  · omega
  · congr 1
    simp only [List.length_append, List.length_replicate, List.length_cons, length_toBits]
    omega

/-! ### Signed and truncated codes -/

/-- 1, -1, 2, -2 and so on as 1, 2, 3, 4. -/
def unsigned (v : ℤ) : ℕ := (if 0 < v then 2 * v - 1 else -2 * v).toNat

def signed (k : ℕ) : ℤ := if k % 2 = 1 then ((k + 1) / 2 : ℕ) else -((k / 2 : ℕ) : ℤ)

theorem signed_unsigned (v : ℤ) : signed (unsigned v) = v := by
  rw [signed, unsigned]
  split <;> split <;> omega

/-- `se(v)` -/
def se (v : ℤ) : List Bool := ue (unsigned v)

def readSe : Reader ℤ := signed <$> readUe

theorem reads_se (v : ℤ) (pos : ℕ) : Reads readSe pos (se v) v := by
  have hread := (reads_ue (unsigned v) pos).map (g := signed)
  rwa [signed_unsigned] at hread

/-- `te(v)` of a number up to `max`: nothing to write for 0, one inverted bit for 1. -/
def te (max v : ℕ) : List Bool :=
  if max = 0 then [] else if max = 1 then [decide (v = 0)] else ue v

def readTe (max : ℕ) : Reader ℕ :=
  if max = 0 then pure 0
  else if max = 1 then (fun b => if b then 0 else 1) <$> readFlag
  else readUe

theorem reads_te {max : ℕ} (h : v ≤ max) (pos : ℕ) : Reads (readTe max) pos (te max v) v := by
  rw [readTe, te]
  split
  · rename_i hzero
    rw [show v = 0 by omega]
    exact .pure 0 pos
  split
  · rename_i hone
    have hread := (reads_flag (decide (v = 0)) pos).map (g := fun b => if b then 0 else 1)
    have hvalue : (if decide (v = 0) = true then 0 else 1) = v := by
      rcases Nat.eq_zero_or_pos v with rfl | hpos
      · rfl
      · rw [decide_eq_false (by omega)]
        exact (show v = 1 by omega).symm
    simp only [hvalue] at hread
    exact hread
  · exact reads_ue v pos

/-- The readers of a list, one after another. -/
theorem reads_mapM {α β : Type} {p : α → Reader β} {code : α → List Bool} {value : α → β}
    (h : ∀ a pos, Reads (p a) pos (code a) (value a)) (l : List α) (pos : ℕ) :
    Reads (l.mapM p) pos (l.flatMap code) (l.map value) := by
  induction l generalizing pos with
  | nil => exact .pure [] pos
  | cons a l ih =>
      rw [List.mapM_cons, List.flatMap_cons, List.map_cons]
      have hrest := (ih (pos + (code a).length)).bind (f := fun ys => pure (value a :: ys))
        (.pure (value a :: l.map value) _)
      rw [List.append_nil] at hrest
      exact (h a pos).bind hrest

end ExpGolomb
