import Mathlib

/-!
# Strings and integers of Python

A string is its code points.  What a program does with them here is cut them at separators,
read integers, and format them.

* `rfind`, `sliceTo`, `sliceFrom`, `rsplit`, `lastPiece` — cutting, with the language's indices;
* `Interp`, `int` — reading an integer as `int` does: white space, a sign, a prefix, single
  underscores, and decimal digits of any script, whose table belongs to the interpreter;
* `hex`, `padded` — formatting;
* `int_digits` — a plain string of digits is read as its number;
* `int_eq_error_of_mem` — a dot is part of no integer.
-/

namespace Python

/-- A string: its code points. -/
abbrev Str := List ℕ

def lit (s : String) : Str := s.toList.map Char.toNat

/-! ### Cutting -/

/-- `s.rfind(sep)`: the last index, or -1. -/
def rfind (s : Str) (sep : ℕ) : ℤ :=
  if sep ∈ s then ((s.rdropWhile (· ≠ sep)).length : ℤ) - 1 else -1

/-- `s[:i]`; a negative index counts from the end. -/
def sliceTo (s : Str) (i : ℤ) : Str :=
  if i < 0 then s.take (s.length + i).toNat else s.take i.toNat

/-- `s[i:]`. -/
def sliceFrom (s : Str) (i : ℤ) : Str :=
  if i < 0 then s.drop (s.length + i).toNat else s.drop i.toNat

/-- `s.split(sep)[-1]`: what stands behind the last separator. -/
def lastPiece (s : Str) (sep : ℕ) : Str := s.rtakeWhile (· ≠ sep)

/-- `s.rsplit(sep, k)`: at most `k` cuts, from the right. -/
def rsplit (s : Str) (sep : ℕ) : ℕ → List Str
  | 0 => [s]
  | k + 1 =>
      if sep ∈ s then rsplit (s.rdropWhile (· ≠ sep)).dropLast sep k ++ [lastPiece s sep]
      else [s]

/-! ### Reading an integer -/

/-- What an interpreter brings: its tables of white space and of decimal digits, beyond ASCII,
and how many decimal digits it reads: 0 for any number, and otherwise not below 640. -/
structure Interp where
  isSpace : ℕ → Bool
  decimal : ℕ → Option (Fin 10)
  maxStrDigits : ℕ
  limit : maxStrDigits = 0 ∨ 640 ≤ maxStrDigits

/-- White space of ASCII. -/
def isSpace (c : ℕ) : Bool := decide (9 ≤ c ∧ c ≤ 13) || c == 32

/-- A character as the ASCII character it is read as; `?` stands for any other. -/
def Interp.toAscii (py : Interp) (c : ℕ) : ℕ :=
  if c < 127 then c
  else if py.isSpace c then 32
  else
    match py.decimal c with
    | some d => 48 + d
    | none => 63

/-- The value of a digit, 37 for what is none. -/
def digitValue (c : ℕ) : ℕ :=
  if 48 ≤ c ∧ c ≤ 57 then c - 48
  else if 97 ≤ c ∧ c ≤ 122 then c - 87
  else if 65 ≤ c ∧ c ≤ 90 then c - 55
  else 37

/-- The digits at the front, an underscore between two of them: the value, how many there are,
and what is left.  `under` says that an underscore was just read. -/
def digits (base : ℕ) : (under : Bool) → (value count : ℕ) → Str → Option (ℕ × ℕ × Str)
  | under, value, count, [] => if under then none else some (value, count, [])
  | under, value, count, c :: cs =>
      if c = 95 then if under then none else digits base true value count cs
      else if digitValue c < base then
        digits base false (value * base + digitValue c) (count + 1) cs
      else if under then none
      else some (value, count, c :: cs)

/-- The sign, if there is one. -/
def sign : Str → Bool × Str
  | c :: cs => if c = 43 then (false, cs) else if c = 45 then (true, cs) else (false, c :: cs)
  | [] => (false, [])

def skipUnderscore : Str → Str
  | c :: cs => if c = 95 then cs else c :: cs
  | [] => []

/-- `0x`, and one underscore behind it, are skipped in base 16. -/
def skipPrefix (base : ℕ) : Str → Str
  | c :: x :: cs =>
      if base = 16 ∧ c = 48 ∧ (x = 120 ∨ x = 88) then skipUnderscore cs else c :: x :: cs
  | s => s

/-- `int(s, base)`, for base 10 and 16: `none` is the `ValueError`. -/
def int (py : Interp) (s : Str) (base : ℕ) : Option ℤ :=
  let (neg, s) := sign ((s.map py.toAscii).dropWhile isSpace)
  let s := skipPrefix base s
  if s.head? = some 95 then none
  else do
    let (value, count, rest) ← digits base false 0 0 s
    if count = 0 then none
    else if base = 10 ∧ py.maxStrDigits ≠ 0 ∧ py.maxStrDigits < count then none
    else if rest.dropWhile isSpace ≠ [] then none
    else return if neg then -(value : ℤ) else value

/-! ### Formatting -/

/-- `f"{n}"` in base 10, and in base 16 with `x`. -/
def digitsOf (base n : ℕ) : Str := (Nat.toDigits base n).map Char.toNat

/-- Zeros in front, up to a width. -/
def padded (width : ℕ) (s : Str) : Str := List.replicate (width - s.length) 48 ++ s

variable {py : Interp} {s pre rest : Str} {base sep : ℕ}

/-! ### What cutting gives -/

/-- No character of such a string is the separator, read from either end. -/
theorem forall_reverse_ne (h : sep ∉ rest) : ∀ c ∈ rest.reverse, decide (c ≠ sep) = true := by
  intro c hc
  have hne : c ≠ sep := by
    rintro rfl
    exact h (List.mem_reverse.1 hc)
  simpa using hne

theorem lastPiece_append (h : sep ∉ rest) : lastPiece (pre ++ sep :: rest) sep = rest := by
  rw [lastPiece, List.rtakeWhile, List.reverse_append, List.reverse_cons, List.append_assoc,
    List.takeWhile_append_of_pos (forall_reverse_ne h)]
  simp

theorem rdropWhile_append (h : sep ∉ rest) :
    (pre ++ sep :: rest).rdropWhile (· ≠ sep) = pre ++ [sep] := by
  rw [List.rdropWhile, List.reverse_append, List.reverse_cons, List.append_assoc,
    List.dropWhile_append_of_pos (forall_reverse_ne h)]
  simp

/-- Every string with the separator in it, cut at the last one. -/
theorem exists_lastPiece (h : sep ∈ s) :
    ∃ pre rest, s = pre ++ sep :: rest ∧ sep ∉ rest := by
  induction s using List.reverseRecOn with
  | nil => simp at h
  | append_singleton s c ih =>
      by_cases hc : c = sep
      · subst hc
        exact ⟨s, [], rfl, by simp⟩
      · have hs : sep ∈ s := by simpa [Ne.symm hc] using h
        obtain ⟨pre, rest, rfl, hrest⟩ := ih hs
        exact ⟨pre, rest ++ [c], by simp, by simp [hrest, Ne.symm hc]⟩

theorem not_mem_lastPiece (s : Str) (sep : ℕ) : sep ∉ lastPiece s sep := by
  intro h
  rw [lastPiece, List.rtakeWhile, List.mem_reverse] at h
  simpa using List.mem_takeWhile_imp h

/-- One cut more, from the right. -/
theorem rsplit_append (h : sep ∉ rest) (k : ℕ) :
    rsplit (pre ++ sep :: rest) sep (k + 1) = rsplit pre sep k ++ [rest] := by
  rw [rsplit, if_pos (by simp), rdropWhile_append h, lastPiece_append h, List.dropLast_concat]

/-- The last separator is in one place only. -/
theorem append_sep_inj {pre' rest' : Str} (h : sep ∉ rest) (h' : sep ∉ rest')
    (heq : pre ++ sep :: rest = pre' ++ sep :: rest') : pre = pre' ∧ rest = rest' := by
  have hlast := congrArg (fun s => lastPiece s sep) heq
  simp only [lastPiece_append h, lastPiece_append h'] at hlast
  subst hlast
  exact ⟨List.append_cancel_right heq, rfl⟩

/-- Three pieces are the string, cut at its last two separators. -/
theorem rsplit_three {a b c : Str} (h : rsplit s sep 2 = [a, b, c]) :
    s = (a ++ sep :: b) ++ sep :: c ∧ sep ∉ b ∧ sep ∉ c := by
  by_cases hs : sep ∈ s
  · obtain ⟨pre, c', rfl, hc⟩ := exists_lastPiece hs
    rw [rsplit_append hc] at h
    by_cases hpre : sep ∈ pre
    · obtain ⟨a', b', rfl, hb⟩ := exists_lastPiece hpre
      rw [rsplit_append hb, rsplit] at h
      obtain ⟨rfl, rfl, rfl⟩ : a' = a ∧ b' = b ∧ c' = c := by simpa using h
      exact ⟨rfl, hb, hc⟩
    · rw [rsplit, if_neg hpre] at h
      simp at h
  · rw [rsplit, if_neg hs] at h
    simp at h

theorem rfind_append (h : sep ∉ rest) : rfind (pre ++ sep :: rest) sep = pre.length := by
  rw [rfind, if_pos (by simp), rdropWhile_append h]
  simp

theorem sliceTo_length (pre rest : Str) : sliceTo (pre ++ rest) pre.length = pre := by
  simp [sliceTo]

theorem sliceFrom_length (pre rest : Str) (c : ℕ) :
    sliceFrom (pre ++ c :: rest) (pre.length + 1) = rest := by
  have hpos : ¬((pre.length : ℤ) + 1 < 0) := by omega
  have hnat : ((pre.length : ℤ) + 1).toNat = pre.length + 1 := by omega
  rw [sliceFrom, if_neg hpos, hnat, ← List.drop_drop]
  simp

/-! ### What reading gives -/

/-- The number of a string of digits. -/
def value (base : ℕ) (s : Str) : ℕ := s.foldl (fun v c => v * base + digitValue c) 0

theorem digits_all (h : ∀ c ∈ s, digitValue c < base) (hbase : base ≤ 37) (v count : ℕ) :
    digits base false v count s =
      some (s.foldl (fun v c => v * base + digitValue c) v, count + s.length, []) := by
  induction s generalizing v count with
  | nil => rfl
  | cons c s ih =>
      have hc : digitValue c < base := h c (by simp)
      have hnot : c ≠ 95 := by
        rintro rfl
        have : digitValue 95 = 37 := by decide
        omega
      rw [digits, if_neg hnot, if_pos hc, ih (fun c hc => h c (by simp [hc])), List.foldl_cons,
        List.length_cons]
      congr 3
      omega

/-- A digit is no sign, no white space, no underscore and no `x`. -/
theorem digit_plain {c : ℕ} (h : digitValue c < 16) :
    (48 ≤ c ∧ c ≤ 57) ∨ (97 ≤ c ∧ c ≤ 102) ∨ (65 ≤ c ∧ c ≤ 70) := by
  unfold digitValue at h
  split at h
  · omega
  · split at h
    · omega
    · split at h <;> omega

/-- **A plain string of digits** is read as its number. -/
theorem int_digits (hs : s ≠ []) (h : ∀ c ∈ s, digitValue c < base) (hbase : base ≤ 16)
    (hlen : s.length ≤ 640) : int py s base = some (value base s : ℤ) := by
  have hplain : ∀ c ∈ s, (48 ≤ c ∧ c ≤ 57) ∨ (97 ≤ c ∧ c ≤ 102) ∨ (65 ≤ c ∧ c ≤ 70) :=
    fun c hc => digit_plain ((h c hc).trans_le hbase)
  have hascii : s.map py.toAscii = s := by
    refine (List.map_congr_left ?_).trans (List.map_id s)
    intro c hc
    have := hplain c hc
    exact if_pos (by omega)
  obtain ⟨c, cs, rfl⟩ := List.exists_cons_of_ne_nil hs
  have hc := hplain c (by simp)
  have hspace : isSpace c = false := by
    simp [isSpace]
    omega
  have hsign : sign (c :: cs) = (false, c :: cs) := by
    rw [sign, if_neg (by omega), if_neg (by omega)]
  have hprefix : skipPrefix base (c :: cs) = c :: cs := by
    cases cs with
    | nil => rfl
    | cons x cs =>
        have hx := hplain x (by simp)
        rw [skipPrefix, if_neg (by omega)]
  have hdigits := digits_all h (by omega) 0 0
  have hnot : c ≠ 95 := by omega
  have hlimit : ¬(base = 10 ∧ py.maxStrDigits ≠ 0 ∧ py.maxStrDigits < 0 + (c :: cs).length) := by
    have := py.limit
    omega
  rw [int, hascii, List.dropWhile_cons_of_neg (by simp [hspace])]
  simp only [hsign, hprefix, hdigits, value]
  simp [hnot]
  intro hten hzero
  simp at hlimit
  omega

theorem mem_of_digits {c : ℕ} (hunder : c ≠ 95) (hc : base ≤ digitValue c) {under : Bool}
    {v count v' count' : ℕ} (h : digits base under v count s = some (v', count', rest))
    (hmem : c ∈ s) : c ∈ rest := by
  induction s generalizing under v count with
  | nil => simp at hmem
  | cons x s ih =>
      rw [digits] at h
      split at h
      · rename_i hx
        have hs : c ∈ s := by
          rcases List.mem_cons.1 hmem with rfl | hs
          · exact absurd hx hunder
          · exact hs
        split at h
        · cases h
        · exact ih h hs
      · split at h
        · rename_i hdigit
          have hs : c ∈ s := by
            rcases List.mem_cons.1 hmem with rfl | hs
            · omega
            · exact hs
          exact ih h hs
        · split at h
          · cases h
          · simp only [Option.some.injEq, Prod.mk.injEq] at h
            obtain ⟨-, -, rfl⟩ := h
            exact hmem

theorem mem_dropWhile {p : ℕ → Bool} {c : ℕ} (hc : p c = false) (hmem : c ∈ s) :
    c ∈ s.dropWhile p := by
  induction s with
  | nil => simp at hmem
  | cons x s ih =>
      rw [List.dropWhile_cons]
      split
      · rename_i hx
        rcases List.mem_cons.1 hmem with rfl | hs
        · rw [hc] at hx
          cases hx
        · exact ih hs
      · exact hmem

/-- A dot is not skipped in front of the digits. -/
theorem dot_mem_skipPrefix (h : 46 ∈ s) : 46 ∈ skipPrefix base s := by
  match s with
  | [] => simp at h
  | [c] => exact h
  | c :: x :: cs =>
      rw [skipPrefix]
      split
      · rename_i hx
        have hcs : 46 ∈ cs := by
          rcases List.mem_cons.1 h with rfl | h
          · omega
          · exact (List.mem_cons.1 h).resolve_left (by omega)
        cases cs with
        | nil => simp at hcs
        | cons u cs =>
            rw [skipUnderscore]
            split
            · rename_i hu
              exact (List.mem_cons.1 hcs).resolve_left (by omega)
            · exact hcs
      · exact h

theorem dot_mem_sign (h : 46 ∈ s) : 46 ∈ (sign s).2 := by
  cases s with
  | nil => simp at h
  | cons c s =>
      rw [sign]
      split
      · exact (List.mem_cons.1 h).resolve_left (by omega)
      · split
        · exact (List.mem_cons.1 h).resolve_left (by omega)
        · exact h

/-- **A dot** is part of no integer. -/
theorem int_eq_none_of_dot (hbase : base ≤ 37) (h : 46 ∈ s) : int py s base = none := by
  have hascii : 46 ∈ s.map py.toAscii := by
    rw [List.mem_map]
    exact ⟨46, h, rfl⟩
  have hspace : isSpace 46 = false := rfl
  have hsigned := dot_mem_sign (mem_dropWhile hspace hascii)
  have hrest : 46 ∈ skipPrefix base _ := dot_mem_skipPrefix hsigned
  rw [int]
  generalize hsign : sign ((s.map py.toAscii).dropWhile isSpace) = signed at *
  obtain ⟨neg, body⟩ := signed
  simp only
  split
  · rfl
  · cases hdigits : digits base false 0 0 (skipPrefix base body) with
    | none => rfl
    | some r =>
        obtain ⟨v, count, left⟩ := r
        have hdot : digitValue 46 = 37 := by decide
        have hleft : 46 ∈ left := mem_of_digits (by decide) (by omega) hdigits hrest
        have hmore : left.dropWhile isSpace ≠ [] :=
          List.ne_nil_of_mem (mem_dropWhile hspace hleft)
        simp only [Option.bind_eq_bind, Option.bind_some]
        rw [if_pos hmore, ite_self, ite_self]

/-! ### Numbers of a fixed width -/

/-- The digit of a number below the base. -/
def digitChar (d : ℕ) : ℕ := d.digitChar.toNat

/-- The last `k` digits. -/
def fixed (base : ℕ) : ℕ → ℕ → Str
  | 0, _ => []
  | k + 1, n => fixed base k (n / base) ++ [digitChar (n % base)]

@[simp] theorem length_fixed (base k n : ℕ) : (fixed base k n).length = k := by
  induction k generalizing n with
  | zero => rfl
  | succ k ih => simp [fixed, ih]

theorem digitValue_digitChar {d : ℕ} (h : d < 16) : digitValue (digitChar d) = d := by
  have hall : ∀ d : Fin 16, digitValue (digitChar d) = d := by decide
  exact hall ⟨d, h⟩

theorem value_concat (base : ℕ) (s : Str) (c : ℕ) :
    value base (s ++ [c]) = value base s * base + digitValue c := by
  rw [value, List.foldl_append]
  rfl

theorem value_fixed {k n : ℕ} (hpos : 0 < base) (hbase : base ≤ 16) (h : n < base ^ k) :
    value base (fixed base k n) = n := by
  induction k generalizing n with
  | zero =>
      obtain rfl : n = 0 := by simpa using h
      rfl
  | succ k ih =>
      have hmod := Nat.mod_lt n hpos
      have hdiv : n / base < base ^ k := Nat.div_lt_of_lt_mul (by rwa [Nat.pow_succ'] at h)
      rw [fixed, value_concat, ih hdiv, digitValue_digitChar (by omega), Nat.mul_comm,
        Nat.div_add_mod]

theorem digitValue_fixed {k n : ℕ} (hpos : 0 < base) (hbase : base ≤ 16) :
    ∀ c ∈ fixed base k n, digitValue c < base := by
  induction k generalizing n with
  | zero => simp [fixed]
  | succ k ih =>
      intro c hc
      have hmod := Nat.mod_lt n hpos
      rcases List.mem_append.1 hc with hinit | hlast
      · exact ih c hinit
      · obtain rfl := List.mem_singleton.1 hlast
        rw [digitValue_digitChar (by omega)]
        exact hmod

/-- **A string of lower-case digits** is its number's. -/
theorem fixed_value (hpos : 0 < base) (h : ∀ c ∈ s, ∃ d < base, c = digitChar d)
    (hbase : base ≤ 16) : fixed base s.length (value base s) = s := by
  induction s using List.reverseRecOn with
  | nil => rfl
  | append_singleton s c ih =>
      obtain ⟨d, hd, rfl⟩ := h c (by simp)
      have hdigit : digitValue (digitChar d) = d := digitValue_digitChar (by omega)
      have hs := ih fun c hc => h c (by simp [hc])
      rw [value_concat, hdigit, List.length_append, List.length_singleton, fixed,
        Nat.mul_add_mod_self_right, Nat.mod_eq_of_lt hd, Nat.mul_comm, Nat.mul_add_div hpos,
        Nat.div_eq_of_lt hd, Nat.add_zero, hs]

theorem value_lt (h : ∀ c ∈ s, digitValue c < base) : value base s < base ^ s.length := by
  induction s using List.reverseRecOn with
  | nil => simp [value]
  | append_singleton s c ih =>
      have hc : digitValue c < base := h c (by simp)
      have hs := ih fun c hc => h c (by simp [hc])
      rw [value_concat, List.length_append, List.length_singleton, Nat.pow_succ]
      calc value base s * base + digitValue c < value base s * base + base := by omega
        _ = (value base s + 1) * base := by ring
        _ ≤ base ^ s.length * base := Nat.mul_le_mul_right _ hs

theorem mem_fixed (hpos : 0 < base) {k n : ℕ} : ∀ c ∈ fixed base k n, ∃ d < base, c = digitChar d := by
  induction k generalizing n with
  | zero => simp [fixed]
  | succ k ih =>
      intro c hc
      rcases List.mem_append.1 hc with hinit | hlast
      · exact ih c hinit
      · exact ⟨n % base, Nat.mod_lt n hpos, List.mem_singleton.1 hlast⟩

/-- A larger base makes no smaller number. -/
theorem value_mono {base' : ℕ} (h : base ≤ base') (s : Str) : value base s ≤ value base' s := by
  induction s using List.reverseRecOn with
  | nil => exact le_rfl
  | append_singleton s c ih =>
      rw [value_concat, value_concat]
      exact Nat.add_le_add_right (Nat.mul_le_mul ih h) _

theorem fixed_zero (base k : ℕ) : fixed base k 0 = List.replicate k 48 := by
  induction k with
  | zero => rfl
  | succ k ih =>
      rw [fixed, Nat.zero_div, Nat.zero_mod, ih, List.replicate_succ']
      rfl

theorem digitsOf_of_lt {n : ℕ} (h : n < base) : digitsOf base n = [digitChar n] := by
  rw [digitsOf, Nat.toDigits_of_lt_base h]
  rfl

theorem digitsOf_of_le {n : ℕ} (hbase : 1 < base) (h : base ≤ n) :
    digitsOf base n = digitsOf base (n / base) ++ [digitChar (n % base)] := by
  rw [digitsOf, Nat.toDigits_of_base_le hbase h, List.map_append]
  rfl

theorem padded_of_le {k : ℕ} (h : k ≤ s.length) : padded k s = s := by
  rw [padded, Nat.sub_eq_zero_of_le h, List.replicate_zero, List.nil_append]

/-- **Zeros in front** make a number of a fixed width. -/
theorem padded_digitsOf {k n : ℕ} (hbase : 1 < base) (hk : 0 < k) (h : n < base ^ k) :
    padded k (digitsOf base n) = fixed base k n := by
  induction k generalizing n with
  | zero => omega
  | succ k ih =>
      by_cases hlt : n < base
      · rw [digitsOf_of_lt hlt, padded, fixed, Nat.div_eq_of_lt hlt, Nat.mod_eq_of_lt hlt, fixed_zero]
        simp
      · have hle : base ≤ n := Nat.le_of_not_lt hlt
        have hsplit := digitsOf_of_le hbase hle
        have hk' : 0 < k := by
          by_contra hzero
          obtain rfl : k = 0 := by omega
          rw [Nat.zero_add, Nat.pow_one] at h
          omega
        have hdiv : n / base < base ^ k := Nat.div_lt_of_lt_mul (by rwa [Nat.pow_succ'] at h)
        rw [hsplit, fixed, ← ih hk' hdiv, padded, padded, List.length_append,
          List.length_singleton, Nat.add_sub_add_right, List.append_assoc]

theorem digitsOf_ne_nil (base n : ℕ) : digitsOf base n ≠ [] := by
  intro h
  exact Nat.toDigits_ne_nil (List.map_eq_nil_iff.1 h)

theorem length_digitsOf_le_iff {n k : ℕ} (hbase : 1 < base) (hk : 0 < k) :
    (digitsOf base n).length ≤ k ↔ n < base ^ k := by
  rw [digitsOf, List.length_map]
  exact Nat.length_toDigits_le_iff hbase hk

/-- **A number's digits** have its value. -/
theorem value_digitsOf (hbase : 1 < base) (hle : base ≤ 16) (n : ℕ) :
    value base (digitsOf base n) = n := by
  induction n using Nat.strong_induction_on with
  | _ n ih =>
      by_cases hlt : n < base
      · rw [digitsOf_of_lt hlt]
        show 0 * base + digitValue (digitChar n) = n
        rw [digitValue_digitChar (by omega)]
        omega
      · have hpos : 0 < n := by omega
        have hmod := Nat.mod_lt n (Nat.zero_lt_of_lt hbase)
        rw [digitsOf_of_le hbase (Nat.le_of_not_lt hlt), value_concat,
          ih (n / base) (Nat.div_lt_self hpos hbase), digitValue_digitChar (by omega), Nat.mul_comm,
          Nat.div_add_mod]

theorem digitValue_digitsOf (hbase : 1 < base) (hle : base ≤ 16) (n : ℕ) :
    ∀ c ∈ digitsOf base n, digitValue c < base := by
  induction n using Nat.strong_induction_on with
  | _ n ih =>
      intro c hc
      have hmod := Nat.mod_lt n (Nat.zero_lt_of_lt hbase)
      by_cases hlt : n < base
      · rw [digitsOf_of_lt hlt, List.mem_singleton] at hc
        rw [hc, digitValue_digitChar (by omega)]
        exact hlt
      · have hpos : 0 < n := by omega
        rw [digitsOf_of_le hbase (Nat.le_of_not_lt hlt)] at hc
        rcases List.mem_append.1 hc with hinit | hlast
        · exact ih (n / base) (Nat.div_lt_self hpos hbase) c hinit
        · rw [List.mem_singleton.1 hlast, digitValue_digitChar (by omega)]
          exact hmod

/-- **A number that was formatted** is read back. -/
theorem int_digitsOf {n : ℕ} (h : (digitsOf 10 n).length ≤ 640) :
    int py (digitsOf 10 n) 10 = some (n : ℤ) := by
  rw [int_digits (digitsOf_ne_nil 10 n) (digitValue_digitsOf (by decide) (by decide) n) (by decide)
    h, value_digitsOf (by decide) (by decide)]

end Python
