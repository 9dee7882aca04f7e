import Mathlib

/-!
# Lines, blanks and decimal numbers

What printing a text and reading it back rests on, for lists of any letters and, where numbers
are printed, for bytes.

* `trim` — the letters without the blanks at both ends;
* `unlines` — lines, each ended by a separator, and `splitOn_unlines`: splitting gives them back;
* `decimal` — a number in decimal, with the recursion a reader's induction follows.
-/

namespace Text

section Letters

variable {α : Type*} {p : α → Bool} {a : α} {l : List α}

/-- The text without the letters of `p` at its start and at its end. -/
def trim (p : α → Bool) (l : List α) : List α := (l.dropWhile p).rdropWhile p

theorem trim_cons_of_pos (h : p a = true) : trim p (a :: l) = trim p l := by
  rw [trim, List.dropWhile_cons_of_pos h, trim]

theorem trim_concat_of_pos (h : p a = true) : trim p (l ++ [a]) = trim p l := by
  induction l with
  | nil => rw [List.nil_append, trim_cons_of_pos h]
  | cons x l ih =>
      by_cases hx : p x = true
      · rw [List.cons_append, trim_cons_of_pos hx, trim_cons_of_pos hx, ih]
      · rw [List.cons_append, trim, trim, List.dropWhile_cons_of_neg hx,
          List.dropWhile_cons_of_neg hx, ← List.cons_append, List.rdropWhile_concat_pos p _ _ h]

theorem trim_sublist : (trim p l).Sublist l :=
  (List.rdropWhile_prefix p _).sublist.trans (List.dropWhile_sublist p)

/-- A text without blanks is trimmed already. -/
theorem trim_eq_self (h : ∀ x ∈ l, p x = false) : trim p l = l := by
  have hhead : l.dropWhile p = l := by
    rw [List.dropWhile_eq_self_iff]
    intro hpos hfirst
    rw [h _ (List.getElem_mem hpos)] at hfirst
    cases hfirst
  rw [trim, hhead, List.rdropWhile_eq_self_iff]
  intro hne hlast
  rw [h _ (List.getLast_mem hne)] at hlast
  cases hlast

end Letters

section Lines

variable {α : Type*} [DecidableEq α] {nl : α}

/-- Lines, each ended by `nl`. -/
def unlines (nl : α) (lines : List (List α)) : List α := lines.flatMap (· ++ [nl])

theorem splitOn_unlines {lines : List (List α)} (h : ∀ l ∈ lines, nl ∉ l) :
    (unlines nl lines).splitOn nl = lines ++ [[]] := by
  induction lines with
  | nil => rfl
  | cons l lines ih =>
      have hrest := ih fun l' hl' => h l' (List.mem_cons_of_mem _ hl')
      have hcons : unlines nl (l :: lines) = l ++ nl :: unlines nl lines := by
        simp [unlines]
      rw [hcons, List.splitOn_append_cons_self_of_not_mem (h l List.mem_cons_self), hrest]
      rfl

omit [DecidableEq α] in
/-- No piece of a split text has a separator. -/
theorem of_mem_splitOnP {p : α → Bool} {text piece : List α} (h : piece ∈ text.splitOnP p) :
    ∀ c ∈ piece, p c = false := by
  induction text generalizing piece with
  | nil =>
      obtain rfl : piece = [] := by simpa using h
      exact fun c hc => absurd hc List.not_mem_nil
  | cons d text ih =>
      rw [List.splitOnP_cons_eq_if_modifyHead] at h
      split at h
      · rcases List.mem_cons.mp h with rfl | hrest
        · exact fun c hc => absurd hc List.not_mem_nil
        · exact ih hrest
      · rename_i hd
        obtain ⟨first, rest, hsplit⟩ := List.exists_cons_of_ne_nil (List.splitOnP_ne_nil p text)
        rw [hsplit] at h ih
        rcases List.mem_cons.mp h with rfl | hrest
        · intro c hc
          rcases List.mem_cons.mp hc with rfl | hc
          · exact Bool.eq_false_iff.mpr hd
          · exact ih List.mem_cons_self c hc
        · exact ih (List.mem_cons_of_mem _ hrest)

theorem not_mem_of_mem_splitOn {text piece : List α} (h : piece ∈ text.splitOn nl) :
    nl ∉ piece := by
  rw [List.splitOn_eq_splitOnP] at h
  intro hmem
  have hfalse := of_mem_splitOnP h nl hmem
  rw [beq_self_eq_true] at hfalse
  cases hfalse

end Lines

/-! ### Decimal numbers -/

/-- The decimal digits of a number, as ASCII. -/
def decimal (n : ℕ) : List UInt8 := (Nat.toDigits 10 n).map fun c => c.toNat.toUInt8

/-- The digit of a number below ten. -/
def digit (d : ℕ) : UInt8 := (48 + d).toUInt8

theorem toUInt8_digitChar {d : ℕ} (h : d < 10) : d.digitChar.toNat.toUInt8 = digit d := by
  have hall : ∀ d : Fin 10, (d : ℕ).digitChar.toNat.toUInt8 = digit d := by decide
  exact hall ⟨d, h⟩

theorem decimal_of_lt {n : ℕ} (h : n < 10) : decimal n = [digit n] := by
  rw [decimal, Nat.toDigits_of_lt_base h, List.map_singleton, toUInt8_digitChar h]

theorem decimal_of_le {n : ℕ} (h : 10 ≤ n) :
    decimal n = decimal (n / 10) ++ [digit (n % 10)] := by
  rw [decimal, Nat.toDigits_of_base_le (by decide) h, List.map_append, List.map_singleton,
    toUInt8_digitChar (Nat.mod_lt n (by decide)), decimal]

/-- A property of every digit is one of every letter of a number. -/
theorem forall_mem_decimal {P : UInt8 → Prop} (hP : ∀ d < 10, P (digit d)) (n : ℕ) :
    ∀ c ∈ decimal n, P c := by
  induction n using Nat.strong_induction_on with
  | _ n ih =>
      intro c hc
      by_cases hlt : n < 10
      · rw [decimal_of_lt hlt] at hc
        obtain rfl := List.mem_singleton.mp hc
        exact hP n hlt
      · rw [decimal_of_le (by omega)] at hc
        rcases List.mem_append.mp hc with hinit | hlast
        · exact ih (n / 10) (by omega) c hinit
        · obtain rfl := List.mem_singleton.mp hlast
          exact hP _ (Nat.mod_lt n (by decide))

theorem decimal_ne_nil (n : ℕ) : decimal n ≠ [] := by
  intro h
  exact Nat.toDigits_ne_nil (List.map_eq_nil_iff.mp h)

theorem length_decimal_le {n k : ℕ} (hk : 0 < k) (h : n < 10 ^ k) : (decimal n).length ≤ k := by
  rw [decimal, List.length_map]
  exact (Nat.length_toDigits_le_iff (by decide) hk).mpr h

end Text
