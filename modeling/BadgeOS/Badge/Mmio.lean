import BadgeOS.Bling.Config
import Mathlib

/-!
# The numbers of `nix-badge mmio`

`parseCUnsigned` chooses the base and hands the letters after the prefix to the library's parser,
which takes a sign and digit separators of its own; C's `strtoul` takes neither there.

* `parseInt`, `parseCUnsigned` — the code;
* `strtoul`, `cValue` — C's conversion in base 0, and the value of a text that is one number;
* `parseInt_eq_some_iff`, `cValue_eq_plain` — what each accepts, as digits and their value;
* `Extended` — the numbers only the library knows;
* `parseCUnsigned_eq_cValue_iff` — over every text of visible characters, spaces and tabs.
-/

namespace BadgeOS.Badge

open Bling (Bytes ascii blank)

/-! ### The code -/

/-- `std.fmt.charToDigit` of a base up to 36. -/
def charToDigit (base : ℕ) (c : UInt8) : Option ℕ :=
  let value :=
    if 48 ≤ c ∧ c ≤ 57 then some (c.toNat - 48)
    else if 65 ≤ c ∧ c ≤ 90 then some (c.toNat - 65 + 10)
    else if 97 ≤ c ∧ c ≤ 122 then some (c.toNat - 97 + 10)
    else none
  value.filter (· < base)

/-- The digits of a `u64`, after those that made `accumulate`; separators are skipped. -/
def addDigits (base : ℕ) : ℕ → Bytes → Option ℕ
  | accumulate, [] => some accumulate
  | accumulate, c :: buf =>
      if c = 95 then addDigits base accumulate buf
      else match charToDigit base c with
        | none => none
        | some digit =>
            if 2 ^ 64 ≤ accumulate * base then none
            else if 2 ^ 64 ≤ accumulate * base + digit then none
            else addDigits base (accumulate * base + digit) buf

/-- The digits of a negative `u64`: none may count. -/
def subDigits (base : ℕ) : Bytes → Option ℕ
  | [] => some 0
  | c :: buf =>
      if c = 95 then subDigits base buf
      else if charToDigit base c = some 0 then subDigits base buf else none

/-- `parseIntWithSign`: at least one letter, none of the outer ones a separator. -/
def parseIntWithSign (digits : Bytes → Option ℕ) (buf : Bytes) : Option ℕ :=
  if buf = [] ∨ buf.head? = some 95 ∨ buf.getLast? = some 95 then none else digits buf

/-- `std.fmt.parseInt` of a `u64`. -/
def parseInt (base : ℕ) (buf : Bytes) : Option ℕ :=
  if buf.head? = some 43 then parseIntWithSign (addDigits base 0) buf.tail
  else if buf.head? = some 45 then parseIntWithSign (subDigits base) buf.tail
  else parseIntWithSign (addDigits base 0) buf

/-- One of `"xX"`. -/
def isX (c : UInt8) : Bool := c = 120 || c = 88

/-- `parseCUnsigned` -/
def parseCUnsigned (text : Bytes) : Option ℕ :=
  match Text.trim blank text with
  | [] => none
  | 48 :: c :: rest => if isX c then parseInt 16 rest else parseInt 8 (c :: rest)
  | s => parseInt 10 s

/-! ### C's conversion -/

/-- `isspace` -/
def isspace (c : UInt8) : Bool := c = 32 || (9 ≤ c && c ≤ 13)

/-- A digit of the base. -/
def isDigit (base : ℕ) (c : UInt8) : Bool := (charToDigit base c).isSome

/-- The number that digits make after `v`; what is no digit is skipped. -/
def extend (base v : ℕ) (digits : Bytes) : ℕ :=
  digits.foldl (fun v c => (charToDigit base c).elim v (v * base + ·)) v

/-- What `strtoul` converts: the sign, the number before reduction, and the letters after it. -/
structure Conversion where
  signed : Bool
  value : ℕ
  rest : Bytes
  deriving DecidableEq, Repr

/-- The longest run of digits, if there is one. -/
def convert (base : ℕ) (signed : Bool) (text : Bytes) : Option Conversion :=
  let digits := text.takeWhile (isDigit base)
  if digits = [] then none
  else some ⟨signed, extend base 0 digits, text.dropWhile (isDigit base)⟩

/-- The subject after the sign: the prefix `0x` is one only before a digit. -/
def subject (signed : Bool) (text : Bytes) : Option Conversion :=
  match text with
  | 48 :: x :: d :: rest =>
      if isX x && isDigit 16 d then convert 16 signed (d :: rest)
      else convert 8 signed (48 :: x :: d :: rest)
  | 48 :: rest => convert 8 signed (48 :: rest)
  | text => convert 10 signed text

/-- `strtoul` with base 0. -/
def strtoul (text : Bytes) : Option Conversion :=
  match text.dropWhile isspace with
  | 43 :: rest => subject true rest
  | 45 :: rest => subject true rest
  | rest => subject false rest

/-- The value of a conversion without a sign that fits and leaves only blanks. -/
def Conversion.whole (c : Conversion) : Option ℕ :=
  if !c.signed && c.rest.all blank && c.value < 2 ^ 64 then some c.value else none

/-- The value of a text that is one number without a sign, between blanks, and that fits. -/
def cValue (text : Bytes) : Option ℕ := (strtoul text).bind Conversion.whole

example : parseCUnsigned (ascii " 0x10\t") = some 16 ∧ cValue (ascii " 0x10\t") = some 16 := by
  decide

/-! ### Digits and their number -/

variable {base v w : ℕ} {buf text : Bytes} {c : UInt8}

theorem not_isDigit (h : charToDigit 36 c = none) (hbase : base ≤ 36) : isDigit base c = false := by
  rw [isDigit, Option.isSome_eq_false_iff, Option.isNone_iff_eq_none]
  rw [charToDigit, Option.filter_eq_none_iff] at h ⊢
  intro d hd
  have hlarge := h d hd
  simp only [decide_eq_true_eq] at hlarge ⊢
  omega

/-- No separator is a digit. -/
theorem charToDigit_underscore : charToDigit base 95 = none := rfl

theorem extend_cons_digit {d : ℕ} (h : charToDigit base c = some d) :
    extend base v (c :: buf) = extend base (v * base + d) buf := by
  rw [extend, extend, List.foldl_cons, h, Option.elim_some]

theorem extend_cons_skip (h : charToDigit base c = none) :
    extend base v (c :: buf) = extend base v buf := by
  rw [extend, extend, List.foldl_cons, h, Option.elim_none]

/-- Digits only make a number larger. -/
theorem le_extend (hbase : 0 < base) : v ≤ extend base v buf := by
  induction buf generalizing v with
  | nil => exact le_rfl
  | cons c buf ih =>
      cases hc : charToDigit base c with
      | none => exact (extend_cons_skip hc).symm ▸ ih
      | some d =>
          have hmul : v ≤ v * base := Nat.le_mul_of_pos_right v hbase
          rw [extend_cons_digit hc]
          exact (hmul.trans (Nat.le_add_right _ d)).trans ih

/-- The checks of the loop are one check of the number it makes. -/
theorem addDigits_eq_some_iff (hbase : 0 < base) (hv : v < 2 ^ 64) :
    addDigits base v buf = some w ↔
      (∀ c ∈ buf, c = 95 ∨ isDigit base c = true) ∧ extend base v buf = w ∧ w < 2 ^ 64 := by
  induction buf generalizing v with
  | nil =>
      rw [addDigits]
      constructor
      · rintro ⟨⟩
        exact ⟨fun c hc => absurd hc List.not_mem_nil, rfl, hv⟩
      · rintro ⟨-, rfl, -⟩
        rfl
  | cons c buf ih =>
      rw [addDigits, List.forall_mem_cons]
      by_cases hsep : c = 95
      · subst hsep
        rw [if_pos rfl, ih hv, extend_cons_skip charToDigit_underscore]
        simp
      · rw [if_neg hsep]
        cases hc : charToDigit base c with
        | none => simp [isDigit, hc, hsep]
        | some d =>
            rw [extend_cons_digit hc]
            by_cases hfit : v * base + d < 2 ^ 64
            · simp only [if_neg (show ¬2 ^ 64 ≤ v * base by omega),
                if_neg (show ¬2 ^ 64 ≤ v * base + d by omega), ih hfit, isDigit, hc]
              simp
            · -- the number grows from here on
              have hle : v * base + d ≤ extend base (v * base + d) buf := le_extend hbase
              have hnone : (if 2 ^ 64 ≤ v * base then (none : Option ℕ)
                  else if 2 ^ 64 ≤ v * base + d then none
                  else addDigits base (v * base + d) buf) = none := by
                split
                · rfl
                · rw [if_pos (by omega)]
              simp only [hnone]
              constructor
              · rintro ⟨⟩
              · rintro ⟨-, rfl, hlt⟩
                omega

/-- Of a negative number only zero fits. -/
theorem subDigits_eq_some_iff (hbase : 0 < base) :
    subDigits base buf = some w ↔
      (∀ c ∈ buf, c = 95 ∨ isDigit base c = true) ∧ extend base 0 buf = 0 ∧ w = 0 := by
  induction buf with
  | nil =>
      rw [subDigits]
      constructor
      · rintro ⟨⟩
        exact ⟨fun c hc => absurd hc List.not_mem_nil, rfl, rfl⟩
      · rintro ⟨-, -, rfl⟩
        rfl
  | cons c buf ih =>
      rw [subDigits, List.forall_mem_cons]
      by_cases hsep : c = 95
      · subst hsep
        rw [if_pos rfl, ih, extend_cons_skip charToDigit_underscore]
        simp
      · rw [if_neg hsep]
        cases hc : charToDigit base c with
        | none => simp [isDigit, hc, hsep]
        | some d =>
            rw [extend_cons_digit hc]
            cases d with
            | zero => simp [ih, isDigit, hc]
            | succ d =>
                have hle : 0 * base + (d + 1) ≤ extend base (0 * base + (d + 1)) buf :=
                  le_extend hbase
                rw [if_neg (by simp)]
                constructor
                · rintro ⟨⟩
                · rintro ⟨-, hzero, -⟩
                  omega

theorem charToDigit_ten : charToDigit 10 c = Bling.charToDigit c := by
  rw [charToDigit, Bling.charToDigit]
  by_cases hdigit : 48 ≤ c ∧ c ≤ 57
  · have hle : c.toNat ≤ 57 := hdigit.2
    rw [if_pos hdigit, if_pos hdigit, Option.filter_some, decide_eq_true (by omega), if_pos rfl]
  · rw [if_neg hdigit, if_neg hdigit]
    split
    · rw [Option.filter_some, decide_eq_false (by omega)]
      rfl
    · split
      · rw [Option.filter_some, decide_eq_false (by omega)]
        rfl
      · rfl

theorem addDigits_ten : addDigits 10 v buf = Bling.addDigits 64 v buf := by
  induction buf generalizing v with
  | nil => rfl
  | cons c buf ih =>
      rw [addDigits, Bling.addDigits, charToDigit_ten]
      by_cases hsep : c = 95
      · rw [if_pos hsep, if_pos hsep, ih]
      · rw [if_neg hsep, if_neg hsep]
        cases Bling.charToDigit c with
        | none => rfl
        | some d => simp only [ih]

theorem subDigits_ten : subDigits 10 buf = Bling.subDigits buf := by
  induction buf with
  | nil => rfl
  | cons c buf ih => rw [subDigits, Bling.subDigits, charToDigit_ten, ih]

/-- In base 10 the parser is the one of the configuration's numbers. -/
theorem parseInt_ten : parseInt 10 buf = Bling.parseInt 64 buf := by
  have hadd : addDigits 10 0 = Bling.addDigits 64 0 := funext fun _ => addDigits_ten
  have hsub : subDigits 10 = Bling.subDigits := funext fun _ => subDigits_ten
  rw [parseInt, hadd, hsub]
  rcases buf with _ | ⟨c, buf⟩
  · rfl
  by_cases h43 : c = 43
  · subst h43
    rfl
  by_cases h45 : c = 45
  · subst h45
    rfl
  rw [if_neg (by simp [h43]), if_neg (by simp [h45]), Bling.parseInt]
  · rfl
  · exact List.cons_ne_nil _ _
  · intro rest heq
    exact h43 (List.cons.inj heq).1
  · intro rest heq
    exact h45 (List.cons.inj heq).1

/-! ### What the library's parser accepts -/

/-- Digits, with separators between them. -/
def Numeral (base : ℕ) (buf : Bytes) : Prop :=
  ¬(buf = [] ∨ buf.head? = some 95 ∨ buf.getLast? = some 95) ∧
    ∀ c ∈ buf, c = 95 ∨ isDigit base c = true

instance : Decidable (Numeral base buf) := inferInstanceAs (Decidable (_ ∧ _))

/-- The numbers that only the library knows: with a sign, or with separators. -/
def Extended (base : ℕ) (buf : Bytes) : Prop :=
  (buf.head? = some 43 ∧ Numeral base buf.tail ∧ extend base 0 buf.tail < 2 ^ 64) ∨
    (buf.head? = some 45 ∧ Numeral base buf.tail ∧ extend base 0 buf.tail = 0) ∨
    (95 ∈ buf ∧ Numeral base buf ∧ extend base 0 buf < 2 ^ 64)

instance : Decidable (Extended base buf) := inferInstanceAs (Decidable (_ ∨ _ ∨ _))

/-- The value of digits that fit, and nothing else. -/
def plain (base : ℕ) (buf : Bytes) : Option ℕ :=
  if buf ≠ [] ∧ (∀ c ∈ buf, isDigit base c = true) ∧ extend base 0 buf < 2 ^ 64 then
    some (extend base 0 buf)
  else none

theorem plain_eq_some_iff :
    plain base buf = some w ↔
      (buf ≠ [] ∧ ∀ c ∈ buf, isDigit base c = true) ∧ extend base 0 buf = w ∧ w < 2 ^ 64 := by
  rw [plain]
  split
  next h =>
      constructor
      · rintro ⟨⟩
        exact ⟨⟨h.1, h.2.1⟩, rfl, h.2.2⟩
      · rintro ⟨-, rfl, -⟩
        rfl
  next h =>
      constructor
      · rintro ⟨⟩
      · rintro ⟨hdigits, rfl, hlt⟩
        exact absurd ⟨hdigits.1, hdigits.2, hlt⟩ h

theorem parseIntWithSign_eq_some_iff {digits : Bytes → Option ℕ} {P : Prop}
    (h : digits buf = some w ↔ (∀ c ∈ buf, c = 95 ∨ isDigit base c = true) ∧ P) :
    parseIntWithSign digits buf = some w ↔ Numeral base buf ∧ P := by
  rw [parseIntWithSign, Numeral, and_assoc, ← h]
  split
  next hout => simp [hout]
  next hout => simp [hout]

/-- Digits of C are the numerals without separators. -/
theorem plain_iff_numeral (h95 : 95 ∉ buf) :
    (buf ≠ [] ∧ ∀ c ∈ buf, isDigit base c = true) ↔ Numeral base buf := by
  constructor
  · rintro ⟨hne, hdigits⟩
    refine ⟨?_, fun c hc => Or.inr (hdigits c hc)⟩
    rintro (rfl | hhead | hlast)
    · exact hne rfl
    · exact h95 (List.mem_of_mem_head? hhead)
    · exact h95 (List.mem_of_mem_getLast? hlast)
  · rintro ⟨hout, hall⟩
    refine ⟨fun hnil => hout (Or.inl hnil), fun c hc => (hall c hc).resolve_left ?_⟩
    rintro rfl
    exact h95 hc

/-- A numeral starts with no sign. -/
theorem Numeral.head_ne (h : Numeral base buf) (hsign : isDigit base c = false) (h95 : c ≠ 95) :
    buf.head? ≠ some c := by
  intro hhead
  rcases h.2 c (List.mem_of_mem_head? hhead) with rfl | hdigit
  · exact h95 rfl
  · rw [hsign] at hdigit
    cases hdigit

/-- The parser accepts digits, and the numbers only it knows. -/
theorem parseInt_eq_some_iff (hbase : 0 < base) (hbase' : base ≤ 36) :
    parseInt base buf = some w ↔
      plain base buf = some w ∨
        (buf.head? = some 43 ∧ Numeral base buf.tail ∧ extend base 0 buf.tail = w ∧ w < 2 ^ 64) ∨
        (buf.head? = some 45 ∧ Numeral base buf.tail ∧ extend base 0 buf.tail = 0 ∧ w = 0) ∨
        (95 ∈ buf ∧ Numeral base buf ∧ extend base 0 buf = w ∧ w < 2 ^ 64) := by
  have hplus : isDigit base 43 = false := not_isDigit (by decide) hbase'
  have hminus : isDigit base 45 = false := not_isDigit (by decide) hbase'
  -- a text that starts with a sign is neither digits nor a numeral
  have hsigned {c : UInt8} (hsign : isDigit base c = false) (h95 : c ≠ 95)
      (hhead : buf.head? = some c) : plain base buf ≠ some w ∧ ¬Numeral base buf := by
    refine ⟨fun hplain => ?_, fun hnum => hnum.head_ne hsign h95 hhead⟩
    have hdigit := (plain_eq_some_iff.mp hplain).1.2 c (List.mem_of_mem_head? hhead)
    rw [hsign] at hdigit
    cases hdigit
  rw [parseInt]
  by_cases h43 : buf.head? = some 43
  · obtain ⟨hplain, hnum⟩ := hsigned hplus (by decide) h43
    rw [if_pos h43, parseIntWithSign_eq_some_iff (addDigits_eq_some_iff hbase (by decide))]
    simp [h43, hplain, hnum]
  rw [if_neg h43]
  by_cases h45 : buf.head? = some 45
  · obtain ⟨hplain, hnum⟩ := hsigned hminus (by decide) h45
    rw [if_pos h45, parseIntWithSign_eq_some_iff (subDigits_eq_some_iff hbase)]
    simp [h45, hplain, hnum]
  rw [if_neg h45, parseIntWithSign_eq_some_iff (addDigits_eq_some_iff hbase (by decide)),
    plain_eq_some_iff]
  by_cases h95 : 95 ∈ buf
  · have hno : ¬∀ c ∈ buf, isDigit base c = true := fun h => by
      have hdigit := h 95 h95
      rw [isDigit, charToDigit_underscore] at hdigit
      cases hdigit
    simp [h43, h45, h95, hno]
  · rw [plain_iff_numeral h95]
    simp [h43, h45, h95]

/-- What has a letter that is no digit is no number of C. -/
theorem plain_eq_none (hmem : c ∈ buf) (hc : isDigit base c = false) : plain base buf = none := by
  rw [plain, if_neg]
  rintro ⟨-, hdigits, -⟩
  rw [hdigits c hmem] at hc
  cases hc

theorem Extended.plain_eq_none (h : Extended base buf) (hbase : base ≤ 36) :
    plain base buf = none := by
  rcases h with ⟨hhead, -⟩ | ⟨hhead, -⟩ | ⟨hmem, -⟩
  · exact Badge.plain_eq_none (List.mem_of_mem_head? hhead) (not_isDigit (by decide) hbase)
  · exact Badge.plain_eq_none (List.mem_of_mem_head? hhead) (not_isDigit (by decide) hbase)
  · exact Badge.plain_eq_none hmem rfl

/-- The two agree unless the number is one that only the library knows. -/
theorem parseInt_eq_plain_iff (hbase : 0 < base) (hbase' : base ≤ 36) :
    parseInt base buf = plain base buf ↔ ¬Extended base buf := by
  constructor
  · intro heq hext
    have hnone : parseInt base buf = none := heq.trans (hext.plain_eq_none hbase')
    have hno (w : ℕ) : parseInt base buf ≠ some w := by simp [hnone]
    rcases hext with ⟨hhead, hnum, hlt⟩ | ⟨hhead, hnum, hzero⟩ | ⟨hmem, hnum, hlt⟩
    · exact hno _ ((parseInt_eq_some_iff hbase hbase').mpr
        (Or.inr (Or.inl ⟨hhead, hnum, rfl, hlt⟩)))
    · exact hno _ ((parseInt_eq_some_iff hbase hbase').mpr
        (Or.inr (Or.inr (Or.inl ⟨hhead, hnum, hzero, rfl⟩))))
    · exact hno _ ((parseInt_eq_some_iff hbase hbase').mpr
        (Or.inr (Or.inr (Or.inr ⟨hmem, hnum, rfl, hlt⟩))))
  · intro hext
    apply Option.ext
    intro w
    rw [parseInt_eq_some_iff hbase hbase']
    constructor
    · rintro (hplain | ⟨hhead, hnum, rfl, hlt⟩ | ⟨hhead, hnum, hzero, -⟩ | ⟨hmem, hnum, rfl, hlt⟩)
      · exact hplain
      · exact absurd (Or.inl ⟨hhead, hnum, hlt⟩) hext
      · exact absurd (Or.inr (Or.inl ⟨hhead, hnum, hzero⟩)) hext
      · exact absurd (Or.inr (Or.inr ⟨hmem, hnum, hlt⟩)) hext
    · exact Or.inl

/-! ### What `strtoul` consumes -/

/-- The base of a text, and its letters after the prefix. -/
def body (s : Bytes) : ℕ × Bytes :=
  match s with
  | 48 :: c :: rest => if isX c then (16, rest) else (8, c :: rest)
  | s => (10, s)

theorem parseCUnsigned_eq :
    parseCUnsigned text =
      parseInt (body (Text.trim blank text)).1 (body (Text.trim blank text)).2 := by
  rw [parseCUnsigned]
  generalize Text.trim blank text = s
  rcases s with _ | ⟨c, s⟩
  · rfl
  by_cases hc : c = 48
  · subst hc
    rcases s with _ | ⟨x, s⟩
    · rfl
    · show (if isX x = true then parseInt 16 s else parseInt 8 (x :: s)) = _
      rw [body]
      split <;> rfl
  · simp [body, hc]

theorem not_isDigit_of_blank (hc : blank c = true) (hbase : base ≤ 36) :
    isDigit base c = false := by
  rw [blank, Bool.or_eq_true, decide_eq_true_eq, decide_eq_true_eq] at hc
  rcases hc with rfl | rfl
  · exact not_isDigit (by decide) hbase
  · exact not_isDigit (by decide) hbase

theorem Conversion.whole_eq (c : Conversion) :
    c.whole =
      if c.signed = false ∧ (∀ x ∈ c.rest, blank x = true) ∧ c.value < 2 ^ 64 then some c.value
      else none := by
  rw [whole]
  exact if_congr (by simp [and_assoc]) rfl rfl

/-- Digits and the blanks after them are one number; a last letter that is neither is left. -/
theorem convert_append {b tail : Bytes} (hbase : base ≤ 36)
    (hlast : ∀ hne : b ≠ [], blank (b.getLast hne) = false) (htail : ∀ c ∈ tail, blank c = true) :
    (convert base false (b ++ tail)).bind Conversion.whole = plain base b := by
  have hstop (c : UInt8) (hc : c ∈ tail) : isDigit base c = false :=
    not_isDigit_of_blank (htail c hc) hbase
  by_cases hall : ∀ c ∈ b, isDigit base c = true
  · have hrun : (b ++ tail).takeWhile (isDigit base) = b := by
      rw [List.takeWhile_append_of_pos hall, List.takeWhile_eq_nil_iff.mpr, List.append_nil]
      intro hpos hdigit
      rw [hstop _ (List.get_mem tail _)] at hdigit
      cases hdigit
    have hrest : (b ++ tail).dropWhile (isDigit base) = tail := by
      rw [List.dropWhile_append_of_pos hall, List.dropWhile_eq_self_iff]
      intro hpos hdigit
      rw [hstop _ (List.getElem_mem hpos)] at hdigit
      cases hdigit
    rw [convert, hrun, hrest, plain]
    by_cases hne : b = []
    · rw [if_pos hne, if_neg (fun h => h.1 hne), Option.bind_none]
    · rw [if_neg hne, Option.bind_some, Conversion.whole_eq]
      exact if_congr ⟨fun h => ⟨hne, hall, h.2.2⟩, fun h => ⟨rfl, htail, h.2.2⟩⟩ rfl rfl
  · have hplain : plain base b = none := by
      rw [plain, if_neg]
      exact fun h => hall h.2.1
    have hne : b.dropWhile (isDigit base) ≠ [] := by
      rw [ne_eq, List.dropWhile_eq_nil_iff]
      exact hall
    have hnil : b ≠ [] := by
      rintro rfl
      exact hne rfl
    -- the last letter of the text before the blanks is in what is left over
    have hmem : b.getLast hnil ∈ (b ++ tail).dropWhile (isDigit base) := by
      rw [List.dropWhile_append, if_neg (by simpa using hne), List.mem_append,
        ← (List.dropWhile_suffix (isDigit base)).getLast hne]
      exact Or.inl (List.getLast_mem hne)
    rw [hplain, convert]
    split
    · rfl
    · rw [Option.bind_some, Conversion.whole_eq, if_neg]
      rintro ⟨-, hrest, -⟩
      have hblank := hrest _ hmem
      rw [hlast hnil] at hblank
      cases hblank

theorem subject_octal {signed : Bool} {rest : Bytes}
    (h : ∀ x d rest', rest = x :: d :: rest' → (isX x && isDigit 16 d) = false) :
    subject signed (48 :: rest) = convert 8 signed (48 :: rest) := by
  rcases rest with _ | ⟨x, _ | ⟨d, rest⟩⟩
  · rfl
  · rfl
  · rw [subject, h x d rest rfl]
    rfl

theorem subject_decimal {signed : Bool} (h : c ≠ 48) :
    subject signed (c :: buf) = convert 10 signed (c :: buf) := by
  rw [subject]
  · rintro x d rest ⟨⟩
    exact h rfl
  · rintro rest ⟨⟩
    exact h rfl

/-- A conversion with a sign is never whole. -/
theorem subject_signed : (subject true text).bind Conversion.whole = none := by
  have hconvert (base : ℕ) (text : Bytes) :
      (convert base true text).bind Conversion.whole = none := by
    rw [convert]
    split
    · rfl
    · rfl
  unfold subject
  split
  · split
    · exact hconvert _ _
    · exact hconvert _ _
  · exact hconvert _ _
  · exact hconvert _ _

/-- A zero in front of digits changes nothing. -/
theorem plain_zero_cons (hne : buf ≠ []) : plain 8 (48 :: buf) = plain 8 buf := by
  have hzero : charToDigit 8 48 = some 0 := rfl
  have hdigit : isDigit 8 48 = true := rfl
  rw [plain, plain, extend_cons_digit hzero]
  exact if_congr (by simp [hne, hdigit]) rfl rfl

theorem plain_zero (h : charToDigit base 48 = some 0) : plain base [48] = some 0 := by
  rw [plain_eq_some_iff, extend_cons_digit h]
  refine ⟨⟨List.cons_ne_nil _ _, ?_⟩, by simp [extend], by decide⟩
  simp [isDigit, h]

/-- The number of a text without blanks at its ends, with blanks after it. -/
theorem subject_append {s tail : Bytes} (hs : ∀ hne : s ≠ [], blank (s.getLast hne) = false)
    (htail : ∀ c ∈ tail, blank c = true) (hne : s ≠ []) :
    (subject false (s ++ tail)).bind Conversion.whole = plain (body s).1 (body s).2 := by
  obtain ⟨c, s, rfl⟩ := List.exists_cons_of_ne_nil hne
  by_cases hc : c = 48
  case neg =>
    have hbody : body (c :: s) = (10, c :: s) := by simp [body, hc]
    rw [hbody, List.cons_append, subject_decimal hc, ← List.cons_append]
    exact convert_append (by decide) hs htail
  subst hc
  rcases s with _ | ⟨x, s⟩
  · -- a zero alone is the same number in every base
    rw [List.cons_append, subject_octal, ← List.cons_append, convert_append (by decide) hs htail]
    · exact (plain_zero rfl).trans (plain_zero rfl).symm
    · rintro x d rest rfl
      have hx : blank x = true := htail x List.mem_cons_self
      rw [blank, Bool.or_eq_true, decide_eq_true_eq, decide_eq_true_eq] at hx
      rcases hx with rfl | rfl <;> rfl
  by_cases hx : isX x = true
  case neg =>
    have hbody : body (48 :: x :: s) = (8, x :: s) := by
      rw [body, if_neg hx]
    rw [hbody, List.cons_append, subject_octal, ← List.cons_append,
      convert_append (by decide) hs htail, plain_zero_cons (List.cons_ne_nil _ _)]
    intro y d rest hcons
    rw [← (List.cons.inj hcons).1, Bool.eq_false_iff.mpr hx, Bool.false_and]
  have hbody : body (48 :: x :: s) = (16, s) := by
    rw [body, if_pos hx]
  have hoctal : plain 8 (48 :: x :: s) = none := by
    apply plain_eq_none (List.mem_cons_of_mem _ List.mem_cons_self)
    rw [isX, Bool.or_eq_true, decide_eq_true_eq, decide_eq_true_eq] at hx
    rcases hx with rfl | rfl <;> rfl
  rw [hbody]
  rcases s with _ | ⟨d, s⟩
  · -- the prefix alone: a zero, and a letter after it
    rw [List.cons_append, subject_octal, ← List.cons_append, convert_append (by decide) hs htail,
      hoctal]
    · rfl
    · intro y d rest hcons
      have hcut : tail = d :: rest := (List.cons.inj hcons).2
      subst hcut
      rw [not_isDigit_of_blank (htail d List.mem_cons_self) (by decide), Bool.and_false]
  by_cases hd : isDigit 16 d = true
  · have hlast (hne' : d :: s ≠ []) : blank ((d :: s).getLast hne') = false := by
      have hlong := hs (List.cons_ne_nil _ _)
      rwa [List.getLast_cons (List.cons_ne_nil _ _), List.getLast_cons hne'] at hlong
    rw [List.cons_append, List.cons_append, List.cons_append, subject, if_pos (by simp [hx, hd]),
      ← List.cons_append]
    exact convert_append (by decide) hlast htail
  · rw [List.cons_append, subject_octal, ← List.cons_append, convert_append (by decide) hs htail,
      hoctal, plain_eq_none List.mem_cons_self (Bool.eq_false_iff.mpr hd)]
    intro y d' rest hcons
    have hd' : d = d' := (List.cons.inj (List.cons.inj hcons).2).1
    rw [← hd', Bool.eq_false_iff.mpr hd, Bool.and_false]

/-- The blanks of C among visible letters, spaces and tabs. -/
theorem isspace_eq_blank (h : c = 9 ∨ 32 ≤ c ∧ c ≤ 126) : isspace c = blank c := by
  rcases h with rfl | ⟨hlow, -⟩
  · rfl
  · have hhigh : ¬c ≤ 13 := fun hle => absurd (UInt8.le_trans hlow hle) (by decide)
    have htab : c ≠ 9 := by
      rintro rfl
      exact absurd hlow (by decide)
    simp [isspace, blank, hhigh, htab]

theorem dropWhile_isspace (h : ∀ c ∈ text, c = 9 ∨ 32 ≤ c ∧ c ≤ 126) :
    text.dropWhile isspace = text.dropWhile blank := by
  induction text with
  | nil => rfl
  | cons c text ih =>
      rw [List.forall_mem_cons] at h
      rw [List.dropWhile_cons, List.dropWhile_cons, isspace_eq_blank h.1, ih h.2]

/-- **C reads digits**: the value of the letters between the blanks, after the prefix. -/
theorem cValue_eq_plain (h : ∀ c ∈ text, c = 9 ∨ 32 ≤ c ∧ c ≤ 126) :
    cValue text =
      plain (body (Text.trim blank text)).1 (body (Text.trim blank text)).2 := by
  have hsplit : Text.trim blank text ++ (text.dropWhile blank).rtakeWhile blank =
      text.dropWhile blank := List.rdropWhile_append_rtakeWhile
  have htail (c : UInt8) (hc : c ∈ (text.dropWhile blank).rtakeWhile blank) : blank c = true :=
    List.mem_rtakeWhile_imp hc
  have hlast (hne : Text.trim blank text ≠ []) :
      blank ((Text.trim blank text).getLast hne) = false :=
    Bool.eq_false_iff.mpr (List.rdropWhile_last_not blank _ hne)
  rw [cValue, strtoul, dropWhile_isspace h]
  by_cases hnil : Text.trim blank text = []
  · -- blanks alone
    have hblank : text.dropWhile blank = [] := by
      rw [Text.trim, List.rdropWhile_eq_nil_iff] at hnil
      by_contra hne
      have hhead := List.head_dropWhile_not blank hne
      rw [hnil _ (List.head_mem hne)] at hhead
      cases hhead
    rw [hnil, hblank]
    rfl
  rw [← hsplit]
  generalize Text.trim blank text = s at hnil hlast ⊢
  generalize (text.dropWhile blank).rtakeWhile blank = tail at htail ⊢
  obtain ⟨c, s, rfl⟩ := List.exists_cons_of_ne_nil hnil
  have hsigned (hc48 : c ≠ 48) (hc : isDigit 10 c = false) :
      plain (body (c :: s)).1 (body (c :: s)).2 = none := by
    have hbody : body (c :: s) = (10, c :: s) := by simp [body, hc48]
    rw [hbody]
    exact plain_eq_none List.mem_cons_self hc
  by_cases h43 : c = 43
  · subst h43
    rw [hsigned (by decide) rfl]
    exact subject_signed
  by_cases h45 : c = 45
  · subst h45
    rw [hsigned (by decide) rfl]
    exact subject_signed
  rw [← subject_append hlast htail hnil, List.cons_append]
  split
  · next heq => exact absurd (List.cons.inj heq).1 h43
  · next heq => exact absurd (List.cons.inj heq).1 h45
  · rfl

/-- **Numbers as C reads them, but for the library's own**: over every text of visible characters,
spaces and tabs, the code's answer is C's unless the letters after the prefix are a number with a
sign or with separators between its digits. -/
theorem parseCUnsigned_eq_cValue_iff (h : ∀ c ∈ text, c = 9 ∨ 32 ≤ c ∧ c ≤ 126) :
    parseCUnsigned text = cValue text ↔
      ¬Extended (body (Text.trim blank text)).1 (body (Text.trim blank text)).2 := by
  have hbase : 0 < (body (Text.trim blank text)).1 ∧ (body (Text.trim blank text)).1 ≤ 36 := by
    unfold body
    split
    · split
      · exact ⟨Nat.zero_lt_succ _, by simp⟩
      · exact ⟨Nat.zero_lt_succ _, by simp⟩
    · exact ⟨Nat.zero_lt_succ _, by simp⟩
  rw [parseCUnsigned_eq, cValue_eq_plain h]
  exact parseInt_eq_plain_iff hbase.1 hbase.2

/-- An address in hexadecimal, with a blank before it, is read as C reads it. -/
theorem parseCUnsigned_eq_cValue_iff_address :
    parseCUnsigned (ascii " 0x4A") = cValue (ascii " 0x4A") ↔ ¬Extended 16 (ascii "4A") :=
  @parseCUnsigned_eq_cValue_iff (ascii " 0x4A") (by decide +kernel)

/-- C stops at the separator, and the code reads a number past it. -/
theorem parseCUnsigned_ne_cValue :
    (∀ c ∈ ascii "1_000", c = 9 ∨ 32 ≤ c ∧ c ≤ 126) ∧
      parseCUnsigned (ascii "1_000") = some 1000 ∧ cValue (ascii "1_000") = none := by
  decide +kernel

end BadgeOS.Badge
