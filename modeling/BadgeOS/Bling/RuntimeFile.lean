import BadgeOS.Bling.Config

/-!
# The runtime file, read back

What `writeRuntime` writes is read line by line: a number comes back as it was, a path without
the blanks at its ends, and a path with a newline in it breaks its line in two.  So the file
stands for the seven settings it was written from just as far as the two paths are clean.

* `parseInt_decimal`, `keyValue_line` — one number, one line;
* `settings_writeRuntime` — the whole file, when no path has a newline;
* `length_writeRuntime_le` — it fits the buffer it is written in.
-/

namespace BadgeOS.Bling

/-! ### Numbers -/

theorem charToDigit_digit {d : ℕ} (h : d < 10) : charToDigit (Text.digit d) = some d := by
  have hall : ∀ d : Fin 10, charToDigit (Text.digit d) = some (d : ℕ) := by decide
  exact hall ⟨d, h⟩

theorem digit_ne {d : ℕ} (h : d < 10) : Text.digit d ≠ 95 ∧ Text.digit d ≠ 43 ∧
    Text.digit d ≠ 45 ∧ blankOrCr (Text.digit d) = false ∧ Text.digit d ≠ 10 := by
  have hall : ∀ d : Fin 10, Text.digit d ≠ 95 ∧ Text.digit d ≠ 43 ∧ Text.digit d ≠ 45 ∧
      blankOrCr (Text.digit d) = false ∧ Text.digit d ≠ 10 := by decide
  exact hall ⟨d, h⟩

theorem addDigits_append (bits : ℕ) (xs ys : Bytes) (acc : ℕ) :
    addDigits bits acc (xs ++ ys) = (addDigits bits acc xs).bind fun n => addDigits bits n ys := by
  induction xs generalizing acc with
  | nil => rfl
  | cons c xs ih =>
      rw [List.cons_append, addDigits, addDigits]
      split
      · exact ih acc
      · cases charToDigit c with
        | none => rfl
        | some d =>
            simp only
            split
            · rfl
            · split
              · rfl
              · exact ih _

/-- One more digit. -/
theorem addDigits_digit {bits acc d : ℕ} (hd : d < 10) (h : acc * 10 + d < 2 ^ bits) :
    addDigits bits acc [Text.digit d] = some (acc * 10 + d) := by
  have hmul : ¬ 2 ^ bits ≤ acc * 10 := by omega
  have hadd : ¬ 2 ^ bits ≤ acc * 10 + d := by omega
  rw [addDigits, if_neg (digit_ne hd).1, charToDigit_digit hd]
  simp only [if_neg hmul, if_neg hadd, addDigits]

theorem addDigits_decimal {bits : ℕ} (n : ℕ) (h : n < 2 ^ bits) :
    addDigits bits 0 (Text.decimal n) = some n := by
  induction n using Nat.strong_induction_on with
  | _ n ih =>
      by_cases hlt : n < 10
      · rw [Text.decimal_of_lt hlt, addDigits_digit hlt (by omega)]
        simp
      · have hsplit : n / 10 * 10 + n % 10 = n := by omega
        have hlast : n % 10 < 10 := Nat.mod_lt n (by decide)
        have hinit := ih (n / 10) (by omega) (by omega)
        rw [Text.decimal_of_le (by omega), addDigits_append, hinit]
        show addDigits bits (n / 10) [Text.digit (n % 10)] = some n
        rw [addDigits_digit hlast (by omega), hsplit]

/-- **A number is read back.** -/
theorem parseInt_decimal {bits n : ℕ} (h : n < 2 ^ bits) :
    parseInt bits (Text.decimal n) = some n := by
  have hplus := Text.forall_mem_decimal (P := (· ≠ 43)) (fun d hd => (digit_ne hd).2.1) n
  have hminus := Text.forall_mem_decimal (P := (· ≠ 45)) (fun d hd => (digit_ne hd).2.2.1) n
  have hunder := Text.forall_mem_decimal (P := (· ≠ 95)) (fun d hd => (digit_ne hd).1) n
  have hread := addDigits_decimal n h
  have hne := Text.decimal_ne_nil n
  generalize Text.decimal n = buf at *
  have hhead : buf.head? ≠ some 95 := by
    intro heq
    exact hunder 95 (List.mem_of_head? heq) rfl
  have hlast : buf.getLast? ≠ some 95 := by
    intro heq
    exact hunder 95 (List.mem_of_getLast? heq) rfl
  have hsign : parseInt.withSign (addDigits bits 0) buf = some n := by
    rw [parseInt.withSign, if_neg (by simp [hne, hhead, hlast]), hread]
  unfold parseInt
  split
  · exact absurd rfl hne
  · exact absurd rfl (hplus 43 List.mem_cons_self)
  · exact absurd rfl (hminus 45 List.mem_cons_self)
  · exact hsign

theorem trim_decimal (n : ℕ) : Text.trim blankOrCr (Text.decimal n) = Text.decimal n :=
  Text.trim_eq_self (Text.forall_mem_decimal (fun _ hd => (digit_ne hd).2.2.2.1) n)

/-! ### Lines -/

/-- A key that a line can start with. -/
def keyOk (key : Bytes) : Bool :=
  key.head?.any (fun c => !blank c && c != 35 && c != 13) && 61 ∉ key &&
    key.getLast?.all fun c => !blank c

/-- **A line is read back**, its value without the blanks at both ends. -/
theorem keyValue_line {key : String} (h : keyOk (ascii key) = true) (value : Bytes) :
    keyValue (line key value) = some (ascii key, Text.trim blankOrCr value) := by
  unfold line
  generalize ascii key = k at h ⊢
  simp only [keyOk, Bool.and_eq_true, decide_eq_true_eq] at h
  obtain ⟨⟨hfirst, heq⟩, hlast⟩ := h
  cases k with
  | nil => cases hfirst
  | cons c k =>
      simp only [List.head?_cons, Option.any_some, Bool.and_eq_true, Bool.not_eq_true',
        bne_iff_ne, ne_eq] at hfirst
      obtain ⟨⟨hblank, hhash⟩, hcr⟩ := hfirst
      have hraw : (c :: k ++ ascii " = " ++ value).dropWhile blank =
          c :: k ++ [32] ++ 61 :: 32 :: value := by
        show (c :: (k ++ ascii " = " ++ value)).dropWhile blank = _
        rw [List.dropWhile_cons_of_neg (by simp [hblank])]
        simp [ascii]
      -- the key and the blank before the `=` have none of it
      have hnone : ∀ x ∈ c :: k ++ [32], decide (x ≠ 61) = true := by
        intro x hx
        rcases List.mem_append.mp hx with hkey | hsp
        · have hne : x ≠ 61 := by
            intro heq
            subst heq
            exact heq hkey
          exact decide_eq_true hne
        · obtain rfl := List.mem_singleton.mp hsp
          decide
      have htake : (c :: k ++ [32] ++ 61 :: 32 :: value).takeWhile (· ≠ 61) = c :: k ++ [32] := by
        rw [List.takeWhile_append_of_pos hnone, List.takeWhile_cons_of_neg (by simp),
          List.append_nil]
      have hdrop : (c :: k ++ [32] ++ 61 :: 32 :: value).dropWhile (· ≠ 61) =
          61 :: 32 :: value := by
        rw [List.dropWhile_append_of_pos hnone, List.dropWhile_cons_of_neg (by simp)]
      have hkey : Text.trim blank (c :: k ++ [32]) = c :: k := by
        rw [Text.trim, List.cons_append, List.dropWhile_cons_of_neg (by simp [hblank]),
          ← List.cons_append, List.rdropWhile_concat_pos _ _ _ (by decide),
          List.rdropWhile_eq_self_iff]
        intro hne hb
        rw [List.getLast?_eq_some_getLast hne] at hlast
        simp [hb] at hlast
      unfold keyValue
      simp only [hraw, htake, hdrop, hkey, List.tail_cons]
      rw [if_neg (by simp [hhash, hcr]), if_pos (by simp), Text.trim_cons_of_pos (by decide)]

/-- A line of the file, with its value read. -/
theorem readLines_line {key : String} (h : keyOk (ascii key) = true) {value : Bytes} {s : Setting}
    (hs : readSetting (ascii key) (Text.trim blankOrCr value) = .ok s) (lines : List Bytes) :
    readLines (line key value :: lines) = (s :: (readLines lines).1, (readLines lines).2) := by
  rw [readLines, keyValue_line h value]
  simp only [hs]

/-! ### The file -/

theorem readSetting_count (n : Count) :
    readSetting (ascii "count") (Text.trim blankOrCr (Text.decimal n)) = .ok (.count n) := by
  have hlt : n.1 < 2 ^ 32 := lt_of_le_of_lt n.2.2 (by decide)
  rw [trim_decimal, readSetting, if_neg (by decide), if_pos rfl, parseInt_decimal hlt]
  simp only [dif_pos n.2]

theorem readSetting_speedHz (n : Speed) :
    readSetting (ascii "speed_hz") (Text.trim blankOrCr (Text.decimal n)) = .ok (.speedHz n) := by
  have hlt : n.1 < 2 ^ 32 := lt_of_le_of_lt n.2.2 (by decide)
  rw [trim_decimal, readSetting, if_neg (by decide), if_neg (by decide), if_pos rfl,
    parseInt_decimal hlt]
  simp only [dif_pos n.2]

theorem readSetting_bits (enc : Encoding) :
    readSetting (ascii "bits") (Text.trim blankOrCr (Text.decimal enc.bits)) =
      .ok (.encoding enc) := by
  have hlt : enc.bits < 2 ^ 32 := by cases enc <;> decide
  have henc : Encoding.fromInt enc.bits = some enc := by cases enc <;> rfl
  rw [trim_decimal, readSetting, if_neg (by decide), if_neg (by decide), if_neg (by decide),
    if_neg (by decide), if_pos rfl, parseInt_decimal hlt, Option.bind_some, henc]

theorem readSetting_brightness (n : Brightness) :
    readSetting (ascii "brightness") (Text.trim blankOrCr (Text.decimal n)) =
      .ok (.brightness n) := by
  have hlt : n.1 < 2 ^ 8 := lt_of_le_of_lt n.2 (by decide)
  rw [trim_decimal, readSetting, if_neg (by decide), if_neg (by decide), if_neg (by decide),
    if_neg (by decide), if_neg (by decide), if_pos rfl, parseInt_decimal hlt]
  simp only [dif_pos n.2]

theorem readSetting_fps (n : Fps) :
    readSetting (ascii "fps") (Text.trim blankOrCr (Text.decimal n)) = .ok (.fps n) := by
  have hlt : n.1 < 2 ^ 32 := lt_of_le_of_lt n.2.2 (by decide)
  have hclamp : clampFps n = n := by
    apply Subtype.ext
    show max minFps (min n.1 maxFps) = n.1
    rw [min_eq_left n.2.2, max_eq_right n.2.1]
  rw [trim_decimal, readSetting, if_neg (by decide), if_neg (by decide), if_neg (by decide),
    if_neg (by decide), if_neg (by decide), if_neg (by decide), if_pos rfl, parseInt_decimal hlt]
  simp only [hclamp]

theorem readSetting_blob (val : Bytes) :
    readSetting (ascii "blob") val = .ok (.blob (setPath val)) := by
  rw [readSetting, if_neg (by decide), if_neg (by decide), if_neg (by decide), if_neg (by decide),
    if_neg (by decide), if_neg (by decide), if_neg (by decide), if_pos rfl]

theorem readSetting_eval (val : Bytes) :
    readSetting (ascii "eval") val = .ok (.eval (setPath val)) := by
  rw [readSetting, if_neg (by decide), if_neg (by decide), if_neg (by decide), if_neg (by decide),
    if_neg (by decide), if_neg (by decide), if_neg (by decide), if_neg (by decide), if_pos rfl]

theorem newline_not_mem_line {key : String} {value : Bytes} (hkey : 10 ∉ ascii key)
    (hvalue : 10 ∉ value) : 10 ∉ line key value := by
  intro h
  rcases List.mem_append.mp h with h | h
  · rcases List.mem_append.mp h with h | h
    · exact hkey h
    · exact absurd h (by decide)
  · exact hvalue h

theorem newline_not_mem_decimal (n : ℕ) : 10 ∉ Text.decimal n := by
  intro h
  exact Text.forall_mem_decimal (P := (· ≠ 10)) (fun _ hd => (digit_ne hd).2.2.2.2) n 10 h rfl

/-- **The runtime file, read back.**  When neither path has a newline the file is seven
settings: the configuration's, but for the blanks at the ends of the two paths. -/
theorem settings_writeRuntime {c : Config} (hblob : 10 ∉ c.blob.1) (heval : 10 ∉ c.eval.1) :
    settings (writeRuntime c) =
      ([.brightness c.brightness, .count c.count, .fps c.fps, .speedHz c.speedHz,
        .encoding c.encoding, .blob (setPath (Text.trim blankOrCr c.blob)),
        .eval (setPath (Text.trim blankOrCr c.eval))], none) := by
  have hlines : ∀ l ∈ runtimeLines c, 10 ∉ l := by
    intro l hl
    simp only [runtimeLines, List.mem_cons, List.not_mem_nil, or_false] at hl
    rcases hl with rfl | rfl | rfl | rfl | rfl | rfl | rfl | rfl | rfl
    · decide
    · decide
    · exact newline_not_mem_line (by decide) (newline_not_mem_decimal _)
    · exact newline_not_mem_line (by decide) (newline_not_mem_decimal _)
    · exact newline_not_mem_line (by decide) (newline_not_mem_decimal _)
    · exact newline_not_mem_line (by decide) (newline_not_mem_decimal _)
    · exact newline_not_mem_line (by decide) (newline_not_mem_decimal _)
    · exact newline_not_mem_line (by decide) hblob
    · exact newline_not_mem_line (by decide) heval
  have hcomment : ∀ (l : Bytes) (ls : List Bytes), keyValue l = none →
      readLines (l :: ls) = readLines ls := by
    intro l ls hl
    rw [readLines, hl]
  rw [settings, writeRuntime, Text.splitOn_unlines hlines, runtimeLines]
  simp only [List.cons_append, List.nil_append]
  rw [hcomment _ _ (by decide), hcomment _ _ (by decide),
    readLines_line (by decide) (readSetting_brightness _),
    readLines_line (by decide) (readSetting_count _),
    readLines_line (by decide) (readSetting_fps _),
    readLines_line (by decide) (readSetting_speedHz _),
    readLines_line (by decide) (readSetting_bits _),
    readLines_line (by decide) (readSetting_blob _),
    readLines_line (by decide) (readSetting_eval _),
    hcomment _ _ (by decide)]
  rfl

/-- The buffer `writeRuntimeConfig` writes into is large enough. -/
theorem length_writeRuntime_le (c : Config) : (writeRuntime c).length ≤ 2048 := by
  have hbrightness : (Text.decimal c.brightness).length ≤ 3 :=
    Text.length_decimal_le (by decide) (lt_of_le_of_lt c.brightness.2 (by decide))
  have hcount : (Text.decimal c.count).length ≤ 4 :=
    Text.length_decimal_le (by decide) (lt_of_le_of_lt c.count.2.2 (by decide))
  have hfps : (Text.decimal c.fps).length ≤ 3 :=
    Text.length_decimal_le (by decide) (lt_of_le_of_lt c.fps.2.2 (by decide))
  have hspeed : (Text.decimal c.speedHz).length ≤ 8 :=
    Text.length_decimal_le (by decide) (lt_of_le_of_lt c.speedHz.2.2 (by decide))
  have hbits : (Text.decimal c.encoding.bits).length ≤ 1 :=
    Text.length_decimal_le (by decide) (by cases c.encoding <;> decide)
  have hblob : c.blob.1.length ≤ 256 := c.blob.2
  have heval : c.eval.1.length ≤ 256 := c.eval.2
  have hkeys : (ascii "# Written by nix-badge-bling set. The service reads this").length ≤ 60 ∧
      (ascii "# after the declarative config, so these values win.").length ≤ 60 ∧
      (ascii "brightness").length ≤ 10 ∧ (ascii "count").length ≤ 10 ∧
      (ascii "fps").length ≤ 10 ∧ (ascii "speed_hz").length ≤ 10 ∧ (ascii "bits").length ≤ 10 ∧
      (ascii "blob").length ≤ 10 ∧ (ascii "eval").length ≤ 10 ∧ (ascii " = ").length ≤ 3 := by
    decide
  simp only [writeRuntime, Text.unlines, runtimeLines, line, List.flatMap_cons, List.flatMap_nil,
    List.length_append, List.length_singleton, List.length_nil]
  omega

end BadgeOS.Bling
