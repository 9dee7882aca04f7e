import BadgeOS.Bling.Set
import Mathlib

/-!
# The button that cycles the patterns

A press finds the current pattern through the parser of the runtime file, and then copies the
file line by line with a scanner of its own, which replaces the `eval` lines.

* `collectNixScreens`, `blingNextPattern` — the patterns of a directory, and a press;
* `isEvalLine_iff` — the scanner and the parser agree on what an `eval` line is;
* `Ready.press` — one press, and `Ready`, what it needs of a file and keeps;
* `Ready.presses` — the presses after it;
* `Pressed`, `Cycles`, `bling_cycles` — what a press does, and what as many as patterns do.
-/

namespace BadgeOS.Bling

/-! ### A press -/

/-- `max_bling_patterns` -/
def maxBlingPatterns : ℕ := 16

/-- In the order of `std.mem.lessThan`, or equal. -/
def InOrder (a b : Bytes) : Prop := a.map UInt8.toNat ≤ b.map UInt8.toNat

instance : DecidableRel InOrder := fun a b =>
  inferInstanceAs (Decidable (a.map UInt8.toNat ≤ b.map UInt8.toNat))

def isNix (name : Bytes) : Bool := ascii ".nix" <:+ name

/-- `collectNixScreens` of a directory with these entries, into a list of at most `max`. -/
def collectNixScreens (max : ℕ) (dir : Bytes) (names : List Bytes) : List Bytes :=
  (((names.filter isNix).take max).map fun name => dir ++ [47] ++ name).insertionSort InOrder

/-- The scanner: `eval`, and an equals sign after it. -/
def isEvalLine (l : Bytes) : Bool :=
  let trimmed := l.dropWhile blank
  ascii "eval" <+: trimmed && ((trimmed.drop 4).dropWhile blank).head? = some 61

/-- The loop that copies the lines, and whether it has replaced one. -/
def copyLines (want : Bytes) : List Bytes → Bytes × Bool
  | [] => ([], false)
  | l :: lines =>
      -- a part that is empty, with nothing after it
      if l = [] ∧ (lines = [] ∨ lines = [[]]) then ([], false)
      else if isEvalLine l then
        (line "eval" want ++ [10] ++ (copyLines want lines).1, true)
      else (l ++ [10] ++ (copyLines want lines).1, (copyLines want lines).2)

/-- The new text. -/
def rewrite (want existing : Bytes) : Bytes :=
  let copied := copyLines want (existing.splitOn 10)
  if copied.2 then copied.1 else copied.1 ++ line "eval" want ++ [10]

/-- What is read of the runtime file. -/
def existing (file : Option Bytes) : Bytes := (file.map readFile).getD []

/-- The path of the pattern that is on. -/
def current (file : Option Bytes) : Bytes := (layerRuntime .default file).eval.val

/-- The index of the next pattern: past the current one, or the first. -/
def nextIx (paths : List Bytes) (cur : Bytes) : ℕ :=
  if 0 < cur.length then
    match paths.findIdx? (· = cur) with
    | some i => (i + 1) % paths.length
    | none => 0
  else 0

/-- `blingNextPattern`: the runtime file after a press, in a directory of these patterns. -/
def nextPattern (paths : List Bytes) (file : Option Bytes) : Option Bytes :=
  match paths[nextIx paths (current file)]? with
  | none => file
  | some want =>
      if (rewrite want (existing file)).length ≤ configMaxBytes then
        some (rewrite want (existing file))
      else file

def blingNextPattern (dir : Bytes) (names : List Bytes) (file : Option Bytes) : Option Bytes :=
  nextPattern (collectNixScreens maxBlingPatterns dir names) file

/-! ### The scanner and the parser -/

/-- A list at a letter `p` is not true of: the letters before it, and the rest. -/
theorem dropWhile_eq_cons {p : UInt8 → Bool} {l : Bytes} {c : UInt8}
    (h : (l.dropWhile p).head? = some c) : ∃ v, l.dropWhile p = c :: v ∧
      l = l.takeWhile p ++ c :: v := by
  obtain ⟨v, hv⟩ := List.head?_eq_some_iff.mp h
  refine ⟨v, hv, ?_⟩
  rw [← hv, List.takeWhile_append_dropWhile]

/-- Blanks at the end are dropped. -/
theorem rdropWhile_append_of_pos {p : UInt8 → Bool} {l m : Bytes} (h : ∀ c ∈ m, p c = true) :
    (l ++ m).rdropWhile p = l.rdropWhile p := by
  have hrev : ∀ c ∈ m.reverse, p c = true := fun c hc => h c (List.mem_reverse.mp hc)
  rw [List.rdropWhile, List.reverse_append, List.dropWhile_append_of_pos hrev, ← List.rdropWhile]

theorem eval_not_blank {m : Bytes} (h : ∀ c ∈ m, blank c = true) :
    Text.trim blank (ascii "eval" ++ m) = ascii "eval" := by
  have hstart : (ascii "eval" ++ m).dropWhile blank = ascii "eval" ++ m :=
    List.dropWhile_cons_of_neg (by decide)
  rw [Text.trim, hstart, rdropWhile_append_of_pos h]
  decide

/-- A list with the letter `a` in it is cut there. -/
theorem takeWhile_append_of_mem {t : Bytes} {a : UInt8} (h : a ∈ t) :
    ∃ v, t = t.takeWhile (· ≠ a) ++ a :: v := by
  have hne : t.dropWhile (· ≠ a) ≠ [] := by
    rw [Ne, List.dropWhile_eq_nil_iff]
    exact fun hall => absurd (hall a h) (by simp)
  obtain ⟨b, v, hv⟩ := List.exists_cons_of_ne_nil hne
  have hb : decide (b ≠ a) = false := by
    have hhead := List.head?_dropWhile_not (· ≠ a) t
    rw [hv] at hhead
    exact hhead
  obtain rfl : b = a := by simpa using hb
  refine ⟨v, ?_⟩
  rw [← hv, List.takeWhile_append_dropWhile]

/-- A text that does not start with a blank and is trimmed to `eval` is `eval` and blanks. -/
theorem eq_of_trim {k : Bytes} (hstart : ∀ c, k.head? = some c → blank c = false)
    (h : Text.trim blank k = ascii "eval") :
    ∃ m : Bytes, (∀ c ∈ m, blank c = true) ∧ k = ascii "eval" ++ m := by
  have hdrop : k.dropWhile blank = k := by
    cases k with
    | nil => rfl
    | cons c k => exact List.dropWhile_cons_of_neg (by rw [hstart c rfl]; exact Bool.false_ne_true)
  rw [Text.trim, hdrop] at h
  refine ⟨k.rtakeWhile blank, fun c hc => List.mem_rtakeWhile_imp hc, ?_⟩
  rw [← h, List.rdropWhile_append_rtakeWhile]

/-- **One idea of an `eval` line.** -/
theorem isEvalLine_iff (l : Bytes) :
    isEvalLine l = true ↔ ∃ val, keyValue l = some (ascii "eval", val) := by
  have hstart : (l.dropWhile blank).dropWhile blank = l.dropWhile blank :=
    List.dropWhile_idempotent _ l
  rw [isEvalLine, keyValue]
  generalize l.dropWhile blank = t at hstart
  simp only [Bool.and_eq_true, decide_eq_true_eq]
  constructor
  · rintro ⟨⟨u, rfl⟩, hequals⟩
    have hdrop : (ascii "eval" ++ u).drop 4 = u := rfl
    rw [hdrop] at hequals
    obtain ⟨v, -, hu⟩ := dropWhile_eq_cons hequals
    have hblank : ∀ c ∈ u.takeWhile blank, blank c = true := fun c hc => List.mem_takeWhile_imp hc
    generalize u.takeWhile blank = m at hu hblank
    subst hu
    -- no letter of the key is an equals sign
    have hkey : ∀ c ∈ ascii "eval" ++ m, decide (c ≠ 61) = true := by
      intro c hc
      refine decide_eq_true fun heq => ?_
      subst heq
      rcases List.mem_append.mp hc with hc | hc
      · exact absurd hc (by decide)
      · exact absurd (hblank 61 hc) (by decide)
    have htake : (ascii "eval" ++ (m ++ 61 :: v)).takeWhile (· ≠ 61) = ascii "eval" ++ m := by
      rw [← List.append_assoc, List.takeWhile_append_of_pos hkey,
        List.takeWhile_cons_of_neg (by simp), List.append_nil]
    have hne : ¬(ascii "eval" ++ (m ++ 61 :: v) = [] ∨
        (ascii "eval" ++ (m ++ 61 :: v)).head? = some 35 ∨
          (ascii "eval" ++ (m ++ 61 :: v)).head? = some 13) := by
      have hhead : (ascii "eval" ++ (m ++ 61 :: v)).head? = some 101 := rfl
      rw [hhead]
      rintro (h | h | h)
      · cases h
      · exact absurd h (by decide)
      · exact absurd h (by decide)
    rw [if_neg hne, if_pos (by simp), htake, eval_not_blank hblank]
    exact ⟨_, rfl⟩
  · rintro ⟨val, hval⟩
    split at hval
    · cases hval
    · split at hval
      · rename_i hfirst hequals
        have hkey := congrArg Prod.fst (Option.some.inj hval)
        obtain ⟨v, hv⟩ := takeWhile_append_of_mem hequals
        have hhead : ∀ c, (t.takeWhile (· ≠ 61)).head? = some c → blank c = false := by
          intro c hc
          have ht : (t.dropWhile blank).head? = some c := by
            rw [hstart, hv, List.head?_append, hc]
            rfl
          obtain ⟨w, hw, -⟩ := dropWhile_eq_cons ht
          have hnot := List.head?_dropWhile_not blank t
          rw [hw] at hnot
          exact hnot
        obtain ⟨m, hm, hk⟩ := eq_of_trim hhead hkey
        rw [hk] at hv
        rw [hv, List.append_assoc]
        refine ⟨List.prefix_append _ _, ?_⟩
        show ((m ++ 61 :: v).dropWhile blank).head? = some 61
        rw [List.dropWhile_append_of_pos hm, List.dropWhile_cons_of_neg (by decide)]
        rfl
      · cases hval

theorem isEvalLine_line (value : Bytes) : isEvalLine (line "eval" value) = true :=
  (isEvalLine_iff _).mpr ⟨_, keyValue_line (by decide) value⟩

/-! ### Lines -/

/-- The lines that are copied: all but empty ones at the end. -/
def kept : List Bytes → List Bytes
  | [] => []
  | l :: lines => if l = [] ∧ (lines = [] ∨ lines = [[]]) then [] else l :: kept lines

/-- A line, or the new one in its place. -/
def subst (want l : Bytes) : Bytes := if isEvalLine l then line "eval" want else l

/-- The lines of the new text. -/
def newLines (want : Bytes) (lines : List Bytes) : List Bytes :=
  (kept lines).map (subst want) ++
    if (kept lines).any isEvalLine then [] else [line "eval" want]

theorem unlines_append (ls ms : List Bytes) :
    Text.unlines 10 (ls ++ ms) = Text.unlines 10 ls ++ Text.unlines 10 ms :=
  List.flatMap_append

theorem copyLines_eq (want : Bytes) (lines : List Bytes) :
    copyLines want lines =
      (Text.unlines 10 ((kept lines).map (subst want)), (kept lines).any isEvalLine) := by
  induction lines with
  | nil => rfl
  | cons l lines ih =>
      rw [copyLines, kept]
      split
      · rfl
      · rw [ih, List.map_cons, List.any_cons, subst]
        split
        case isTrue h => rw [h, Bool.true_or]; rfl
        case isFalse h => rw [Bool.eq_false_iff.mpr h, Bool.false_or]; rfl

/-- **The new text**, by its lines. -/
theorem rewrite_eq (want existing : Bytes) :
    rewrite want existing = Text.unlines 10 (newLines want (existing.splitOn 10)) := by
  rw [rewrite, newLines, copyLines_eq]
  dsimp only
  split
  · rw [List.append_nil]
  · rw [unlines_append, List.append_assoc]
    congr 1
    exact (List.append_nil _).symm

theorem kept_sublist (lines : List Bytes) : (kept lines).Sublist lines := by
  induction lines with
  | nil => exact List.Sublist.refl _
  | cons l lines ih =>
      rw [kept]
      split
      · exact List.nil_sublist _
      · exact ih.cons_cons l

theorem subst_subst (p q l : Bytes) : subst q (subst p l) = subst q l := by
  by_cases h : isEvalLine l = true
  · have hline := isEvalLine_line p
    rw [subst, subst, subst, if_pos h, if_pos hline, if_pos h]
  · have hsame : subst p l = l := if_neg h
    rw [hsame]

theorem isEvalLine_subst (want l : Bytes) : isEvalLine (subst want l) = isEvalLine l := by
  rw [subst]
  split
  case isTrue h => rw [isEvalLine_line, h]
  case isFalse => rfl

/-- There is an `eval` line in the new text. -/
theorem any_newLines (want : Bytes) (lines : List Bytes) :
    (newLines want lines).any isEvalLine = true := by
  rw [newLines, List.any_append, List.any_map]
  have hcomp : isEvalLine ∘ subst want = isEvalLine := by
    funext l
    exact isEvalLine_subst want l
  rw [hcomp]
  cases h : (kept lines).any isEvalLine with
  | true => rfl
  | false => rw [if_neg Bool.false_ne_true, List.any_cons, isEvalLine_line]; rfl

theorem map_newLines (p q : Bytes) (lines : List Bytes) :
    (newLines p lines).map (subst q) = newLines q lines := by
  rw [newLines, newLines, List.map_append, List.map_map]
  congr 1
  · refine List.map_congr_left fun l _ => subst_subst p q l
  · split
    · rfl
    · rw [List.map_singleton, subst, if_pos (isEvalLine_line p)]

/-- The last line of a text that ends in a newline is not copied, and one before it may not be
either. -/
theorem kept_concat (lines : List Bytes) :
    kept (lines ++ [[]]) = lines ∨ kept (lines ++ [[]]) ++ [[]] = lines := by
  induction lines with
  | nil => exact Or.inl rfl
  | cons l lines ih =>
      rw [List.cons_append, kept]
      split
      case isTrue h =>
          obtain ⟨rfl, hnil | hone⟩ := h
          · exact absurd hnil (List.append_ne_nil_of_right_ne_nil _ (List.cons_ne_nil _ _))
          · have hlines : lines = [] := List.append_left_eq_self.mp hone
            rw [hlines]
            exact Or.inr rfl
      case isFalse =>
          rcases ih with ih | ih
          · exact Or.inl (congrArg (l :: ·) ih)
          · exact Or.inr (congrArg (l :: ·) ih)

/-! ### Settings -/

/-- What the parser makes of a path. -/
def stored (want : Bytes) : Path := setPath (Text.trim blankOrCr want)

/-- A setting, or the new one in its place. -/
def Setting.replaced (want : Bytes) (s : Setting) : Setting :=
  if s.field = some .eval then .eval (stored want) else s

/-- Only its own key sets the pattern. -/
theorem key_of_eval {key val : Bytes} {s : Setting} (h : readSetting key val = .ok s)
    (hs : s.field = some .eval) : key = ascii "eval" := by
  unfold readSetting at h
  repeat' split at h
  all_goals cases h
  all_goals simp_all [Setting.field]

theorem readLines_kept (lines : List Bytes) : readLines (kept lines) = readLines lines := by
  induction lines with
  | nil => rfl
  | cons l lines ih =>
      rw [kept]
      split
      case isTrue h =>
          obtain ⟨rfl, rfl | rfl⟩ := h
          · rfl
          · rfl
      case isFalse => rw [readLines, readLines, ih]

/-- Lines after some that are all valid. -/
theorem readLines_append {lines : List Bytes} (h : (readLines lines).2 = none) (more : List Bytes) :
    readLines (lines ++ more) =
      ((readLines lines).1 ++ (readLines more).1, (readLines more).2) := by
  induction lines with
  | nil => rfl
  | cons l lines ih =>
      rw [readLines] at h
      rw [List.cons_append, readLines, readLines]
      cases hkv : keyValue l with
      | none =>
          rw [hkv] at h
          exact ih h
      | some kv =>
          obtain ⟨key, val⟩ := kv
          rw [hkv] at h
          dsimp only at h ⊢
          cases hread : readSetting key val with
          | error e =>
              rw [hread] at h
              cases h
          | ok s =>
              rw [hread] at h
              dsimp only at h ⊢
              rw [ih h]
              rfl

theorem readLines_eval (want : Bytes) (lines : List Bytes) :
    readLines (line "eval" want :: lines) =
      (.eval (stored want) :: (readLines lines).1, (readLines lines).2) :=
  readLines_line (by decide) (readSetting_eval _) lines

/-- **Lines with the new one in their place** give the settings with the new one in theirs. -/
theorem readLines_subst (want : Bytes) {lines : List Bytes} (h : (readLines lines).2 = none) :
    readLines (lines.map (subst want)) =
      ((readLines lines).1.map (Setting.replaced want), none) := by
  induction lines with
  | nil => rfl
  | cons l lines ih =>
      rw [readLines] at h
      rw [List.map_cons, subst]
      by_cases heval : isEvalLine l = true
      · obtain ⟨val, hval⟩ := (isEvalLine_iff l).mp heval
        rw [hval] at h
        dsimp only at h
        rw [readSetting_eval] at h
        rw [if_pos heval, readLines_eval, ih h, readLines, hval]
        dsimp only
        rw [readSetting_eval]
        rfl
      · rw [if_neg heval, readLines, readLines]
        cases hkv : keyValue l with
        | none =>
            rw [hkv] at h
            exact ih h
        | some kv =>
            obtain ⟨key, val⟩ := kv
            rw [hkv] at h
            dsimp only at h ⊢
            cases hread : readSetting key val with
            | error e =>
                rw [hread] at h
                cases h
            | ok s =>
                rw [hread] at h
                have hother : s.field ≠ some .eval := by
                  intro hs
                  obtain rfl := key_of_eval hread hs
                  exact heval ((isEvalLine_iff l).mpr ⟨val, hkv⟩)
                dsimp only at h ⊢
                rw [ih h, List.map_cons, Setting.replaced, if_neg hother]

/-- The settings of the new lines. -/
theorem readLines_newLines (want : Bytes) {lines : List Bytes} (h : (readLines lines).2 = none) :
    readLines (newLines want lines) =
      ((readLines lines).1.map (Setting.replaced want) ++
        (if (kept lines).any isEvalLine then [] else [.eval (stored want)]), none) := by
  have hkept : (readLines (kept lines)).2 = none := by rwa [readLines_kept]
  have hsubst := readLines_subst want hkept
  rw [readLines_kept] at hsubst
  rw [newLines, readLines_append (by rw [hsubst]), hsubst]
  split
  · rfl
  · rw [readLines_eval]
    rfl

/-- A line that the scanner replaces sets the pattern. -/
theorem exists_eval {lines : List Bytes} (h : (readLines lines).2 = none)
    (hany : lines.any isEvalLine = true) : ∃ s ∈ (readLines lines).1, s.field = some .eval := by
  induction lines with
  | nil => cases hany
  | cons l lines ih =>
      rw [List.any_cons, Bool.or_eq_true] at hany
      rw [readLines] at h ⊢
      cases hkv : keyValue l with
      | none =>
          rw [hkv] at h
          have hnot : ¬isEvalLine l = true := by
            rw [isEvalLine_iff, hkv]
            rintro ⟨val, hval⟩
            cases hval
          exact ih h (hany.resolve_left hnot)
      | some kv =>
          obtain ⟨key, val⟩ := kv
          rw [hkv] at h
          dsimp only at h ⊢
          cases hread : readSetting key val with
          | error e =>
              rw [hread] at h
              cases h
          | ok s =>
              rw [hread] at h
              dsimp only at h ⊢
              rcases hany with heval | hrest
              · obtain ⟨val', hval⟩ := (isEvalLine_iff l).mp heval
                obtain ⟨rfl, rfl⟩ := Prod.mk.inj (Option.some.inj (hkv.symm.trans hval))
                rw [readSetting_eval] at hread
                obtain rfl := Except.ok.inj hread
                exact ⟨_, List.mem_cons_self, rfl⟩
              · obtain ⟨t, ht, hfield⟩ := ih h hrest
                exact ⟨t, List.mem_cons_of_mem _ ht, hfield⟩

/-- Where every setting of the pattern is one, and there is one, it is that. -/
theorem eval_foldl {ss : List Setting} {p : Path}
    (hall : ∀ s ∈ ss, s.field = some .eval → s = .eval p) {c : Config}
    (h : c.eval = p ∨ ∃ s ∈ ss, s.field = some .eval) : (ss.foldl Config.set c).eval = p := by
  induction ss generalizing c with
  | nil =>
      refine h.resolve_right ?_
      rintro ⟨s, hs, -⟩
      cases hs
  | cons s ss ih =>
      have hrest : ∀ t ∈ ss, t.field = some .eval → t = .eval p :=
        fun t ht => hall t (List.mem_cons_of_mem _ ht)
      rw [List.foldl_cons]
      by_cases hs : s.field = some .eval
      · obtain rfl := hall s List.mem_cons_self hs
        exact ih hrest (Or.inl rfl)
      · have hsame : (c.set s).eval = c.eval := Config.get_set_of_ne hs c
        refine ih hrest ?_
        rcases h with h | ⟨t, ht, hfield⟩
        · exact Or.inl (hsame.trans h)
        · rcases List.mem_cons.mp ht with rfl | ht
          · exact absurd hfield hs
          · exact Or.inr ⟨t, ht, hfield⟩

theorem field_replaced (want : Bytes) (s : Setting) : (s.replaced want).field = s.field := by
  rw [Setting.replaced]
  split
  case isTrue h => exact h.symm
  case isFalse => rfl

/-- The other fields are set as before. -/
theorem get_foldl_replaced (want : Bytes) {f : Field} (hf : f ≠ .eval) (ss : List Setting)
    {c d : Config} (h : c.get f = d.get f) :
    ((ss.map (Setting.replaced want)).foldl Config.set c).get f =
      (ss.foldl Config.set d).get f := by
  induction ss generalizing c d with
  | nil => exact h
  | cons s ss ih =>
      rw [List.map_cons, List.foldl_cons, List.foldl_cons]
      refine ih ?_
      by_cases hs : s.field = some f
      · have hother : s.field ≠ some .eval := fun heq => hf (Option.some.inj (hs.symm.trans heq))
        rw [Setting.replaced, if_neg hother]
        exact Config.get_set_of_eq hs c d
      · have hs' : (s.replaced want).field ≠ some f := by rwa [field_replaced]
        rw [Config.get_set_of_ne hs', Config.get_set_of_ne hs, h]

/-- **The configuration** of the new settings is the old one with the new pattern. -/
theorem foldl_replaced (want : Bytes) (ss more : List Setting) (c : Config)
    (hmore : more = [.eval (stored want)] ∨ more = [] ∧ ∃ s ∈ ss, s.field = some .eval) :
    (ss.map (Setting.replaced want) ++ more).foldl Config.set c =
      { ss.foldl Config.set c with eval := stored want } := by
  have hmem : ∀ s ∈ more, s = .eval (stored want) := by
    intro s hs
    rcases hmore with rfl | ⟨rfl, -⟩
    · exact List.mem_singleton.mp hs
    · cases hs
  refine Config.ext_get fun f => ?_
  by_cases hf : f = .eval
  · subst hf
    show ((ss.map (Setting.replaced want) ++ more).foldl Config.set c).eval = stored want
    refine eval_foldl ?_ (Or.inr ?_)
    · intro s hs hfield
      rcases List.mem_append.mp hs with hs | hs
      · obtain ⟨t, -, rfl⟩ := List.mem_map.mp hs
        rw [field_replaced] at hfield
        rw [Setting.replaced, if_pos hfield]
      · exact hmem s hs
    · rcases hmore with rfl | ⟨rfl, s, hs, hfield⟩
      · exact ⟨_, List.mem_append_right _ List.mem_cons_self, rfl⟩
      · refine ⟨_, List.mem_append_left _ (List.mem_map_of_mem hs), ?_⟩
        rw [field_replaced, hfield]
  · have hafter : ∀ s ∈ more, s.field ≠ some f := by
      intro s hs heq
      rw [hmem s hs] at heq
      exact hf (Option.some.inj heq).symm
    rw [List.foldl_append, Config.get_foldl_of_ne hafter, get_foldl_replaced want hf ss rfl]
    cases f with
    | eval => exact absurd rfl hf
    | _ => rfl

/-! ### One press -/

/-- What a press needs of the file, and keeps: it is valid, and its new text fits for any of the
patterns. -/
structure Ready (paths : List Bytes) (file : Option Bytes) : Prop where
  parses : (settings (existing file)).2 = none
  fits : ∀ want ∈ paths, (rewrite want (existing file)).length ≤ configMaxBytes

theorem layerSettings_eq (file : Option Bytes) :
    layerSettings file = (settings (existing file)).1 := by
  cases file with
  | none => rfl
  | some text => rfl

/-- A text that is short enough is read whole. -/
theorem existing_some {text : Bytes} (h : text.length ≤ configMaxBytes) :
    existing (some text) = text := List.take_of_length_le h

theorem newline_not_mem_newLines {want : Bytes} (hwant : 10 ∉ want) (text : Bytes) :
    ∀ l ∈ newLines want (text.splitOn 10), 10 ∉ l := by
  have hline : 10 ∉ line "eval" want := newline_not_mem_line (by decide) hwant
  intro l hl
  rw [newLines] at hl
  rcases List.mem_append.mp hl with hl | hl
  · obtain ⟨m, hm, rfl⟩ := List.mem_map.mp hl
    rw [subst]
    split
    · exact hline
    · exact Text.not_mem_of_mem_splitOn ((kept_sublist _).subset hm)
  · split at hl
    · cases hl
    · obtain rfl := List.mem_singleton.mp hl
      exact hline

/-- The lines of the new text, with the empty part after the last. -/
theorem splitOn_rewrite {want : Bytes} (hwant : 10 ∉ want) (text : Bytes) :
    (rewrite want text).splitOn 10 = newLines want (text.splitOn 10) ++ [[]] := by
  rw [rewrite_eq]
  exact Text.splitOn_unlines (newline_not_mem_newLines hwant text)

/-- The settings of the new text. -/
theorem settings_rewrite {want text : Bytes} (hwant : 10 ∉ want)
    (h : (settings text).2 = none) :
    settings (rewrite want text) = ((settings text).1.map (Setting.replaced want) ++
      (if (kept (text.splitOn 10)).any isEvalLine then [] else [.eval (stored want)]), none) := by
  have hlines := readLines_newLines want h
  rw [settings, splitOn_rewrite hwant, readLines_append (by rw [hlines]), hlines]
  exact Prod.ext (List.append_nil _) rfl

/-- The configuration of the new text. -/
theorem layer_rewrite {want : Bytes} (hwant : 10 ∉ want) {file : Option Bytes}
    (h : (settings (existing file)).2 = none)
    (hfits : (rewrite want (existing file)).length ≤ configMaxBytes) (c : Config) :
    layerRuntime c (some (rewrite want (existing file))) =
      { layerRuntime c file with eval := stored want } := by
  have hread : layerSettings (some (rewrite want (existing file))) =
      (settings (rewrite want (existing file))).1 := by
    rw [layerSettings_eq, existing_some hfits]
  rw [layerRuntime, layer_eq, hread, settings_rewrite hwant h, layerRuntime, layer_eq,
    layerSettings_eq]
  refine foldl_replaced want _ _ c ?_
  split
  · rename_i hany
    have hkept : (readLines (kept ((existing file).splitOn 10))).2 = none := by
      rw [readLines_kept]
      exact h
    have hexists := exists_eval hkept hany
    rw [readLines_kept] at hexists
    exact Or.inr ⟨rfl, hexists⟩
  · exact Or.inl rfl

/-- Another path in the new text makes it no longer than in the old one. -/
theorem length_rewrite_rewrite {p : Bytes} (hp : 10 ∉ p) (q text : Bytes) :
    (rewrite q (rewrite p text)).length ≤ (rewrite q text).length := by
  have hnil : isEvalLine [] = false := by decide
  have hlines : kept ((rewrite p text).splitOn 10) <+: newLines p (text.splitOn 10) ∧
      (kept ((rewrite p text).splitOn 10)).any isEvalLine = true := by
    rw [splitOn_rewrite hp]
    have hany := any_newLines p (text.splitOn 10)
    rcases kept_concat (newLines p (text.splitOn 10)) with h | h
    · rw [h]
      exact ⟨List.prefix_refl _, hany⟩
    · rw [← h, List.any_append, List.any_cons, hnil] at hany
      exact ⟨⟨_, h⟩, by simpa using hany⟩
  have hprefix := hlines.1.map (subst q)
  rw [map_newLines] at hprefix
  obtain ⟨more, hmore⟩ := hprefix
  rw [rewrite_eq q text, ← hmore, unlines_append, List.length_append, rewrite_eq, newLines,
    if_pos hlines.2, List.append_nil]
  exact Nat.le_add_right _ _

/-- **A press** of a file that is ready writes the next pattern, and leaves it ready. -/
theorem Ready.press {paths : List Bytes} {file : Option Bytes} (h : Ready paths file)
    (hlines : ∀ p ∈ paths, 10 ∉ p) {want : Bytes}
    (hwant : paths[nextIx paths (current file)]? = some want) :
    Ready paths (nextPattern paths file) ∧
      ∀ c, layerRuntime c (nextPattern paths file) =
        { layerRuntime c file with eval := stored want } := by
  have hmem : want ∈ paths := List.mem_of_getElem? hwant
  have hfits := h.fits want hmem
  have hpress : nextPattern paths file = some (rewrite want (existing file)) := by
    rw [nextPattern, hwant]
    exact if_pos hfits
  rw [hpress]
  refine ⟨⟨?_, fun q hq => ?_⟩, layer_rewrite (hlines want hmem) h.parses hfits⟩
  · rw [existing_some hfits, settings_rewrite (hlines want hmem) h.parses]
  · rw [existing_some hfits]
    exact (length_rewrite_rewrite (hlines want hmem) q _).trans (h.fits q hq)

/-! ### Many presses -/

theorem nextIx_lt {paths : List Bytes} (hne : paths ≠ []) (cur : Bytes) :
    nextIx paths cur < paths.length := by
  have hpos := List.length_pos_iff.mpr hne
  rw [nextIx]
  split
  · split
    · exact Nat.mod_lt _ hpos
    · exact hpos
  · exact hpos

/-- Past the current pattern, where no two are the same. -/
theorem nextIx_of_getElem? {paths : List Bytes} (hnodup : paths.Nodup) {cur : Bytes} {i : ℕ}
    (hi : paths[i]? = some cur) (hcur : cur ≠ []) :
    nextIx paths cur = (i + 1) % paths.length := by
  obtain ⟨hlt, rfl⟩ := List.getElem?_eq_some_iff.mp hi
  have hfind : paths.findIdx? (· = paths[i]) = some i := by
    refine List.findIdx?_eq_some_iff_getElem.mpr ⟨hlt, by simp, fun j hj => ?_⟩
    have hne : paths[j] ≠ paths[i] := by
      intro heq
      have hij := (List.Nodup.getElem_inj_iff hnodup).mp heq
      omega
    simpa using hne
  rw [nextIx, if_pos (List.length_pos_iff.mpr hcur), hfind]

/-- The first, where the current pattern is not in the directory. -/
theorem nextIx_of_not_mem {paths : List Bytes} {cur : Bytes} (h : cur ∉ paths) :
    nextIx paths cur = 0 := by
  have hfind : paths.findIdx? (· = cur) = none := by
    refine List.findIdx?_eq_none_iff.mpr fun p hp => ?_
    have hne : p ≠ cur := fun heq => h (heq ▸ hp)
    simpa using hne
  rw [nextIx, hfind]
  split <;> rfl

/-- After a press the pattern is the one that was next, where its path is stored whole. -/
theorem Ready.current_press {paths : List Bytes} {file : Option Bytes} (h : Ready paths file)
    (hlines : ∀ p ∈ paths, 10 ∉ p) (hstored : ∀ p ∈ paths, (stored p).val = p) {want : Bytes}
    (hwant : paths[nextIx paths (current file)]? = some want) :
    current (nextPattern paths file) = want := by
  rw [current, (h.press hlines hwant).2]
  exact hstored want (List.mem_of_getElem? hwant)

/-- **As many presses as one likes**, in a directory whose paths are stored whole: the patterns
come one after the other, and no other setting changes. -/
theorem Ready.presses {paths : List Bytes} {file : Option Bytes} (h : Ready paths file)
    (hne : paths ≠ []) (hnodup : paths.Nodup) (hlines : ∀ p ∈ paths, 10 ∉ p)
    (hnil : [] ∉ paths) (hstored : ∀ p ∈ paths, (stored p).val = p) (k : ℕ) :
    Ready paths ((nextPattern paths)^[k + 1] file) ∧
      paths[(nextIx paths (current file) + k) % paths.length]? =
        some (current ((nextPattern paths)^[k + 1] file)) ∧
      ∀ c, layerRuntime c ((nextPattern paths)^[k + 1] file) =
        { layerRuntime c file with
          eval := (layerRuntime c ((nextPattern paths)^[k + 1] file)).eval } := by
  induction k with
  | zero =>
      have hlt := nextIx_lt hne (current file)
      have hwant := List.getElem?_eq_getElem hlt
      obtain ⟨hready, hlayer⟩ := h.press hlines hwant
      have hmod : (nextIx paths (current file) + 0) % paths.length =
          nextIx paths (current file) := Nat.mod_eq_of_lt hlt
      rw [hmod]
      refine ⟨hready, ?_, fun c => ?_⟩
      · show _ = some (current (nextPattern paths file))
        rw [h.current_press hlines hstored hwant]
        exact hwant
      · show layerRuntime c (nextPattern paths file) =
          { layerRuntime c file with eval := (layerRuntime c (nextPattern paths file)).eval }
        rw [hlayer]
  | succ k ih =>
      obtain ⟨hready, hcur, hlayer⟩ := ih
      generalize hfile : (nextPattern paths)^[k + 1] file = file' at hready hcur hlayer
      have hnonempty : current file' ≠ [] := by
        intro heq
        rw [heq] at hcur
        exact hnil (List.mem_of_getElem? hcur)
      have hix : nextIx paths (current file') =
          (nextIx paths (current file) + (k + 1)) % paths.length := by
        rw [nextIx_of_getElem? hnodup hcur hnonempty, Nat.mod_add_mod, Nat.add_assoc]
      have hlt := nextIx_lt hne (current file')
      have hwant := List.getElem?_eq_getElem hlt
      obtain ⟨hready', hlayer'⟩ := hready.press hlines hwant
      rw [Function.iterate_succ_apply', hfile, ← hix]
      refine ⟨hready', ?_, fun c => ?_⟩
      · rw [hready.current_press hlines hstored hwant]
        exact hwant
      · rw [hlayer', hlayer]

/-- Of `n` indices in a row, modulo `n`, one is `i`. -/
theorem existsUnique_index {n i j : ℕ} (hi : i < n) :
    ∃! k, k < n ∧ (j + k) % n = i := by
  have hpos : 0 < n := Nat.zero_lt_of_lt hi
  have hj := Nat.mod_lt j hpos
  refine ⟨(i + (n - j % n)) % n, ⟨Nat.mod_lt _ hpos, ?_⟩, ?_⟩
  · have hsum : j % n + (i + (n - j % n)) = i + n := by omega
    rw [Nat.add_mod_mod, ← Nat.mod_add_mod, hsum, Nat.add_mod_right, Nat.mod_eq_of_lt hi]
  · rintro k ⟨hk, hik⟩
    have hsame : j + k ≡ j + (i + (n - j % n)) [MOD n] := by
      have hsum : j % n + (i + (n - j % n)) = i + n := by omega
      show (j + k) % n = (j + (i + (n - j % n))) % n
      rw [hik, ← Nat.mod_add_mod, hsum, Nat.add_mod_right, Nat.mod_eq_of_lt hi]
    have hcancel : k % n = (i + (n - j % n)) % n := Nat.ModEq.add_left_cancel' j hsame
    rw [← hcancel, Nat.mod_eq_of_lt hk]

/-! ### The directory -/

theorem perm_collect {dir : Bytes} {names : List Bytes}
    (h : (names.filter isNix).length ≤ maxBlingPatterns) :
    (collectNixScreens maxBlingPatterns dir names).Perm
      ((names.filter isNix).map fun name => dir ++ [47] ++ name) := by
  rw [collectNixScreens, List.take_of_length_le h]
  exact List.perm_insertionSort _ _

theorem pairwise_collect (dir : Bytes) (names : List Bytes) :
    (collectNixScreens maxBlingPatterns dir names).Pairwise InOrder := by
  have htotal : Std.Total InOrder := ⟨fun a b => le_total (a.map UInt8.toNat) _⟩
  have htrans : IsTrans Bytes InOrder := ⟨fun a b c => le_trans⟩
  exact List.pairwise_insertionSort _ _

theorem nodup_collect {dir : Bytes} {names : List Bytes}
    (h : (names.filter isNix).length ≤ maxBlingPatterns) (hnodup : names.Nodup) :
    (collectNixScreens maxBlingPatterns dir names).Nodup := by
  refine (perm_collect h).nodup_iff.mpr ((hnodup.filter _).map fun a b hab => ?_)
  exact List.append_cancel_left hab

/-- A directory with 1 to 16 patterns, whose paths are a line each. -/
structure PatternDir (dir : Bytes) (names : List Bytes) : Prop where
  nodup : names.Nodup
  pos : 0 < (names.filter isNix).length
  atMost : (names.filter isNix).length ≤ maxBlingPatterns
  lines : ∀ name ∈ names, isNix name → 10 ∉ dir ++ [47] ++ name

namespace PatternDir

variable {dir : Bytes} {names : List Bytes}

theorem collect_ne_nil (h : PatternDir dir names) :
    collectNixScreens maxBlingPatterns dir names ≠ [] := by
  intro heq
  have hperm : (collectNixScreens maxBlingPatterns dir names).Perm _ := perm_collect h.atMost
  have hlength := hperm.length_eq
  rw [heq, List.length_map] at hlength
  exact absurd hlength.symm h.pos.ne'

theorem exists_name (h : PatternDir dir names) {p : Bytes}
    (hp : p ∈ collectNixScreens maxBlingPatterns dir names) :
    ∃ name ∈ names, isNix name ∧ dir ++ [47] ++ name = p := by
  obtain ⟨name, hname, heq⟩ := List.mem_map.mp ((perm_collect h.atMost).subset hp)
  obtain ⟨hname, hnix⟩ := List.mem_filter.mp hname
  exact ⟨name, hname, hnix, heq⟩

theorem collect_lines (h : PatternDir dir names) :
    ∀ p ∈ collectNixScreens maxBlingPatterns dir names, 10 ∉ p := by
  intro p hp
  obtain ⟨name, hname, hnix, rfl⟩ := h.exists_name hp
  exact h.lines name hname hnix

/-- No path is empty, with the slash in it. -/
theorem nil_not_mem_collect (h : PatternDir dir names) :
    [] ∉ collectNixScreens maxBlingPatterns dir names := by
  intro hnil
  obtain ⟨name, -, -, heq⟩ := h.exists_name hnil
  simp at heq

end PatternDir

/-! ### The pattern after this one -/

/-- `want` is the path after `cur`, or the first when `cur` is not one of them. -/
structure Follows (paths : List Bytes) (cur want : Bytes) : Prop where
  after : ∀ i, paths[i]? = some cur → paths[(i + 1) % paths.length]? = some want
  first : cur ∉ paths → paths.head? = some want

/-- The path a press finds is the one that follows. -/
theorem follows_nextIx {paths : List Bytes} (hnodup : paths.Nodup) (hnil : [] ∉ paths)
    {cur want : Bytes} (hwant : paths[nextIx paths cur]? = some want) :
    Follows paths cur want := by
  constructor
  · intro i hi
    have hcur : cur ≠ [] := by
      rintro rfl
      exact hnil (List.mem_of_getElem? hi)
    rw [← nextIx_of_getElem? hnodup hi hcur, hwant]
  · intro hnot
    rw [nextIx_of_not_mem hnot] at hwant
    rw [List.head?_eq_getElem?, hwant]

/-- Only one path follows. -/
theorem Follows.unique {paths : List Bytes} {cur p q : Bytes} (hp : Follows paths cur p)
    (hq : Follows paths cur q) : p = q := by
  by_cases hcur : cur ∈ paths
  · obtain ⟨i, hi⟩ := List.getElem?_of_mem hcur
    exact Option.some.inj ((hp.after i hi).symm.trans (hq.after i hi))
  · exact Option.some.inj ((hp.first hcur).symm.trans (hq.first hcur))

/-- A file that was valid is valid after a press, and is the same but for its pattern. -/
structure Pressed (want : Bytes) (file file' : Option Bytes) : Prop where
  parses : (parseBuffer .default (existing file')).2 = none
  config : ∀ c, layerRuntime c file' = { layerRuntime c file with eval := stored want }

/-- Over these presses the patterns come once each, the last is the one of before if that is in
the directory, and the rest of the configuration does not change. -/
structure Cycles (paths : List Bytes) (press : Option Bytes → Option Bytes)
    (file : Option Bytes) : Prop where
  once : ∀ p ∈ paths, ∃! k, k < paths.length ∧ current (press^[k + 1] file) = p
  back : current file ∈ paths → current (press^[paths.length] file) = current file
  parses : ∀ k, (parseBuffer .default (existing (press^[k] file))).2 = none
  config : ∀ k c, layerRuntime c (press^[k] file) =
    { layerRuntime c file with eval := (layerRuntime c (press^[k] file)).eval }

theorem parses_iff (file : Option Bytes) :
    (parseBuffer .default (existing file)).2 = none ↔ (settings (existing file)).2 = none := by
  rw [parseBuffer_eq]

theorem Ready.cycles {paths : List Bytes} {file : Option Bytes} (h : Ready paths file)
    (hne : paths ≠ []) (hnodup : paths.Nodup) (hlines : ∀ p ∈ paths, 10 ∉ p)
    (hnil : [] ∉ paths) (hstored : ∀ p ∈ paths, (stored p).val = p) :
    Cycles paths (nextPattern paths) file := by
  have hpresses := h.presses hne hnodup hlines hnil hstored
  have hpos := List.length_pos_iff.mpr hne
  refine ⟨fun p hp => ?_, fun hcur => ?_, fun k => ?_, fun k c => ?_⟩
  · -- the press that turns `p` on is the one whose index is that of `p`
    obtain ⟨i, hi, rfl⟩ := List.getElem_of_mem hp
    have hiff : ∀ k, current ((nextPattern paths)^[k + 1] file) = paths[i] ↔
        (nextIx paths (current file) + k) % paths.length = i := by
      intro k
      have hmod := Nat.mod_lt (nextIx paths (current file) + k) hpos
      have hget := (hpresses k).2.1
      rw [List.getElem?_eq_getElem hmod] at hget
      rw [← Option.some.inj hget, List.Nodup.getElem_inj_iff hnodup]
    simp only [hiff]
    exact existsUnique_index hi
  · obtain ⟨i, hi⟩ := List.getElem?_of_mem hcur
    have hlt := (List.getElem?_eq_some_iff.mp hi).1
    have hcurrent : current file ≠ [] := by
      intro heq
      exact hnil (heq ▸ hcur)
    have hget := (hpresses (paths.length - 1)).2.1
    -- one past `i`, and then all but one
    have hix : (nextIx paths (current file) + (paths.length - 1)) % paths.length = i := by
      have hsum : i + 1 + (paths.length - 1) = i + paths.length := by omega
      rw [nextIx_of_getElem? hnodup hi hcurrent, Nat.mod_add_mod, hsum, Nat.add_mod_right,
        Nat.mod_eq_of_lt hlt]
    rw [hix, hi, Nat.sub_add_cancel hpos] at hget
    exact (Option.some.inj hget).symm
  · rw [parses_iff]
    cases k with
    | zero => exact h.parses
    | succ k => exact (hpresses k).1.parses
  · cases k with
    | zero => rfl
    | succ k => exact (hpresses k).2.2 c

/-- **The button cycles the patterns**, and touches nothing else. -/
theorem bling_cycles {dir : Bytes} {names : List Bytes} (h : PatternDir dir names)
    {file : Option Bytes} (hfile : (parseBuffer .default (existing file)).2 = none) :
    let paths := collectNixScreens maxBlingPatterns dir names
    (paths.Pairwise InOrder ∧
        paths.Perm ((names.filter isNix).map fun name => dir ++ [47] ++ name)) ∧
      (∃! want, Follows paths (current file) want) ∧
      (∀ want, Follows paths (current file) want →
        (rewrite want (existing file)).length ≤ configMaxBytes →
          Pressed want file (blingNextPattern dir names file)) ∧
      ((∀ p ∈ paths, (rewrite p (existing file)).length ≤ configMaxBytes ∧ (stored p).val = p) →
        Cycles paths (blingNextPattern dir names) file) := by
  intro paths
  have hnodup : paths.Nodup := nodup_collect h.atMost h.nodup
  have hparses := (parses_iff file).mp hfile
  obtain ⟨next, hnext⟩ : ∃ next, paths[nextIx paths (current file)]? = some next :=
    ⟨_, List.getElem?_eq_getElem (nextIx_lt h.collect_ne_nil _)⟩
  have hfollows := follows_nextIx hnodup h.nil_not_mem_collect hnext
  refine ⟨⟨pairwise_collect dir names, perm_collect h.atMost⟩,
    ⟨next, hfollows, fun q hq => hq.unique hfollows⟩, fun want hwant hfits => ?_, fun hpaths => ?_⟩
  · obtain rfl := hwant.unique hfollows
    have hlines := h.collect_lines want (List.mem_of_getElem? hnext)
    have hpress : blingNextPattern dir names file = some (rewrite want (existing file)) := by
      rw [blingNextPattern, nextPattern, hnext]
      exact if_pos hfits
    rw [hpress]
    refine ⟨?_, layer_rewrite hlines hparses hfits⟩
    rw [parses_iff, existing_some hfits, settings_rewrite hlines hparses]
  · have hready : Ready paths file := ⟨hparses, fun p hp => (hpaths p hp).1⟩
    exact hready.cycles h.collect_ne_nil hnodup h.collect_lines h.nil_not_mem_collect
      fun p hp => (hpaths p hp).2

/-- Two patterns, of which the second is on, and a line that is no setting. -/
theorem bling_cycles_two :
    let names := [ascii "02-fire.nix", ascii "README", ascii "01-ice.nix"]
    let file := some (ascii "fps = 20\n\teval= /p/02-fire.nix\r\n# eval = x\n")
    Pressed (ascii "/p/01-ice.nix") file (blingNextPattern (ascii "/p") names file) ∧
      current ((blingNextPattern (ascii "/p") names)^[2] file) = ascii "/p/02-fire.nix" := by
  intro names file
  have hdir : PatternDir (ascii "/p") names := by
    refine ⟨by decide, by decide, by decide, by decide⟩
  have hpaths : collectNixScreens maxBlingPatterns (ascii "/p") names =
      [ascii "/p/01-ice.nix", ascii "/p/02-fire.nix"] := by decide
  have hcurrent : current file = ascii "/p/02-fire.nix" := by decide
  have hparses : (parseBuffer .default (existing file)).2 = none := by decide
  have hfits : ∀ p ∈ [ascii "/p/01-ice.nix", ascii "/p/02-fire.nix"],
      (rewrite p (existing file)).length ≤ configMaxBytes ∧ (stored p).val = p := by decide
  obtain ⟨-, -, hpress, hcycles⟩ := bling_cycles hdir hparses
  rw [hpaths] at hpress hcycles
  rw [hcurrent] at hpress
  have hfollows : Follows [ascii "/p/01-ice.nix", ascii "/p/02-fire.nix"]
      (ascii "/p/02-fire.nix") (ascii "/p/01-ice.nix") := by
    refine ⟨?_, fun hnot => absurd (by decide) hnot⟩
    rintro (_ | _ | i) hi
    · exact absurd hi (by decide)
    · rfl
    · cases hi
  refine ⟨hpress _ hfollows (hfits _ List.mem_cons_self).1, ?_⟩
  rw [← hcurrent]
  exact (hcycles hfits).back (by rw [hcurrent]; decide)

/-- A name of 244 letters. -/
def longName : Bytes := List.replicate 240 97 ++ ascii ".nix"

/-- Its path, of 267. -/
def longPath : Bytes := ascii "/etc/nix-badge/bling.d" ++ [47] ++ longName

theorem length_longPath : longPath.length = 267 := by
  rw [longPath, longName, List.length_append, List.length_append, List.length_append,
    List.length_replicate]
  rfl

/-- A path that is too long for a `Path` is not what the configuration has after the press. -/
theorem bling_cycles_longName :
    ¬ ∀ (dir : Bytes) (names : List Bytes) (file : Option Bytes) (want : Bytes),
      names.Nodup → 0 < (names.filter isNix).length →
      (names.filter isNix).length ≤ maxBlingPatterns →
      (parseBuffer .default (existing file)).2 = none →
      Follows (collectNixScreens maxBlingPatterns dir names) (current file) want →
      (rewrite want (existing file)).length ≤ configMaxBytes →
        current (blingNextPattern dir names file) = want := by
  intro hclaim
  have hnix : isNix longName = true := decide_eq_true (List.suffix_append _ _)
  have hfilter : [longName].filter isNix = [longName] := by
    rw [List.filter_cons_of_pos hnix, List.filter_nil]
  have hpaths : collectNixScreens maxBlingPatterns (ascii "/etc/nix-badge/bling.d") [longName] =
      [longPath] := by
    rw [collectNixScreens, hfilter]
    rfl
  have hfollows : Follows [longPath] (current none) longPath := by
    refine ⟨fun i _ => ?_, fun _ => rfl⟩
    rw [List.length_singleton, Nat.mod_one]
    rfl
  have hfits : (rewrite longPath (existing none)).length ≤ configMaxBytes := by
    have hrewrite : rewrite longPath (existing none) = line "eval" longPath ++ [10] := rfl
    rw [hrewrite, line, List.length_append, List.length_append, List.length_append,
      length_longPath]
    decide
  have hwant := hclaim (ascii "/etc/nix-badge/bling.d") [longName] none longPath
    (List.nodup_singleton _) (by rw [hfilter]; decide) (by rw [hfilter]; decide) (by decide)
    (by rw [hpaths]; exact hfollows) hfits
  have hle := (layerRuntime .default
    (blingNextPattern (ascii "/etc/nix-badge/bling.d") [longName] none)).eval.property
  have hlength := congrArg List.length hwant
  rw [current, length_longPath] at hlength
  rw [hlength] at hle
  exact absurd hle (by decide)

end BadgeOS.Bling
