import BadgeOS.Lib.Text
import Mathlib

/-!
# Lines, fields and words

How a text of lines `key: value` is cut, and that what was put together that way is cut back into
the same pieces.

* `words`, `words_joined` — what is between blanks;
* `lines`, `lines_unlines` — lines that end with a newline, or with a carriage return and one;
* `splitOnce`, `splitOnce_append` — what is before the first separator, and behind it.
-/

namespace Text

variable {α : Type*} {nl cr a b : α} {p : α → Bool} {l : List α}

/-! ### Trimmed texts -/

theorem trim_cases (p : α → Bool) (l : List α) :
    trim p l = [] ∨ ∃ init last, trim p l = init ++ [last] ∧ p last = false := by
  rcases List.eq_nil_or_concat (trim p l) with hnil | ⟨init, last, hconcat⟩
  · exact Or.inl hnil
  · rw [List.concat_eq_append] at hconcat
    refine Or.inr ⟨init, last, hconcat, ?_⟩
    rw [trim] at hconcat
    have hlast := List.rdropWhile_last_not p (l.dropWhile p) (by rw [hconcat]; simp)
    simpa [hconcat] using hlast

theorem trim_trim (p : α → Bool) (l : List α) : trim p (trim p l) = trim p l := by
  have hhead : (trim p l).dropWhile p = trim p l := by
    rw [List.dropWhile_eq_self_iff]
    intro hpos hfirst
    have hprefix : trim p l <+: l.dropWhile p := List.rdropWhile_prefix p _
    have hlt : 0 < (l.dropWhile p).length := hpos.trans_le hprefix.length_le
    have hsame : (trim p l)[0] = (l.dropWhile p)[0] := hprefix.getElem hpos
    rw [hsame] at hfirst
    exact List.dropWhile_get_zero_not p l hlt hfirst
  rw [trim, hhead]
  exact List.rdropWhile_idempotent p _

/-! ### Words -/

/-- The words between blanks. -/
def words (p : α → Bool) (l : List α) : List (List α) := (l.splitOnP p).filter (· ≠ [])

/-- A list of words with one blank between any two. -/
def joined (sp : α) (ws : List (List α)) : List α := [sp].intercalate ws

theorem words_mem {w : List α} (hw : w ∈ words p l) : w ≠ [] ∧ ∀ c ∈ w, p c = false := by
  obtain ⟨hpiece, hne⟩ := List.mem_filter.mp hw
  exact ⟨by simpa using hne, of_mem_splitOnP hpiece⟩

/-- **Words are read back.** -/
theorem words_joined {sp : α} (hsp : p sp = true) {ws : List (List α)}
    (hws : ∀ w ∈ ws, w ≠ [] ∧ ∀ c ∈ w, p c = false) : words p (joined sp ws) = ws := by
  induction ws with
  | nil => rfl
  | cons w ws ih =>
      obtain ⟨hne, hword⟩ := hws w List.mem_cons_self
      have hrest := ih fun v hv => hws v (List.mem_cons_of_mem w hv)
      cases ws with
      | nil =>
          have hone : joined sp [w] = w := by simp [joined]
          rw [hone, words, List.splitOnP_eq_singleton hword]
          simp [hne]
      | cons v ws =>
          have hcons : joined sp (w :: v :: ws) = w ++ sp :: joined sp (v :: ws) := by
            simp [joined, List.intercalate]
          rw [words] at hrest ⊢
          rw [hcons, List.splitOnP_append_cons_of_forall_mem hword sp hsp, List.filter_cons,
            hrest]
          simp [hne]

variable [DecidableEq α]

/-! ### Lines -/

/-- A line without the carriage return at its end. -/
def stripCr (cr : α) (l : List α) : List α := if l.getLast? = some cr then l.dropLast else l

/-- The lines of a text.  The last may lack its newline, and is then as it stands. -/
def lines (nl cr : α) (text : List α) : List (List α) :=
  let pieces := text.splitOn nl
  pieces.dropLast.map (stripCr cr) ++ pieces.getLast?.toList.filter (· ≠ [])

/-- **Lines are read back.** -/
theorem lines_unlines {ls : List (List α)} (hnl : ∀ l ∈ ls, nl ∉ l)
    (hcr : ∀ l ∈ ls, l.getLast? ≠ some cr) : lines nl cr (unlines nl ls) = ls := by
  have hstrip : ls.map (stripCr cr) = ls := by
    conv_rhs => rw [← List.map_id ls]
    exact List.map_congr_left fun l hl => if_neg (hcr l hl)
  rw [lines, splitOn_unlines hnl]
  simp [hstrip]

theorem not_mem_of_mem_lines {text : List α} (hl : l ∈ lines nl cr text) : nl ∉ l := by
  rw [lines] at hl
  rcases List.mem_append.mp hl with hl | hl
  · obtain ⟨piece, hpiece, rfl⟩ := List.mem_map.mp hl
    have hnot := not_mem_of_mem_splitOn (List.mem_of_mem_dropLast hpiece)
    rw [stripCr]
    split
    · exact fun hmem => hnot (List.mem_of_mem_dropLast hmem)
    · exact hnot
  · have hlast := Option.mem_toList.mp (List.mem_of_mem_filter hl)
    exact not_mem_of_mem_splitOn (List.mem_of_getLast? hlast)

/-! ### Fields -/

/-- What is before the first `a` with a `b` behind it, and what is after both. -/
def splitOnce (a b : α) : List α → Option (List α × List α)
  | x :: y :: rest =>
      if x = a ∧ y = b then some ([], rest)
      else (splitOnce a b (y :: rest)).map fun r => (x :: r.1, r.2)
  | _ => none

/-- **A field is read back.** -/
theorem splitOnce_append {key : List α} (hkey : a ∉ key) (value : List α) :
    splitOnce a b (key ++ a :: b :: value) = some (key, value) := by
  induction key with
  | nil =>
      show splitOnce a b (a :: b :: value) = some ([], value)
      rw [splitOnce, if_pos ⟨rfl, rfl⟩]
  | cons x key ih =>
      have hx : x ≠ a := fun h => hkey (h ▸ List.mem_cons_self)
      have hrest := ih fun h => hkey (List.mem_cons_of_mem x h)
      cases key with
      | nil =>
          show splitOnce a b (x :: a :: b :: value) = some ([x], value)
          rw [splitOnce, if_neg fun h => hx h.1]
          rw [List.nil_append] at hrest
          rw [hrest]
          rfl
      | cons y key =>
          show splitOnce a b (x :: y :: (key ++ a :: b :: value)) = some (x :: y :: key, value)
          rw [splitOnce, if_neg fun h => hx h.1]
          rw [List.cons_append] at hrest
          rw [hrest]
          rfl

theorem mem_of_splitOnce {c : α} {r : List α × List α} (h : splitOnce a b l = some r)
    (hc : c ∈ r.2) : c ∈ l := by
  induction l generalizing r with
  | nil => cases h
  | cons x l ih =>
      cases l with
      | nil => cases h
      | cons y rest =>
          rw [splitOnce] at h
          split at h
          · cases h
            exact List.mem_cons_of_mem x (List.mem_cons_of_mem y hc)
          · obtain ⟨r', hr', rfl⟩ := Option.map_eq_some_iff.mp h
            exact List.mem_cons_of_mem x (ih hr' hc)

end Text
