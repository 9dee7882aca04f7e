import Mathlib

/-!
# Packed lists, patches and slices

Three pieces of a delta codec, for any base and any element type:

* `pairs B` — two digits below `B` per word, the first one high, an odd last digit alone;
* `diff` and `patch` — the entries at which two lists differ, and writing them back;
* `starts` — the running offsets of a list of lists, which cut its `flatten` up again.
-/

namespace Packing

variable {α : Type*}

/-! ### Two digits per word -/

def pairs (B : ℕ) : List ℕ → List ℕ
  | [] => []
  | [e] => [e * B]
  | e :: e' :: es => (e * B + e') :: pairs B es

/-- Digit `i` of a packed list, in its word `w`: even ones are high. -/
def digit (B w i : ℕ) : ℕ := if i % 2 = 0 then w / B % B else w % B

theorem length_pairs (B : ℕ) (es : List ℕ) : (pairs B es).length = (es.length + 1) / 2 := by
  induction es using pairs.induct with
  | case1 => rfl
  | case2 e => simp [pairs]
  | case3 e e' es ih =>
      simp only [pairs, List.length_cons, ih]
      omega

/-- Word `p` has the digits `2 * p` and `2 * p + 1`, if there is one. -/
theorem pairs_eq_map (B : ℕ) (es : List ℕ) :
    pairs B es = (List.range ((es.length + 1) / 2)).map fun p =>
      es.getD (2 * p) 0 * B + if 2 * p + 1 < es.length then es.getD (2 * p + 1) 0 else 0 := by
  induction es using pairs.induct with
  | case1 => rfl
  | case2 e => simp [pairs]
  | case3 e e' es ih =>
      have hwords : ((e :: e' :: es).length + 1) / 2 = (es.length + 1) / 2 + 1 := by
        simp only [List.length_cons]
        omega
      rw [pairs, hwords, List.range_succ_eq_map, List.map_cons, List.map_map, ih]
      refine congrArg₂ List.cons ?_ ?_
      · simp
      · apply List.map_congr_left
        intro p _
        rw [Function.comp_apply, show 2 * (p + 1) = 2 * p + 1 + 1 by omega]
        simp only [List.getD_cons_succ, List.length_cons, Nat.add_lt_add_iff_right]

/-- **Unpacking.**  Word `i / 2` exists and has digit `i`. -/
theorem digit_pairs {B : ℕ} {es : List ℕ} (hB : ∀ e ∈ es, e < B) {i e : ℕ}
    (hi : es[i]? = some e) : ∃ w, (pairs B es)[i / 2]? = some w ∧ digit B w i = e := by
  induction es using pairs.induct generalizing i with
  | case1 => simp at hi
  | case2 d =>
      obtain rfl : i = 0 := by
        by_contra hne
        rw [List.getElem?_eq_none (by simp; omega)] at hi
        cases hi
      obtain rfl : d = e := by simpa using hi
      have hd : d < B := hB d (by simp)
      refine ⟨d * B, rfl, ?_⟩
      have hpos : 0 < B := by omega
      rw [digit, if_pos rfl, Nat.mul_div_cancel _ hpos, Nat.mod_eq_of_lt hd]
  | case3 d d' es ih =>
      have hd : d < B := hB d (by simp)
      have hd' : d' < B := hB d' (by simp)
      have hpos : 0 < B := by omega
      match i with
      | 0 =>
          obtain rfl : d = e := by simpa using hi
          refine ⟨d * B + d', rfl, ?_⟩
          rw [digit, if_pos rfl, Nat.mul_comm, Nat.mul_add_div hpos, Nat.div_eq_of_lt hd',
            Nat.add_zero, Nat.mod_eq_of_lt hd]
      | 1 =>
          obtain rfl : d' = e := by simpa using hi
          refine ⟨d * B + d', rfl, ?_⟩
          rw [digit, if_neg (by decide), Nat.mul_comm, Nat.mul_add_mod, Nat.mod_eq_of_lt hd']
      | i + 2 =>
          have hi' : es[i]? = some e := by simpa using hi
          obtain ⟨w, hw, hdigit⟩ := ih (fun e he => hB e (by simp [he])) hi'
          refine ⟨w, ?_, ?_⟩
          · rw [show (i + 2) / 2 = i / 2 + 1 by omega]
            exact hw
          · rw [← hdigit, digit, digit, show (i + 2) % 2 = i % 2 by omega]

/-! ### Differences -/

/-- The entries, from offset `i` on, at which `cur` differs from `prev`. -/
def diffFrom [DecidableEq α] (i : ℕ) : List α → List α → List (ℕ × α)
  | p :: prev, c :: cur =>
      if c = p then diffFrom (i + 1) prev cur else (i, c) :: diffFrom (i + 1) prev cur
  | _, _ => []

def diff [DecidableEq α] (prev cur : List α) : List (ℕ × α) := diffFrom 0 prev cur

/-- Writing entries into a list. -/
def patch (out : List α) (es : List (ℕ × α)) : List α :=
  es.foldl (fun out e => out.set e.1 e.2) out

@[simp] theorem patch_nil (out : List α) : patch out [] = out := rfl

@[simp] theorem patch_cons (out : List α) (e : ℕ × α) (es : List (ℕ × α)) :
    patch out (e :: es) = patch (out.set e.1 e.2) es := rfl

@[simp] theorem length_patch (out : List α) (es : List (ℕ × α)) :
    (patch out es).length = out.length := by
  induction es generalizing out with
  | nil => rfl
  | cons e es ih =>
      rw [patch_cons, ih]
      exact List.length_set

/-- What a list of entries writes at a place: the last of the entries for it. -/
def written : List (ℕ × α) → ℕ → Option α
  | [], _ => none
  | e :: es, k => (written es k).or (if e.1 = k then some e.2 else none)

/-- **Place by place.**  A patched list has what was written there last, or what it had. -/
theorem patch_get {out : List α} {k : ℕ} (hk : k < out.length) (es : List (ℕ × α)) :
    (patch out es)[k]? = (written es k).or out[k]? := by
  induction es generalizing out with
  | nil => simp [written]
  | cons e es ih =>
      have hlen : k < (out.set e.1 e.2).length := by rwa [List.length_set]
      rw [patch_cons, ih hlen, written, Option.or_assoc]
      congr 1
      by_cases he : e.1 = k
      · subst he
        simp [hk]
      · rw [List.getElem?_set_ne he, if_neg he, Option.none_or]

/-- **Again.**  Entries written twice are written once. -/
theorem patch_patch (out : List α) (es : List (ℕ × α)) :
    patch (patch out es) es = patch out es := by
  refine List.ext_getElem? fun k => ?_
  by_cases hk : k < out.length
  · rw [patch_get (by rwa [length_patch]), patch_get hk, ← Option.or_assoc, Option.or_self]
  · have hlen : (patch out es).length ≤ k := by
      rw [length_patch]
      exact Nat.le_of_not_lt hk
    rw [List.getElem?_eq_none_iff.mpr hlen, List.getElem?_eq_none_iff.mpr (by rwa [length_patch])]

theorem patch_diffFrom [DecidableEq α] (pre : List α) {prev cur : List α}
    (h : prev.length = cur.length) :
    patch (pre ++ prev) (diffFrom pre.length prev cur) = pre ++ cur := by
  induction prev generalizing pre cur with
  | nil =>
      obtain rfl : cur = [] := List.length_eq_zero_iff.1 h.symm
      rfl
  | cons p prev ih =>
      cases cur with
      | nil => simp at h
      | cons c cur =>
          have hlen : prev.length = cur.length := by simpa using h
          have hrest := ih (pre ++ [c]) hlen
          rw [List.length_append, List.length_singleton] at hrest
          unfold diffFrom
          split
          · rename_i heq
            subst heq
            simpa using hrest
          · simpa using hrest

/-- **Patching.**  The difference, written into the old list, makes the new one. -/
theorem patch_diff [DecidableEq α] {prev cur : List α} (h : prev.length = cur.length) :
    patch prev (diff prev cur) = cur := by
  simpa [diff] using patch_diffFrom [] h

theorem mem_diffFrom [DecidableEq α] {i : ℕ} {prev cur : List α} {e : ℕ × α}
    (h : e ∈ diffFrom i prev cur) : i ≤ e.1 ∧ cur[e.1 - i]? = some e.2 := by
  induction prev generalizing i cur with
  | nil => simp [diffFrom] at h
  | cons p prev ih =>
      cases cur with
      | nil => simp [diffFrom] at h
      | cons c cur =>
          have hrest : e ∈ diffFrom (i + 1) prev cur →
              i ≤ e.1 ∧ (c :: cur)[e.1 - i]? = some e.2 := by
            intro he
            obtain ⟨hle, hget⟩ := ih he
            refine ⟨by omega, ?_⟩
            rw [show e.1 - i = e.1 - (i + 1) + 1 by omega]
            exact hget
          unfold diffFrom at h
          split at h
          · exact hrest h
          · rcases List.mem_cons.1 h with rfl | h
            · simp
            · exact hrest h

theorem mem_diff [DecidableEq α] {prev cur : List α} {e : ℕ × α} (h : e ∈ diff prev cur) :
    cur[e.1]? = some e.2 := by
  simpa using (mem_diffFrom h).2

/-- Every changed place has an entry. -/
theorem diffFrom_complete [DecidableEq α] {i k : ℕ} {prev cur : List α} {p c : α}
    (hp : prev[k]? = some p) (hc : cur[k]? = some c) (hne : c ≠ p) :
    (i + k, c) ∈ diffFrom i prev cur := by
  induction prev generalizing i k cur with
  | nil => simp at hp
  | cons q prev ih =>
      cases cur with
      | nil => simp at hc
      | cons d cur =>
          cases k with
          | zero =>
              obtain rfl : q = p := by simpa using hp
              obtain rfl : d = c := by simpa using hc
              simp [diffFrom, hne]
          | succ k =>
              have hrest : (i + 1 + k, c) ∈ diffFrom (i + 1) prev cur :=
                ih (by simpa using hp) (by simpa using hc)
              rw [show i + (k + 1) = i + 1 + k by omega]
              unfold diffFrom
              split
              · exact hrest
              · exact List.mem_cons_of_mem _ hrest

theorem diff_complete [DecidableEq α] {k : ℕ} {prev cur : List α} {p c : α}
    (hp : prev[k]? = some p) (hc : cur[k]? = some c) (hne : c ≠ p) : (k, c) ∈ diff prev cur := by
  simpa [diff] using diffFrom_complete (i := 0) hp hc hne

/-- An entry is for a place where the lists differ. -/
theorem mem_diffFrom_ne [DecidableEq α] {i : ℕ} {prev cur : List α} {e : ℕ × α}
    (h : e ∈ diffFrom i prev cur) : i ≤ e.1 ∧ prev[e.1 - i]? ≠ some e.2 := by
  induction prev generalizing i cur with
  | nil => simp [diffFrom] at h
  | cons p prev ih =>
      cases cur with
      | nil => simp [diffFrom] at h
      | cons c cur =>
          have hrest : e ∈ diffFrom (i + 1) prev cur →
              i ≤ e.1 ∧ (p :: prev)[e.1 - i]? ≠ some e.2 := by
            intro he
            obtain ⟨hle, hne⟩ := ih he
            refine ⟨by omega, ?_⟩
            rw [show e.1 - i = e.1 - (i + 1) + 1 by omega]
            exact hne
          unfold diffFrom at h
          split at h
          · exact hrest h
          · rename_i hcp
            rcases List.mem_cons.1 h with rfl | h
            · simpa using fun heq : p = c => hcp heq.symm
            · exact hrest h

theorem mem_of_written {es : List (ℕ × α)} {k : ℕ} {v : α} (h : written es k = some v) :
    (k, v) ∈ es := by
  induction es with
  | nil => cases h
  | cons e es ih =>
      rw [written] at h
      rcases Option.or_eq_some_iff.1 h with hlater | ⟨-, he⟩
      · exact List.mem_cons_of_mem e (ih hlater)
      · split at he
        · rename_i hk
          subst hk
          cases he
          exact List.mem_cons_self
        · cases he

theorem written_ne_none {es : List (ℕ × α)} {e : ℕ × α} (h : e ∈ es) :
    written es e.1 ≠ none := by
  induction es with
  | nil => cases h
  | cons d es ih =>
      rw [written]
      rcases List.mem_cons.1 h with rfl | h
      · simp
      · simp [ih h]

/-- **A difference on another list.**  It writes the places that differ, and no others. -/
theorem patch_diff_get [DecidableEq α] {out prev cur : List α} {k : ℕ}
    (hlen : prev.length = cur.length) (hk : k < out.length) (hcur : k < cur.length) :
    (patch out (diff prev cur))[k]? = if prev[k]? ≠ cur[k]? then cur[k]? else out[k]? := by
  have hp := List.getElem?_eq_getElem (hlen ▸ hcur : k < prev.length)
  have hc := List.getElem?_eq_getElem hcur
  rw [patch_get hk]
  cases hw : written (diff prev cur) k with
  | some v =>
      have hmem := mem_of_written hw
      have hnew : cur[k]? = some v := mem_diff hmem
      have hold : prev[k]? ≠ some v := (mem_diffFrom_ne (i := 0) hmem).2
      rw [hnew, if_pos hold, Option.some_or]
  | none =>
      have hsame : prev[k]? = cur[k]? := by
        by_contra hne
        rw [hp, hc] at hne
        refine written_ne_none (diff_complete hp hc fun heq => hne ?_) hw
        rw [heq]
      rw [if_neg (not_not.2 hsame), Option.none_or]

/-! ### Slices -/

/-- Where part `k` of a list of lists begins in its `flatten`. -/
def start (ls : List (List α)) (k : ℕ) : ℕ := ((ls.take k).map List.length).sum

theorem start_succ {ls : List (List α)} {k : ℕ} {l : List α} (h : ls[k]? = some l) :
    start ls (k + 1) = start ls k + l.length := by
  rw [start, start, List.take_add_one, h]
  simp

/-- **Slicing.**  Element `j` of part `k` is element `start k + j` of the whole. -/
theorem flatten_start {ls : List (List α)} {k : ℕ} {l : List α} (h : ls[k]? = some l) {j : ℕ}
    (hj : j < l.length) : ls.flatten[start ls k + j]? = l[j]? := by
  induction ls generalizing k with
  | nil => simp at h
  | cons m ms ih =>
      cases k with
      | zero =>
          obtain rfl : m = l := by simpa using h
          simp [start, List.getElem?_append_left hj]
      | succ k =>
          have hk := ih (k := k) (by simpa using h)
          have hs : start (m :: ms) (k + 1) = m.length + start ms k := by simp [start]
          rw [hs, List.flatten_cons, List.getElem?_append_right (by omega),
            show m.length + start ms k + j - m.length = start ms k + j by omega]
          exact hk

/-- **Parts of one length** are cut out by it. -/
theorem slice_flatten {b k : ℕ} {ls : List (List α)} (hlen : ∀ l ∈ ls, l.length = b)
    (hk : k < ls.length) : (ls.flatten.drop (k * b)).take b = ls[k] := by
  induction ls generalizing k with
  | nil => cases hk
  | cons l ls ih =>
      have hl : l.length = b := hlen l List.mem_cons_self
      cases k with
      | zero =>
          rw [Nat.zero_mul, List.drop_zero, List.flatten_cons, List.take_left' hl]
          rfl
      | succ k =>
          have hrest := ih (fun l' h => hlen l' (List.mem_cons_of_mem l h))
            (Nat.lt_of_succ_lt_succ hk)
          rw [List.getElem_cons_succ, ← hrest, List.flatten_cons, Nat.succ_mul, Nat.add_comm,
            ← List.drop_drop, List.drop_left' hl]

end Packing
