import BadgeOS.Lib.Memory
import Mathlib

/-!
# Painting memory

A program that writes to each address only what one picture has there.  Then the order of its
writes does not matter, and what it leaves is told by the addresses it has painted.

* `Mem.fill` — a block with some addresses painted;
* `Paints` — a program that paints certain addresses, with a rule for each way to compose;
* `Paints.unique` — two programs that paint the same addresses leave the same block;
* `loop_reaches` — a loop of which one step leaves a mark that none wipes out.
-/

namespace Memory

variable {V : ℕ → UInt8} {ok : ℕ → Bool} {ι : Type*} {r r' : Mem → Option Mem} {C C' : Set ℕ}

open Classical in
/-- The addresses `C`, with the bytes `V`. -/
noncomputable def Mem.fill (m : Mem) (C : Set ℕ) (V : ℕ → UInt8) : Mem :=
  { m with byte := fun x => if x ∈ C then some (V x) else m.byte x }

theorem Mem.fill_of_mem {m : Mem} {x : ℕ} (h : x ∈ C) : (m.fill C V).byte x = some (V x) :=
  if_pos h

theorem Mem.fill_of_not_mem {m : Mem} {x : ℕ} (h : x ∉ C) : (m.fill C V).byte x = m.byte x :=
  if_neg h

theorem Mem.fill_fill (m : Mem) (C C' : Set ℕ) : (m.fill C V).fill C' V = m.fill (C ∪ C') V := by
  have hbyte : ((m.fill C V).fill C' V).byte = (m.fill (C ∪ C') V).byte := by
    funext x
    by_cases h' : x ∈ C'
    · rw [fill_of_mem h', fill_of_mem (Set.mem_union_right C h')]
    · rw [fill_of_not_mem h']
      by_cases h : x ∈ C
      · rw [fill_of_mem h, fill_of_mem (Set.mem_union_left C' h)]
      · rw [fill_of_not_mem h, fill_of_not_mem fun hmem => hmem.elim h h']
  exact congrArg (Mem.mk m.valid) hbyte

theorem Mem.fill_empty (m : Mem) : m.fill ∅ V = m := by
  have hbyte : (m.fill ∅ V).byte = m.byte := by
    funext x
    exact fill_of_not_mem (Set.notMem_empty x)
  exact congrArg (Mem.mk m.valid) hbyte

/-- On a block where `ok` may be used, `r` paints `C` with what `V` has there. -/
def Paints (V : ℕ → UInt8) (ok : ℕ → Bool) (r : Mem → Option Mem) (C : Set ℕ) : Prop :=
  ∀ m, m.valid = ok → r m = some (m.fill C V)

theorem Paints.skip : Paints V ok some ∅ := fun m _ => congrArg some m.fill_empty.symm

theorem Paints.seq (h : Paints V ok r C) (h' : Paints V ok r' C') :
    Paints V ok (fun m => (r m).bind r') (C ∪ C') := by
  intro m hm
  show (r m).bind r' = _
  rw [h m hm, Option.bind_some, h' (m.fill C V) hm, Mem.fill_fill]

theorem loop_congr {step step' : Mem → ι → Option Mem} {l : List ι} {m : Mem}
    (h : ∀ i ∈ l, ∀ s, step s i = step' s i) : l.foldlM step m = l.foldlM step' m := by
  induction l generalizing m with
  | nil => rfl
  | cons i l ih =>
      rw [List.foldlM_cons, List.foldlM_cons, h i (by simp)]
      exact congrArg _ (funext fun s => ih fun j hj => h j (by simp [hj]))

theorem Paints.loop {step : Mem → ι → Option Mem} {D : ι → Set ℕ} {l : List ι}
    (h : ∀ i ∈ l, Paints V ok (fun m => step m i) (D i)) :
    Paints V ok (fun m => l.foldlM step m) {x | ∃ i ∈ l, x ∈ D i} := by
  induction l with
  | nil =>
      have hnone : {x : ℕ | ∃ i ∈ ([] : List ι), x ∈ D i} = ∅ := by
        ext x
        simp
      rw [hnone]
      exact Paints.skip
  | cons i l ih =>
      have hsplit : {x | ∃ j ∈ i :: l, x ∈ D j} = D i ∪ {x | ∃ j ∈ l, x ∈ D j} := by
        ext x
        simp
      rw [hsplit]
      exact (h i (by simp)).seq (ih fun j hj => h j (by simp [hj]))

/-- One write. -/
theorem Paints.store {a : ℕ} {bs : List UInt8} (hvalid : ∀ i < bs.length, ok (a + i) = true)
    (hbytes : ∀ i < bs.length, bs[i]? = some (V (a + i))) :
    Paints V ok (fun m => m.stores a bs) {x | a ≤ x ∧ x < a + bs.length} := by
  intro m hm
  show m.stores a bs = _
  rw [Mem.stores_eq (by rw [hm]; exact hvalid)]
  have hbyte : (m.put a bs).byte = (m.fill {x | a ≤ x ∧ x < a + bs.length} V).byte := by
    funext x
    rw [Mem.byte_put]
    by_cases hx : a ≤ x ∧ x < a + bs.length
    · have hread := hbytes (x - a) (by omega)
      rw [show a + (x - a) = x by omega] at hread
      rw [if_pos hx, Mem.fill_of_mem hx, hread]
    · rw [if_neg hx, Mem.fill_of_not_mem hx]
  exact congrArg (fun byte => some (Mem.mk m.valid byte)) hbyte

theorem Paints.of_eq (h : Paints V ok r C) (hC : ∀ x, x ∈ C ↔ x ∈ C') : Paints V ok r C' := by
  rwa [Set.ext hC] at h

theorem Paints.unique (h : Paints V ok r C) (h' : Paints V ok r' C) {m : Mem}
    (hm : m.valid = ok) : r m = r' m := (h m hm).trans (h' m hm).symm

/-! ### Rows of equal pieces -/

/-- The bytes of `n` pieces of `b` bytes. -/
theorem getElem?_pieces {α : Type*} {f : ℕ → List α} {b : ℕ} (hf : ∀ i, (f i).length = b) (n : ℕ)
    {t : ℕ} (ht : t < n * b) :
    ((List.range n).flatMap f)[t]? = (f (t / b))[t % b]? := by
  induction n with
  | zero => omega
  | succ n ih =>
      have hlen : ((List.range n).flatMap f).length = n * b := by
        rw [List.length_flatMap]
        simp [hf]
      rw [List.range_succ, List.flatMap_append, List.flatMap_singleton]
      rw [Nat.succ_mul] at ht
      by_cases hlow : t < n * b
      · rw [List.getElem?_append_left (by omega), ih hlow]
      · have hpos : 0 < b := by omega
        have hdiv : t / b = n := by
          rw [Nat.div_eq_iff hpos]
          constructor
          · omega
          · omega
        have hmod : t % b = t - n * b := by
          have hsplit := Nat.div_add_mod t b
          rw [hdiv, Nat.mul_comm] at hsplit
          omega
        rw [List.getElem?_append_right (by omega), hlen, hdiv, hmod]

theorem length_pieces {α : Type*} {f : ℕ → List α} {b : ℕ} (hf : ∀ i, (f i).length = b) (n : ℕ) :
    ((List.range n).flatMap f).length = n * b := by
  rw [List.length_flatMap]
  simp [hf]

/-! ### A mark that stays -/

section Marks

variable {P : Mem → Prop} {step : Mem → ι → Option Mem} {l : List ι} {m m' : Mem}

theorem loop_keeps (hkeep : ∀ i ∈ l, ∀ s t, step s i = some t → P s → P t)
    (h : l.foldlM step m = some m') (hm : P m) : P m' := by
  induction l generalizing m with
  | nil =>
      cases h
      exact hm
  | cons i l ih =>
      rw [List.foldlM_cons] at h
      obtain ⟨s, hs, hrest⟩ := Option.bind_eq_some_iff.mp h
      exact ih (fun j hj => hkeep j (by simp [hj])) hrest (hkeep i (by simp) m s hs hm)

/-- A step that leaves the mark, in a loop that keeps it. -/
theorem loop_reaches {i : ι} (hi : i ∈ l) (hmark : ∀ s t, step s i = some t → P t)
    (hkeep : ∀ i ∈ l, ∀ s t, step s i = some t → P s → P t)
    (h : l.foldlM step m = some m') : P m' := by
  induction l generalizing m with
  | nil => simp at hi
  | cons j l ih =>
      rw [List.foldlM_cons] at h
      obtain ⟨s, hs, hrest⟩ := Option.bind_eq_some_iff.mp h
      rcases List.mem_cons.mp hi with rfl | hi
      · exact loop_keeps (fun k hk => hkeep k (by simp [hk])) hrest (hmark m s hs)
      · exact ih hi (fun k hk => hkeep k (by simp [hk])) hrest

end Marks

end Memory
