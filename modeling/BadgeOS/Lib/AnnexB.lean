import Mathlib

/-!
# The byte stream of H.264

NAL units one behind the other, each behind a start code.

* `stretches`, `nalUnits` — what lies between the start codes, and the NAL units among it;
* `unescape` — the payload without emulation prevention;
* `Plain` — bytes without a start code, and without a zero at the end;
* `nalUnits_stream` — a stream of plain units is taken apart as it was put together.
-/

namespace AnnexB

/-- What lies between the start codes; the first lies before all of them. -/
def stretches : List UInt8 → List (List UInt8)
  | 0 :: 0 :: 1 :: rest => [] :: stretches rest
  | b :: rest => (stretches rest).modifyHead (b :: ·)
  | [] => [[]]

/-- The zeros at the end of a unit do not belong to it. -/
def unit (bs : List UInt8) : List UInt8 := bs.rdropWhile (· == 0)

def nalUnits (bs : List UInt8) : List (List UInt8) := (stretches bs).tail.map unit

/-- The units, each behind a start code of four bytes. -/
def stream (us : List (List UInt8)) : List UInt8 := us.flatMap fun u => [0, 0, 0, 1] ++ u

/-- The payload of a unit, without the byte 3 behind two zeros. -/
def unescape : List UInt8 → List UInt8
  | 0 :: 0 :: 3 :: rest => 0 :: 0 :: unescape rest
  | b :: rest => b :: unescape rest
  | [] => []

structure Plain (u : List UInt8) : Prop where
  noStart : ¬ [0, 0, 1] <:+: u
  noZero : u.getLast? ≠ some 0

variable {b : UInt8} {u rest : List UInt8}

theorem stretches_cons (h : ∀ r, b = 0 → rest = 0 :: 1 :: r → False) :
    stretches (b :: rest) = (stretches rest).modifyHead (b :: ·) := by
  rw [stretches]
  exact h

theorem Plain.nil : Plain [] := ⟨by simp, by simp⟩

theorem Plain.tail (h : Plain (b :: u)) : Plain u := by
  refine ⟨fun hin => h.noStart (hin.trans (List.suffix_cons b u).isInfix), ?_⟩
  cases u with
  | nil => simp
  | cons c u => rw [← List.getLast?_cons_cons]; exact h.noZero

/-- No start code begins in front of the zeros of the next. -/
theorem Plain.no_start (h : Plain (b :: u)) (r : List UInt8) (hb : b = 0)
    (hr : u ++ 0 :: 0 :: rest = 0 :: 1 :: r) : False := by
  subst hb
  match u, hr with
  | [], hr => exact h.noZero rfl
  | [c], hr => simp at hr
  | c :: d :: u, hr =>
      simp only [List.cons_append, List.cons.injEq] at hr
      obtain ⟨rfl, rfl, -⟩ := hr
      exact h.noStart ⟨[], u, rfl⟩

/-- **A plain unit** up to the next start code. -/
theorem stretches_append (h : Plain u) :
    stretches (u ++ 0 :: 0 :: 0 :: 1 :: rest) = (u ++ [0]) :: stretches rest := by
  induction u with
  | nil =>
      show stretches (0 :: 0 :: 0 :: 1 :: rest) = _
      rw [stretches_cons (by simp), stretches]
      rfl
  | cons b u ih =>
      rw [List.cons_append, stretches_cons (h.no_start ·), ih h.tail]
      rfl

theorem stretches_plain (h : Plain u) : stretches u = [u] := by
  induction u with
  | nil => rfl
  | cons b u ih =>
      rw [stretches_cons ?_, ih h.tail]
      · rfl
      · rintro r rfl rfl
        exact h.noStart ⟨[], r, rfl⟩

theorem Plain.unit (h : Plain u) : unit u = u := by
  rw [AnnexB.unit, List.rdropWhile_eq_self_iff]
  intro hne hzero
  refine h.noZero ?_
  rw [List.getLast?_eq_some_getLast hne, beq_iff_eq.mp hzero]

theorem Plain.unit_zero (h : Plain u) : AnnexB.unit (u ++ [0]) = u := by
  rw [AnnexB.unit, List.rdropWhile_concat_pos _ _ _ rfl]
  exact h.unit

theorem units_append {us : List (List UInt8)} (hu : Plain u) (h : ∀ v ∈ us, Plain v) :
    (stretches (u ++ stream us)).map unit = u :: us := by
  induction us generalizing u with
  | nil =>
      show (stretches (u ++ [])).map unit = _
      rw [List.append_nil, stretches_plain hu, List.map_singleton, hu.unit]
  | cons v us ih =>
      have hstream : stream (v :: us) = 0 :: 0 :: 0 :: 1 :: (v ++ stream us) := rfl
      rw [hstream, stretches_append hu, List.map_cons, hu.unit_zero,
        ih (h v List.mem_cons_self) fun w hw => h w (List.mem_cons_of_mem v hw)]

/-- **The stream is taken apart** as it was put together. -/
theorem nalUnits_stream {us : List (List UInt8)} (h : ∀ u ∈ us, Plain u) :
    nalUnits (stream us) = us := by
  have hunits := units_append .nil h
  rw [nalUnits, List.map_tail, ← List.nil_append (stream us), hunits, List.tail_cons]

end AnnexB
