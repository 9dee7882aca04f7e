import Mathlib

/-!
# Bit strings, the highest bit first

A record of unaligned fields is a string of bits, and the bytes of a file are one too.

* `toBits n v`, `ofBits` — a number below `2 ^ n` and its `n` bits, each from the other;
* `group w k` — `k` numbers of `w` bits each, read off a bit string;
* `bits`, `toBytes` — the bits of a list of bytes, and back;
* `foldl_range_bits` — a number that is summed up bit by bit.
-/

namespace BitField

variable {n w k v : ℕ} {b : Bool} {bs cs : List Bool} {vs : List ℕ}

/-! ### One number -/

/-- The lowest `n` bits of `v`. -/
def toBits : ℕ → ℕ → List Bool
  | 0, _ => []
  | n + 1, v => v.testBit n :: toBits n v

/-- The number of a bit string. -/
def ofBits (bs : List Bool) : ℕ := bs.foldl (fun v b => 2 * v + b.toNat) 0

@[simp] theorem length_toBits (n v : ℕ) : (toBits n v).length = n := by
  induction n with
  | zero => rfl
  | succ n ih => simp [toBits, ih]

theorem foldl_bits (v : ℕ) (bs : List Bool) :
    bs.foldl (fun v b => 2 * v + b.toNat) v = v * 2 ^ bs.length + ofBits bs := by
  induction bs generalizing v with
  | nil => simp [ofBits]
  | cons b bs ih =>
      have hone := ih (2 * v + b.toNat)
      have hzero : ofBits (b :: bs) = (2 * 0 + b.toNat) * 2 ^ bs.length + ofBits bs :=
        ih (2 * 0 + b.toNat)
      rw [List.foldl_cons, hone, hzero, List.length_cons]
      ring

@[simp] theorem ofBits_nil : ofBits [] = 0 := rfl

theorem ofBits_cons (b : Bool) (bs : List Bool) :
    ofBits (b :: bs) = b.toNat * 2 ^ bs.length + ofBits bs := by
  have h := foldl_bits (2 * 0 + b.toNat) bs
  rw [Nat.mul_zero, Nat.zero_add] at h
  rw [ofBits, List.foldl_cons, Nat.mul_zero, Nat.zero_add]
  exact h

theorem ofBits_lt (bs : List Bool) : ofBits bs < 2 ^ bs.length := by
  induction bs with
  | nil => simp
  | cons b bs ih =>
      rw [ofBits_cons, List.length_cons, Nat.pow_succ]
      have hb : b.toNat ≤ 1 := Bool.toNat_le b
      have hmul : b.toNat * 2 ^ bs.length ≤ 1 * 2 ^ bs.length := Nat.mul_le_mul_right _ hb
      omega

/-- **Reading a number's bits.** -/
theorem ofBits_toBits (n v : ℕ) : ofBits (toBits n v) = v % 2 ^ n := by
  induction n with
  | zero => simp [toBits, Nat.mod_one]
  | succ n ih =>
      rw [toBits, ofBits_cons, length_toBits, ih, Nat.mod_pow_succ, Nat.toNat_testBit]
      ring

theorem ofBits_toBits_of_lt (h : v < 2 ^ n) : ofBits (toBits n v) = v := by
  rw [ofBits_toBits, Nat.mod_eq_of_lt h]

theorem ofBits_inj (hlen : bs.length = cs.length) (h : ofBits bs = ofBits cs) : bs = cs := by
  induction bs generalizing cs with
  | nil => exact (List.length_eq_zero_iff.1 hlen.symm).symm
  | cons b bs ih =>
      cases cs with
      | nil => simp at hlen
      | cons c cs =>
          have hlen' : bs.length = cs.length := by simpa using hlen
          have hbs := ofBits_lt bs
          have hcs := ofBits_lt cs
          rw [ofBits_cons, ofBits_cons, hlen'] at h
          rw [hlen'] at hbs
          have hbit : b = c := by
            cases b <;> cases c <;> simp at h ⊢ <;> omega
          subst hbit
          rw [ih hlen' (Nat.add_left_cancel h)]

/-- **Writing a bit string's number.** -/
theorem toBits_ofBits (bs : List Bool) : toBits bs.length (ofBits bs) = bs := by
  refine ofBits_inj (length_toBits _ _) ?_
  rw [ofBits_toBits, Nat.mod_eq_of_lt (ofBits_lt bs)]

theorem toBits_take (h : k ≤ bs.length) :
    toBits k (ofBits (bs.take k)) = bs.take k := by
  have hlen : (bs.take k).length = k := List.length_take_of_le h
  have hback := toBits_ofBits (bs.take k)
  rwa [hlen] at hback

/-- What stands behind `k` bits. -/
theorem drop_behind (h : bs.length = k) (m : ℕ) (cs : List Bool) :
    (bs ++ cs).drop (k + m) = cs.drop m := by
  rw [← List.drop_drop, List.drop_left' h]

/-! ### Groups of one width -/

/-- The first `k` numbers of `w` bits. -/
def group (w : ℕ) : ℕ → List Bool → List ℕ
  | 0, _ => []
  | k + 1, bs => ofBits (bs.take w) :: group w k (bs.drop w)

@[simp] theorem length_group (w k : ℕ) (bs : List Bool) : (group w k bs).length = k := by
  induction k generalizing bs with
  | zero => rfl
  | succ k ih => simp [group, ih]

theorem group_lt (w k : ℕ) (bs : List Bool) : ∀ v ∈ group w k bs, v < 2 ^ w := by
  induction k generalizing bs with
  | zero => simp [group]
  | succ k ih =>
      intro v hv
      rcases List.mem_cons.1 hv with rfl | hv
      · refine (ofBits_lt _).trans_le (Nat.pow_le_pow_right (by omega) ?_)
        simp
      · exact ih _ v hv

/-- A group reads no further than its bits. -/
theorem group_append (h : bs.length = k * w) (cs : List Bool) :
    group w k (bs ++ cs) = group w k bs := by
  induction k generalizing bs with
  | zero => rfl
  | succ k ih =>
      rw [Nat.succ_mul] at h
      have hw : w ≤ bs.length := by omega
      have hrest : (bs.drop w).length = k * w := by simp; omega
      rw [group, group, List.take_append_of_le_length hw, List.drop_append_of_le_length hw,
        ih hrest]

/-- **Reading a group** of numbers that fit. -/
theorem group_flatMap (h : ∀ v ∈ vs, v < 2 ^ w) :
    group w vs.length (vs.flatMap (toBits w)) = vs := by
  induction vs with
  | nil => rfl
  | cons v vs ih =>
      have hv : v < 2 ^ w := h v (by simp)
      have hrest : ∀ v ∈ vs, v < 2 ^ w := fun v hv => h v (by simp [hv])
      rw [List.flatMap_cons, List.length_cons, group, List.take_left' (length_toBits w v),
        List.drop_left' (length_toBits w v), ofBits_toBits_of_lt hv, ih hrest]

/-- **Writing a group** that was read. -/
theorem flatMap_group (h : bs.length = k * w) : (group w k bs).flatMap (toBits w) = bs := by
  induction k generalizing bs with
  | zero =>
      obtain rfl : bs = [] := List.length_eq_zero_iff.1 (by simpa using h)
      rfl
  | succ k ih =>
      rw [Nat.succ_mul] at h
      have hw : (bs.take w).length = w := by simp; omega
      have hrest : (bs.drop w).length = k * w := by simp; omega
      have hfirst : toBits w (ofBits (bs.take w)) = bs.take w := by
        have := toBits_ofBits (bs.take w)
        rwa [hw] at this
      rw [group, List.flatMap_cons, ih hrest, hfirst, List.take_append_drop]

/-- A group, written again: the bits it was read from. -/
theorem flatMap_group_append (h : k * w ≤ bs.length) :
    (group w k bs).flatMap (toBits w) = bs.take (k * w) := by
  have hlen : (bs.take (k * w)).length = k * w := List.length_take_of_le h
  have hsame := group_append hlen (bs.drop (k * w))
  rw [List.take_append_drop] at hsame
  rw [hsame, flatMap_group hlen]

theorem length_flatMap_toBits (w : ℕ) (vs : List ℕ) :
    (vs.flatMap (toBits w)).length = vs.length * w := by
  induction vs with
  | nil => simp
  | cons v vs ih =>
      rw [List.flatMap_cons, List.length_append, length_toBits, ih, List.length_cons]
      ring

/-! ### Bytes -/

/-- The bits of the bytes. -/
def bits (data : List UInt8) : List Bool := data.flatMap fun b => toBits 8 b.toNat

/-- The bytes of a bit string, of eight bits each. -/
def toBytes (bs : List Bool) : List UInt8 := (group 8 (bs.length / 8) bs).map UInt8.ofNat

theorem bits_eq_flatMap (data : List UInt8) :
    bits data = (data.map UInt8.toNat).flatMap (toBits 8) := by
  rw [bits, List.flatMap_map]

@[simp] theorem length_bits (data : List UInt8) : (bits data).length = data.length * 8 := by
  rw [bits_eq_flatMap, length_flatMap_toBits, List.length_map]

@[simp] theorem length_toBytes (bs : List Bool) : (toBytes bs).length = bs.length / 8 := by
  rw [toBytes, List.length_map, length_group]

theorem toBytes_bits (data : List UInt8) : toBytes (bits data) = data := by
  have hfit : ∀ v ∈ data.map UInt8.toNat, v < 2 ^ 8 := by
    intro v hv
    obtain ⟨b, -, rfl⟩ := List.mem_map.1 hv
    exact b.toNat_lt
  have hgroup := group_flatMap hfit
  rw [List.length_map] at hgroup
  rw [toBytes, length_bits, Nat.mul_div_cancel _ (by omega), bits_eq_flatMap, hgroup,
    List.map_map]
  exact List.map_id'' (fun b => UInt8.ofNat_toNat) data

theorem bits_toBytes (h : 8 ∣ bs.length) : bits (toBytes bs) = bs := by
  have hlen : bs.length = bs.length / 8 * 8 := (Nat.div_mul_cancel h).symm
  have hsame : ((group 8 (bs.length / 8) bs).map UInt8.ofNat).map UInt8.toNat =
      group 8 (bs.length / 8) bs := by
    rw [List.map_map]
    refine List.map_congr_left ?_ |>.trans (List.map_id _)
    intro v hv
    exact UInt8.toNat_ofNat_of_lt (group_lt 8 _ _ v hv)
  rw [toBytes, bits_eq_flatMap, hsame, flatMap_group hlen]

theorem toBits_get {i : ℕ} (h : i < n) (v : ℕ) : (toBits n v)[i]? = some (v.testBit (n - 1 - i)) := by
  induction n generalizing i with
  | zero => omega
  | succ n ih =>
      cases i with
      | zero => rfl
      | succ i =>
          rw [toBits, List.getElem?_cons_succ, ih (by omega)]
          congr 2
          omega

/-- A bit of the bytes, in its byte. -/
theorem bits_get {data : List UInt8} {pos : ℕ} (h : pos < data.length * 8) :
    ∃ b, data[pos / 8]? = some b ∧ (bits data)[pos]? = some (b.toNat.testBit (7 - pos % 8)) := by
  induction data generalizing pos with
  | nil => simp at h
  | cons c data ih =>
      have hcons : bits (c :: data) = toBits 8 c.toNat ++ bits data := rfl
      rw [hcons]
      by_cases hfirst : pos < 8
      · refine ⟨c, by simp [Nat.div_eq_of_lt hfirst], ?_⟩
        rw [List.getElem?_append_left (by simpa using hfirst), toBits_get hfirst,
          Nat.mod_eq_of_lt hfirst]
      · rw [List.length_cons] at h
        have hrest : pos - 8 < data.length * 8 := by omega
        obtain ⟨b, hb, hbit⟩ := ih hrest
        refine ⟨b, ?_, ?_⟩
        · rw [show pos / 8 = (pos - 8) / 8 + 1 by omega]
          exact hb
        · rw [List.getElem?_append_right (by simpa using Nat.le_of_not_lt hfirst), length_toBits,
            hbit, show (pos - 8) % 8 = pos % 8 by omega]

/-! ### Sums of bits -/

/-- A sum of bits has those. -/
theorem foldl_range_bits {f : ℕ → ℕ → ℕ} {P : ℕ → Prop}
    (hin : ∀ acc r, P r → f acc r = acc + 2 ^ r) (hout : ∀ acc r, ¬P r → f acc r = acc) (n : ℕ) :
    (List.range n).foldl f 0 < 2 ^ n ∧
      ∀ b, ((List.range n).foldl f 0).testBit b ↔ b < n ∧ P b := by
  induction n with
  | zero => exact ⟨Nat.one_pos, fun b => by simp⟩
  | succ n ih =>
      obtain ⟨hlt, hbits⟩ := ih
      rw [List.range_succ, List.foldl_concat]
      by_cases hP : P n
      · rw [hin _ n hP, Nat.add_comm]
        have hlt' : 2 ^ n + (List.range n).foldl f 0 < 2 ^ (n + 1) := by
          rw [Nat.pow_succ]
          omega
        refine ⟨hlt', fun b => ?_⟩
        rcases lt_trichotomy b n with hb | rfl | hb
        · rw [Nat.testBit_two_pow_add_gt hb, hbits b]
          exact and_congr_left fun _ => by omega
        · rw [Nat.testBit_two_pow_add_eq, Nat.testBit_lt_two_pow hlt]
          exact iff_of_true rfl ⟨Nat.lt_succ_self b, hP⟩
        · have hsmall := hlt'.trans_le (Nat.pow_le_pow_right (by decide) (Nat.succ_le_of_lt hb))
          rw [Nat.testBit_lt_two_pow hsmall]
          exact iff_of_false Bool.false_ne_true (by omega)
      · rw [hout _ n hP]
        refine ⟨hlt.trans (Nat.pow_lt_pow_right (by decide) (Nat.lt_succ_self n)), fun b => ?_⟩
        rw [hbits b]
        refine and_congr_left fun hb => ?_
        have hne : b ≠ n := fun h => hP (h ▸ hb)
        omega

end BitField
