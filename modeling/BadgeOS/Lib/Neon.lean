import Mathlib

/-!
# Advanced SIMD

Vectors of integer lanes and the operations on them, with the meaning the architecture gives
them.  A lane keeps, beside its value, whether something on the way to it was out of its range:
the architecture wraps, and the mark says that it did.

* `Lane`, `signed`, `unsigned` — a lane, and a result that is put into so many bits;
* `Lanes` — a vector of `n` lanes, and one definition for each operation on it, under the name
  of the intrinsic without its type;
* `signed_of_fits`, `unsigned_of_fits` — a result that needs no wrap has no mark;
* `Lanes.of` — a vector without a mark, and a lemma about it for each operation.
-/

namespace Neon

/-- A lane, or a machine integer: its value, and whether it or something that it was computed
from did not fit. -/
structure Lane where
  val : ℤ
  wrapped : Bool := false
  deriving DecidableEq, Repr

/-- `x` as a signed number of `w` bits; `wrapped` is the mark of what it was computed from. -/
def signed (w : ℕ) (x : ℤ) (wrapped : Bool) : Lane :=
  ⟨x.bmod (2 ^ w), wrapped || decide (x < -2 ^ (w - 1)) || decide (2 ^ (w - 1) ≤ x)⟩

/-- `x` as an unsigned number of `w` bits. -/
def unsigned (w : ℕ) (x : ℤ) (wrapped : Bool) : Lane :=
  ⟨x % 2 ^ w, wrapped || decide (x < 0) || decide (2 ^ w ≤ x)⟩

/-- `x`, saturated to an unsigned number of `w` bits. -/
def saturated (w : ℕ) (x : ℤ) : ℤ := max 0 (min x (2 ^ w - 1))

/-- `x` shifted right by `k`, rounded. -/
def rounded (k : ℕ) (x : ℤ) : ℤ := (x + 2 ^ (k - 1)) / 2 ^ k

def Lane.add (w : ℕ) (a b : Lane) : Lane := signed w (a.val + b.val) (a.wrapped || b.wrapped)

def Lane.sub (w : ℕ) (a b : Lane) : Lane := signed w (a.val - b.val) (a.wrapped || b.wrapped)

def Lane.mul (w : ℕ) (a b : Lane) : Lane := signed w (a.val * b.val) (a.wrapped || b.wrapped)

/-- A number that is stored as a byte; one that is marked has no meaning to store. -/
def Lane.toByte (a : Lane) : Option UInt8 :=
  if a.wrapped then none else some (UInt8.ofNat a.val.toNat)

/-- A byte that was read. -/
def ofByte (b : UInt8) : Lane := ⟨b.toNat, false⟩

/-- A vector register, as `n` lanes. -/
def Lanes (n : ℕ) := Fin n → Lane

namespace Lanes

variable {n : ℕ}

/-! ### Loads and moves -/

/-- `vld1`, of bytes that were read. -/
def vld1 (n : ℕ) (bs : List UInt8) : Lanes n := fun i => ofByte (bs.getD i 0)

/-- `vld2`: every second byte, from the first or from the second. -/
def vld2 (n : ℕ) (bs : List UInt8) (j : ℕ) : Lanes n := fun i => ofByte (bs.getD (2 * i + j) 0)

/-- `vdup_n`. -/
def vdup (n : ℕ) (x : ℤ) : Lanes n := fun _ => ⟨x, false⟩

/-- `vget_low`. -/
def vgetLow (n : ℕ) (v : Lanes (n + n)) : Lanes n := fun i => v ⟨i, by omega⟩

/-- `vget_high`. -/
def vgetHigh (n : ℕ) (v : Lanes (n + n)) : Lanes n := fun i => v ⟨n + i, by omega⟩

/-- `vcombine`. -/
def vcombine (lo hi : Lanes n) : Lanes (n + n) :=
  fun i => if h : i < n then lo ⟨i, h⟩ else hi ⟨i - n, by omega⟩

/-- `vext`: `n` lanes of `a` and then `b`, from lane `k` on. -/
def vext (a b : Lanes n) (k : Fin (n + 1)) : Lanes n :=
  fun i => if h : i.val + k.val < n then a ⟨i + k, h⟩ else b ⟨i + k - n, by omega⟩

/-- `vzip1`, of elements that are `g` lanes wide: those of the lower halves, alternating. -/
def vzip1 (g : ℕ) (a b : Lanes n) : Lanes n :=
  fun i =>
    let k := i / g / 2 * g + i % g
    have hk : k < n := by
      have hle : i / g / 2 * g ≤ i / g * g := Nat.mul_le_mul_right g (Nat.div_le_self _ _)
      have hdiv := Nat.div_add_mod i.val g
      rw [Nat.mul_comm] at hdiv
      omega
    if i / g % 2 = 0 then a ⟨k, hk⟩ else b ⟨k, hk⟩

/-- `vzip2`: the elements of the upper halves. -/
def vzip2 (a b : Lanes (n + n)) : Lanes (n + n) :=
  fun i => if i.val % 2 = 0 then a ⟨n + i / 2, by omega⟩ else b ⟨n + i / 2, by omega⟩

/-! ### Arithmetic -/

/-- The lanes, one by one. -/
def map (f : Lane → Lane) (v : Lanes n) : Lanes n := fun i => f (v i)

def map₂ (f : Lane → Lane → Lane) (a b : Lanes n) : Lanes n := fun i => f (a i) (b i)

/-- `vadd`, of signed lanes of `w` bits. -/
def vadd (w : ℕ) (a b : Lanes n) : Lanes n := map₂ (Lane.add w) a b

/-- `vmul_n`. -/
def vmulN (w : ℕ) (v : Lanes n) (k : ℤ) : Lanes n := v.map fun a => a.mul w ⟨k, false⟩

/-- `vmla_n`. -/
def vmlaN (w : ℕ) (v a : Lanes n) (k : ℤ) : Lanes n :=
  map₂ (fun x y => signed w (x.val + y.val * k) (x.wrapped || y.wrapped)) v a

/-- `vmls_n`. -/
def vmlsN (w : ℕ) (v a : Lanes n) (k : ℤ) : Lanes n :=
  map₂ (fun x y => signed w (x.val - y.val * k) (x.wrapped || y.wrapped)) v a

/-- `vsubl_u8` and `vreinterpret_s16_u16`: the difference of two bytes, as a signed number. -/
def vsubl (a b : Lanes n) : Lanes n :=
  map₂ (fun x y => ⟨((x.val - y.val) % 2 ^ 16).bmod (2 ^ 16), x.wrapped || y.wrapped⟩) a b

/-- `vmovl`, and the reinterpretation of the wider lanes as signed ones. -/
def vmovl (v : Lanes n) : Lanes n := v

/-- `vmull_u8`. -/
def vmull (a b : Lanes n) : Lanes n :=
  map₂ (fun x y => unsigned 16 (x.val * y.val) (x.wrapped || y.wrapped)) a b

/-- `vmlal_u8`. -/
def vmlal (v a b : Lanes n) : Lanes n := fun i =>
  unsigned 16 ((v i).val + (a i).val * (b i).val)
    ((v i).wrapped || (a i).wrapped || (b i).wrapped)

/-- `vreinterpret_s16_u16`: the mark is set where the number changes. -/
def asSigned16 (v : Lanes n) : Lanes n := v.map fun a => signed 16 a.val a.wrapped

/-- `vrhadd_u8`. -/
def vrhadd (a b : Lanes n) : Lanes n :=
  map₂ (fun x y => ⟨rounded 1 (x.val + y.val), x.wrapped || y.wrapped⟩) a b

/-- `vmlal_n_s16`. -/
def vmlalN (v a : Lanes n) (k : ℤ) : Lanes n := vmlaN 32 v a k

/-- `vmlsl_n_s16`. -/
def vmlslN (v a : Lanes n) (k : ℤ) : Lanes n := vmlsN 32 v a k

/-- The vector, when no lane is marked. -/
def exact (v : Lanes n) : Option (Lanes n) :=
  if ∀ i, (v i).wrapped = false then some v else none

/-! ### Narrowing and stores -/

/-- `vqrshrun_n`, to `w` bits. -/
def vqrshrun (w : ℕ) (v : Lanes n) (k : ℕ) : Lanes n :=
  v.map fun a => ⟨saturated w (rounded k a.val), a.wrapped⟩

/-- `vqmovn` of unsigned lanes and `vqmovun` of signed ones, to `w` bits. -/
def vqmovn (w : ℕ) (v : Lanes n) : Lanes n := v.map fun a => ⟨saturated w a.val, a.wrapped⟩

/-- `vrshr_n`, of signed lanes of 16 bits. -/
def vrshr (v : Lanes n) (k : ℕ) : Lanes n := v.map fun a => signed 16 (rounded k a.val) a.wrapped

/-- `vrshrn_n_u16`. -/
def vrshrn (v : Lanes n) (k : ℕ) : Lanes n := v.map fun a => unsigned 8 (rounded k a.val) a.wrapped

/-- `vst3q_u8`: three vectors, interleaved. -/
def vst3 (a b c : Lanes n) : Option (List UInt8) :=
  ((List.finRange n).mapM fun i => [a i, b i, c i].mapM Lane.toByte).map List.flatten

/-- `vst4q_u8`: four vectors, interleaved. -/
def vst4 (a b c d : Lanes n) : Option (List UInt8) :=
  ((List.finRange n).mapM fun i => [a i, b i, c i, d i].mapM Lane.toByte).map List.flatten

end Lanes

/-! ### Lanes that fit -/

theorem signed_of_fits {w : ℕ} {x : ℤ} (hw : 0 < w) (hlow : -2 ^ (w - 1) ≤ x)
    (hhigh : x < 2 ^ (w - 1)) : signed w x false = ⟨x, false⟩ := by
  have hpow : (2 : ℤ) ^ w = 2 * 2 ^ (w - 1) := by
    rw [← pow_succ', Nat.sub_add_cancel hw]
  have hmod : x.bmod (2 ^ w) = x := by
    rw [Int.bmod_eq_of_le]
    · push_cast
      omega
    · push_cast
      omega
  unfold signed
  rw [hmod, decide_eq_false (not_lt.2 hlow), decide_eq_false (not_le.2 hhigh)]
  rfl

theorem unsigned_of_fits {w : ℕ} {x : ℤ} (hlow : 0 ≤ x) (hhigh : x < 2 ^ w) :
    unsigned w x false = ⟨x, false⟩ := by
  unfold unsigned
  rw [Int.emod_eq_of_lt hlow hhigh, decide_eq_false (not_lt.2 hlow),
    decide_eq_false (not_le.2 hhigh)]
  rfl

/-! ### Vectors without a mark -/

namespace Lanes

variable {n : ℕ} {f g h : ℕ → ℤ}

/-- Lanes that have the values of `f`, and no mark. -/
def of (n : ℕ) (f : ℕ → ℤ) : Lanes n := fun i => ⟨f i, false⟩

theorem of_congr (hfg : ∀ i < n, f i = g i) : of n f = of n g := by
  funext i
  rw [of, of, hfg i i.isLt]

theorem exact_of (n : ℕ) (f : ℕ → ℤ) : (of n f).exact = some (of n f) := if_pos fun _ => rfl

theorem vld1_eq (n : ℕ) (bs : List UInt8) : vld1 n bs = of n fun i => (bs.getD i 0).toNat := rfl

theorem vdup_eq (n : ℕ) (x : ℤ) : vdup n x = of n fun _ => x := rfl

theorem vgetLow_of (n : ℕ) (f : ℕ → ℤ) : vgetLow n (of (n + n) f) = of n f := rfl

theorem vgetHigh_of (n : ℕ) (f : ℕ → ℤ) :
    vgetHigh n (of (n + n) f) = of n fun i => f (n + i) := rfl

theorem vcombine_of (f g : ℕ → ℤ) :
    (of n f).vcombine (of n g) = of (n + n) fun i => if i < n then f i else g (i - n) := by
  funext i
  unfold vcombine of
  dsimp only
  by_cases h : i.val < n
  · rw [dif_pos h, if_pos h]
  · rw [dif_neg h, if_neg h]

theorem vext_of (f g : ℕ → ℤ) (k : Fin (n + 1)) :
    (of n f).vext (of n g) k =
      of n fun i => if i + k < n then f (i + k) else g (i + k - n) := by
  funext i
  unfold vext of
  dsimp only
  by_cases h : i.val + k.val < n
  · rw [dif_pos h, if_pos h]
  · rw [dif_neg h, if_neg h]

theorem vzip1_of (k : ℕ) (f g : ℕ → ℤ) :
    (of n f).vzip1 k (of n g) = of n fun i =>
      if i / k % 2 = 0 then f (i / k / 2 * k + i % k) else g (i / k / 2 * k + i % k) := by
  funext i
  unfold vzip1 of
  dsimp only
  split <;> rfl

theorem vzip2_of (f g : ℕ → ℤ) :
    (of (n + n) f).vzip2 (of (n + n) g) = of (n + n) fun i =>
      if i % 2 = 0 then f (n + i / 2) else g (n + i / 2) := by
  funext i
  simp only [vzip2, of]
  split <;> rfl

theorem vld2_eq (n : ℕ) (bs : List UInt8) (j : ℕ) :
    vld2 n bs j = of n fun i => (bs.getD (2 * i + j) 0).toNat := rfl

theorem vmovl_of (f : ℕ → ℤ) : (of n f).vmovl = of n f := rfl

/-- The difference of two bytes is exact. -/
theorem vsubl_of (hfit : ∀ i < n, -2 ^ 15 ≤ f i - g i ∧ f i - g i < 2 ^ 15) :
    (of n f).vsubl (of n g) = of n fun i => f i - g i := by
  funext i
  have hfit := hfit i i.isLt
  have hmod : ((f i - g i) % (2 ^ 16 : ℕ)).bmod (2 ^ 16) = f i - g i := by
    rw [Int.emod_bmod, Int.bmod_eq_of_le]
    · push_cast
      omega
    · push_cast
      omega
  exact congrArg (fun x => (⟨x, false⟩ : Lane)) hmod

theorem vmulN_of {w : ℕ} {k : ℤ} (hw : 0 < w)
    (hfit : ∀ i < n, -2 ^ (w - 1) ≤ f i * k ∧ f i * k < 2 ^ (w - 1)) :
    (of n f).vmulN w k = of n fun i => f i * k := by
  funext i
  exact signed_of_fits hw (hfit i i.isLt).1 (hfit i i.isLt).2

theorem vadd_of {w : ℕ} (hw : 0 < w)
    (hfit : ∀ i < n, -2 ^ (w - 1) ≤ f i + g i ∧ f i + g i < 2 ^ (w - 1)) :
    (of n f).vadd w (of n g) = of n fun i => f i + g i := by
  funext i
  exact signed_of_fits hw (hfit i i.isLt).1 (hfit i i.isLt).2

theorem vmlaN_of {w : ℕ} {k : ℤ} (hw : 0 < w)
    (hfit : ∀ i < n, -2 ^ (w - 1) ≤ f i + g i * k ∧ f i + g i * k < 2 ^ (w - 1)) :
    (of n f).vmlaN w (of n g) k = of n fun i => f i + g i * k := by
  funext i
  exact signed_of_fits hw (hfit i i.isLt).1 (hfit i i.isLt).2

theorem vmlsN_of {w : ℕ} {k : ℤ} (hw : 0 < w)
    (hfit : ∀ i < n, -2 ^ (w - 1) ≤ f i - g i * k ∧ f i - g i * k < 2 ^ (w - 1)) :
    (of n f).vmlsN w (of n g) k = of n fun i => f i - g i * k := by
  funext i
  exact signed_of_fits hw (hfit i i.isLt).1 (hfit i i.isLt).2

theorem vmull_of (hfit : ∀ i < n, 0 ≤ f i * g i ∧ f i * g i < 2 ^ 16) :
    (of n f).vmull (of n g) = of n fun i => f i * g i := by
  funext i
  exact unsigned_of_fits (hfit i i.isLt).1 (hfit i i.isLt).2

theorem vmlal_of (hfit : ∀ i < n, 0 ≤ f i + g i * h i ∧ f i + g i * h i < 2 ^ 16) :
    (of n f).vmlal (of n g) (of n h) = of n fun i => f i + g i * h i := by
  funext i
  exact unsigned_of_fits (hfit i i.isLt).1 (hfit i i.isLt).2

theorem asSigned16_of (hfit : ∀ i < n, -2 ^ 15 ≤ f i ∧ f i < 2 ^ 15) :
    (of n f).asSigned16 = of n f := by
  funext i
  exact signed_of_fits (by decide) (hfit i i.isLt).1 (hfit i i.isLt).2

theorem vrshr_of {k : ℕ} (hfit : ∀ i < n, -2 ^ 15 ≤ rounded k (f i) ∧ rounded k (f i) < 2 ^ 15) :
    (of n f).vrshr k = of n fun i => rounded k (f i) := by
  funext i
  exact signed_of_fits (by decide) (hfit i i.isLt).1 (hfit i i.isLt).2

theorem vrshrn_of {k : ℕ} (hfit : ∀ i < n, 0 ≤ rounded k (f i) ∧ rounded k (f i) < 2 ^ 8) :
    (of n f).vrshrn k = of n fun i => rounded k (f i) := by
  funext i
  exact unsigned_of_fits (hfit i i.isLt).1 (hfit i i.isLt).2

theorem vrhadd_of (f g : ℕ → ℤ) :
    (of n f).vrhadd (of n g) = of n fun i => rounded 1 (f i + g i) := rfl

theorem vqrshrun_of (w k : ℕ) (f : ℕ → ℤ) :
    (of n f).vqrshrun w k = of n fun i => saturated w (rounded k (f i)) := rfl

theorem vqmovn_of (w : ℕ) (f : ℕ → ℤ) :
    (of n f).vqmovn w = of n fun i => saturated w (f i) := rfl

/-- The lane's byte. -/
def byteOf (x : ℤ) : UInt8 := UInt8.ofNat x.toNat

theorem flatten_finRange {m : ℕ} (F : ℕ → List UInt8) {G : Fin m → Option (List UInt8)}
    (hG : ∀ i : Fin m, G i = some (F i)) :
    ((List.finRange m).mapM G).map List.flatten = some ((List.range m).flatMap F) := by
  have hmap : (List.finRange m).mapM G = some ((List.finRange m).map fun (i : Fin m) => F i) := by
    induction List.finRange m with
    | nil => rfl
    | cons i is ih =>
        rw [List.mapM_cons, hG i, ih]
        rfl
  have hrange : (List.finRange m).map (fun (i : Fin m) => F i) = (List.range m).map F := by
    rw [← List.map_coe_finRange_eq_range, List.map_map]
    rfl
  rw [hmap, Option.map_some, hrange, List.flatMap_def]

theorem vst3_of (f g h : ℕ → ℤ) : (of n f).vst3 (of n g) (of n h) =
    some ((List.range n).flatMap fun i => [byteOf (f i), byteOf (g i), byteOf (h i)]) :=
  flatten_finRange (fun i => [byteOf (f i), byteOf (g i), byteOf (h i)]) fun _ => rfl

theorem vst4_of (f g h k : ℕ → ℤ) : (of n f).vst4 (of n g) (of n h) (of n k) =
    some ((List.range n).flatMap fun i =>
      [byteOf (f i), byteOf (g i), byteOf (h i), byteOf (k i)]) :=
  flatten_finRange (fun i => [byteOf (f i), byteOf (g i), byteOf (h i), byteOf (k i)]) fun _ => rfl

end Lanes

end Neon
