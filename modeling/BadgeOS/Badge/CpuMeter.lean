import BadgeOS.Bling.Config
import Mathlib

/-!
# The CPU meter

`screens.zig`: utilisation is the busy share of what the two sums of `/proc/stat` grew by, in
wrapping differences that are then multiplied and narrowed with checks.

* `readCpuJiffies` — the sums of a content, or zeroes;
* `sample`, `meter` — one sample, and a meter that goes on until one faults;
* `Steady` — two readings that give a percentage;
* `reports_iff_steady` — over every sequence of contents.
-/

namespace BadgeOS.Badge

open Bling (Bytes ascii blank parseInt)

/-- One aggregate sample. -/
structure Jiffies where
  busy : UInt64 := 0
  idle : UInt64 := 0
  deriving DecidableEq, Repr

/-- `std.mem.tokenizeAny` -/
def tokens (sep : UInt8 → Bool) (s : Bytes) : List Bytes := (s.splitOnP sep).filter (· ≠ [])

/-- The integers at the start of the tokens, `n` at most. -/
def counters : ℕ → List Bytes → List ℕ
  | 0, _ => []
  | _, [] => []
  | n + 1, tok :: toks =>
      match parseInt 64 tok with
      | none => []
      | some v => v :: counters n toks

/-- The fields user, nice, system, idle, iowait, irq, softirq and steal of the first line. -/
def statFields (stat : Option Bytes) : List ℕ :=
  match stat with
  | none => []
  | some s =>
      match tokens blank ((s.take 4096).takeWhile (· ≠ 10)) with
      | [] => []
      | label :: toks => if label = ascii "cpu" then counters 8 toks else []

/-- A sum of `u64`s; `none` when it overflows. -/
def sumU64 (vs : List ℕ) : Option UInt64 :=
  if vs.sum < 2 ^ 64 then some (UInt64.ofNat vs.sum) else none

/-- `readCpuJiffies` of a file that cannot be read, or of its content; `none` for a fault. -/
def readCpuJiffies (stat : Option Bytes) : Option Jiffies :=
  let v := statFields stat
  -- user through iowait are the minimum
  if v.length < 5 then some {}
  else do
    let busy ← sumU64 [v.getD 0 0, v.getD 1 0, v.getD 2 0, v.getD 5 0, v.getD 6 0, v.getD 7 0]
    let idle ← sumU64 [v.getD 3 0, v.getD 4 0]
    pure { busy, idle }

/-- The arithmetic of `CpuMeter.sample`; `none` for a multiplication or a cast that fails. -/
def utilisation (prev now : Jiffies) : Option ℕ :=
  let busy := now.busy - prev.busy
  let total := busy + (now.idle - prev.idle)
  if total = 0 then some 0
  else if 2 ^ 64 ≤ busy.toNat * 100 then none
  else if 256 ≤ busy.toNat * 100 / total.toNat then none
  else some (busy.toNat * 100 / total.toNat)

/-- `CpuMeter.sample`, with the meter's next `prev`. -/
def sample (prev : Jiffies) (stat : Option Bytes) : Option (ℕ × Jiffies) := do
  let now ← readCpuJiffies stat
  let pct ← utilisation prev now
  pure (pct, now)

/-- A meter's `prev` before sample `n`, where the file has the contents `stats`: `init` reads the
first.  There is none once a sample has faulted. -/
def meter (stats : ℕ → Option Bytes) : ℕ → Option Jiffies
  | 0 => readCpuJiffies (stats 0)
  | n + 1 => do
      let prev ← meter stats n
      let (_, now) ← sample prev (stats (n + 1))
      pure now

/-- What sample `n` returns. -/
def reports (stats : ℕ → Option Bytes) (n : ℕ) : Option ℕ := do
  let prev ← meter stats n
  let (pct, _) ← sample prev (stats (n + 1))
  pure pct

/-- A content as the kernel can present it. -/
def Presented (stat : Option Bytes) : Prop := ∀ v ∈ statFields stat, v < 2 ^ 56

instance (stat : Option Bytes) : Decidable (Presented stat) :=
  inferInstanceAs (Decidable (∀ v ∈ statFields stat, v < 2 ^ 56))

/-- The reading of a content whose sums do not overflow. -/
def reading (stat : Option Bytes) : Jiffies := (readCpuJiffies stat).getD {}

def Jiffies.total (j : Jiffies) : ℕ := j.busy.toNat + j.idle.toNat

/-- From one reading to the next either nothing was counted, or the busy count did not fall, and
grew by no more than 101/100 of what both counts grew by, unless these fell. -/
def Steady (prev now : Jiffies) : Prop :=
  prev.total = now.total ∨
    prev.busy.toNat ≤ now.busy.toNat ∧ (now.busy.toNat - prev.busy.toNat) * 100 < 2 ^ 64 ∧
      (now.total < prev.total ∨
        (now.busy.toNat - prev.busy.toNat) * 100 < 101 * (now.total - prev.total))

instance (prev now : Jiffies) : Decidable (Steady prev now) :=
  inferInstanceAs (Decidable (_ ∨ _))

/-- The sample is a percentage, and 0 where the counters are back at zero. -/
def Reports (stats : ℕ → Option Bytes) (n : ℕ) : Prop :=
  ∃ pct, reports stats n = some pct ∧ pct ≤ 100 ∧ (reading (stats (n + 1)) = {} → pct = 0)

/-! ### One reading -/

theorem getD_lt {vs : List ℕ} {b : ℕ} (hb : 0 < b) (h : ∀ v ∈ vs, v < b) (i : ℕ) :
    vs.getD i 0 < b := by
  rw [List.getD_eq_getElem?_getD]
  cases hi : vs[i]? with
  | none => exact hb
  | some v => exact h v (List.mem_of_getElem? hi)

theorem sumU64_eq {vs : List ℕ} (h : vs.sum < 2 ^ 64) :
    sumU64 vs = some (UInt64.ofNat vs.sum) := if_pos h

/-- No sum overflows, and both are far below 2^64. -/
theorem readCpuJiffies_eq {stat : Option Bytes} (h : Presented stat) :
    readCpuJiffies stat = some (reading stat) ∧ (reading stat).busy.toNat < 6 * 2 ^ 56 ∧
      (reading stat).idle.toNat < 2 * 2 ^ 56 := by
  have hlt := getD_lt (by norm_num) h
  by_cases hlen : (statFields stat).length < 5
  · have hread : readCpuJiffies stat = some {} := if_pos hlen
    rw [reading, hread]
    exact ⟨rfl, by decide, by decide⟩
  · have h0 := hlt 0
    have h1 := hlt 1
    have h2 := hlt 2
    have h3 := hlt 3
    have h4 := hlt 4
    have h5 := hlt 5
    have h6 := hlt 6
    have h7 := hlt 7
    generalize hbusy : [(statFields stat).getD 0 0, (statFields stat).getD 1 0,
      (statFields stat).getD 2 0, (statFields stat).getD 5 0, (statFields stat).getD 6 0,
      (statFields stat).getD 7 0] = busies
    generalize hidle : [(statFields stat).getD 3 0, (statFields stat).getD 4 0] = idles
    have hbusySum : busies.sum < 6 * 2 ^ 56 := by
      rw [← hbusy]
      simp only [List.sum_cons, List.sum_nil]
      omega
    have hidleSum : idles.sum < 2 * 2 ^ 56 := by
      rw [← hidle]
      simp only [List.sum_cons, List.sum_nil]
      omega
    have hread : readCpuJiffies stat =
        some { busy := UInt64.ofNat busies.sum, idle := UInt64.ofNat idles.sum } := by
      rw [readCpuJiffies]
      simp only [if_neg hlen, hbusy, hidle]
      rw [sumU64_eq (by omega), sumU64_eq (by omega)]
      rfl
    rw [reading, hread]
    refine ⟨rfl, ?_, ?_⟩
    · show (UInt64.ofNat busies.sum).toNat < _
      rw [UInt64.toNat_ofNat_of_lt' (show _ < 2 ^ 64 by omega)]
      exact hbusySum
    · show (UInt64.ofNat idles.sum).toNat < _
      rw [UInt64.toNat_ofNat_of_lt' (show _ < 2 ^ 64 by omega)]
      exact hidleSum

/-! ### Two readings -/

variable {prev now : Jiffies}

theorem toNat_sub_of_le (h : prev.busy.toNat ≤ now.busy.toNat) :
    (now.busy - prev.busy).toNat = now.busy.toNat - prev.busy.toNat := by
  have hlt := now.busy.toNat_lt
  rw [UInt64.toNat_sub]
  omega

/-- The wrapping total, which is the difference of the sums. -/
theorem toNat_total : ((now.busy - prev.busy) + (now.idle - prev.idle)).toNat =
    (2 ^ 65 - prev.total + now.total) % 2 ^ 64 := by
  have hbusy := prev.busy.toNat_lt
  have hidle := prev.idle.toNat_lt
  rw [UInt64.toNat_add, UInt64.toNat_sub, UInt64.toNat_sub, Jiffies.total, Jiffies.total]
  omega

theorem total_of_eq_default (h : now = {}) : now.busy.toNat = 0 ∧ now.total = 0 := by
  subst h
  exact ⟨rfl, rfl⟩

/-- **One sample** gives a percentage exactly between two readings that are steady. -/
theorem utilisation_iff (hprev : prev.busy.toNat < 6 * 2 ^ 56 ∧ prev.idle.toNat < 2 * 2 ^ 56)
    (hnow : now.busy.toNat < 6 * 2 ^ 56 ∧ now.idle.toNat < 2 * 2 ^ 56) :
    (∃ pct, utilisation prev now = some pct ∧ pct ≤ 100 ∧ (now = {} → pct = 0)) ↔
      Steady prev now := by
  have hprevTotal : prev.total < 2 ^ 59 := by
    rw [Jiffies.total]
    omega
  have hnowTotal : now.total < 2 ^ 59 := by
    rw [Jiffies.total]
    omega
  have htotal : ((now.busy - prev.busy) + (now.idle - prev.idle)).toNat =
      (2 ^ 65 - prev.total + now.total) % 2 ^ 64 := toNat_total
  have hzero : (now.busy - prev.busy) + (now.idle - prev.idle) = 0 ↔
      prev.total = now.total := by
    rw [← UInt64.toNat_inj, htotal]
    show _ = 0 ↔ _
    omega
  rw [utilisation, Steady]
  simp only [hzero]
  by_cases hsame : prev.total = now.total
  · simp [hsame]
  · rw [if_neg hsame, or_iff_right hsame]
    by_cases hbusy : prev.busy.toNat ≤ now.busy.toNat
    · rw [toNat_sub_of_le hbusy, htotal]
      by_cases hmul : (now.busy.toNat - prev.busy.toNat) * 100 < 2 ^ 64
      · rw [if_neg (Nat.not_le.mpr hmul)]
        have hzeroes (h : now = {}) : now.busy.toNat - prev.busy.toNat = 0 ∧ now.total = 0 := by
          obtain ⟨hnil, htot⟩ := total_of_eq_default h
          exact ⟨by omega, htot⟩
        by_cases hfell : now.total < prev.total
        · -- the total wraps, far above the busy count
          have hsmall : (now.busy.toNat - prev.busy.toNat) * 100 /
              ((2 ^ 65 - prev.total + now.total) % 2 ^ 64) < 2 :=
            Nat.div_lt_of_lt_mul (by omega)
          rw [if_neg (by omega)]
          refine ⟨fun _ => ⟨hbusy, hmul, Or.inl hfell⟩, fun _ => ⟨_, rfl, by omega, fun h => ?_⟩⟩
          rw [(hzeroes h).1, Nat.zero_mul, Nat.zero_div]
        · have hrose : (2 ^ 65 - prev.total + now.total) % 2 ^ 64 = now.total - prev.total := by
            omega
          have hpct : (now.busy.toNat - prev.busy.toNat) * 100 / (now.total - prev.total) ≤ 100 ↔
              (now.busy.toNat - prev.busy.toNat) * 100 < 101 * (now.total - prev.total) := by
            rw [← Nat.lt_succ_iff, Nat.div_lt_iff_lt_mul (by omega)]
          rw [hrose]
          constructor
          · rintro ⟨pct, hsome, hle, -⟩
            split at hsome
            · cases hsome
            · cases hsome
              exact ⟨hbusy, hmul, Or.inr (hpct.mp hle)⟩
          · rintro ⟨-, -, hlt⟩
            have hle := hpct.mpr (hlt.resolve_left hfell)
            rw [if_neg (by omega)]
            refine ⟨_, rfl, hle, fun h => ?_⟩
            rw [(hzeroes h).1, Nat.zero_mul, Nat.zero_div]
      · rw [if_pos (Nat.le_of_not_lt hmul)]
        constructor
        · rintro ⟨pct, hsome, -⟩
          cases hsome
        · exact fun h => absurd h.2.1 hmul
    · -- the busy count fell: the difference wraps
      have hwrap : 2 ^ 64 ≤ (now.busy - prev.busy).toNat * 100 := by
        rw [UInt64.toNat_sub]
        omega
      rw [if_pos hwrap]
      constructor
      · rintro ⟨pct, hsome, -⟩
        cases hsome
      · exact fun h => absurd h.1 hbusy

example : utilisation ⟨100, 300⟩ ⟨150, 350⟩ = some 50 := by decide

/-! ### A run -/

variable {stats : ℕ → Option Bytes}

theorem sample_eq (prev : Jiffies) {stat : Option Bytes} (h : Presented stat) :
    sample prev stat = (utilisation prev (reading stat)).map fun pct => (pct, reading stat) := by
  rw [sample, (readCpuJiffies_eq h).1, Option.bind_eq_bind, Option.bind_some]
  cases utilisation prev (reading stat) with
  | none => rfl
  | some pct => rfl

/-- As long as no sample faults, the meter holds the last reading. -/
theorem meter_eq (h : ∀ n, Presented (stats n)) {n : ℕ}
    (hsteady : ∀ m < n, Steady (reading (stats m)) (reading (stats (m + 1)))) :
    meter stats n = some (reading (stats n)) := by
  induction n with
  | zero => exact (readCpuJiffies_eq (h 0)).1
  | succ n ih =>
      have hpair := utilisation_iff (readCpuJiffies_eq (h n)).2 (readCpuJiffies_eq (h (n + 1))).2
      obtain ⟨pct, hpct, -⟩ := hpair.mpr (hsteady n (Nat.lt_succ_self n))
      rw [meter, ih fun m hm => hsteady m (Nat.lt_succ_of_lt hm), Option.bind_eq_bind,
        Option.bind_some, sample_eq _ (h (n + 1)), hpct]
      rfl

theorem reports_iff (h : ∀ n, Presented (stats n)) {n : ℕ}
    (hsteady : ∀ m < n, Steady (reading (stats m)) (reading (stats (m + 1)))) :
    Reports stats n ↔ Steady (reading (stats n)) (reading (stats (n + 1))) := by
  rw [← utilisation_iff (readCpuJiffies_eq (h n)).2 (readCpuJiffies_eq (h (n + 1))).2, Reports,
    reports, meter_eq h hsteady]
  simp only [Option.bind_eq_bind, Option.bind_some, sample_eq _ (h (n + 1))]
  cases utilisation (reading (stats n)) (reading (stats (n + 1))) with
  | none => simp
  | some pct => simp

/-- **Every sample is a percentage** exactly in the runs whose readings follow each other
steadily. -/
theorem reports_iff_steady (stats : ℕ → Option Bytes) (h : ∀ n, Presented (stats n)) :
    (∀ n, Reports stats n) ↔ ∀ n, Steady (reading (stats n)) (reading (stats (n + 1))) := by
  constructor
  · intro hall n
    induction n using Nat.strong_induction_on with
    | _ n ih => exact (reports_iff h ih).mp (hall n)
  · exact fun hsteady n => (reports_iff h fun m _ => hsteady m).mpr (hsteady n)

/-- A file read once, and never again. -/
def readOnce : ℕ → Option Bytes
  | 0 => some (ascii "cpu 100 0 0 500 10\n")
  | _ + 1 => none

theorem presented_readOnce (n : ℕ) : Presented (readOnce n) := by
  cases n with
  | zero =>
      show Presented (some (ascii "cpu 100 0 0 500 10\n"))
      decide +kernel
  | succ n =>
      show Presented none
      decide

/-- The counters going back to zero wrap the busy count, and the multiplication overflows. -/
theorem reports_readOnce :
    ¬ ∀ stats : ℕ → Option Bytes, (∀ n, Presented (stats n)) → ∀ n, Reports stats n := by
  intro hall
  obtain ⟨pct, hpct, -⟩ := hall readOnce presented_readOnce 0
  have hfault : reports readOnce 0 = none := by decide +kernel
  rw [hfault] at hpct
  cases hpct

/-- The second sample of a file that cannot be read. -/
theorem reports_unreadable : Reports (fun _ => none) 1 :=
  (reports_iff_steady (fun _ => none) fun _ => by decide).mpr (fun _ => Or.inl rfl) 1

end BadgeOS.Badge
