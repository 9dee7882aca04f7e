import BadgeOS.Display.IonLifetime
import Mathlib

/-!
# The ION budget

`cvi_ion_alloc_nofd` checks the budget in one critical section and charges it in another, with
the allocation between them.  What a thread was granted is not seen by the next check, so two
allocations that fit alone may both pass.  The accounting itself is right, and the budget is kept
in every run whose checks left room for what was granted before.

* `RoomLeft` — such a check;
* `Budget`, `budget_step` — the accounts, kept by every step that leaves room;
* `ion_budget_holds` — what the claims about the budget come to on such runs;
* `ion_budget_overrun` — two allocations of the whole budget.
-/

namespace BadgeOS.Display.Ion

open Transition State

variable {s s' : State} {t b : ℕ} {p p' : Pc} {r : Ret}

/-- A check that passes leaves room for everything that was granted before it. -/
def RoomLeft (s : State) : Action → Prop
  | .alloc _ len _ => (s.inUse + pageAlign len) % 2 ^ 64 ≤ ionBudget →
      s.inUse + s.granted + pageAlign len ≤ ionBudget
  | _ => True

instance (s : State) : ∀ a, Decidable (RoomLeft s a)
  | .alloc _ len _ => inferInstanceAs (Decidable ((s.inUse + pageAlign len) % 2 ^ 64 ≤ ionBudget →
      s.inUse + s.granted + pageAlign len ≤ ionBudget))
  | .dmaAlloc .. | .charge _ | .free .. | .put _ | .dmaFree _ | .refund _ | .exportGet ..
  | .dmabufExport .. | .getFd .. | .copyOut .. | .closeLast _ | .dmabufRelease .. =>
      inferInstanceAs (Decidable True)

/-- **The accounts**: what is in use is what is charged, and with what is granted it fits. -/
structure Budget (s : State) : Prop where
  inUse : s.inUse = s.charged
  fits : s.charged + s.granted ≤ ionBudget

/-! ### What an update leaves -/

theorem granted_goto (hp : s.threads[t]? = some p) (p' : Pc) :
    (s.goto t p').granted + p.granted = s.granted + p'.granted :=
  Table.sum_map_set Pc.granted hp

/-- A buffer changed in what is not charged for. -/
theorem charged_setBuf (f : Buffer → Buffer) (hf : ∀ B, (f B).charged = B.charged) (b : ℕ) :
    (s.setBuf b f).charged = s.charged := by
  have hmap : (s.bufs.modify b f).map Buffer.charged = s.bufs.map Buffer.charged := by
    apply List.ext_getElem?
    intro i
    rw [List.getElem?_map, List.getElem?_map, List.getElem?_modify]
    cases s.bufs[i]? with
    | none => simp
    | some B =>
        by_cases hi : b = i
        · simp [hi, hf]
        · simp [hi]
  show ((s.bufs.modify b f).map Buffer.charged).sum = _
  rw [hmap]
  rfl

theorem bufs_refund : (s.refund t b r).bufs =
    (s.setBuf b fun B => { B with refunds := B.refunds + 1 }).bufs := rfl

theorem inUse_refund :
    (s.refund t b r).inUse = (s.inUse + 2 ^ 64 - (s.buf b).size) % 2 ^ 64 := rfl

theorem threads_refund : (s.refund t b r).threads = s.threads.set t (.idle r) := rfl

/-- A refund takes off what was charged, once. -/
theorem charged_refund (hb : b < s.bufs.length) (hnot : (s.buf b).refunds = 0) :
    (s.refund t b r).charged + (s.buf b).size = s.charged := by
  have hget : s.bufs[b]? = some (s.buf b) := by
    rw [buf, List.getElem?_eq_getElem hb]
    rfl
  have hset : s.bufs.modify b (fun B => { B with refunds := B.refunds + 1 }) =
      s.bufs.set b { s.buf b with refunds := (s.buf b).refunds + 1 } := by
    rw [List.modify_eq_set_getElem?, hget]
    rfl
  have hsum := Table.sum_map_set (b := { s.buf b with refunds := (s.buf b).refunds + 1 })
    Buffer.charged hget
  have hold : (s.buf b).charged = (s.buf b).size := if_pos hnot
  have hnew : Buffer.charged { s.buf b with refunds := (s.buf b).refunds + 1 } = 0 :=
    if_neg (Nat.succ_ne_zero _)
  rw [hold, hnew, Nat.add_zero] at hsum
  rw [charged, bufs_refund, setBuf, hset]
  exact hsum

/-! ### One move -/

theorem budget_init (n : ℕ) : Budget (State.init n) := by
  have hgranted : (State.init n).granted = 0 := by
    rw [granted, State.init, List.map_replicate, List.sum_replicate]
    rfl
  constructor
  · rfl
  · rw [hgranted]
    exact Nat.zero_le _

/-- A thread goes on, and what it was granted does not grow. -/
theorem Budget.goto (h : Budget s) (hp : s.threads[t]? = some p)
    (hle : p'.granted ≤ p.granted) : Budget (s.goto t p') := by
  have hsum := granted_goto hp p'
  have hfits := h.fits
  constructor
  · exact h.inUse
  · show s.charged + _ ≤ _
    omega

/-- A buffer, the list or the dma-bufs change, and the accounts do not. -/
theorem Budget.of_eq (h : Budget s) (hinUse : s'.inUse = s.inUse)
    (hcharged : s'.charged = s.charged) (hgranted : s'.granted = s.granted) : Budget s' := by
  constructor
  · rw [hinUse, hcharged]
    exact h.inUse
  · rw [hcharged, hgranted]
    exact h.fits

/-- A buffer changes in what is not charged for. -/
theorem Budget.setBuf (h : Budget s) {f : Buffer → Buffer} (b : ℕ)
    (hf : ∀ B, (f B).charged = B.charged) : Budget (s.setBuf b f) :=
  h.of_eq rfl (charged_setBuf f hf b) rfl

theorem Budget.krefPut (h : Budget s) (hp : s.threads[t]? = some p) :
    Budget (s.krefPut t b r) := by
  have hset : Budget (s.setBuf b fun B => { B with ref := B.ref - 1 })  :=
    h.setBuf b (by intro B; rfl)
  have hnext : (if (s.buf b).ref - 1 = 0 then Pc.releasing b r else .idle r).granted = 0 := by
    split <;> rfl
  exact hset.goto (p := p) hp (hnext.trans_le (Nat.zero_le _))

theorem inUse_charge (paddr len : ℕ) :
    (s.charge t paddr len).inUse = (s.inUse + len) % 2 ^ 64 := rfl

theorem budget_charge (h : Budget s) {paddr len : ℕ}
    (hp : s.threads[t]? = some (.allocated paddr len)) : Budget (s.charge t paddr len) := by
  have hgranted : (s.charge t paddr len).granted + len = s.granted := by
    have hsum := Table.sum_map_set (b := .idle (.buffer s.bufs.length)) Pc.granted hp
    simp only [Pc.granted, Nat.add_zero] at hsum
    exact hsum
  have hcharged : (s.charge t paddr len).charged = s.charged + len := by
    rw [charged, charge, List.map_append, List.sum_append]
    rfl
  have hfits := h.fits
  have hinUse := h.inUse
  constructor
  · rw [inUse_charge, hcharged]
    unfold ionBudget at hfits
    omega
  · omega

theorem granted_refund (hp : s.threads[t]? = some (.refunding b r)) :
    (s.refund t b r).granted = s.granted := by
  have hsum := Table.sum_map_set (b := .idle r) Pc.granted hp
  simp only [Pc.granted, Nat.add_zero] at hsum
  rw [granted, granted, threads_refund]
  exact hsum

theorem budget_refund (h : Budget s) (hinv : Inv s)
    (hp : s.threads[t]? = some (.refunding b r)) : Budget (s.refund t b r) := by
  have hpos : 0 < s.refunding b := by
    rw [refunding, List.countP_pos_iff]
    exact ⟨_, List.mem_of_getElem? hp, beq_self_eq_true b⟩
  have hb : b < s.bufs.length := by
    by_contra hge
    have hnone := (hinv.fresh (Nat.le_of_not_lt hge)).2.2
    omega
  have hnot : (s.buf b).refunds = 0 := by
    have hrefunds := hinv.refunds b
    have hfrees := hinv.frees b
    split at hfrees <;> omega
  have hcharged := charged_refund (t := t) (r := r) hb hnot
  have hfits := h.fits
  have hinUse := h.inUse
  constructor
  · rw [inUse_refund]
    unfold ionBudget at hfits
    omega
  · rw [granted_refund hp]
    omega

/-- **Every step that leaves room** keeps the accounts. -/
theorem budget_step {a : Action} (h : Budget s) (hinv : Inv s) (hroom : RoomLeft s a)
    (hstep : s.step a = some s') : Budget s' := by
  cases move_of_step hstep with
  | quiet hp _ hle => exact h.goto hp hle
  | @check t len zalloc r hp hle =>
      have hsum := granted_goto hp (.checked (pageAlign len))
      have hleft : s.inUse + s.granted + pageAlign len ≤ ionBudget := hroom hle
      have hinUse := h.inUse
      simp only [Pc.granted, Nat.add_zero] at hsum
      constructor
      · exact hinUse
      · show s.charged + _ ≤ _
        omega
  | charge hp => exact budget_charge h hp
  | @unlist _ t b r hp _ =>
      have hunlist : Budget (s.unlist b) := h.of_eq rfl rfl rfl
      exact hunlist.goto (p := .idle r) hp le_rfl
  | put hp _ _ _ _ => exact h.krefPut hp
  | @dmaFree _ t b r hp =>
      have hset : Budget (s.setBuf b fun B => { B with frees := B.frees + 1 }) :=
        h.setBuf b (by intro B; rfl)
      exact hset.goto (p := .releasing b r) hp le_rfl
  | refund hp => exact budget_refund h hinv hp
  | @get _ t b r arg hp _ =>
      have hset : Budget (s.setBuf b fun B => { B with ref := B.ref + 1 }) :=
        h.setBuf b (by intro B; rfl)
      exact hset.goto (p := .idle r) hp le_rfl
  | @push _ t b p r state hp _ _ _ _ _ =>
      have hpush : Budget (s.pushDma b state) := h.of_eq rfl rfl rfl
      exact hpush.goto (p := p) hp (Nat.zero_le _)
  | close _ => exact h.of_eq rfl rfl rfl
  | @release _ t d b r hp _ =>
      have hdma : Budget (s.setDma d .released) := h.of_eq rfl rfl rfl
      exact hdma.krefPut (p := .idle r) hp

theorem budget_run {n : ℕ} {as : List Action}
    (h : RunWith State.step RoomLeft (State.init n) as s) : Inv s ∧ Budget s := by
  refine h.invariant (I := fun s => Inv s ∧ Budget s) ?_ ⟨inv_init n, budget_init n⟩
  intro s a s' hboth hroom hstep
  exact ⟨inv_step hboth.1 hstep, budget_step hboth.2 hboth.1 hroom hstep⟩

/-! ### What the accounts say -/

/-- The memory that is there: the sizes of the buffers that were not released. -/
def State.present (s : State) : ℕ :=
  (s.bufs.map fun B => if B.frees = 0 then B.size else 0).sum

/-- No thread is between a DMA call and its accounting. -/
def State.accounted (s : State) : Prop :=
  ∀ p ∈ s.threads, (∀ paddr len, p ≠ .allocated paddr len) ∧ ∀ b r, p ≠ .refunding b r

theorem Inv.present_eq (h : Inv s) (hquiet : s.accounted) : s.present = s.charged := by
  have hrefunding (b : ℕ) : s.refunding b = 0 := by
    rw [refunding, List.countP_eq_zero]
    intro p hp
    cases p with
    | refunding b' r => exact absurd rfl ((hquiet _ hp).2 b' r)
    | _ => exact Bool.false_ne_true
  unfold present charged
  congr 1
  apply List.map_congr_left
  intro B hB
  obtain ⟨i, hi⟩ := List.mem_iff_getElem?.1 hB
  have hbuf : s.buf i = B := by
    rw [buf, hi]
    rfl
  have hsame := h.refunds i
  rw [hrefunding, hbuf, Nat.add_zero] at hsame
  rw [Buffer.charged, hsame]

/-- **The budget holds in the runs that leave room.**  Between the DMA calls and their accounting
what is in use is the memory that is there; it is never over the budget, and what is reported as
free is the rest. -/
theorem ion_budget_holds {n : ℕ} {as : List Action}
    (h : RunWith State.step RoomLeft (State.init n) as s) :
    (s.accounted → s.inUse = s.present) ∧ s.inUse ≤ ionBudget ∧
      s.memoryState.2 = ionBudget - s.inUse ∧ s.memoryState.2 + s.inUse = ionBudget := by
  obtain ⟨hinv, hbudget⟩ := budget_run h
  have hinUse := hbudget.inUse
  have hfits := hbudget.fits
  have hle : s.inUse ≤ ionBudget := by omega
  have hfree : s.memoryState.2 = ionBudget - s.inUse := by
    rw [memoryState]
    unfold ionBudget at hle ⊢
    omega
  refine ⟨?_, hle, hfree, ?_⟩
  · intro hquiet
    rw [hinUse, hinv.present_eq hquiet]
  · omega

/-- Two threads, one after the other, with half of the budget each. -/
def halves : List Action :=
  [.alloc 0 50331648 true, .dmaAlloc 0 (some 0), .charge 0,
    .alloc 1 50331648 true, .dmaAlloc 1 (some 50331648), .charge 1]

theorem ion_budget_holds_halves :
    ∃ s, RunWith State.step RoomLeft (State.init 2) halves s ∧ s.inUse = ionBudget ∧
      s.memoryState.2 + s.inUse = ionBudget := by
  have hreplay : (runFromWith State.step (fun s a => decide (RoomLeft s a)) (State.init 2)
      halves).any (fun s => decide (s.inUse = ionBudget)) = true := by decide
  obtain ⟨s, hrun, hcheck⟩ := runWith_exists_of_check hreplay
  have hroom := hrun.mono fun _ _ h => of_decide_eq_true h
  exact ⟨s, hroom, of_decide_eq_true hcheck, (ion_budget_holds hroom).2.2.2⟩

/-- Two threads that pass the check, and then allocate. -/
def overrun : List Action :=
  [.alloc 0 100663296 true, .alloc 1 100663296 true, .dmaAlloc 0 (some 0),
    .dmaAlloc 1 (some 100663296), .charge 0, .charge 1]

/-- Both allocations of the whole budget succeed, and what is free wraps. -/
theorem ion_budget_overrun : ∃ s, Run State.step (State.init 2) overrun s ∧
    s.inUse = 2 * ionBudget ∧ s.memoryState.2 = 2 ^ 64 - ionBudget := by
  have hreplay : (runFrom State.step (State.init 2) overrun).any
      (fun s => decide (s.inUse = 2 * ionBudget ∧ s.memoryState.2 = 2 ^ 64 - ionBudget)) =
        true := by decide
  obtain ⟨s, hrun, hcheck⟩ := run_exists_of_check hreplay
  exact ⟨s, hrun, of_decide_eq_true hcheck⟩

end BadgeOS.Display.Ion
